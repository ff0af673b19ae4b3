import VexLLVM.Emit.Logging
import VexLLVM.Emit.SBDraft

/-!
# Statements with a log and without one

With a log, each store is recorded first. The types of what is stored are read off
the drafts of its address and data: the code that records it is well formed for data
of at most the size of an entry.
-/

namespace VexLLVM

open LLVM LLVM.Code Vex StateExcept

def Recorded (ρ : IRTemp → Option Value) (σ : GenState) : Prop := σ.OK ∧ σ.table = ρ

section Stores

variable {α β : Type} {gen : GenLLVM} {P : GenState → Prop} {w : Pairing} {a a' d d' : Value}
  {m m' : EmitM α} {N N' F p : Prop} {R : Pairing → α → α → Prop} {R₂ : Pairing → β → β → Prop}
  {ρ ρ' : IRTemp → Option Value} {out : α → Prop}

theorem Mirrors.of_pre (h : ∀ σ, P σ → Mirrors gen P w m m' N R) : Mirrors gen P w m m' N R :=
  fun M σ σ' σ₁ a hσ => h σ hσ M σ σ' σ₁ a hσ

/-- What any run hands back, beside what the emission is known to. -/
theorem Emission.and_run {out' : α → Prop} (h : Emission false ρ m F out ρ' p)
    (hr : ∀ σ a σ₁, m σ = .ok (a, σ₁) → out' a) :
    Emission false ρ m F (fun a => out a ∧ out' a) ρ' p := by
  refine fun σ hσ hρ s hs => ⟨fun a s' hrun => ?_, (h σ hσ hρ s hs).2⟩
  obtain ⟨hF, ha, hl⟩ := (h σ hσ hρ s hs).1 a s' hrun
  exact ⟨hF, ⟨ha, hr s a s' hrun⟩, hl⟩

/-- `bind`, with what the first computation records and hands back. -/
theorem Mirrors.bind_emission {f f' : α → EmitM β} (h : Mirrors gen (Recorded ρ) w m m' N R)
    (he : Emission false ρ m F out ρ' p) (hf : ∀ w₁ a a', w ≤ w₁ → R w₁ a a' → out a →
      Mirrors gen (Recorded ρ') w₁ (f a) (f' a') N' R₂) :
    Mirrors gen (Recorded ρ) w (m >>= f) (m' >>= f') (N ∧ N') R₂ := by
  refine h.bind (fun a σ => out a ∧ Recorded ρ' σ) (fun σ a σ₁ hσ hrun => ?_)
    fun w₁ a a' hw hR => ?_
  · obtain ⟨-, ha, hl⟩ := (he σ hσ.1 hσ.2 σ rfl).1 a σ₁ hrun
    exact ⟨ha, hl.ok, hl.table⟩
  · exact .of_pre fun σ hσ => (hf w₁ a a' hw hR hσ.1).pre fun _ => And.right

/-- An expression, with its draft, and what comes after it. -/
theorem mirrors_expr_bind (e : VexExpr) {f f' : Value → EmitM β}
    (hf : ∀ w₁ v v', w ≤ w₁ → SameValue w₁ v v' → v.blur = e.draft gen ρ →
      Mirrors gen (Recorded ρ) w₁ (f v) (f' v') N R₂) :
    Mirrors gen (Recorded ρ) w (e.emit gen >>= f) (e.emit gen.logging >>= f') N R₂ := by
  rw [VexExpr.emit_logging]
  exact ((VexExpr.mirrors_emit e w).bind_emission (VexExpr.emission_expr e) hf).congr
    (and_iff_right trivial)

/-- Both sides of a store without the log. -/
theorem accessCode_rel (L : Congruence EmitError) (ha : L.val a a') (hd : L.val d d') :
    L.rel (· = ·) (gen.accessCode a d) (gen.accessCode a' d') := by
  unfold GenLLVM.accessCode
  rw [L.ty hd]
  exact (GenLLVM.hostAddr_rel L ha).bind fun _ _ ha => (GenLLVM.hostPtr_rel L _ ha).bind
    fun _ _ hp =>
    (L.create (.store 8 hd hp)).bind fun _ _ _ => L.ret rfl

theorem Pairing.OK.below {n n' : ℕ} {v v' : Value} (h : w.OK n n') (hv : SameValue w v v') :
    v.Below n ∧ v'.Below n' := by
  cases hv with
  | inst t hi => exact h.pair_lt hi
  | _ => exact ⟨trivial, trivial⟩

/-- The instructions placed are those added. -/
theorem added_append_iff {ε α : Type} {c : Code ε α} {b : Builder} {r : α} {l : List (ℕ × Inst)}
    (hp : c.Places b.nextId r l) (hb : b.OK) :
    (∀ k i, Builder.Added b (b.append l) k i → i.WF = true) ↔ ∀ p ∈ l, p.2.WF = true := by
  constructor
  · intro h p hl
    refine h b.insertBlock p.2 ⟨p.1, (hp.ids p hl).1, ?_⟩
    rw [Builder.append_block, if_pos rfl]
    exact List.mem_append_right _ hl
  · rintro h k i ⟨id, hid, hm⟩
    rw [Builder.append_block] at hm
    split at hm
    · rcases List.mem_append.1 hm with hm | hm
      · exact absurd (hb.ids _ _ hm) (Nat.not_lt.2 hid)
      · exact h _ hm
    · exact absurd (hb.ids _ _ hm) (Nat.not_lt.2 hid)

theorem mirrors_store (hlog : gen.logLastStore = false) (hty : a.ty = .int gen.addrBits)
    (hel : d.ty.elem?.isSome = true) (ha : SameValue w a a') (hd : SameValue w d d') :
    Mirrors gen P w (gen.store a d) (gen.logging.store a' d') (d.ty.bits ≤ MemLog.MAX_STORE_SIZE)
      SameThing := by
  intro M σ σ' σ₁ _ _ hm hrun
  rw [GenLLVM.store_of_not_logLastStore hlog] at hrun
  obtain ⟨zs, hzs, rfl⟩ := code_eq_ok_iff.1 hrun
  have hty' : a'.ty = .int gen.addrBits := by rw [← ha.ty_eq, hty]
  have hel' : d'.ty.elem?.isSome = true := by rw [← hd.ty_eq, hel]
  obtain ⟨b', hrec⟩ := MemLog.exists_recordStore_run σ'.toBuilder hty' hel'
  obtain ⟨ys, hys, rfl⟩ := exists_places hrec
  -- the instructions of the log stand for none, those of the store for each other
  have hle := w.le_log σ'.nextId ys.length
  have hok₁ := hm.ok.log ys.length
  have hle₂ := (w.log σ'.nextId ys.length).le_grow σ.nextId (σ'.nextId + ys.length) zs.length
  have hok₂ := hok₁.grow zs.length
  have hw := hle.trans hle₂
  obtain ⟨⟨⟩, zs', hzs', -, hp⟩ := (@accessCode_rel gen a a' d d'
    (renumbers (((w.log σ'.nextId ys.length).grow σ.nextId (σ'.nextId + ys.length) zs.length).pair))
      (ha.mono hw.1) (hd.mono hw.1)).places hzs fun k hk => .inr ⟨k, hk, rfl, rfl⟩
  have happ : (σ'.append ys).append zs' = σ'.append (ys ++ zs') := by
    rw [GenState.append, GenState.append, GenState.append]
    exact congrArg (fun b => { σ' with toBuilder := b }) (Builder.append_append _ ys zs')
  have hrun' : gen.logging.store a' d' σ' = .ok ((), σ'.append (ys ++ zs')) := by
    have h₁ : code (GenLLVM.recordStore GenLLVM.curMemoryLog a' d') σ' = .ok ((), σ'.append ys) :=
      code_eq_ok_iff.2 ⟨ys, hys, rfl⟩
    have h₂ : code (gen.accessCode a' d') (σ'.append ys) = .ok ((), (σ'.append ys).append zs') :=
      code_eq_ok_iff.2 ⟨zs', hzs', rfl⟩
    rw [GenLLVM.store_logging, bind_ok h₁, h₂, happ]
  have hbuilt := (hys.emits hm.built').ok
  refine ⟨_, (), _, hw, hrun', hm.append hw ?_ (hzs.emits hm.built).ok ?_ ?_ ?_, rfl⟩
  · rw [List.length_append, ← hp.length_eq, ← Nat.add_assoc]
    exact hok₂
  · rw [← happ]
    exact (Places.emits (b := (σ'.append ys).toBuilder) hzs' hbuilt).ok
  · have hb := hm.ok.below ha
    have hb' := hm.ok.below hd
    have hex : ∀ p ∈ ys, (((w.log σ'.nextId ys.length).grow σ.nextId (σ'.nextId + ys.length)
        zs.length).extra p.1) := fun p hp => .inr (hys.ids p hp)
    have htr : Traced _ (Logged gen _) (zs ++ []) (ys ++ zs') := .extra
      (Logged.intro hty hel (ha.mono hw.1) (hd.mono hw.1) ⟨hb'.1, hb.2, hb'.2⟩ hzs hys hex)
      (by rw [List.append_nil]; exact .of_placedAlike hp)
    rwa [List.append_nil] at htr
  · rw [List.forall_mem_append, hp.wf_iff, ← added_append_iff hys hm.built',
      MemLog.recordStore_wf_iff hty' hel' hm.built' hrec, hd.ty_eq]
    exact and_comm

/-- The state a block is entered in on a condition. -/
theorem Recorded.enter {cond : EmitM Value} [Builds cond] {out : Value → Prop} {σ σ₁ : GenState}
    {c : Value} (hσ : Recorded ρ σ) (he : Emission false ρ cond F out ρ p)
    (hc : cond σ.newBlock.newBlock = .ok (c, σ₁)) (t : Term) :
    Recorded ρ (σ₁.endBlock t σ.func.nblocks) := by
  have hok : σ.newBlock.newBlock.OK := ⟨(onward_newBlocks hσ.1.builder).emits.ok, hσ.1.casts⟩
  obtain ⟨-, -, hl⟩ := (he _ hok hσ.2 _ rfl).1 c σ₁ hc
  exact ⟨⟨hl.ok.builder.endBlock (waiting_cond hσ.1.builder hc).1, hl.ok.casts⟩, hl.table⟩

/-- A guarded body whose stores are recorded. -/
theorem mirrors_ifThen_recorded {cond cond' : EmitM Value} {body body' : EmitM α} [Builds cond]
    [Builds cond']
    [Builds body] [Builds body'] (hcond : Mirrors gen (fun _ => True) w cond cond' True SameValue)
    (he : Emission false ρ cond F (fun _ => True) ρ p)
    (hbody : ∀ w₁, w ≤ w₁ → Mirrors gen (Recorded ρ) w₁ body body' N R) :
    Mirrors gen (Recorded ρ) w (ifThen cond body) (ifThen cond' body') N R :=
  mirrors_ifThen hcond (fun _ _ _ hσ hc => hσ.enter he hc _) hbody

end Stores

/-! ## Statements -/

namespace VexStmt

variable (gen : GenLLVM) (ρ : IRTemp → Option Value)

def storedTy : VexStmt → Option (Ty × Ty)
  | store addr data => some (addr.llvmTy gen ρ, data.llvmTy gen ρ)
  | llsc _ addr (some data) => some (addr.llvmTy gen ρ, data.llvmTy gen ρ)
  | cas _ _ addr _ _ new _ => some (addr.llvmTy gen ρ, new.llvmTy gen ρ)
  | storeG addr data _ => some (addr.llvmTy gen ρ, data.llvmTy gen ρ)
  | _ => none

variable {gen ρ} {types : List IRType} {P : GenState → Prop} {w : Pairing}

/-- The store of a statement, of an address and data with these drafts. -/
theorem mirrors_stored {addr data : VexExpr} {a a' d d' : Value} (hlog : gen.logLastStore = false)
    (hty : addr.llvmTy gen ρ = .int gen.addrBits ∧ (data.llvmTy gen ρ).elem?.isSome = true)
    (ha : SameValue w a a') (hd : SameValue w d d') (hat : a.ty = addr.llvmTy gen ρ)
    (hdt : d.blur = data.draft gen ρ) :
    Mirrors gen P w (gen.store a d) (gen.logging.store a' d')
      ((data.llvmTy gen ρ).bits ≤ MemLog.MAX_STORE_SIZE) SameThing := by
  rw [← VexExpr.ty_of_draft hdt] at hty ⊢
  exact mirrors_store hlog (hat.trans hty.1) hty.2 ha hd

theorem mirrors_emitLLSC (hlog : gen.logLastStore = false) (result : IRTemp) (addr : VexExpr)
    (data : VexExpr)
    (hty : addr.llvmTy gen ρ = .int gen.addrBits ∧ (data.llvmTy gen ρ).elem?.isSome = true) :
    Mirrors gen (Recorded ρ) w (emitLLSC gen types result addr (some data))
      (emitLLSC gen.logging types result addr (some data))
      ((data.llvmTy gen ρ).bits ≤ MemLog.MAX_STORE_SIZE) SameThing := by
  exact (mirrors_ifThen_recorded (mirrors_pure (.const _ _)) (emission_pure trivial) fun w₁ _ =>
    mirrors_expr_bind addr fun w₂ a a' _ ha hat => mirrors_expr_bind data fun w₃ d d' hw hd hdt =>
      mirrors_stored hlog hty (ha.mono hw.1) hd (VexExpr.ty_of_draft hat) hdt).andThen
        fun w₁ _ _ _ _ => mirrors_setRegValue result (.const _ _)

/-- The second word of a compare-and-swap: the expected value, the address and what was
loaded. -/
abbrev SameWord (w : Pairing) (q q' : Value × Value × Value) : Prop :=
  SameValue w q.1 q'.1 ∧ SameValue w q.2.1 q'.2.1 ∧ SameValue w q.2.2 q'.2.2

theorem mirrors_casSwap (hlog : gen.logLastStore = false) (oldHi : Option IRTemp) (oldLo : IRTemp)
    {addr new : VexExpr} {a a' e e' l l' : Value} {hi hi' : Option (Value × Value × Value)}
    (hty : addr.llvmTy gen ρ = .int gen.addrBits ∧ (new.llvmTy gen ρ).elem?.isSome = true)
    (ha : SameValue w a a') (hat : a.ty = addr.llvmTy gen ρ) (he : SameValue w e e')
    (hl : SameValue w l l') (hhi : Option.Rel (SameWord w) hi hi')
    (hit : ∀ q ∈ hi, q.2.1.ty = addr.llvmTy gen ρ) :
    Mirrors gen (Recorded ρ) w (emitCASSwap gen oldHi oldLo new a e l hi)
      (emitCASSwap gen.logging oldHi oldLo new a' e' l' hi')
      ((new.llvmTy gen ρ).bits ≤ MemLog.MAX_STORE_SIZE) SameThing := by
  have hstore : ∀ {w₁ : Pairing} {x x' n n' : Value}, SameValue w₁ x x' → SameValue w₁ n n' →
      x.ty = addr.llvmTy gen ρ → n.blur = new.draft gen ρ →
      Mirrors gen (Recorded ρ) w₁ (gen.store x n) (gen.logging.store x' n')
        ((new.llvmTy gen ρ).bits ≤ MemLog.MAX_STORE_SIZE) SameThing :=
    fun hx hn hxt hnt => mirrors_stored hlog hty hx hn hxt hnt
  unfold emitCASSwap
  cases hhi with
  | none =>
      refine (mirrors_ifThen_recorded (mirrors_code fun w₁ hw _ => ?_) (emission_plain ?_)
        fun w₁ hw => mirrors_expr_bind new fun w₂ n n' hw₂ hn hnt =>
            (hstore (ha.mono (hw.trans hw₂).1) hn hat hnt).andThen fun _ _ _ _ _ =>
              mirrors_pure rfl).andThen fun w₁ _ _ hw _ =>
                (mirrors_setRegValue oldLo (hl.mono hw.1)).seq fun _ _ _ _ _ => mirrors_pure rfl
      · let L : Congruence EmitError := renumbers w₁.pair
        exact (L.icmp .eq (he.mono hw.1) (hl.mono hw.1)).bind fun _ _ hc => L.ret hc
      · exact ensures_ins rfl fun _ _ => trivial
  | @some q q' hq =>
      obtain ⟨eh, ah, lh⟩ := q
      obtain ⟨eh', ah', lh'⟩ := q'
      obtain ⟨heh, hah, hlh⟩ := hq
      refine (mirrors_ifThen_recorded (mirrors_code fun w₁ hw _ => ?_) (emission_plain ?_)
          fun w₁ hw => mirrors_expr_bind new fun w₂ n n' hw₂ hn hnt =>
            ((hstore (ha.mono (hw.trans hw₂).1) hn hat hnt).bind_emission (emission_store _ _)
              fun w₃ _ _ hw₃ _ _ => mirrors_expr_bind new fun w₄ n n' hw₄ hn hnt =>
                hstore (hah.mono (((hw.trans hw₂).trans hw₃).trans hw₄).1) hn (hit _ rfl) hnt).congr
                  and_self_iff).andThen fun w₁ _ _ hw _ =>
                    (mirrors_setRegValue oldLo (hl.mono hw.1)).seq fun w₂ _ _ hw₂ _ => ?_
      · let L : Congruence EmitError := renumbers w₁.pair
        exact (L.icmp .eq (he.mono hw.1) (hl.mono hw.1)).bind fun _ _ hc =>
          (L.icmp .eq (heh.mono hw.1) (hlh.mono hw.1)).bind fun _ _ hc' => L.icmp .eq hc hc'
      · exact ensures_ins rfl fun _ _ => ensures_ins rfl fun _ _ =>
          ensures_ins rfl fun _ _ => trivial
      · cases oldHi with
        | none => exact mirrors_throw _ _
        | some t => exact mirrors_setRegValue t (hlh.mono (hw.trans hw₂).1)

theorem mirrors_emitCASHi {a a' : Value} (t : Ty) (eh : VexExpr) (ha : SameValue w a a') :
    Mirrors gen P w (emitCASHi gen a t eh) (emitCASHi gen.logging a' t eh) True SameWord := by
  unfold emitCASHi
  rw [VexExpr.emit_logging, ← ha.ty_eq]
  refine (VexExpr.mirrors_emit eh w).seq fun w₁ e e' hw he => (mirrors_code (R := SameValue)
    fun w₂ hw₂ _ => ?_).seq fun w₂ a₂ a₂' hw₂ ha₂ => (GenLLVM.mirrors_load t ha₂).seq
      fun w₃ l l' hw₃ hl => mirrors_pure ⟨he.mono (hw₂.trans hw₃).1, ha₂.mono hw₃.1, hl⟩
  let L : Congruence EmitError := renumbers w₂.pair
  exact L.bin .add (ha.mono (hw.trans hw₂).1) (.const _ _)

/-- The address of the second word has the type of the first one. -/
theorem emitCASHi_ty {a : Value} {t : Ty} {eh : VexExpr} {σ σ₁ : GenState}
    {q : Value × Value × Value} (h : emitCASHi gen a t eh σ = .ok (q, σ₁)) : q.2.1.ty = a.ty := by
  obtain ⟨e, σ₂, -, h⟩ := bind_eq_ok h
  obtain ⟨ah, σ₃, hah, h⟩ := bind_eq_ok h
  obtain ⟨l, σ₄, -, h⟩ := bind_eq_ok h
  cases h
  cases hah
  exact Builder.create_ty _ _

theorem mirrors_emitCAS (hlog : gen.logLastStore = false) (oldHi : Option IRTemp) (oldLo : IRTemp)
    {addr new : VexExpr} (expectedHi : Option VexExpr) (expected : VexExpr)
    (hty : addr.llvmTy gen ρ = .int gen.addrBits ∧ (new.llvmTy gen ρ).elem?.isSome = true) :
    Mirrors gen (Recorded ρ) w (emitCAS gen oldHi oldLo addr expectedHi expected new)
      (emitCAS gen.logging oldHi oldLo addr expectedHi expected new)
      ((new.llvmTy gen ρ).bits ≤ MemLog.MAX_STORE_SIZE) SameThing := by
  -- up to the comparison nothing is stored
  have hload : ∀ {f f' : Value → Value → Value → EmitM Unit},
      (∀ w₁ a a' e e' l l', SameValue w₁ a a' → a.blur = addr.draft gen ρ → SameValue w₁ e e' →
        SameValue w₁ l l' → Mirrors gen (Recorded ρ) w₁ (f a e l) (f' a' e' l')
          ((new.llvmTy gen ρ).bits ≤ MemLog.MAX_STORE_SIZE) SameThing) →
      Mirrors gen (Recorded ρ) w
        (do let a ← addr.emit gen; let e ← expected.emit gen; let l ← gen.load a e.ty; f a e l)
        (do
          let a ← addr.emit gen.logging
          let e ← expected.emit gen.logging
          let l ← gen.logging.load a e.ty
          f' a e l)
        ((new.llvmTy gen ρ).bits ≤ MemLog.MAX_STORE_SIZE) SameThing := fun {f f'} hf =>
    mirrors_expr_bind addr fun w₁ a a' _ ha hat => mirrors_expr_bind expected
      fun w₂ e e' hw₂ he _ => by
        rw [← he.ty_eq]
        exact ((GenLLVM.mirrors_load e.ty (ha.mono hw₂.1)).bind_emission (emission_load_at e.ty rfl)
          fun w₃ l l' hw₃ hl _ => hf w₃ a a' e e' l l' (ha.mono (hw₂.trans hw₃).1) hat
            (he.mono hw₃.1) hl).congr (and_iff_right trivial)
  cases expectedHi with
  | none =>
      rw [emitCAS_none, emitCAS_none]
      exact hload fun w₁ a a' e e' l l' ha hat he hl =>
        mirrors_casSwap hlog oldHi oldLo hty ha (VexExpr.ty_of_draft hat) he hl .none nofun
  | some eh =>
      rw [emitCAS_some, emitCAS_some]
      refine hload fun w₁ a a' e e' l l' ha hat he hl => ?_
      rw [← he.ty_eq]
      exact ((mirrors_emitCASHi e.ty eh ha).bind_emission ((emission_emitCASHi eh rfl).and_run
        fun _ _ _ hrun => emitCASHi_ty hrun) fun w₂ q q' hw hq hqt =>
          mirrors_casSwap hlog oldHi oldLo hty
          (ha.mono hw.1) (VexExpr.ty_of_draft hat) (he.mono hw.1) (hl.mono hw.1) (.some hq)
            fun _ h => by
            cases h
            rw [hqt.2, VexExpr.ty_of_draft hat]).congr (and_iff_right trivial)

/-! ### Statements that store nothing -/

theorem emit_logging {s : VexStmt} (hs : s.storedTy gen ρ = none) :
    s.emit gen.logging types = s.emit gen types := by
  cases s with
  | store addr data => cases hs
  | cas oldHi oldLo addr expectedHi expected new newHi => cases hs
  | storeG addr data guard => cases hs
  | llsc result addr data =>
      cases data with
      | none =>
          simp only [emit, emitLLSC, VexExpr.emit_logging]
          rfl
      | some data => cases hs
  | put offset data =>
      simp only [emit, VexExpr.emit_logging]
      rfl
  | putI base len ix bias data =>
      simp only [emit, VexExpr.emit_logging]
      rfl
  | wrTmp tmp data => simp only [emit, VexExpr.emit_logging]
  | dirty f sig guard tmp args => simp only [emit, emitDirty, emitDirtyCall, VexExpr.emit_logging]
  | exit guard jk exitType dst =>
      simp only [emit, emitExit, VexExpr.emit_logging]
      rfl
  | loadG cvt dst addr alt guard =>
      simp only [emit, emitLoadG, VexExpr.emit_logging]
      rfl
  | _ => rfl

theorem mirrors_regType_bind {α : Type} {N : Prop} {R : Pairing → α → α → Prop} (t : IRTemp)
    {f f' : Ty → EmitM α} (h : ∀ t', Mirrors gen P w (f t') (f' t') N R) :
    Mirrors gen P w (regType types t >>= f) (regType types t >>= f') N R :=
  mirrors_llvmTy_bind fun t' _ => h t'

theorem castResult_rel (L : Congruence EmitError) {call call' : Value} (ret tmp : Ty)
    (hc : L.val call call') : L.Rel (castResult call ret tmp) (castResult call' ret tmp) := by
  unfold castResult
  split
  · exact (L.bitCast _ hc).bind fun _ _ hr => L.zext _ hr
  · split
    · exact (L.bitCast _ hc).bind fun _ _ hr => L.trunc _ hr
    · exact L.ret hc

theorem mirrors_emitDirtyCall (f : String) (sig : FnTy) (tmp : Option IRTemp)
    (args : List VexExpr) :
    Mirrors gen P w (emitDirtyCall gen types f sig tmp args)
      (emitDirtyCall gen types f sig tmp args)
      True SameThing := by
  refine (mirrors_emitAll (S := SameValue) (fun _ _ _ _ hw hv => hv.mono hw.1) args
    fun e _ w₁ _ => VexExpr.mirrors_emit e w₁).seq fun w₁ vs vs' _ hvs => ?_
  obtain ⟨-, hvs⟩ := hvs
  cases hvs with
  | nil => exact mirrors_throw _ _
  | @cons v v' vs vs' hv hvs =>
      cases sig.params with
      | nil => exact mirrors_throw _ _
      | cons p ps =>
          refine (mirrors_bitCast p hv).seq fun w₂ v v' hw₂ hv => (mirrors_create fun w₃ hw₃ =>
            .call f sig (.cons (hv.mono hw₃.1) (hvs.imp fun _ _ hv =>
              hv.mono (hw₂.trans hw₃).1))).seq
              fun w₃ call call' _ hc => ?_
          cases tmp with
          | none => exact mirrors_pure rfl
          | some t =>
              exact mirrors_regType_bind t fun t' => (mirrors_code fun w₄ hw₄ _ =>
                castResult_rel (renumbers w₄.pair) sig.ret t' (hc.mono hw₄.1)).seq
                  fun _ _ _ _ hr => mirrors_setRegValue t hr

theorem isOneValue_eq {v v' : Value} {π : ℕ → ℕ → Prop} (hv : v.Renumbered π v') :
    isOneValue v = isOneValue v' := by
  cases hv <;> rfl

theorem mirrors_emitDirty (f : String) (sig : FnTy) (guard : VexExpr) (tmp : Option IRTemp)
    (args : List VexExpr) :
    Mirrors gen P w (emitDirty gen types f sig guard tmp args)
      (emitDirty gen types f sig guard tmp args)
      True SameThing := by
  refine (VexExpr.mirrors_emit guard w).seq fun w₁ c c' _ hc => ?_
  rw [← isOneValue_eq hc]
  split
  · exact mirrors_emitDirtyCall f sig tmp args
  · have hcall : ∀ w₂, w₁ ≤ w₂ → Mirrors gen (fun _ => True) w₂
      (emitDirtyCall gen types f sig tmp args)
        (emitDirtyCall gen types f sig tmp args) True SameThing := fun w₂ _ =>
      mirrors_emitDirtyCall f sig tmp args
    exact mirrors_ifThen (mirrors_pure hc) (fun _ _ _ _ _ => trivial) hcall

/-- A guarded load with the code that loads as a parameter. -/
theorem mirrors_loadG_of {m : Value → EmitM Value} [∀ a, Builds (m a)] (dst : IRTemp)
    (addr alt guard : VexExpr) (hm : ∀ w₁ a a', SameValue w₁ a a' →
      Mirrors gen (fun _ => True) w₁ (m a) (m a') True SameValue) :
    Mirrors gen P w
      (do
        let g ← guard.emit gen
        let a ← addr.emit gen
        let altV ← alt.emit gen
        let ((c, bbThen), (_, bbAlt)) ← ifThenElse false (pure g) (m a) (pure altV)
        let pn ← code (LLVM.Code.create (.phi c.ty [(c, bbThen), (altV, bbAlt)]))
        setRegValue dst pn)
      (do
        let g ← guard.emit gen
        let a ← addr.emit gen
        let altV ← alt.emit gen
        let ((c, bbThen), (_, bbAlt)) ← ifThenElse false (pure g) (m a) (pure altV)
        let pn ← code (LLVM.Code.create (.phi c.ty [(c, bbThen), (altV, bbAlt)]))
        setRegValue dst pn) True SameThing := by
  refine (VexExpr.mirrors_emit guard w).seq fun w₁ g g' _ hg => (VexExpr.mirrors_emit addr w₁).seq
    fun w₂ a a' hw₂ ha => (VexExpr.mirrors_emit alt w₂).seq fun w₃ v v' hw₃ hv => ?_
  refine (mirrors_ifThenElse (mirrors_pure (hg.mono (hw₂.trans hw₃).1))
    (fun w₄ hw₄ => hm w₄ a a' (ha.mono (hw₃.trans hw₄).1))
      fun w₄ hw₄ => mirrors_pure (hv.mono hw₄.1)).seq fun w₄ r r' hw₄ hr => ?_
  obtain ⟨⟨x, bbX⟩, ⟨y, bbY⟩⟩ := r
  obtain ⟨⟨x', bbX'⟩, ⟨y', bbY'⟩⟩ := r'
  obtain ⟨⟨hx, rfl⟩, ⟨hy, rfl⟩⟩ := hr
  dsimp only at hx hy ⊢
  rw [← hx.ty_eq]
  have hphi : ∀ w₅, w₄ ≤ w₅ → (Inst.phi x.ty [(x, bbX), (v, bbY)]).Linked (SameValue w₅)
      (Inst.phi x.ty [(x', bbX), (v', bbY)]) := fun w₅ hw =>
    .phi _ (.cons ⟨hx.mono hw.1, rfl⟩ (.cons ⟨hv.mono (hw₄.trans hw).1, rfl⟩ .nil))
  exact (mirrors_create hphi).seq fun _ _ _ _ hp => mirrors_setRegValue dst hp

theorem mirrors_emitLoadG (cvt : IRLoadGOp) (dst : IRTemp) (addr alt guard : VexExpr) :
    Mirrors gen P w (emitLoadG gen cvt dst addr alt guard) (emitLoadG gen cvt dst addr alt guard)
      True SameThing := by
  unfold emitLoadG
  cases loadGTy cvt with
  | none =>
      exact mirrors_loadG_of (m := fun _ => throw _) dst addr alt guard fun _ _ _ _ =>
        mirrors_throw _ _
  | some q =>
      obtain ⟨t, k⟩ := q
      cases k with
      | none =>
          exact mirrors_loadG_of (m := fun a => gen.load a t) dst addr alt guard fun _ _ _ ha =>
            GenLLVM.mirrors_load t ha
      | some k =>
          exact mirrors_loadG_of dst addr alt guard fun _ _ _ ha => (GenLLVM.mirrors_load t ha).seq
            fun w₅ v v' _ hv => mirrors_create fun w₆ hw => .cast k _ (hv.mono hw.1)

theorem mirrors_emitExit (guard : VexExpr) (jk : IRJumpKind) (exitType : GuestExitType)
    (dst : BitVec 64) :
    Mirrors gen P w (emitExit gen guard jk exitType dst) (emitExit gen guard jk exitType dst) True
      SameThing := by
  intro M σ σ' σ₃ r _ hm hrun
  obtain ⟨c, σ₁, σ₂, hc, hb, rfl⟩ := emitExit_eq_ok hrun
  have hbody : ∀ w₁, w ≤ w₁ → Mirrors gen (fun _ => True) w₁
      (if jk ≠ .Boring then gen.setExitType exitType.code else pure ())
      (if jk ≠ .Boring then gen.setExitType exitType.code else pure ()) True SameThing :=
        fun w₁ _ => by
    split
    · exact GenLLVM.mirrors_setExitType _
    · exact mirrors_pure rfl
  obtain ⟨w₁, c', σ₁', ⟨⟩, σ₂', hw, hc', hb', hm₂, -, hn, hn'⟩ :=
    hm.guarded (VexExpr.mirrors_emit guard w) hc trivial hbody hb
  refine ⟨w₁, (), _, hw, emitExit_ok hc' hb', ?_, rfl⟩
  rw [← hm.nblocks]
  exact hm₂.endBlock (.ret (.const _ _)) hn hn'

/-- Any statement: the code with the log is well formed where what it stores fits into
an entry. -/
theorem mirrors_stmt (hlog : gen.logLastStore = false) (s : VexStmt)
    (hty : ∀ p ∈ s.storedTy gen ρ, p.1 = .int gen.addrBits ∧ p.2.elem?.isSome = true) :
    Mirrors gen (Recorded ρ) w (s.emit gen types) (s.emit gen.logging types)
      (∀ p ∈ s.storedTy gen ρ, p.2.bits ≤ MemLog.MAX_STORE_SIZE) SameThing := by
  have hnone : s.storedTy gen ρ = none → Mirrors gen (Recorded ρ) w (s.emit gen types)
      (s.emit gen types) True SameThing → Mirrors gen (Recorded ρ) w (s.emit gen types)
        (s.emit gen.logging types) (∀ p ∈ s.storedTy gen ρ, p.2.bits ≤ MemLog.MAX_STORE_SIZE)
          SameThing := fun hs h => by
    rw [emit_logging hs, hs]
    exact h.congr (iff_of_true trivial nofun)
  have hone : ∀ {q : Ty × Ty}, s.storedTy gen ρ = some q → Mirrors gen (Recorded ρ) w
      (s.emit gen types) (s.emit gen.logging types) (q.2.bits ≤ MemLog.MAX_STORE_SIZE) SameThing →
      Mirrors gen (Recorded ρ) w (s.emit gen types) (s.emit gen.logging types)
        (∀ p ∈ s.storedTy gen ρ, p.2.bits ≤ MemLog.MAX_STORE_SIZE) SameThing := fun hs h =>
    h.congr (by simp [hs])
  have hq : ∀ {q : Ty × Ty}, s.storedTy gen ρ = some q →
      q.1 = .int gen.addrBits ∧ q.2.elem?.isSome = true := fun hs => hty _ hs
  cases s with
  | abort e => exact hnone rfl (mirrors_throw _ _)
  | put offset data =>
      exact hnone rfl ((VexExpr.mirrors_emit data w).seq fun _ _ _ _ hv =>
        GenLLVM.mirrors_writeCtx offset hv)
  | putI base len ix bias data =>
      exact hnone rfl ((VexExpr.mirrors_emit data w).seq fun w₁ _ _ _ hv =>
        (VexExpr.mirrors_emit ix w₁).seq fun _ _ _ hw hi =>
          GenLLVM.mirrors_writeCtxI base bias len hi (hv.mono hw.1))
  | wrTmp tmp data =>
      exact hnone rfl ((VexExpr.mirrors_emit data w).seq fun _ _ _ _ hv =>
        mirrors_setRegValue tmp hv)
  | store addr data =>
      exact hone rfl (mirrors_expr_bind data fun w₁ d d' _ hd hdt => mirrors_expr_bind addr
        fun w₂ a a' hw ha hat => mirrors_stored hlog (hq rfl) ha (hd.mono hw.1)
          (VexExpr.ty_of_draft hat) hdt)
  | llsc result addr data =>
      cases data with
      | none =>
          exact hnone rfl ((VexExpr.mirrors_emit addr w).seq fun _ _ _ _ ha =>
            mirrors_regType_bind result fun t => (GenLLVM.mirrors_load t ha).seq fun _ _ _ _ hv =>
              mirrors_setRegValue result hv)
      | some data => exact hone rfl (@mirrors_emitLLSC gen ρ types w hlog result addr data (hq rfl))
  | cas oldHi oldLo addr expectedHi expected new newHi =>
      exact hone rfl (mirrors_emitCAS hlog oldHi oldLo expectedHi expected (hq rfl))
  | dirty f sig guard tmp args => exact hnone rfl (mirrors_emitDirty f sig guard tmp args)
  | mbe =>
      exact hnone rfl ((mirrors_create fun _ _ => .fence).seq fun _ _ _ _ _ => mirrors_pure rfl)
  | exit guard jk exitType dst => exact hnone rfl (mirrors_emitExit guard jk exitType dst)
  | storeG addr data guard =>
      refine hone rfl (mirrors_expr_bind guard fun w₁ g g' _ hg _ => mirrors_ifThen_recorded
        (mirrors_pure hg) (emission_pure trivial) fun w₂ _ => mirrors_expr_bind addr
          fun w₃ a a' _ ha hat => mirrors_expr_bind data fun w₄ d d' hw hd hdt =>
            mirrors_stored hlog (hq rfl) (ha.mono hw.1) hd (VexExpr.ty_of_draft hat) hdt)
  | loadG cvt dst addr alt guard => exact hnone rfl (mirrors_emitLoadG cvt dst addr alt guard)
  | _ => exact hnone rfl (mirrors_pure rfl)

end VexStmt

end VexLLVM
