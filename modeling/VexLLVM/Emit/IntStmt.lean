import VexLLVM.Emit.IntExpr
import VexLLVM.Emit.Exits

/-!
# Integer statements

What is emitted for a statement does what it means: it goes on with the guest as the
statement leaves it, or it leaves where the statement does.
-/

namespace VexLLVM

open LLVM LLVM.Code Vex StateExcept VexStmt

/-- The exit type that a jump kind is told by. The plain jumps have none. -/
def exitMark : IRJumpKind → Option GuestExitType
  | .Call => some .CALL
  | .Ret => some .RETURN
  | .Yield => some .YIELD
  | .Sys_sysenter | .Sys_syscall => some .SYSCALL
  | .Sys_int128 => some .INT
  | .SigTRAP => some .SIGTRAP
  | .MapFail | .SigSEGV => some .SIGSEGV
  | .EmWarn | .NoDecode => some .EMWARN
  | _ => none

namespace GenLLVM

variable (gen : GenLLVM)

def marked (jk : IRJumpKind) (guest : BitVec 64 → LLVM.Byte) : BitVec 64 → LLVM.Byte :=
  (exitMark jk).elim guest fun t =>
    Function.update guest (BitVec.ofNat 64 gen.exitTypeOffset) (BitVec.ofNat 8 t.code)

structure Leaves (s : State) (jk : IRJumpKind) (dst : BitVec 64) (fr : Frame) (v : RVal) : Prop where
  next : v = .bits dst.toNat
  ctx : fr.m.ctx = gen.marked jk s.guest
  mem : gen.guestMem fr.m.mem = s.mem

end GenLLVM

def Showing (gen : GenLLVM) (s : State) : Assertion := fun σ fr =>
  gen.Shows fr.m s ∧ Stands (tmpValues s) [] fr.m σ fr

section Statements

variable {gen : GenLLVM} {Γ : Widths} {s s' : State} {M M' : Machine} {total : Bool} {ext : Extern}
  {R : Frame → RVal → Prop} {σ : GenState} {fr : Frame} {types : List IRType} {w : ℕ}
  {addr data guard ix : IRExpr} {d : IRWord} {a : BitVec 64} {L : List (LLVM.Value × RVal)}

theorem Stands.showing (h : Stands (tmpValues s) L M σ fr) (hM : gen.Shows M s) :
    Showing gen s σ fr := by
  obtain rfl := h.mach
  exact ⟨hM, h.sub (List.nil_subset L)⟩

/-- The machine after a store. -/
theorem shows_store (hM : gen.Shows M s) {n : ℕ} (hn : n = d.width / 8) :
    gen.Shows (gen.storeTo M a.toNat n d.bits.toNat) (s.store a d) := by
  subst hn
  exact ⟨hM.guest, by rw [State.store, hM.mem, GenLLVM.storeTo, GenLLVM.guestMem_writeBytes]⟩

theorem shows_put (hM : gen.Shows M s) {o : ℕ} {p : BitVec 64} {n : ℕ} (hp : p = BitVec.ofNat 64 o)
    (hn : n = d.width / 8) : gen.Shows (M.setCtx p n d.bits.toNat) (s.put o d) := by
  subst hp hn
  exact ⟨by rw [State.put, hM.guest, Machine.setCtx], hM.mem⟩

theorem goes_put (hr : Ready gen Γ s M) {offset : ℕ} (hd : Emits gen s M data d)
    (hp : placed offset d.width = true) :
    Runs total ext (Stands (tmpValues s) [] M)
      ((VexStmt.create gen (.Put offset data)).emit gen types)
      (fun _ => Showing gen (s.put offset d)) R := by
  obtain ⟨hdvd, hlt⟩ := of_decide_eq_true hp
  rw [VexStmt.create]
  split
  · exact runs_throw _
  · refine (hd total ext [] R).got fun v hv => ?_
    refine (runs_writeCtx gen offset (List.mem_cons_self ..)).post fun _ σ fr h => ?_
    refine Stands.showing (s := s.put offset d) h (shows_put hr.shows ?_ ?_)
    · rw [hv, bytes_int, GenLLVM.ctxOff_eq hdvd hlt]
    · rw [hv, bytes_int]

theorem goes_putI (hr : Ready gen Γ s M) {descr : IRRegArray} {i : BitVec 32} (bias : ℤ)
    (hd : Emits gen s M data d) (hi : Emits gen s M ix ⟨32, i⟩)
    (hty : descr.elemTy.stored? = some d.width) (hf : descr.fits d.width = true) :
    Runs total ext (Stands (tmpValues s) [] M)
      ((VexStmt.create gen (.PutI descr ix bias data)).emit gen types)
      (fun _ => Showing gen (s.put (descr.offset i bias) d)) R := by
  have hpos : 0 < d.width / 8 := by
    generalize d.width = w at hty
    cases hty' : descr.elemTy <;> rw [hty'] at hty <;> cases hty <;> decide
  obtain ⟨hoff, hlen, hlen', hat⟩ := ctxElemOff_eq hty hf hpos i bias
  rw [VexStmt.create]
  split
  · exact runs_throw _
  · exact runs_throw _
  · refine (hd total ext [] R).got fun v hv => (hi total ext _ R).got fun u hu => ?_
    have hbytes : v.ty.bytes = d.width / 8 := by rw [hv, bytes_int]
    refine (runs_writeCtxI gen bias (hbytes ▸ hpos.ne') (hbytes ▸ hoff) hlen hlen' hu
      (List.mem_cons_self ..)
      (List.mem_cons_of_mem _ (List.mem_cons_self ..))).post fun _ σ fr h => ?_
    exact Stands.showing (s := s.put (descr.offset i bias) d) h
      (shows_put hr.shows (hbytes ▸ hat) hbytes)

theorem tmpValues_assign (s : State) (tmp : IRTemp) (d : IRWord) :
    tmpValues (s.assign tmp d) =
      Function.update (tmpValues s) tmp (some (.int d.width, d.bits.toNat)) := by
  funext t
  simp only [tmpValues, State.assign, Function.update_apply]
  split <;> rfl

/-- A temporary is assigned a value just computed. -/
theorem runs_assign (hr : Ready gen Γ s M) {tmp : IRTemp} {v : LLVM.Value}
    (hv : v.ty = .int d.width) (hL : (v, .bits d.bits.toNat) ∈ L) :
    Runs total ext (Stands (tmpValues s) L M) (setRegValue tmp v)
      (fun _ => Showing gen (s.assign tmp d)) R :=
  (runs_setRegValue_stands tmp hv hL).post fun _ _ _ h =>
    Stands.showing (s := s.assign tmp d) (tmpValues_assign s tmp d ▸ h)
      ⟨hr.shows.guest, hr.shows.mem⟩

theorem goes_wrTmp (hr : Ready gen Γ s M) (tmp : IRTemp) (hd : Emits gen s M data d) :
    Runs total ext (Stands (tmpValues s) [] M)
      ((VexStmt.create gen (.WrTmp tmp data)).emit gen types)
      (fun _ => Showing gen (s.assign tmp d)) R :=
  (hd total ext [] R).got fun _ hv => runs_assign hr hv (List.mem_cons_self ..)

/-- A store of a value to an address, both just computed. -/
theorem runs_storeWord (hr : Ready gen Γ s M) {u v : LLVM.Value} (hu : u.ty = .int 64)
    (hv : v.ty = .int d.width) (hLu : (u, .bits a.toNat) ∈ L) (hLv : (v, .bits d.bits.toNat) ∈ L) :
    Runs total ext (Stands (tmpValues s) L M) (gen.store u v)
      (fun _ => Stands (tmpValues s) L (gen.storeTo M a.toNat (d.width / 8) d.bits.toNat)) R := by
  have hbytes : d.width / 8 = v.ty.bytes := by rw [hv, bytes_int]
  rw [hbytes]
  exact runs_store (hu.trans (GenLLVM.int_addrBits hr.is64)) hLu hLv

theorem goes_store (hr : Ready gen Γ s M) (hd : Emits gen s M data d)
    (ha : Emits gen s M addr ⟨64, a⟩) :
    Runs total ext (Stands (tmpValues s) [] M)
      ((VexStmt.create gen (.Store .LE addr data)).emit gen types)
      (fun _ => Showing gen (s.store a d)) R := by
  refine (hd total ext [] R).got fun v hv => (ha total ext _ R).got fun u hu => ?_
  refine (runs_storeWord hr hu hv (List.mem_cons_self ..)
    (List.mem_cons_of_mem _ (List.mem_cons_self ..))).post fun _ σ fr h => ?_
  exact Stands.showing (s := s.store a d) h (shows_store hr.shows rfl)

theorem bit_ne_zero (g : BitVec 1) : g.toNat ≠ 0 ↔ g = 1 := by
  revert g
  decide

/-- What has just been computed, as a computation. -/
theorem runs_known {v : LLVM.Value} {r : RVal} {t : Ty} (hv : v.ty = t) (hL : (v, r) ∈ L) :
    Runs total ext (Stands (tmpValues s) L M) (pure v) (Got (tmpValues s) L M t r) R :=
  (runs_pure v).pre fun _ _ h => ⟨hv, h.cons (h.vals _ _ hL)⟩

theorem goes_storeG (hr : Ready gen Γ s M) {g : BitVec 1} (h1 : g = 1)
    (hg : Emits gen s M guard ⟨1, g⟩) (ha : Emits gen s M addr ⟨64, a⟩)
    (hd : Emits gen s M data d) :
    Runs total ext (Stands (tmpValues s) [] M)
      ((VexStmt.create gen (.StoreG .LE addr data guard)).emit gen types)
      (fun _ => Showing gen (s.store a d)) R := by
  refine (hg total ext [] R).got fun v hv => ?_
  have hbody : Runs total ext (Stands (tmpValues s) [(v, .bits g.toNat)] M) (do
      let a ← (VexExpr.create gen addr).emit gen
      let d ← (VexExpr.create gen data).emit gen
      gen.store a d) (fun _ => Stands (tmpValues s) []
        (gen.storeTo M a.toNat (d.width / 8) d.bits.toNat)) R := by
    refine (ha total ext _ R).got fun u hu => (hd total ext _ R).got fun x hx => ?_
    exact (runs_storeWord hr hu hx (List.mem_cons_of_mem _ (List.mem_cons_self ..))
      (List.mem_cons_self ..)).post fun _ _ _ h => h.sub (List.nil_subset _)
  refine (runs_ifThen_stands (kept_stands _ _ _) (runs_known hv (List.mem_cons_self ..))
    (fun h0 => absurd h0 ((bit_ne_zero g).2 h1)) fun _ => hbody).post fun _ σ fr h => ?_
  exact Stands.showing (s := s.store a d) h (shows_store hr.shows rfl)

theorem goes_storeG_skip (hr : Ready gen Γ s M) {g : BitVec 1} (h1 : ¬ g = 1)
    (hg : Emits gen s M guard ⟨1, g⟩) :
    Runs total ext (Stands (tmpValues s) [] M)
      ((VexStmt.create gen (.StoreG .LE addr data guard)).emit gen types)
        (fun _ => Showing gen s) R :=
  (hg total ext [] R).got fun _ hv =>
    (runs_ifThen_stands (kept_stands (tmpValues s) [] M) (runs_known hv (List.mem_cons_self ..))
      (fun _ _ _ h => h.drop) fun h0 => absurd ((bit_ne_zero g).1 h0) h1).post fun _ _ _ h =>
        h.showing hr.shows

/-- The code for the value of a guarded load whose guard is true. -/
def loadGWord (gen : GenLLVM) (cvt : IRLoadGOp) (u : LLVM.Value) : EmitM LLVM.Value :=
  match loadGTy cvt with
  | none => throw (.assertion "Unknown IRLoadGOp")
  | some (t, none) => gen.load u t
  | some (t, some k) => do
      let v ← gen.load u t
      code (createCast k v (.int 32))

instance builds_loadGWord (gen : GenLLVM) (cvt : IRLoadGOp) (u : LLVM.Value) : Builds (loadGWord gen cvt u) := by
  unfold loadGWord
  split <;> infer_instance

theorem runs_loadGWord (hr : Ready gen Γ s M) {cvt : IRLoadGOp} {signed : Bool}
    (hcvt : cvt.shape? = some (w, signed)) {u : LLVM.Value} (hu : u.ty = .int 64)
    (hL : (u, .bits a.toNat) ∈ L) :
    Runs total ext (Stands (tmpValues s) L M) (loadGWord gen cvt u)
      (Got (tmpValues s) L M (.int 32)
        (.bits (Word.extend signed 32 (s.load a w).bits).toNat)) R := by
  have hwide : w < 32 → w = 8 * (w / 8) → 0 < w / 8 → w / 8 ≤ 8 → Runs total ext
      (Stands (tmpValues s) L M) (do
        let v ← gen.load u (.int w)
        code (createCast (extOp signed) v (.int 32)))
      (Got (tmpValues s) L M (.int 32)
        (.bits (Word.extend signed 32 (s.load a w).bits).toNat)) R := by
    intro hlt hw hpos hle
    refine (runs_loadWord hr hw hpos hle hu hL).got fun v hv => ?_
    exact (runs_code_got fun ev hev =>
      computes_ext signed (hev.num hv (List.mem_cons_self ..)) hlt).post
      fun _ _ _ => Got.drop
  cases cvt <;> cases hcvt
  case Ident32 =>
    have hself : Word.extend false 32 (s.load a 32).bits = (s.load a 32).bits :=
      Word.extend_self false (w := 32) _
    rw [hself]
    exact runs_loadWord hr (by decide) (by decide) (by decide) hu hL
  all_goals exact hwide (by decide) (by decide) (by decide) (by decide)

theorem hands_pure (P : Assertion) {α : Type} (v : α) : Hands P (pure v) (· = v) := by
  intro σ u σ' G fr hm _ _ _ _
  cases hm
  rfl

/-- The two blocks of a guarded load. -/
theorem runs_loadGArms (hr : Ready gen Γ s M) {cvt : IRLoadGOp} {signed : Bool}
    (hcvt : cvt.shape? = some (w, signed)) {c u v : LLVM.Value} {g : BitVec 1} {y : BitVec 32}
    (hc : c.ty = .int 1) (hu : u.ty = .int 64) (hv : v.ty = .int 32) (hLc : (c, .bits g.toNat) ∈ L)
    (hLu : (u, .bits a.toNat) ∈ L) (hLv : (v, .bits y.toNat) ∈ L) :
    Runs total ext (Stands (tmpValues s) L M)
      (ifThenElse false (pure c) (loadGWord gen cvt u) (pure v)) (fun r σ fr =>
        (r.1.1.ty = .int 32 ∧ r.2.1 = v ∧ r.1.2 ≠ r.2.2) ∧
          ((fr.prev = r.1.2 ∧ g = 1 ∧ Got (tmpValues s) L M (.int 32)
              (.bits (Word.extend signed 32 (s.load a w).bits).toNat) r.1.1 σ fr) ∨
            fr.prev = r.2.2 ∧ ¬ g = 1 ∧ Got (tmpValues s) L M (.int 32)
              (.bits y.toNat) r.2.1 σ fr)) R := by
  have hlast : ∀ (r : RVal) v, Lasting (Got (tmpValues s) L M (.int 32) r v) := fun r v =>
    (lasting_const _).and (kept_stands _ _ _)
  have hword : ∀ (total : Bool) (R : Frame → RVal → Prop), Runs total ext (Stands (tmpValues s) L M)
      (loadGWord gen cvt u) (Got (tmpValues s) L M (.int 32)
        (.bits (Word.extend signed 32 (s.load a w).bits).toNat)) R := fun _ _ =>
    runs_loadGWord hr hcvt hu hLu
  refine (runs_branches (b := false) (hlast _) (hlast _) (runs_known hc hLc) (hword total R)
    (runs_known hv hLv)
    ((hword true _).hands fun _ _ _ hq => hq.1) (hands_pure _ v)).post fun r σ fr h => ⟨h.1, ?_⟩
  have hbit : g.toNat = 0 ↔ ¬ g = 1 := by rw [← bit_ne_zero, not_not]
  refine h.2.imp (fun h => ⟨h.1, ?_, h.2.2⟩) fun h => ⟨h.1, ?_, h.2.2⟩
  · rw [hbit, iff_false_right Bool.false_ne_true, not_not] at h
    exact h.2.1
  · rw [hbit, iff_true_right rfl] at h
    exact h.2.1

theorem goes_loadG (hr : Ready gen Γ s M) {cvt : IRLoadGOp} {signed : Bool}
    (hcvt : cvt.shape? = some (w, signed)) (dst : IRTemp) {alt : IRExpr} {g : BitVec 1}
    {y : BitVec 32} (hg : Emits gen s M guard ⟨1, g⟩) (ha : Emits gen s M addr ⟨64, a⟩)
    (hy : Emits gen s M alt ⟨32, y⟩) :
    Runs total ext (Stands (tmpValues s) [] M)
      ((VexStmt.create gen (.LoadG .LE cvt dst addr alt guard)).emit gen types)
      (fun _ => Showing gen (s.assign dst
        ⟨32, if g = 1 then Word.extend signed 32 (s.load a w).bits else y⟩)) R := by
  change Runs total ext _ (do
    let g ← (VexExpr.create gen guard).emit gen
    let a ← (VexExpr.create gen addr).emit gen
    let altV ← (VexExpr.create gen alt).emit gen
    let r ← ifThenElse false (pure g) (loadGWord gen cvt a) (pure altV)
    let pn ← code (LLVM.Code.create (.phi r.1.1.ty [(r.1.1, r.1.2), (altV, r.2.2)]))
    setRegValue dst pn) _ R
  refine (hg total ext [] R).got fun c hc => (ha total ext _ R).got fun u hu =>
    (hy total ext _ R).got fun v hv => ?_
  refine (runs_loadGArms hr hcvt hc hu hv
    (List.mem_cons_of_mem _ (List.mem_cons_of_mem _ (List.mem_cons_self ..)))
    (List.mem_cons_of_mem _ (List.mem_cons_self ..)) (List.mem_cons_self ..)).bind fun r => ?_
  obtain ⟨⟨x, bbThen⟩, ⟨v', bbAlt⟩⟩ := r
  refine runs_of_and fun hvals => ?_
  obtain ⟨hx, hv', hne⟩ := hvals
  dsimp only at hx hv' hne ⊢
  subst hv'
  rw [hx]
  refine ((runs_phi (L := [])).pre ?_).got fun p hp => runs_assign hr hp (List.mem_cons_self ..)
  rintro σ fr (⟨hprev, h1, hq⟩ | ⟨hprev, h1, hq⟩)
  · rw [if_pos h1]
    exact ⟨by simp [hprev, hq.eval], hq.2.sub (List.nil_subset _)⟩
  · rw [if_neg h1]
    exact ⟨by simp [hprev, hne, hq.eval], hq.2.sub (List.nil_subset _)⟩

/-- The exit types of the code are those of the jump kinds. -/
theorem exitMark_eq {jk : IRJumpKind} {t : GuestExitType} (h : exitTypeOf jk = some t) :
    exitMark jk = if jk = .Boring then none else some t := by
  cases jk <;> cases h <;> rfl

theorem writeBytes_one (f : BitVec 64 → LLVM.Byte) (p : BitVec 64) (y : ℕ) :
    writeBytes f p 1 y = Function.update f p (BitVec.ofNat 8 y) := by
  funext q
  rw [writeBytes, Function.update_apply]
  by_cases h : q = p
  · subst h
    simp
  · have hne : ¬ (q - p).toNat < 1 := fun hlt => h (by
      have h0 : q - p = 0 := BitVec.eq_of_toNat_eq (Nat.lt_one_iff.1 hlt)
      exact sub_eq_zero.1 h0)
    rw [if_neg hne, if_neg h]

theorem setCtx_exitType (hoff : gen.exitTypeOffset < 2 ^ 31) (M : Machine) (t : GuestExitType) :
    M.setCtx (ctxOff gen.exitTypeOffset 1) 1 (t.code % 2 ^ 8) =
      { M with ctx := Function.update M.ctx (BitVec.ofNat 64 gen.exitTypeOffset) (BitVec.ofNat 8 t.code) } := by
  have hcode : BitVec.ofNat 8 (t.code % 2 ^ 8) = BitVec.ofNat 8 t.code :=
    BitVec.eq_of_toNat_eq (by simp)
  rw [Machine.setCtx, GenLLVM.ctxOff_eq (one_dvd _) hoff, writeBytes_one, hcode]

/-- The code that tells the exit type of a jump kind. -/
theorem runs_mark (hoff : gen.exitTypeOffset < 2 ^ 31) (jk : IRJumpKind)
    {ρ : IRTemp → Option (Ty × ℕ)} :
    Runs total ext (Stands ρ L M) (VexSB.markJump gen (exitMark jk)) (fun _ σ fr =>
      fr.m.ctx = gen.marked jk M.ctx ∧ fr.m.mem = M.mem ∧ Stands ρ L fr.m σ fr) R := by
  unfold GenLLVM.marked
  cases exitMark jk with
  | none => exact runs_done.post fun _ _ _ h => h.mach.symm ▸ ⟨rfl, rfl, h⟩
  | some t =>
      refine (runs_setExitType t.code).post fun _ _ _ h => ?_
      rw [setCtx_exitType hoff] at h
      rw [h.mach]
      exact ⟨rfl, rfl, h⟩

theorem goes_exit (hr : Ready gen Γ s M) (hoff : gen.exitTypeOffset < 2 ^ 31) {g : BitVec 1}
    (dst : BitVec 64) (jk : IRJumpKind) (hg : Emits gen s M guard ⟨1, g⟩) :
    Runs total ext (Stands (tmpValues s) [] M)
      ((VexStmt.create gen (.Exit guard (.U64 dst) jk)).emit gen types)
      (fun _ σ fr => ¬ g = 1 ∧ Showing gen s σ fr)
        (fun fr v => g = 1 ∧ gen.Leaves s jk dst fr v) := by
  rw [VexStmt.create]
  cases ht : exitTypeOf jk with
  | none => exact runs_throw _
  | some t =>
      have hs := kept_stands (tmpValues s) [] M
      have hmark : (if jk ≠ .Boring then gen.setExitType t.code else pure ()) =
          VexSB.markJump gen (exitMark jk) := by
        rw [exitMark_eq ht]
        by_cases hjk : jk = .Boring
        · rw [if_pos hjk, if_neg (not_not.2 hjk), VexSB.markJump]
        · rw [if_neg hjk, if_pos hjk, VexSB.markJump]
      have hset : Runs total ext (fun σ fr => g = 1 ∧ Stands (tmpValues s) [] M σ fr)
          (if jk ≠ .Boring then gen.setExitType t.code else pure ())
          (fun _ _ fr => g = 1 ∧ fr.m.ctx = gen.marked jk M.ctx ∧ fr.m.mem = M.mem)
          (fun fr v => g = 1 ∧ gen.Leaves s jk dst fr v) := by
        rw [hmark]
        exact runs_of_and fun h1 => (runs_mark hoff jk).post fun _ _ _ h => ⟨h1, h.1, h.2.1⟩
      refine runs_at_state fun σ₀ => (runs_emitExit hs.opens ((lasting_const _).and hs).opens
        ((lasting_const (¬ g = 1)).and hs) (hg total ext [] _) (fun _ v σ fr h => ⟨_, h.eval⟩)
        (fun v σ fr n h hn hne => ⟨(bit_ne_zero g).1 (h.bits_eq hn ▸ hne), h.2.drop⟩)
        (fun v σ fr h hn => ⟨fun h1 => (bit_ne_zero g).2 h1 (h.bits_eq hn), h.2.drop⟩) hset
        fun σ fr h _ => ⟨h.1, rfl, hr.shows.guest ▸ h.2.1, ?_⟩).post
        fun _ σ fr h => ⟨h.1, h.2.showing hr.shows⟩
      rw [h.2.2, hr.shows.mem]

/-- Where the run of a statement goes, the emitted code goes. -/
theorem goes_of_run (hr : Ready gen Γ s M) (hoff : gen.exitTypeOffset < 2 ^ 31) {stmt : IRStmt}
    {Γ' : Widths} (h : Checks types Γ stmt Γ') {st : Step} (hst : stmt.run s = .ok st) :
    Runs total ext (Stands (tmpValues s) [] M) ((VexStmt.create gen stmt).emit gen types)
      (fun _ σ fr => ∃ s', st = .next s' ∧ Showing gen s' σ fr)
      (fun fr v => ∃ jk dst, st = .leave jk dst ∧ gen.Leaves s jk dst fr v) := by
  have hnext : ∀ {s' : State} {m : EmitM Unit} {R : Frame → RVal → Prop},
      Runs total ext (Stands (tmpValues s) [] M) m (fun _ => Showing gen s') R →
        Runs total ext (Stands (tmpValues s) [] M) m
          (fun _ σ fr => ∃ s'', Step.next s' = .next s'' ∧ Showing gen s'' σ fr) R := fun h =>
    h.post fun _ _ _ h => ⟨_, rfl, h⟩
  cases h with
  | noOp | imark | abiHint =>
      cases hst
      exact hnext (runs_done.post fun _ _ _ h => h.showing hr.shows)
  | put hdata hw hp =>
      obtain ⟨d, hd, hst⟩ := exists_of_bind_ok hst
      cases hst
      have hdw := width_of_eval hr.typed hdata hd
      exact hnext (goes_put hr (emits_of_eval hr hdata hd) (hdw ▸ hp))
  | putI bias hix hdata hty hf =>
      obtain ⟨d, hd, hst⟩ := exists_of_bind_ok hst
      obtain ⟨i, hi, hst⟩ := exists_of_bind_ok hst
      cases hst
      have hdw := width_of_eval hr.typed hdata hd
      exact hnext (goes_putI hr bias (emits_of_eval hr hdata hd) (emits_of_evalAs hr hix hi)
        (hdw ▸ hty)
        (hdw ▸ hf))
  | @wrTmp tmp _ _ _ hdata =>
      obtain ⟨d, hd, hst⟩ := exists_of_bind_ok hst
      cases hst
      exact hnext (goes_wrTmp hr tmp (emits_of_eval hr hdata hd))
  | store haddr hdata hw =>
      obtain ⟨d, hd, hst⟩ := exists_of_bind_ok hst
      obtain ⟨a, ha, hst⟩ := exists_of_bind_ok hst
      cases hst
      exact hnext (goes_store hr (emits_of_eval hr hdata hd) (emits_of_evalAs hr haddr ha))
  | storeG hguard haddr hdata hw =>
      obtain ⟨g, hg, hst⟩ := exists_of_bind_ok hst
      have hg := emits_of_evalAs hr hguard hg
      split at hst
      · next h1 =>
          obtain ⟨a, ha, hst⟩ := exists_of_bind_ok hst
          obtain ⟨d, hd, hst⟩ := exists_of_bind_ok hst
          cases hst
          exact hnext (goes_storeG hr h1 hg (emits_of_evalAs hr haddr ha)
            (emits_of_eval hr hdata hd))
      · next h1 =>
          cases hst
          exact hnext (goes_storeG_skip hr h1 hg)
  | @loadG cvt p dst addr alt guard _ hp hguard haddr halt =>
      obtain ⟨⟨w, signed⟩, hcvt, hst⟩ := exists_of_bind_ok hst
      obtain ⟨g, hg, hst⟩ := exists_of_bind_ok hst
      obtain ⟨a, ha, hst⟩ := exists_of_bind_ok hst
      obtain ⟨y, hy, hst⟩ := exists_of_bind_ok hst
      cases hst
      exact hnext (goes_loadG hr (eq_some_of_orIllTyped hcvt) dst (emits_of_evalAs hr hguard hg)
        (emits_of_evalAs hr haddr ha) (emits_of_evalAs hr halt hy))
  | exit d jk hguard =>
      obtain ⟨g, hg, hst⟩ := exists_of_bind_ok hst
      cases hst
      refine (goes_exit hr hoff d jk (emits_of_evalAs hr hguard hg)).conseq (fun _ _ => id) ?_ ?_
      · rintro _ σ fr ⟨h0, h⟩
        exact ⟨s, if_neg h0, h⟩
      · rintro fr v ⟨h1, h⟩
        exact ⟨jk, d, if_pos h1, h⟩

end Statements

end VexLLVM
