import VexLLVM.Emit.Mirror
import VexLLVM.Emit.Draft

/-!
# Expressions with a log and without one

An expression stores nothing, so the generator emits it alike with a log and
without one: accesses to the guest context through the pointer caches, loads, and
by induction the whole expression.
-/

namespace VexLLVM

open LLVM LLVM.Code Vex

variable {α : Type} {gen : GenLLVM} {P : GenState → Prop} {w : Pairing} {v v' a a' : Value}

/-- One instruction on paired values. -/
theorem mirrors_create {i i' : Inst} (h : ∀ w₁, w ≤ w₁ → i.Linked (SameValue w₁) i') :
    Mirrors gen P w (code (create i)) (code (create i')) True SameValue :=
  mirrors_code fun w₁ hw _ => (renumbers w₁.pair).create (h w₁ hw)

theorem mirrors_bitCast (t : Ty) (hv : SameValue w v v') :
    Mirrors gen P w (code (createBitCast v t)) (code (createBitCast v' t)) True SameValue :=
  mirrors_create fun _ hw => .cast .bitcast t (hv.mono hw.1)

namespace GenLLVM

/-! ## The guest context -/

theorem mirrors_getCtxPtr (t : Ty) :
    Mirrors gen P w (gen.getCtxPtr t) (gen.getCtxPtr t) True SameValue := by
  have hcast : ∀ {P : GenState → Prop}, Mirrors gen P w (code (createBitCast gen.curGuestCtx t))
      (code (createBitCast gen.curGuestCtx t)) True SameValue := mirrors_bitCast t (.arg 0 _)
  refine mirrors_get fun M σ σ' _ hm => ?_
  rw [← hm.insertBlock]
  split
  · exact hcast
  · have hp := hm.ctxcasts t
    generalize σ.ctxcastMap t = o at hp ⊢
    generalize σ'.ctxcastMap t = o' at hp ⊢
    cases hp with
    | some hp => exact mirrors_pure hp
    | none =>
        refine hcast.seq fun w₁ p p' _ hp => (mirrors_modify fun M σ σ' hm => ?_).seq
          fun w₂ _ _ hw _ => mirrors_pure (hp.mono hw.1)
        exact { hm with ctxcasts := rel_update hm.ctxcasts hp t }

theorem mirrors_getCtxTyGEP {off off' : Value} (t : Ty) (ho : SameValue w off off') :
    Mirrors gen P w (gen.getCtxTyGEP off t) (gen.getCtxTyGEP off' t) True SameValue :=
  (mirrors_getCtxPtr _).seq fun _ _ _ hw hp => mirrors_create fun _ hw' =>
    .gep (hp.mono hw'.1) (ho.mono (hw.trans hw').1)

theorem mirrors_getCtxByteGEP (off : ℕ) (t : Ty) :
    Mirrors gen P w (gen.getCtxByteGEP off t) (gen.getCtxByteGEP off t) True SameValue := by
  have hgep : ∀ {P : GenState → Prop}, Mirrors gen P w
      (gen.getCtxTyGEP (constInt 32 (off / t.bytes)) t)
      (gen.getCtxTyGEP (constInt 32 (off / t.bytes)) t) True SameValue :=
    mirrors_getCtxTyGEP t (.const _ _)
  unfold getCtxByteGEP
  dsimp only
  split
  · exact mirrors_throw_bind _ _ _ _
  · refine mirrors_get fun M σ σ' _ hm => ?_
    have hp := hm.gepbytes (off, t.bytes)
    generalize σ.gepbyteMap (off, t.bytes) = o at hp ⊢
    generalize σ'.gepbyteMap (off, t.bytes) = o' at hp ⊢
    cases hp with
    | some hp =>
        dsimp only
        rw [← hm.insertBlock, ← hp.ty_eq]
        split
        · exact mirrors_pure hp
        · exact hgep
    | none =>
        refine hgep.seq fun w₁ p p' _ hp => (mirrors_modify fun M σ σ' hm => ?_).seq
          fun w₂ _ _ hw _ => mirrors_pure (hp.mono hw.1)
        exact { hm with gepbytes := rel_update hm.gepbytes hp _ }

theorem mirrors_readCtx (off : ℕ) (ty : IRType) :
    Mirrors gen P w (gen.readCtx off ty) (gen.readCtx off ty) True SameValue :=
  mirrors_llvmTy_bind fun t _ => (mirrors_getCtxByteGEP off t).seq fun _ _ _ _ hp =>
    mirrors_create fun _ hw => .load 0 (hp.mono hw.1)

theorem mirrors_writeCtx (off : ℕ) (hv : SameValue w v v') :
    Mirrors gen P w (gen.writeCtx off v) (gen.writeCtx off v') True SameThing := by
  unfold writeCtx
  rw [← hv.ty_eq]
  exact (mirrors_getCtxByteGEP off v.ty).seq fun _ _ _ hw hp =>
    (mirrors_create fun _ hw' => .store 0 (hv.mono (hw.trans hw').1) (hp.mono hw'.1)).seq
      fun _ _ _ _ _ => mirrors_pure rfl

theorem mirrors_getCtxElem (off : ℕ) (bias : ℤ) (len : ℕ) (t : Ty) (hv : SameValue w v v') :
    Mirrors gen P w (gen.getCtxElem off bias len v t) (gen.getCtxElem off bias len v' t) True
      SameValue := by
  unfold getCtxElem
  split
  · exact mirrors_throw_bind _ _ _ _
  · refine (mirrors_code (R := SameValue) fun w₁ hw _ => ?_).seq fun _ _ _ _ ho =>
      mirrors_getCtxTyGEP t ho
    let L : Congruence EmitError := renumbers w₁.pair
    exact (L.bitCast _ (hv.mono hw.1)).bind fun _ _ hi => (L.bin .add hi (.const _ _)).bind
      fun _ _ ho => (L.bin .urem ho (.const _ _)).bind fun _ _ ho => L.bin .add ho (.const _ _)

theorem mirrors_readCtxI (off : ℕ) (bias : ℤ) (len : ℕ) (t : Ty) (hv : SameValue w v v') :
    Mirrors gen P w (gen.readCtxI off bias len v t)
      (gen.readCtxI off bias len v' t) True SameValue :=
  (mirrors_getCtxElem off bias len t hv).seq fun _ _ _ _ hp =>
    mirrors_create fun _ hw => .load 0 (hp.mono hw.1)

theorem mirrors_writeCtxI (off : ℕ) (bias : ℤ) (len : ℕ) {ix ix' : Value} (hi : SameValue w ix ix')
    (hv : SameValue w v v') :
    Mirrors gen P w (gen.writeCtxI off bias len ix v) (gen.writeCtxI off bias len ix' v') True
      SameThing := by
  unfold writeCtxI
  rw [← hv.ty_eq]
  exact (mirrors_getCtxElem off bias len v.ty hi).seq fun _ _ _ hw hp =>
    (mirrors_create fun _ hw' => .store 0 (hv.mono (hw.trans hw').1) (hp.mono hw'.1)).seq
      fun _ _ _ _ _ => mirrors_pure rfl

theorem mirrors_setExitType (n : ℕ) :
    Mirrors gen P w (gen.setExitType n) (gen.setExitType n) True SameThing :=
  mirrors_writeCtx _ (.const _ _)

/-! ## Guest memory -/

theorem hostAddr_rel (L : Congruence EmitError) (ha : L.val a a') :
    L.Rel (gen.hostAddr a) (gen.hostAddr a') := by
  unfold hostAddr
  split
  · exact L.zext _ ha
  · exact L.ret ha

theorem hostPtr_rel (L : Congruence EmitError) (t : Ty) (ha : L.val a a') :
    L.Rel (gen.hostPtr a t) (gen.hostPtr a' t) := by
  have hcast : ∀ {a a' : Value}, L.val a a' →
      L.Rel (createCast .inttoptr a (.ptr t)) (createCast .inttoptr a' (.ptr t)) :=
    fun ha => L.cast .inttoptr _ ha
  unfold hostPtr
  split
  · exact (L.bin .add ha (L.const rfl)).bind fun _ _ ha => hcast ha
  · exact hcast ha

theorem fakeRead_eq {π : ℕ → ℕ → Prop} (ha : a.Renumbered π a') :
    gen.fakeRead a = gen.fakeRead a' := by
  cases ha <;> rfl

theorem mirrors_load (t : Ty) (ha : SameValue w a a') :
    Mirrors gen P w (gen.load a t) (gen.load a' t) True SameValue := by
  refine mirrors_code fun w₁ hw _ => ?_
  let L : Congruence EmitError := renumbers w₁.pair
  refine (hostAddr_rel L (ha.mono hw.1)).bind fun a a' ha => ?_
  rw [fakeRead_eq ha]
  split
  · split
    · exact L.ret (.const _ _)
    · exact L.fail _
  · exact (hostPtr_rel L t ha).bind fun _ _ hp => L.create (.load 8 hp)

theorem mirrors_loadVex (ty : IRType) (ha : SameValue w a a') :
    Mirrors gen P w (gen.loadVex a ty) (gen.loadVex a' ty) True SameValue :=
  mirrors_llvmTy_bind fun t _ => mirrors_load t ha

end GenLLVM

/-! ## Expressions -/

namespace VexExpr

theorem emit_logging (e : VexExpr) : e.emit gen.logging = e.emit gen := by
  induction e with
  | getI base len elemType ix bias ih =>
      simp only [emit, ih]
      rfl
  | nary op args ih =>
      simp only [emit, ih]
      rfl
  | load ty addr ih =>
      simp only [emit, ih]
      rfl
  | ccall f sig n args ih => simp only [emit, ih]
  | mux0X cond expr0 exprX ihc ih0 ihX => simp only [emit, ihc, ih0, ihX]
  | _ => rfl

theorem mirrors_args {n : ℕ} {args : Fin n → VexExpr}
    (h : ∀ i, ∀ {P : GenState → Prop} w, Mirrors gen P w ((args i).emit gen)
    ((args i).emit gen) True SameValue) :
    Mirrors gen P w (emitAll (List.ofFn fun i => (args i).emit gen))
      (emitAll (List.ofFn fun i => (args i).emit gen)) True
        fun w vs vs' => vs.length = n ∧ SameValues w vs vs' := by
  rw [List.ofFn_eq_map]
  refine (mirrors_emitAll (fun _ _ _ _ hw hv => hv.mono hw.1) _ fun i _ w₁ _ => h i w₁).post
    fun w₁ vs vs' _ hvs => ⟨by simpa using hvs.1, hvs.2⟩

/-- An arm of an `ITE`. -/
theorem mirrors_flatten {m : EmitM Value} (h : Mirrors gen P w m m True SameValue) :
    Mirrors gen P w (do let v ← m; code (flattenType v)) (do let v ← m; code (flattenType v)) True
      SameValue := by
  refine h.seq fun w₁ v v' _ hv => mirrors_code fun w₂ hw _ => ?_
  let L : Congruence EmitError := renumbers w₂.pair
  have hv := hv.mono hw.1
  unfold flattenType
  rw [← hv.ty_eq]
  split
  · split
    · exact L.ret hv
    · exact L.bitCast _ hv
  · exact L.ret hv

theorem mirrors_emit (e : VexExpr) (w : Pairing) :
    Mirrors gen P w (e.emit gen) (e.emit gen) True SameValue := by
  induction e generalizing P w with
  | null => exact mirrors_throw _ _
  | stub n args ih => exact mirrors_throw _ _
  | abort e => exact mirrors_throw _ _
  | get offset ty => exact GenLLVM.mirrors_readCtx offset ty
  | getI base len elemType ix bias ih =>
      exact (ih w).seq fun _ _ _ _ hi => mirrors_llvmTy_bind fun t _ =>
        GenLLVM.mirrors_readCtxI base bias len t hi
  | rdTmp tmp => exact mirrors_getRegValue tmp
  | nary op args ih =>
      refine (mirrors_args fun i _ w => ih i w).seq fun w₁ vs vs' _ hvs => ?_
      refine mirrors_code fun w₂ hw hπ => ?_
      rcases opEmit_arity gen.fp op with hu | ha
      · rw [hu]
        exact .fail _
      · exact OpEmit.build_rel (renumbers w₂.pair) (fun n k _ _ _ _ =>
          OpEmit.emitOpshuf_renumbered hπ n k)
          gen.helpers _ (hvs.1.trans ha.symm) (hvs.2.imp fun _ _ hv => hv.mono hw.1)
  | load ty addr ih => exact (ih w).seq fun _ _ _ _ ha => GenLLVM.mirrors_loadVex ty ha
  | const con =>
      refine mirrors_code fun w₁ _ _ => ?_
      let L : Congruence EmitError := renumbers w₁.pair
      cases con with
      | F32 v => exact L.fail _
      | F32i v => exact L.fail _
      | V128 mask => exact L.bitCast _ (L.const rfl)
      | V256 mask => exact L.bitCast _ (L.const rfl)
      | _ => exact L.ret (L.const rfl)
  | ccall f sig n args ih =>
      exact (mirrors_args fun i _ w => ih i w).seq fun w₁ vs vs' _ hvs =>
        mirrors_create fun w₂ hw => .call f sig (hvs.2.imp fun _ _ hv => hv.mono hw.1)
  | gsptr => exact mirrors_pure (.arg 0 _)
  | mux0X cond expr0 exprX ihc ih0 ihX =>
      refine (mirrors_ifThenElse ?_ (fun w₁ _ => mirrors_flatten (ihX w₁))
        fun w₁ _ => mirrors_flatten (ih0 w₁)).seq fun w₁ r r' _ hr => ?_
      · refine (ihc w).seq fun w₁ c c' _ hc => mirrors_code fun w₂ hw _ => ?_
        let L : Congruence EmitError := renumbers w₂.pair
        exact L.icmp .eq (hc.mono hw.1) (L.constInt_ty 0 (hc.mono hw.1))
      · obtain ⟨⟨x, bbX⟩, ⟨y, bbY⟩⟩ := r
        obtain ⟨⟨x', bbX'⟩, ⟨y', bbY'⟩⟩ := r'
        obtain ⟨⟨hx, rfl⟩, ⟨hy, rfl⟩⟩ := hr
        dsimp only at hx hy ⊢
        rw [← hy.ty_eq]
        exact mirrors_create fun w₂ hw => .phi _
          (.cons ⟨hy.mono hw.1, rfl⟩ (.cons ⟨hx.mono hw.1, rfl⟩ .nil))

end VexExpr

end VexLLVM
