import VexLLVM.LLVM.Code

/-!
# The builder's `Create` functions

One name for each kind of instruction, under the names of the IR builder, and
the rules for following them in `Code.Ensures`.
-/

namespace LLVM

namespace Code

variable {ε : Type}

def createBin (o : BinOp) (a b : Value) : Code ε Value := create (.bin o a b)

def createICmp (p : IPred) (a b : Value) : Code ε Value := create (.icmp p a b)

def createFCmp (p : FPred) (a b : Value) : Code ε Value := create (.fcmp p a b)

def createCast (k : CastOp) (v : Value) (t : Ty) : Code ε Value := create (.cast k v t)

def createBitCast (v : Value) (t : Ty) : Code ε Value := create (.cast .bitcast v t)

def createZExt (v : Value) (t : Ty) : Code ε Value := create (.cast .zext v t)

def createTrunc (v : Value) (t : Ty) : Code ε Value := create (.cast .trunc v t)

def createSelect (c a b : Value) : Code ε Value := create (.select c a b)

def createExtractElement (v i : Value) : Code ε Value := create (.extractelement v i)

def createInsertElement (v e i : Value) : Code ε Value := create (.insertelement v e i)

def createShuffleVector (a b : Value) (mask : List ℕ) : Code ε Value :=
  create (.shufflevector a b mask)

def createCall (f : String) (sig : FnTy) (args : List Value) : Code ε Value :=
  create (.call f sig args)

def allOnes (t : Ty) : Value := .const t (2 ^ t.bits - 1)

def createNot (v : Value) : Code ε Value := createBin .xor v (allOnes v.ty)

/-- The code hands back a value in `S` of type `t`, and all its `create` calls
are legal exactly when `p` holds. -/
def Gives (S : Value → Prop) (E : Prop) (t : Ty) (p : Prop) (c : Code ε Value) : Prop :=
  ∀ ok, c.Ensures S E (fun v ok' => S v ∧ v.ty = t ∧ (ok' ↔ ok ∧ p)) ok

section Gives

variable {S : Value → Prop} {E p p' : Prop} {r s t : Ty} {a b c v : Value} {n : ℕ}
  {x : Scalar}

theorem Gives.congr {m : Code ε Value} (h : Gives S E t p m) (hp : p ↔ p') :
    Gives S E t p' m := fun ok =>
  (h ok).mono fun _ _ ⟨hv, ht, hok⟩ => ⟨hv, ht, hok.trans (and_congr_right fun _ => hp)⟩

theorem Gives.bind {m : Code ε Value} {f : Value → Code ε Value} (h : Gives S E s p m)
    (hf : ∀ v, S v → v.ty = s → Gives S E t p' (f v)) : Gives S E t (p ∧ p') (m >>= f) :=
  fun ok => Ensures.bind <| (h ok).mono fun v ok' ⟨hv, hs, hok⟩ =>
    (hf v hv hs ok').mono fun _ _ ⟨hv', ht, hok'⟩ =>
      ⟨hv', ht, by rw [hok', hok, and_assoc]⟩

theorem gives_ret (hv : S v) (ht : v.ty = t) : Gives S E t True (ret v : Code ε Value) :=
  fun _ => ⟨hv, ht, by simp⟩

theorem gives_fail (e : ε) (hE : E) : Gives S E t p (fail e) := fun _ => hE

theorem gives_create {i : Inst} (ho : ∀ o ∈ i.operands, S o) (hi : i.incoming = [])
    (ht : i.ty = t) (hp : i.createOk = true ↔ p) : Gives S E t p (create i : Code ε Value) :=
  fun _ => ⟨⟨ho, hi⟩, fun _ hv hty => ⟨hv, hty.trans ht, and_congr_right fun _ => hp⟩⟩

theorem gives_cast (k : CastOp) (t : Ty) (hv : S v) (hs : v.ty = s) :
    Gives S E t (castOk k s t = true) (createCast k v t : Code ε Value) :=
  gives_create (by simpa [Inst.operands] using hv) rfl rfl (by rw [Inst.createOk_cast, hs])

theorem gives_bitCast (t : Ty) (hv : S v) (hs : v.ty = s) :
    Gives S E t (castOk .bitcast s t = true) (createBitCast v t : Code ε Value) :=
  gives_cast .bitcast t hv hs

theorem gives_zext (t : Ty) (hv : S v) (hs : v.ty = s) :
    Gives S E t (castOk .zext s t = true) (createZExt v t : Code ε Value) :=
  gives_cast .zext t hv hs

theorem gives_trunc (t : Ty) (hv : S v) (hs : v.ty = s) :
    Gives S E t (castOk .trunc s t = true) (createTrunc v t : Code ε Value) :=
  gives_cast .trunc t hv hs

theorem gives_bin (o : BinOp) (ha : S a) (hb : S b) (hs : a.ty = s) (ht : b.ty = t) :
    Gives S E s (s = t ∧ o.okAt s = true) (createBin o a b : Code ε Value) :=
  gives_create (by simp [Inst.operands, ha, hb]) rfl hs
    (by simp [Inst.createOk, Inst.sameTypeCast?, Inst.WF, hs, ht])

theorem gives_icmp (q : IPred) (ha : S a) (hb : S b) (hs : a.ty = s) (ht : b.ty = t) :
    Gives S E s.cmpResult (s = t ∧ s.isIntOrIntVector = true)
      (createICmp q a b : Code ε Value) :=
  gives_create (by simp [Inst.operands, ha, hb]) rfl (by simp [Inst.ty, hs])
    (by simp [Inst.createOk, Inst.sameTypeCast?, Inst.WF, hs, ht])

theorem gives_fcmp (q : FPred) (ha : S a) (hb : S b) (hs : a.ty = s) (ht : b.ty = t) :
    Gives S E s.cmpResult (s = t ∧ s.isFPOrFPVector = true)
      (createFCmp q a b : Code ε Value) :=
  gives_create (by simp [Inst.operands, ha, hb]) rfl (by simp [Inst.ty, hs])
    (by simp [Inst.createOk, Inst.sameTypeCast?, Inst.WF, hs, ht])

theorem gives_select (hc : S c) (ha : S a) (hb : S b) (hr : c.ty = r) (hs : a.ty = s)
    (ht : b.ty = t) :
    Gives S E s (r = .int 1 ∧ s = t) (createSelect c a b : Code ε Value) :=
  gives_create (by simp [Inst.operands, ha, hb, hc]) rfl hs
    (by simp [Inst.createOk, Inst.sameTypeCast?, Inst.WF, hr, hs, ht])

theorem gives_extract (ha : S a) (hb : S b) (hs : a.ty = .vec n x) (ht : b.ty = t) :
    Gives S E (.scalar x) (t.isIntOrIntVector = true)
      (createExtractElement a b : Code ε Value) :=
  gives_create (by simp [Inst.operands, ha, hb]) rfl (by simp [Inst.ty, hs])
    (by simp [Inst.createOk, Inst.sameTypeCast?, Inst.WF, hs, ht, Ty.lanes?])

theorem gives_insert (ha : S a) (hb : S b) (hc : S c) (hs : a.ty = .vec n x) (ht : b.ty = t)
    (hr : c.ty = r) :
    Gives S E (.vec n x) (t = .scalar x ∧ r.isIntOrIntVector = true)
      (createInsertElement a b c : Code ε Value) :=
  gives_create (by simp [Inst.operands, ha, hb, hc]) rfl hs
    (by simp [Inst.createOk, Inst.sameTypeCast?, Inst.WF, hs, ht, hr])

theorem gives_shuffle {mask : List ℕ} (ha : S a) (hb : S b) (hs : a.ty = .vec n x)
    (ht : b.ty = .vec n x) (hm : ∀ i ∈ mask, i < 2 * n) :
    Gives S E (.vec mask.length x) True (createShuffleVector a b mask : Code ε Value) :=
  gives_create (by simp [Inst.operands, ha, hb]) rfl (by simp [Inst.ty, hs])
    (by simpa [Inst.createOk, Inst.sameTypeCast?, Inst.WF, hs, ht] using hm)

theorem gives_call {f : String} {sig : FnTy} {args : List Value} {ts : List Ty}
    (ha : ∀ a ∈ args, S a) (hs : args.map Value.ty = ts) :
    Gives S E sig.ret (sig.params = ts) (createCall f sig args : Code ε Value) :=
  gives_create ha rfl rfl (by simp [Inst.createOk, Inst.sameTypeCast?, Inst.WF, hs])

/-- A loop that carries one value of type `t`, each round of which is legal
exactly when `p` holds. -/
theorem gives_foldlM {β : Type} {f : Value → β → Code ε Value} (l : List β) (hv : S v)
    (ht : v.ty = t) (h : ∀ b ∈ l, ∀ v, S v → v.ty = t → Gives S E t p (f v b)) :
    Gives S E t (l ≠ [] → p) (l.foldlM f v) := by
  induction l generalizing v with
  | nil => exact (gives_ret hv ht).congr (by simp)
  | cons b l ih =>
      rw [List.foldlM_cons]
      refine ((h b (by simp) v hv ht).bind fun v' hv' ht' =>
        ih hv' ht' fun c hc => h c (by simp [hc])).congr ?_
      exact ⟨fun hp _ => hp.1, fun hp => ⟨hp (by simp), fun _ => hp (by simp)⟩⟩

end Gives

/-! ## Code that stores nothing -/

def NoStore {α : Type} : Code ε α → Prop
  | ret _ => True
  | ins i k => i.isStore = false ∧ ∀ v, (k v).NoStore
  | fail _ => True

/-- Code found to store nothing; finding it is left to instances. -/
class Quiet {α : Type} (c : Code ε α) : Prop where
  noStore : c.NoStore

section Quiet

variable {α β : Type} {c c' : Code ε α} {f : α → Code ε β}

instance quiet_ret (a : α) : Quiet (ret a : Code ε α) := ⟨trivial⟩

instance quiet_pure (a : α) : Quiet (pure a : Code ε α) := ⟨trivial⟩

instance quiet_fail (e : ε) : Quiet (fail e : Code ε α) := ⟨trivial⟩

theorem NoStore.bind (h : c.NoStore) (hf : ∀ a, (f a).NoStore) : (c >>= f).NoStore := by
  induction c with
  | ret a => exact hf a
  | ins i k ih => exact ⟨h.1, fun v => ih v (h.2 v)⟩
  | fail e => exact trivial

instance quiet_bind [h : Quiet c] [hf : ∀ a, Quiet (f a)] : Quiet (c >>= f) :=
  ⟨h.noStore.bind fun a => (hf a).noStore⟩

instance quiet_ite {p : Prop} [Decidable p] [Quiet c] [Quiet c'] : Quiet (if p then c else c') := by
  split <;> infer_instance

theorem quiet_foldlM {γ : Type} {g : β → γ → Code ε β} (l : List γ) (b : β)
    (h : ∀ b c, Quiet (g b c)) : Quiet (l.foldlM g b) := by
  induction l generalizing b with
  | nil => exact quiet_pure b
  | cons c l ih =>
      rw [List.foldlM_cons]
      infer_instance

theorem quiet_create {i : Inst} (h : i.isStore = false) : Quiet (create i : Code ε Value) :=
  ⟨h, fun _ => trivial⟩

variable (a b v e i : Value) (t : Ty)

instance quiet_bin (o : BinOp) : Quiet (createBin o a b : Code ε Value) := quiet_create rfl

instance quiet_icmp (p : IPred) : Quiet (createICmp p a b : Code ε Value) := quiet_create rfl

instance quiet_fcmp (p : FPred) : Quiet (createFCmp p a b : Code ε Value) := quiet_create rfl

instance quiet_cast (k : CastOp) : Quiet (createCast k v t : Code ε Value) := quiet_create rfl

instance quiet_bitCast : Quiet (createBitCast v t : Code ε Value) := quiet_create rfl

instance quiet_zext : Quiet (createZExt v t : Code ε Value) := quiet_create rfl

instance quiet_trunc : Quiet (createTrunc v t : Code ε Value) := quiet_create rfl

instance quiet_select : Quiet (createSelect v a b : Code ε Value) := quiet_create rfl

instance quiet_extract : Quiet (createExtractElement v i : Code ε Value) := quiet_create rfl

instance quiet_insert : Quiet (createInsertElement v e i : Code ε Value) := quiet_create rfl

instance quiet_shuffle (mask : List ℕ) : Quiet (createShuffleVector a b mask : Code ε Value) :=
  quiet_create rfl

instance quiet_call (f : String) (sig : FnTy) (args : List Value) :
    Quiet (createCall f sig args : Code ε Value) := quiet_create rfl

instance quiet_load (al : ℕ) : Quiet (create (.load a al) : Code ε Value) := quiet_create rfl

instance quiet_gep : Quiet (create (.gep a i) : Code ε Value) := quiet_create rfl

instance quiet_insertValue (k : ℕ) : Quiet (create (.insertvalue a e k) : Code ε Value) :=
  quiet_create rfl

instance quiet_phi (inc : List (Value × ℕ)) : Quiet (create (.phi t inc) : Code ε Value) :=
  quiet_create rfl

instance quiet_fence : Quiet (create .fence : Code ε Value) := quiet_create rfl

instance quiet_not : Quiet (createNot v : Code ε Value) := by
  unfold createNot
  infer_instance

end Quiet

end Code

end LLVM
