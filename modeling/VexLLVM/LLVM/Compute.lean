import VexLLVM.LLVM.IRBuilder

/-!
# What straight-line code computes

The values of the builder's `Create` functions on integers whose value is known,
as rules for `Code.Computes`.
-/

namespace LLVM

structure Value.Holds (ev : Value → Option RVal) (t : Ty) (x : RVal) (v : Value) : Prop where
  ty : v.ty = t
  eq : ev v = some x

abbrev Value.Num (ev : Value → Option RVal) (w x : ℕ) (v : Value) : Prop :=
  v.Holds ev (.int w) (.bits x)

def Consts (ev : Value → Option RVal) : Prop := ∀ t n, ev (.const t n) = some (.bits n)

namespace Code

variable {ε α β : Type} {ev : Value → Option RVal} {m : Machine} {a b v : Value} {t : Ty}
  {w w' x y z : ℕ}

theorem Computes.mono {c : Code ε α} {Q Q' : α → Prop} (h : c.Computes ev m Q)
    (hQ : ∀ a, Q a → Q' a) : c.Computes ev m Q' := by
  induction c with
  | ret a => exact hQ a h
  | ins i k ih =>
      obtain ⟨x, hx, hk⟩ := h
      exact ⟨x, hx, fun v ht hv => ih v (hk v ht hv)⟩
  | fail e => exact h

/-- One part of the code after the other. -/
theorem Computes.then {c : Code ε α} {f : α → Code ε β} {Q : α → Prop} {R : β → Prop}
    (h : c.Computes ev m Q) (hf : ∀ a, Q a → (f a).Computes ev m R) :
    (c >>= f).Computes ev m R :=
  .bind (h.mono hf)

theorem computes_create {i : Inst} {r : RVal} (h : i.value ev m = some r) (ht : i.ty = t) :
    (create i : Code ε Value).Computes ev m (Value.Holds ev t r) :=
  ⟨r, h, fun _ hv hx => ⟨hv.trans ht, hx⟩⟩

theorem num_constInt (hev : Consts ev) (hx : x < 2 ^ w) : (constInt w x).Num ev w x :=
  ⟨rfl, by rw [constInt, hev, Nat.mod_eq_of_lt hx]⟩

theorem computes_bin {o : BinOp} (ha : a.Num ev w x) (hb : b.Num ev w y)
    (h : o.eval w x y = some z) :
    (createBin o a b : Code ε Value).Computes ev m (Value.Num ev w z) :=
  computes_create (by simp [Inst.value, Inst.createEval, Inst.sameTypeCast?, Inst.eval, ha.eq, hb.eq,
    ha.ty, Inst.evalBin, h]) ha.ty

theorem computes_icmp (p : IPred) (ha : a.Num ev w x) (hb : b.Num ev w y) :
    (createICmp p a b : Code ε Value).Computes ev m (Value.Num ev 1 (p.eval w x y).toNat) :=
  computes_create (by simp [Inst.value, Inst.createEval, Inst.sameTypeCast?, Inst.eval, ha.eq, hb.eq,
    ha.ty, Inst.evalIcmp]) (by rw [Inst.ty, ha.ty]; rfl)

/-- A cast to the type the value has hands it back. -/
theorem computes_cast_self (k : CastOp) {r : RVal} (ha : a.Holds ev t r) :
    (createCast k a t : Code ε Value).Computes ev m (Value.Holds ev t r) :=
  computes_create (by simp [Inst.value, Inst.createEval, Inst.sameTypeCast?, ha.ty, ha.eq]) rfl

theorem computes_cast {k : CastOp} (ha : a.Num ev w x) (hne : w ≠ w') (hk : k ≠ .bitcast)
    (h : k.evalElem (.int w) (.int w') x = some z) :
    (createCast k a (.int w') : Code ε Value).Computes ev m (Value.Num ev w' z) := by
  refine computes_create ?_ rfl
  have hty : a.ty ≠ .int w' := by
    rw [ha.ty]
    intro he
    cases he
    exact hne rfl
  simp only [Inst.value, Inst.createEval, Inst.sameTypeCast?, Inst.eval, ha.eq, ha.ty,
    Option.bind_some]
  cases k <;> simp_all [Inst.evalCast, CastOp.evalElem]

theorem computes_zext (ha : a.Num ev w x) (w' : ℕ) :
    (createZExt a (.int w') : Code ε Value).Computes ev m (Value.Num ev w' x) := by
  by_cases h : w = w'
  · subst h
    exact computes_cast_self .zext ha
  · exact computes_cast ha h (by decide) rfl

theorem computes_trunc (ha : a.Num ev w x) (hx : x < 2 ^ w) (hw : w' ≤ w) :
    (createTrunc a (.int w') : Code ε Value).Computes ev m (Value.Num ev w' (x % 2 ^ w')) := by
  by_cases h : w = w'
  · subst h
    rw [Nat.mod_eq_of_lt hx]
    exact computes_cast_self .trunc ha
  · exact computes_cast ha h (by decide) rfl

theorem computes_bitCast {r : RVal} (ha : a.Holds ev t r) (t' : Ty) :
    (createBitCast a t' : Code ε Value).Computes ev m (Value.Holds ev t' r) := by
  refine computes_create ?_ rfl
  by_cases h : a.ty = t'
  · simp [Inst.value, Inst.createEval, Inst.sameTypeCast?, h, ha.eq]
  · simp [Inst.value, Inst.createEval, Inst.sameTypeCast?, h, Inst.eval, ha.eq, Inst.evalCast]

theorem computes_intToPtr (ha : a.Num ev w x) (t : Ty) :
    (createCast .inttoptr a (.ptr t) : Code ε Value).Computes ev m
      (Value.Holds ev (.ptr t) (.bits x)) := by
  refine computes_create ?_ rfl
  simp [Inst.value, Inst.createEval, Inst.sameTypeCast?, ha.ty, Inst.eval, ha.eq, Inst.evalCast]

theorem computes_load {r : RVal} {al : ℕ} (ha : a.Holds ev (.ptr t) r)
    (h : m.load r t.bytes = some x) :
    (create (.load a al) : Code ε Value).Computes ev m (Value.Holds ev t (.bits x)) := by
  have hty : (Inst.load a al).ty = t := by rw [Inst.ty, ha.ty]
  exact computes_create (by rw [Inst.value, ha.eq, hty, Option.bind_some, h]; rfl) hty

theorem computes_insertValue {l : List ℕ} (ha : a.Holds ev t (.agg l)) (hb : ev b = some (.bits x))
    (i : ℕ) :
    (create (.insertvalue a b i) : Code ε Value).Computes ev m
      (Value.Holds ev t (.agg (l.set i x))) :=
  computes_create (by simp [Inst.value, Inst.createEval, Inst.sameTypeCast?, Inst.eval, ha.eq, hb])
    ha.ty

/-- A pointer into the context, moved by elements of the type. -/
theorem computes_gep {off : BitVec 64} (ha : a.Holds ev (.ptr t) (.ctxPtr off))
    (hb : b.Num ev w x) :
    (create (.gep a b) : Code ε Value).Computes ev m (Value.Holds ev (.ptr t)
      (.ctxPtr (off + (BitVec.ofNat w x).signExtend 64 * BitVec.ofNat 64 t.bytes))) :=
  computes_create (by simp [Inst.value, Inst.createEval, Inst.sameTypeCast?, Inst.eval, ha.eq,
    ha.ty, hb.eq, hb.ty, Inst.evalGep]) ha.ty

end Code

end LLVM
