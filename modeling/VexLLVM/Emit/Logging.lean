import VexLLVM.Emit.MirrorExpr
import VexLLVM.Check.MemLog

/-!
# Recording stores does not get in the way

The code that records a store writes the log only, and gets through where the store
itself does. So a function that records its stores runs like the one that does not.
-/

namespace LLVM

namespace Inst

variable {ext : Extern} {fr : Frame} {ev : Value → Option RVal} {a b v : Value} {t : Ty} {x r : RVal}
  {m : Machine} {k : CastOp} {o : BinOp} {i : Inst}

/-- A widening and a cast to a pointer are of bits. -/
theorem eval_cast_bits (hk : k = .zext ∨ k = .inttoptr) (h : (cast k a t).eval ev = some r) :
    (∃ u, ev a = some (.bits u)) ∧ ∃ u, r = .bits u := by
  obtain ⟨s, ha, hs⟩ := Option.bind_eq_some_iff.1 h
  rw [ha]
  rcases hk with rfl | rfl
  · cases s with
    | bits u =>
        refine ⟨⟨u, rfl⟩, ?_⟩
        unfold evalCast at hs
        dsimp only at hs
        split at hs
        · obtain ⟨y, -, rfl⟩ := Option.map_eq_some_iff.1 hs
          exact ⟨y, rfl⟩
        · obtain ⟨y, -, rfl⟩ := Option.map_eq_some_iff.1 hs
          exact ⟨y, rfl⟩
        · cases hs
    | _ => cases hs
  · cases s with
    | bits u =>
        cases hs
        exact ⟨⟨u, rfl⟩, u, rfl⟩
    | _ => cases hs

theorem eval_bin_bits (h : (bin o a b).eval ev = some r) :
    (∃ u, ev a = some (.bits u)) ∧ ∃ u, r = .bits u := by
  simp only [eval] at h
  split at h
  · next x y ha hb =>
      obtain ⟨u, -, rfl⟩ := Option.map_eq_some_iff.1 h
      exact ⟨⟨x, ha⟩, u, rfl⟩
  · cases h

theorem exec_cast_bits (hk : k = .zext ∨ k = .inttoptr)
    (h : (cast k a t).exec ext fr = some (x, m)) :
    (∃ u, fr.eval a = some (.bits u)) ∧ ∃ u, x = .bits u := by
  have hhost : (cast k a t).hostEval ext fr = none := by
    rcases hk with rfl | rfl <;> rfl
  obtain ⟨y, hy, he⟩ := Option.map_eq_some_iff.1
    (show (((cast k a t).eval fr.eval).or _).map _ = some (x, m) from h)
  rw [hhost, Option.or_none] at hy
  cases he
  exact eval_cast_bits hk hy

theorem exec_bin_bits (h : (bin o a b).exec ext fr = some (x, m)) :
    (∃ u, fr.eval a = some (.bits u)) ∧ ∃ u, x = .bits u := by
  obtain ⟨y, hy, he⟩ := Option.map_eq_some_iff.1
    (show (((bin o a b).eval fr.eval).or _).map _ = some (x, m) from h)
  cases he
  rcases Option.or_eq_some_iff.1 hy with hy | ⟨-, hy⟩
  · exact eval_bin_bits hy
  · obtain ⟨q, hq, hy⟩ := Option.bind_eq_some_iff.1 hy
    cases hq
    obtain ⟨xs, hxs, hy⟩ := Option.bind_eq_some_iff.1 hy
    obtain ⟨s, -, hy⟩ := Option.bind_eq_some_iff.1 hy
    obtain ⟨u, -, rfl⟩ := Option.map_eq_some_iff.1 hy
    refine ⟨?_, _, rfl⟩
    rw [List.mapM_cons] at hxs
    obtain ⟨y, hy, -⟩ := Option.bind_eq_some_iff.1 hxs
    obtain ⟨r, hr, hy⟩ := Option.bind_eq_some_iff.1 hy
    cases r with
    | bits u => exact ⟨u, hr⟩
    | _ => cases hy

/-- What a folded instruction says of its first operand and its value. -/
theorem simplify?_bits (fr : Frame) (hs : i.sameTypeCast? = none) (h : i.simplify? = some v)
    (hbits : ∀ {ev r}, i.eval ev = some r → (∃ u, ev a = some (.bits u)) ∧ ∃ u, r = .bits u) :
    (∃ u, fr.eval a = some (.bits u)) ∧ ∃ u, fr.eval v = some (.bits u) := by
  have hev : ∀ c : Value, c.isConst = true → fr.eval c = c.constEval := fun c hc => by
    cases c with
    | const t n => rfl
    | undef t => rfl
    | _ => cases hc
  have hfold : i.constFold? = some v := by
    rw [simplify?, hs] at h
    exact h
  obtain ⟨-, hconst, n, hn, rfl⟩ := constFold?_eq_some hfold
  exact ⟨(hbits ((eval_congr i fun o ho => hev o (hconst o ho)).trans hn)).1, n, rfl⟩

/-- The instruction gets through for bits only, and gives bits. -/
structure OfBits (i : Inst) (a : Value) : Prop where
  new : i.sameTypeCast? = none
  eval : ∀ {ev r}, i.eval ev = some r → (∃ u, ev a = some (.bits u)) ∧ ∃ u, r = .bits u
  exec : ∀ {ext fr x m}, i.exec ext fr = some (x, m) →
    (∃ u, fr.eval a = some (.bits u)) ∧ ∃ u, x = .bits u

theorem ofBits_cast (hk : k = .zext ∨ k = .inttoptr) (ht : a.ty ≠ t) : (cast k a t).OfBits a where
  new := if_neg ht
  eval := eval_cast_bits hk
  exec := exec_cast_bits hk

theorem ofBits_bin : (bin o a b).OfBits a where
  new := rfl
  eval := eval_bin_bits
  exec := exec_bin_bits

end Inst

theorem Frame.Keeps.eval_eq {fr fr' : Frame} {n : ℕ} {v : Value} (hk : fr.Keeps fr' n)
    (hv : v.Below n) : fr'.eval v = fr.eval v := by
  cases v with
  | inst id t => exact hk id hv
  | arg i t => cases i <;> rfl
  | _ => rfl

namespace Code

variable {ε α : Type} {ext : Extern} {fr fr₁ : Frame} {n : ℕ} {r : α} {l : List (ℕ × Inst)}
  {a : Value} {i : Inst} {k : Value → Code ε α}

/-- Where the code gets through, its first instruction was of bits, and the rest of the
code gets through with the bits it gives. -/
structure Next (ext : Extern) (fr fr₁ : Frame) (n : ℕ) (r : α) (a : Value) (k : Value → Code ε α) (t : Ty) :
    Prop where
  operand : ∃ u, fr.eval a = some (.bits u)
  rest : ∃ v n' l' fr', (k v).Places n' r l' ∧ fr'.execs ext l' = some fr₁ ∧
    (∃ u, fr'.eval v = some (.bits u)) ∧ v.ty = t ∧ n ≤ n' ∧ fr.Keeps fr' n

theorem Places.next (hi : i.OfBits a) (hp : (ins i k).Places n r l)
    (hx : fr.execs ext l = some fr₁) : Next ext fr fr₁ n r a k i.ty := by
  cases hp with
  | @fold _ _ v _ _ _ hs hp =>
      obtain ⟨ha, hv⟩ := Inst.simplify?_bits fr hi.new hs hi.eval
      exact ⟨ha, v, n, l, fr, hp, hx, hv, (Inst.simplify?_spec hs).2.1, le_rfl, .refl fr n⟩
  | @put _ _ _ _ l hs hp =>
      obtain ⟨⟨x, m⟩, he, hx⟩ := Option.bind_eq_some_iff.1 hx
      obtain ⟨ha, u, rfl⟩ := hi.exec he
      refine ⟨ha, .inst n i.ty, n + 1, l, _, hp, hx, ⟨u, Function.update_self ..⟩,
        Value.ty_inst .., Nat.le_succ n,
        fun id hid => Function.update_of_ne (Nat.ne_of_lt hid) _ _⟩

end Code

end LLVM

namespace VexLLVM

open LLVM LLVM.Code Vex StateExcept

namespace GenLLVM

variable {α : Type} {gen : GenLLVM} {ext : Extern} {fr fr₁ : Frame} {n : ℕ} {r : α}
  {l : List (ℕ × Inst)} {a d : Value} {t : Ty} {f : Value → Code EmitError α} {w : ℕ}

/-- The pointer to a host integer. -/
theorem hostPtr_next (ha : a.ty = .int w) (hp : (gen.hostPtr a t >>= f).Places n r l)
    (hx : fr.execs ext l = some fr₁) : Next ext fr fr₁ n r a f (.ptr t) := by
  have hcast : ∀ v : Value, v.ty = .int w → (Inst.cast .inttoptr v (.ptr t)).OfBits v := fun v hv =>
    Inst.ofBits_cast (.inr rfl) (by rw [hv]; exact nofun)
  cases hr : gen.relocates with
  | false =>
      have heq : (gen.hostPtr a t >>= f) = ins (.cast .inttoptr a (.ptr t)) f := by
        unfold hostPtr
        rw [hr]
        rfl
      rw [heq] at hp
      exact hp.next (hcast a ha) hx
  | true =>
      have heq : (gen.hostPtr a t >>= f) = ins (.bin .add a (constInt 64 gen.base.toNat)) fun b =>
          ins (.cast .inttoptr b (.ptr t)) f := by
        unfold hostPtr
        rw [hr]
        rfl
      rw [heq] at hp
      obtain ⟨ha', b, n₁, l₁, fr', hp₁, hx₁, -, hb, hn, hk⟩ := hp.next Inst.ofBits_bin hx
      obtain ⟨-, v, n₂, l₂, fr'', hp₂, hx₂, hv, hty, hn', hk'⟩ :=
        hp₁.next (hcast b (hb.trans ha)) hx₁
      exact ⟨ha', v, n₂, l₂, fr'', hp₂, hx₂, hv, hty, hn.trans hn', hk.trans hk' hn⟩

/-- A store through the pointer to a host integer. -/
theorem storePtr_bits (ha : a.ty = .int w) (hd : d.Below n)
    (hp : (gen.hostPtr a d.ty >>= fun p =>
      create (.store d p 8) >>= fun _ => pure ()).Places n () l)
    (hx : fr.execs ext l = some fr₁) :
    (∃ u, fr.eval a = some (.bits u)) ∧ ∃ u, fr.eval d = some (.bits u) := by
  obtain ⟨ha', p, n', l', fr', hp, hx, ⟨u, hu⟩, -, -, hk⟩ := hostPtr_next ha hp hx
  refine ⟨ha', ?_⟩
  cases hp with
  | fold hs => simp [Inst.simplify?, Inst.sameTypeCast?, Inst.constFold?, Inst.eval] at hs
  | put _ hp =>
      obtain ⟨q, he, -⟩ := Option.bind_eq_some_iff.1 hx
      simp only [Inst.exec, hu, Option.bind_some] at he
      obtain ⟨y, hy, he⟩ := Option.bind_eq_some_iff.1 he
      rw [hk.eval_eq hd] at hy
      cases y with
      | bits v => exact ⟨v, hy⟩
      | _ => cases he

/-- A store that gets through is one of bits, to bits. -/
theorem accessCode_bits (ha : a.ty = .int gen.addrBits) (hd : d.Below n)
    (hp : (gen.accessCode a d).Places n () l) (hx : fr.execs ext l = some fr₁) :
    (∃ u, fr.eval a = some (.bits u)) ∧ ∃ u, fr.eval d = some (.bits u) := by
  unfold accessCode hostAddr at hp
  unfold addrBits at ha
  cases h32 : gen.is32Bit with
  | false =>
      rw [h32] at hp ha
      exact storePtr_bits ha hd hp hx
  | true =>
      rw [h32, if_pos rfl] at ha
      rw [h32] at hp
      have hp : (ins (.cast .zext a (.int 64)) fun a =>
          gen.hostPtr a d.ty >>= fun p => create (.store d p 8) >>= fun _ =>
            pure ()).Places n () l := hp
      obtain ⟨ha', b, n', l', fr', hp, hx, -, hb, hn, hk⟩ :=
        hp.next (Inst.ofBits_cast (.inl rfl) (by rw [ha]; simp)) hx
      obtain ⟨-, y, hy⟩ := storePtr_bits (hb.trans rfl) (hd.mono hn) hp hx
      rw [hk.eval_eq hd] at hy
      exact ⟨ha', y, hy⟩

end GenLLVM

/-! ## The code of the log -/

end VexLLVM

namespace LLVM

def Inst.LogOnly (i : Inst) : Prop :=
  ∀ {ext fr x m}, i.exec ext fr = some (x, m) → fr.m.Same m

/-- All instructions of the code are as `Q` says. -/
def Code.Lays {ε α : Type} (Q : Inst → Prop) : Code ε α → Prop
  | ret _ => True
  | ins i k => Q i ∧ ∀ v, (k v).Lays Q
  | fail _ => True

theorem Code.Places.forall_mem {ε α : Type} {Q : Inst → Prop} {c : Code ε α} {n : ℕ} {a : α}
    {l : List (ℕ × Inst)} (h : c.Places n a l) (hc : c.Lays Q) : ∀ p ∈ l, Q p.2 := by
  induction h with
  | ret a n => exact fun p hp => by cases hp
  | fold _ _ ih => exact ih (hc.2 _)
  | put _ _ ih => exact List.forall_mem_cons.2 ⟨hc.1, ih (hc.2 _)⟩

namespace Inst

theorem logOnly_pure {i : Inst} (h : ∀ ext fr, i.exec ext fr =
    ((i.eval fr.eval).or (i.hostEval ext fr)).map fun x => (x, fr.m)) : i.LogOnly := by
  intro ext fr x m hx
  rw [h] at hx
  obtain ⟨y, -, he⟩ := Option.map_eq_some_iff.1 hx
  cases he
  exact .refl _

theorem logOnly_store (v : Value) (t : Ty) (al : ℕ) : (store v (.arg 1 t) al).LogOnly := by
  intro ext fr x m hx
  obtain ⟨y, -, hx⟩ := Option.bind_eq_some_iff.1
    (show (fr.eval v).bind (fun x => (fr.m.store .logPtr v.ty.bytes x).map
      fun m => (RVal.bits 0, m)) =
      some (x, m) from hx)
  obtain ⟨m', hm, he⟩ := Option.map_eq_some_iff.1 hx
  cases he
  cases y with
  | agg l =>
      cases hm
      exact ⟨rfl, rfl⟩
  | _ => cases hm

end Inst

/-- Code of the second function, on numbers that are not paired, keeps the frames
coupled if it writes the log only. -/
theorem Frame.Coupled.execs_right {π : ℕ → ℕ → Prop} {ext : Extern} {fr fr' fr₂ : Frame}
    {l : List (ℕ × Inst)} (hc : fr.Coupled π fr') (hl : ∀ p ∈ l, p.2.LogOnly ∧ ∀ i, ¬ π i p.1)
    (hx : fr'.execs ext l = some fr₂) : fr.Coupled π fr₂ := by
  induction l generalizing fr' with
  | nil =>
      cases hx
      exact hc
  | cons p l ih =>
      obtain ⟨⟨x, m⟩, he, hx⟩ := Option.bind_eq_some_iff.1 hx
      obtain ⟨hp, hl⟩ := List.forall_mem_cons.1 hl
      have hc' : fr.Coupled π (fr'.advance p.1 x m) := by
        refine ⟨hc.blk, hc.prev, fun {i j} hij => ?_, hc.m.trans (hp.1 he)⟩
        have hne : j ≠ p.1 := fun h => hp.2 i (h ▸ hij)
        exact (hc.regs hij).trans (Function.update_of_ne hne _ _).symm
      exact ih hc' hl hx

/-- Code that reaches its end in some function gets through. -/
theorem Frame.exists_execs_of_reach {ext : Extern} {G : Func} {fr fr₂ : Frame} {l : List (ℕ × Inst)}
    (hr : G.Reach ext fr fr₂) (hl : fr.rest G = l) (hend : fr₂.rest G = []) :
    ∃ fr₃, fr.execs ext l = some fr₃ := by
  induction l generalizing fr with
  | nil => exact ⟨fr, rfl⟩
  | cons p l ih =>
      rcases Relation.ReflTransGen.cases_head hr with rfl | ⟨fr₁, hs, hr⟩
      · rw [hl] at hend
        cases hend
      · cases hx : p.2.exec ext fr with
        | none =>
            rw [step_of_exec_none hl hx] at hs
            cases hs
        | some r =>
            rw [step_of_exec hl hx] at hs
            cases hs
            obtain ⟨fr₃, h₃⟩ := ih hr (rest_advance hl)
            exact ⟨fr₃, by rw [execs, hx]; exact h₃⟩

/-- Whether code gets through does not depend on where the frame stands. -/
theorem Frame.exists_execs_congr {ext : Extern} {fr fr' : Frame} {l : List (ℕ × Inst)}
    (hr : fr.regs = fr'.regs) (hp : fr.prev = fr'.prev) (hm : fr.m = fr'.m)
    (h : ∃ fr₂, fr.execs ext l = some fr₂) : ∃ fr₂, fr'.execs ext l = some fr₂ := by
  obtain ⟨fr₂, h⟩ := h
  induction l generalizing fr fr' with
  | nil => exact ⟨fr', rfl⟩
  | cons p l ih =>
      obtain ⟨⟨x, m⟩, he, h⟩ := Option.bind_eq_some_iff.1 h
      have he' : p.2.exec ext fr' = some (x, m) := by
        obtain ⟨blk, pos, prev, regs, mach⟩ := fr
        obtain ⟨blk', pos', prev', regs', mach'⟩ := fr'
        obtain ⟨rfl, rfl, rfl⟩ : regs = regs' ∧ prev = prev' ∧ mach = mach' := ⟨hr, hp, hm⟩
        rw [← he]
        cases p.2 <;> rfl
      have hr' : (fr.advance p.1 x m).regs = (fr'.advance p.1 x m).regs := by
        simp only [advance, hr]
      obtain ⟨fr₃, h₃⟩ := ih hr' hp rfl h
      exact ⟨fr₃, by rw [execs, he']; exact h₃⟩

end LLVM

namespace VexLLVM

open LLVM LLVM.Code Vex StateExcept

theorem lays_recordStore (a d : Value) :
    (GenLLVM.recordStore GenLLVM.curMemoryLog a d).Lays Inst.LogOnly :=
  ⟨Inst.logOnly_pure fun _ _ => rfl, fun _ => ⟨Inst.logOnly_pure fun _ _ => rfl, fun _ =>
    ⟨Inst.logOnly_pure fun _ _ => rfl, fun _ => ⟨Inst.logOnly_pure fun _ _ => rfl, fun _ =>
      ⟨Inst.logOnly_pure fun _ _ => rfl, fun _ => ⟨Inst.logOnly_pure fun _ _ => rfl, fun _ =>
        ⟨Inst.logOnly_pure fun _ _ => rfl, fun _ =>
          ⟨Inst.logOnly_store _ _ 8, fun _ => trivial⟩⟩⟩⟩⟩⟩⟩⟩

/-- The code of the log gets through on the address and the data of a store that does. -/
theorem exists_execs_recordStore {gen : GenLLVM} {a d : Value} {n : ℕ} {l : List (ℕ × Inst)}
    {ext : Extern} {fr : Frame} {x y : ℕ} (ha : a.ty = .int gen.addrBits)
    (hbelow : a.Below n ∧ d.Below n)
    (hp : (GenLLVM.recordStore GenLLVM.curMemoryLog a d).Places n () l)
    (hx : fr.eval a = some (.bits x)) (hy : fr.eval d = some (.bits y)) :
    ∃ fr', fr.execs ext l = some fr' := by
  let b : Builder := { Builder.empty with nextId := n }
  have hb : b.OK := ⟨Nat.one_pos, rfl, fun _ _ => rfl, fun _ p hp => (by cases hp),
    fun _ _ p hp => by cases hp⟩
  let fr₀ : Frame := { fr with blk := 0, pos := 0 }
  have heval : ∀ v, fr₀.eval v = fr.eval v := fun v => by cases v <;> rfl
  have hat : fr₀.At b := ⟨rfl, rfl⟩
  obtain ⟨fr₂, hr, hat₂, -⟩ := MemLog.recordStore_logs ha hb (hp.run rfl) ext
    (.refl _) hat ⟨hbelow.1, (heval a).trans hx⟩ ⟨hbelow.2, (heval d).trans hy⟩
  have hrest : fr₀.rest (b.append l).func = l := rfl
  have hend : fr₂.rest (b.append l).func = [] := by
    rw [Frame.rest, hat₂.blk, hat₂.pos]
    exact List.drop_length ..
  have hreg : fr₀.regs = fr.regs := rfl
  exact Frame.exists_execs_congr hreg rfl rfl (Frame.exists_execs_of_reach hr hrest hend)

/-- Recording stores does not get in the way. -/
theorem Logged.silent {gen : GenLLVM} {w : Pairing} {n n' : ℕ} (hw : w.OK n n') (ext : Extern) :
    Silent ext w.pair (Logged gen w) where
  runs := by
    rintro zs ys fr fr' fr₁ ⟨hty, hel, ha, hd, hbelow, hzs, hys, hextra⟩ hc hx
    obtain ⟨⟨x, hx⟩, y, hy⟩ := GenLLVM.accessCode_bits hty hbelow.1 hzs hx
    have hty' : _ = Ty.int gen.addrBits := ha.ty_eq.symm.trans hty
    exact exists_execs_recordStore hty' hbelow.2 hys
      (by rw [← hc.eval_eq ha, hx]) (by rw [← hc.eval_eq hd, hy])
  keeps := by
    rintro zs ys fr fr' fr₂ ⟨hty, hel, ha, hd, hbelow, hzs, hys, hextra⟩ hc hy
    exact hc.execs_right (fun p hp => ⟨hys.forall_mem (lays_recordStore _ _) p hp,
      fun i hi => hw.apart hi (hextra p hp)⟩) hy

end VexLLVM
