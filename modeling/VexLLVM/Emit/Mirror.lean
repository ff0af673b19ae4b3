import VexLLVM.LLVM.Traced
import VexLLVM.Emit.OpLinked
import VexLLVM.Emit.Access

/-!
# The same emission, with stores to a log

With a log, the code that records a store comes before the store, and shifts the
numbers of all instructions after it. A pairing keeps track of which instructions
of the two functions are the same, and which ones record stores. `Mirrors` follows
two emissions in step: what the generator does without the log it does with it as
well, on paired values, and leaves a function that traces the other one.
-/

namespace LLVM

def Func.Legal (F : Func) : Prop := ∀ k, ∀ p ∈ (F.blocks k).insts, p.2.WF = true

end LLVM

namespace VexLLVM

open LLVM LLVM.Code Vex StateExcept

namespace OpEmit

/-- The shuffle, whose indices are the same ones on both sides where their pairs are. -/
theorem emitOpshuf_renumbered {π : ℕ → ℕ → Prop} (hπ : OneToOne π) (n w : ℕ) {a a' b b' : Value}
    (ha : a.Renumbered π a') (hb : b.Renumbered π b') :
    (renumbers (ε := EmitError) π).Rel (emitOpshuf n w a b) (emitOpshuf n w a' b') := by
  let L : Congruence EmitError := renumbers π
  have hput : ∀ (j : ℕ) {r r' p p' e e' : Value}, r.Renumbered π r' → p.Renumbered π p' →
      e.Renumbered π e' → L.rel (fun s s' => s.1.Renumbered π s'.1 ∧
          Option.Rel (fun q q' => q.1.Renumbered π q'.1 ∧ q.2.Renumbered π q'.2) s.2 s'.2)
        (do let r ← createInsertElement r e (get32i j); pure (r, some (p, e)))
        (do let r ← createInsertElement r' e' (get32i j); pure (r, some (p', e'))) :=
    fun j _ _ _ _ _ _ hr hp he => (L.insert hr he (L.const rfl)).bind fun _ _ hr =>
      L.ret ⟨hr, .some ⟨hp, he⟩⟩
  refine bitCast₂_rel L _ ha hb fun a a' b b' ha hb => (zeroVec_rel L n _).bind fun r r' hr =>
    .bind (L.foldlM (S := fun s s' => s.1.Renumbered π s'.1 ∧
      Option.Rel (fun q q' => q.1.Renumbered π q'.1 ∧ q.2.Renumbered π q'.2) s.2 s'.2) _
        ⟨hr, .none⟩ fun j s s' hs => ?_) fun _ _ hs => L.ret hs.1
  refine (L.extract hb (L.const rfl)).bind fun i i' hi => (L.zext _ hi).bind fun p p' hp => ?_
  obtain ⟨r, o⟩ := s
  obtain ⟨r', o'⟩ := s'
  obtain ⟨hr, ho⟩ := hs
  cases ho with
  | none => exact (L.extract ha hp).bind fun e e' he => hput j hr hp he
  | @some q q' hq =>
      by_cases hpq : p = q.1
      · have hpq' : p' = q'.1 := (Value.Renumbered.eq_iff hπ hp hq.1).1 hpq
        simp only [if_pos hpq, if_pos hpq']
        exact hput j hr hp hq.2
      · have hpq' : ¬ p' = q'.1 := fun h => hpq ((Value.Renumbered.eq_iff hπ hp hq.1).2 h)
        simp only [if_neg hpq, if_neg hpq']
        exact (L.extract ha hp).bind fun e e' he => hput j hr hp he

end OpEmit

/-- Which instructions of two functions are the same, and which ones stand in the
second function only. -/
structure Pairing where
  pair : ℕ → ℕ → Prop
  extra : ℕ → Prop

namespace Pairing

instance : Preorder Pairing where
  le w w' := (∀ i j, w.pair i j → w'.pair i j) ∧ ∀ j, w.extra j → w'.extra j
  le_refl _ := ⟨fun _ _ => id, fun _ => id⟩
  le_trans _ _ _ h h' := ⟨fun i j hi => h'.1 i j (h.1 i j hi), fun j hj => h'.2 j (h.2 j hj)⟩

def none : Pairing := ⟨fun _ _ => False, fun _ => False⟩

/-- The next `m` instructions of both functions are the same. -/
def grow (w : Pairing) (n n' m : ℕ) : Pairing where
  pair i j := w.pair i j ∨ ∃ k < m, i = n + k ∧ j = n' + k
  extra := w.extra

/-- The next `m` instructions of the second function stand there only. -/
def log (w : Pairing) (n' m : ℕ) : Pairing where
  pair := w.pair
  extra j := w.extra j ∨ n' ≤ j ∧ j < n' + m

/-- The pairing is one of the instructions before `n` and `n'`. -/
structure OK (w : Pairing) (n n' : ℕ) : Prop where
  oneToOne : OneToOne w.pair
  pair_lt : ∀ {i j}, w.pair i j → i < n ∧ j < n'
  extra_lt : ∀ {j}, w.extra j → j < n'
  apart : ∀ {i j}, w.pair i j → ¬ w.extra j

variable {w w' : Pairing} {n n' m : ℕ}

theorem le_grow (w : Pairing) (n n' m : ℕ) : w ≤ w.grow n n' m := ⟨fun _ _ => .inl, fun _ => id⟩

theorem le_log (w : Pairing) (n' m : ℕ) : w ≤ w.log n' m := ⟨fun _ _ => id, fun _ => .inl⟩

theorem OK.none (n n' : ℕ) : Pairing.none.OK n n' where
  oneToOne := ⟨fun h => h.elim, fun h => h.elim⟩
  pair_lt h := h.elim
  extra_lt h := h.elim
  apart h := h.elim

theorem OK.grow (h : w.OK n n') (m : ℕ) : (w.grow n n' m).OK (n + m) (n' + m) where
  oneToOne := by
    constructor
    · rintro i i' j (hi | ⟨k, hk, rfl, rfl⟩) (hi' | ⟨k', hk', rfl, hj⟩)
      · exact h.oneToOne.left hi hi'
      · have := h.pair_lt hi
        omega
      · have := h.pair_lt hi'
        omega
      · omega
    · rintro i j j' (hi | ⟨k, hk, rfl, rfl⟩) (hi' | ⟨k', hk', hj, rfl⟩)
      · exact h.oneToOne.right hi hi'
      · have := h.pair_lt hi
        omega
      · have := h.pair_lt hi'
        omega
      · omega
  pair_lt := by
    rintro i j (hi | ⟨k, hk, rfl, rfl⟩)
    · have := h.pair_lt hi
      omega
    · omega
  extra_lt hj := Nat.lt_add_right _ (h.extra_lt hj)
  apart := by
    rintro i j (hi | ⟨k, hk, rfl, rfl⟩) hj
    · exact h.apart hi hj
    · have := h.extra_lt hj
      omega

theorem OK.log (h : w.OK n n') (m : ℕ) : (w.log n' m).OK n (n' + m) where
  oneToOne := h.oneToOne
  pair_lt hi := ⟨(h.pair_lt hi).1, Nat.lt_add_right _ (h.pair_lt hi).2⟩
  extra_lt := by
    rintro j (hj | hj)
    · exact Nat.lt_add_right _ (h.extra_lt hj)
    · exact hj.2
  apart := by
    rintro i j hi (hj | hj)
    · exact h.apart hi hj
    · exact absurd hj.1 (Nat.not_le.2 (h.pair_lt hi).2)

end Pairing

namespace GenLLVM

variable (gen : GenLLVM)

def logging : GenLLVM := { gen with logLastStore := true }

/-- The code of a store without that of the log. -/
def accessCode (addrV dataV : Value) : Code EmitError Unit := do
  let addrV ← gen.hostAddr addrV
  let p ← gen.hostPtr addrV dataV.ty
  let _ ← create (.store dataV p 8)

variable {gen}

theorem store_of_not_logLastStore (h : gen.logLastStore = false) (a d : Value) :
    gen.store a d = code (gen.accessCode a d) := by
  unfold store
  rw [h]
  rfl

theorem store_logging (a d : Value) : gen.logging.store a d = (do
    code (recordStore curMemoryLog a d)
    code (gen.accessCode a d)) := rfl

end GenLLVM

/-- The second list records the store of an integer or a vector that the first one
makes. -/
inductive Logged (gen : GenLLVM) (w : Pairing) : List (ℕ × Inst) → List (ℕ × Inst) → Prop
  | intro {a d a' d' : Value} {n n' : ℕ} {zs ys : List (ℕ × Inst)} (hty : a.ty = .int gen.addrBits)
      (hel : d.ty.elem?.isSome = true) (ha : a.Renumbered w.pair a') (hd : d.Renumbered w.pair d')
      (hbelow : d.Below n ∧ a'.Below n' ∧ d'.Below n') (hzs : (gen.accessCode a d).Places n () zs)
      (hys : (GenLLVM.recordStore GenLLVM.curMemoryLog a' d').Places n' () ys)
      (hextra : ∀ p ∈ ys, w.extra p.1) : Logged gen w zs ys

theorem Logged.mono {gen : GenLLVM} {w w' : Pairing} (hw : w ≤ w') {zs ys : List (ℕ × Inst)}
    (h : Logged gen w zs ys) : Logged gen w' zs ys := by
  obtain ⟨hty, hel, ha, hd, hbelow, hzs, hys, hextra⟩ := h
  exact ⟨hty, hel, ha.mono hw.1, hd.mono hw.1, hbelow, hzs, hys, fun p hp => hw.2 _ (hextra p hp)⟩

/-- The generator at the same point without a log and with one: the function with the
log traces the one without it, and its instructions are well formed exactly if those
of the other are, and `N`. -/
structure Mirror (gen : GenLLVM) (w : Pairing) (N : Prop) (σ σ' : GenState) : Prop where
  ok : w.OK σ.nextId σ'.nextId
  built : σ.toBuilder.OK
  built' : σ'.toBuilder.OK
  insertBlock : σ.insertBlock = σ'.insertBlock
  nblocks : σ.func.nblocks = σ'.func.nblocks
  traces : Func.Traces w.pair (Logged gen w) σ.func σ'.func
  legal : σ'.func.Legal ↔ σ.func.Legal ∧ N
  values : ∀ t, Option.Rel (Value.Renumbered w.pair) (σ.values t) (σ'.values t)
  gepbytes : ∀ q, Option.Rel (Value.Renumbered w.pair) (σ.gepbyteMap q) (σ'.gepbyteMap q)
  ctxcasts : ∀ t, Option.Rel (Value.Renumbered w.pair) (σ.ctxcastMap t) (σ'.ctxcastMap t)

/-- From states `P` that are mirrored, what the first computation does the second one
does as well, with results related by `R`; it adds code that is well formed exactly if
that of the first is, and `N`. -/
def Mirrors {α : Type} (gen : GenLLVM) (P : GenState → Prop) (w : Pairing) (m m' : EmitM α) (N : Prop)
    (R : Pairing → α → α → Prop) : Prop :=
  ∀ (M : Prop) (σ σ' σ₁ : GenState) (a : α), P σ → Mirror gen w M σ σ' → m σ = .ok (a, σ₁) →
    ∃ w₁ a' σ₁', w ≤ w₁ ∧ m' σ' = .ok (a', σ₁') ∧ Mirror gen w₁ (M ∧ N) σ₁ σ₁' ∧ R w₁ a a'

/-- Values that are the same up to the numbers of paired instructions. -/
abbrev SameValue (w : Pairing) (v v' : Value) : Prop := v.Renumbered w.pair v'

abbrev SameValues (w : Pairing) (vs vs' : List Value) : Prop := List.Forall₂ (SameValue w) vs vs'

abbrev SameThing {α : Type} (_ : Pairing) (a a' : α) : Prop := a = a'

section Rules

variable {α β : Type} {gen : GenLLVM} {P P' : GenState → Prop} {w w' : Pairing} {m m' : EmitM α}
  {M N N' : Prop} {R R' : Pairing → α → α → Prop} {R₂ : Pairing → β → β → Prop}
  {σ σ' σ₁ : GenState}

theorem Mirror.congr (h : Mirror gen w N σ σ') (hN : N ↔ N') : Mirror gen w N' σ σ' :=
  { h with legal := h.legal.trans (and_congr_right fun _ => hN) }

namespace Mirrors

theorem pre (h : Mirrors gen P w m m' N R) (hP : ∀ σ, P' σ → P σ) : Mirrors gen P' w m m' N R :=
  fun M σ σ' σ₁ a hσ => h M σ σ' σ₁ a (hP σ hσ)

theorem congr (h : Mirrors gen P w m m' N R) (hN : N ↔ N') : Mirrors gen P w m m' N' R :=
  fun M σ σ' σ₁ a hσ hm hrun =>
    have ⟨w₁, a', σ₁', hw, hrun', hm', hR⟩ := h M σ σ' σ₁ a hσ hm hrun
    ⟨w₁, a', σ₁', hw, hrun', hm'.congr (and_congr_right fun _ => hN), hR⟩

theorem post (h : Mirrors gen P w m m' N R) (hR : ∀ w₁ a a', w ≤ w₁ → R w₁ a a' → R' w₁ a a') :
    Mirrors gen P w m m' N R' :=
  fun M σ σ' σ₁ a hσ hm hrun =>
    have ⟨w₁, a', σ₁', hw, hrun', hm', hr⟩ := h M σ σ' σ₁ a hσ hm hrun
    ⟨w₁, a', σ₁', hw, hrun', hm', hR w₁ a a' hw hr⟩

/-- One computation after the other, with what holds of the state between them. -/
theorem bind {f f' : α → EmitM β} (Q : α → GenState → Prop) (h : Mirrors gen P w m m' N R)
    (hQ : ∀ σ a σ₁, P σ → m σ = .ok (a, σ₁) → Q a σ₁)
    (hf : ∀ w₁ a a', w ≤ w₁ → R w₁ a a' → Mirrors gen (Q a) w₁ (f a) (f' a') N' R₂) :
    Mirrors gen P w (m >>= f) (m' >>= f') (N ∧ N') R₂ := by
  intro M σ σ' σ₂ b hσ hm hrun
  obtain ⟨a, σ₁, h₁, h₂⟩ := bind_eq_ok hrun
  obtain ⟨w₁, a', σ₁', hw, h₁', hm', hR⟩ := h M σ σ' σ₁ a hσ hm h₁
  obtain ⟨w₂, b', σ₂', hw', h₂', hm₂, hR₂⟩ :=
    hf w₁ a a' hw hR _ σ₁ σ₁' σ₂ b (hQ σ a σ₁ hσ h₁) hm' h₂
  exact ⟨w₂, b', σ₂', hw.trans hw', by rw [bind_ok h₁', h₂'], hm₂.congr and_assoc, hR₂⟩

/-- `bind`, where nothing need be known of the states. -/
theorem seq {f f' : α → EmitM β} (h : Mirrors gen P w m m' True R)
    (hf : ∀ w₁ a a', w ≤ w₁ → R w₁ a a' → Mirrors gen (fun _ => True) w₁ (f a) (f' a') N R₂) :
    Mirrors gen P w (m >>= f) (m' >>= f') N R₂ :=
  (h.bind (fun _ _ => True) (fun _ _ _ _ _ => trivial) hf).congr (and_iff_right trivial)

/-- `bind`, where what comes after records no store. -/
theorem andThen {f f' : α → EmitM β} (h : Mirrors gen P w m m' N R)
    (hf : ∀ w₁ a a', w ≤ w₁ → R w₁ a a' → Mirrors gen (fun _ => True) w₁ (f a) (f' a') True R₂) :
    Mirrors gen P w (m >>= f) (m' >>= f') N R₂ :=
  (h.bind (fun _ _ => True) (fun _ _ _ _ _ => trivial) hf).congr (and_iff_left trivial)

end Mirrors

theorem mirrors_pure {a a' : α} (h : R w a a') : Mirrors gen P w (pure a) (pure a') True R := by
  intro M σ σ' σ₁ b _ hm hrun
  cases hrun
  exact ⟨w, a', σ', le_rfl, rfl, hm.congr (and_iff_left trivial).symm, h⟩

theorem mirrors_throw (e e' : EmitError) : Mirrors gen P w (throw e) (throw e') True R := by
  intro M σ σ' σ₁ b _ _ hrun
  cases hrun

theorem mirrors_throw_bind (e e' : EmitError) (f f' : β → EmitM α) :
    Mirrors gen P w (throw e >>= f) (throw e' >>= f') N R := by
  intro M σ σ' σ₁ b _ _ hrun
  cases hrun

theorem mirrors_get {f f' : GenState → EmitM α}
    (h : ∀ M σ σ', P σ → Mirror gen w M σ σ' → Mirrors gen P w (f σ) (f' σ') N R) :
    Mirrors gen P w (get >>= f) (get >>= f') N R :=
  fun M σ σ' σ₁ a hσ hm hrun => h M σ σ' hσ hm M σ σ' σ₁ a hσ hm hrun

/-- An update of what is recorded beside the function. -/
theorem mirrors_modify {g g' : GenState → GenState} (hg : ∀ M σ σ', Mirror gen w M σ σ' →
    Mirror gen w M (g σ) (g' σ')) :
    Mirrors gen P w (modify g) (modify g') True SameThing := by
  intro M σ σ' σ₁ b _ hm hrun
  cases hrun
  exact ⟨w, (), g' σ', le_rfl, rfl, (hg M σ σ' hm).congr (and_iff_left trivial).symm, rfl⟩

/-! ## Code -/

def GenState.append (σ : GenState) (l : List (ℕ × Inst)) : GenState :=
  { σ with toBuilder := σ.toBuilder.append l }

theorem GenState.append_blocks (σ : GenState) (l : List (ℕ × Inst)) (k : ℕ) :
    (σ.append l).func.blocks k = if k = σ.insertBlock then
      { σ.func.blocks k with insts := (σ.func.blocks k).insts ++ l } else σ.func.blocks k := by
  refine (σ.toBuilder.append_block l k).trans ?_
  split
  · next h =>
      subst h
      rfl
  · rfl

theorem GenState.append_legal (σ : GenState) (l : List (ℕ × Inst)) :
    (σ.append l).func.Legal ↔ σ.func.Legal ∧ ∀ p ∈ l, p.2.WF = true := by
  constructor
  · intro h
    refine ⟨fun k p hp => h k p ?_, fun p hp => h σ.insertBlock p ?_⟩
    · rw [append_blocks]
      split
      · exact List.mem_append_left _ hp
      · exact hp
    · rw [append_blocks, if_pos rfl]
      exact List.mem_append_right _ hp
  · rintro ⟨h, hl⟩ k p hp
    rw [append_blocks] at hp
    split at hp
    · exact (List.mem_append.1 hp).elim (h k p) (hl p)
    · exact h k p hp

theorem code_eq_ok_iff {c : Code EmitError α} {a : α} :
    code c σ = .ok (a, σ₁) ↔ ∃ l, c.Places σ.nextId a l ∧ σ₁ = σ.append l := by
  constructor
  · intro h
    obtain ⟨b, hrun, rfl⟩ := code_eq_ok h
    obtain ⟨l, hl, hb⟩ := exists_places hrun
    exact ⟨l, hl, by rw [GenState.append, ← hb]⟩
  · rintro ⟨l, hl, rfl⟩
    rw [code, hl.run rfl]
    rfl

/-- Instructions are appended to both functions. -/
theorem Mirror.append (h : Mirror gen w M σ σ') (hw : w ≤ w') {l l' : List (ℕ × Inst)}
    (hok : w'.OK (σ.nextId + l.length) (σ'.nextId + l'.length))
    (hb : (σ.append l).toBuilder.OK) (hb' : (σ'.append l').toBuilder.OK)
    (hl : Traced w'.pair (Logged gen w') l l')
    (hN : (∀ p ∈ l', p.2.WF = true) ↔ (∀ p ∈ l, p.2.WF = true) ∧ N) :
    Mirror gen w' (M ∧ N) (σ.append l) (σ'.append l') where
  ok := hok
  built := hb
  built' := hb'
  insertBlock := h.insertBlock
  nblocks := h.nblocks
  traces := by
    have htr := h.traces.mono hw.1 fun _ _ => Logged.mono hw
    constructor <;> intro k <;> rw [GenState.append_blocks, GenState.append_blocks,
      ← h.insertBlock] <;>
      split
    · exact (htr.insts k).append hl
    · exact htr.insts k
    · exact htr.term k
    · exact htr.term k
  legal := by
    rw [GenState.append_legal, GenState.append_legal, h.legal, hN]
    exact and_and_and_comm
  values t := (h.values t).imp fun _ _ hv => hv.mono hw.1
  gepbytes q := (h.gepbytes q).imp fun _ _ hv => hv.mono hw.1
  ctxcasts t := (h.ctxcasts t).imp fun _ _ hv => hv.mono hw.1

/-- The same code on paired values. -/
theorem mirrors_code {c c' : Code EmitError α}
    (h : ∀ w₁, w ≤ w₁ → OneToOne w₁.pair → (renumbers w₁.pair).rel (R w₁) c c') :
    Mirrors gen P w (code c) (code c') True R := by
  intro M σ σ' σ₁ a _ hm hrun
  obtain ⟨l, hl, rfl⟩ := code_eq_ok_iff.1 hrun
  have hle := w.le_grow σ.nextId σ'.nextId l.length
  have hok := hm.ok.grow l.length
  obtain ⟨a', l', hl', hR, hp⟩ := (h _ hle hok.oneToOne).places hl fun k hk =>
    .inr ⟨k, hk, rfl, rfl⟩
  refine ⟨_, a', σ'.append l', hle, code_eq_ok_iff.2 ⟨l', hl', rfl⟩, hm.append hle ?_
    (hl.emits hm.built).ok (hl'.emits hm.built').ok (.of_placedAlike hp) ?_, hR⟩
  · rw [← hp.length_eq]
    exact hok
  · rw [hp.wf_iff, and_iff_left trivial]

/-! ## Blocks -/

theorem GenState.newBlock_blocks (σ : GenState) (k : ℕ) :
    σ.newBlock.func.blocks k = if k = σ.func.nblocks then ⟨[], none⟩ else σ.func.blocks k :=
  σ.toBuilder.createBlock_block k

theorem GenState.newBlock_legal (h : σ.toBuilder.OK) : σ.newBlock.func.Legal ↔ σ.func.Legal := by
  refine forall_congr' fun k => ?_
  rw [GenState.newBlock_blocks]
  split
  · next hk =>
      subst hk
      rw [show σ.func.blocks σ.func.nblocks = ⟨[], none⟩ from h.fresh _ (Nat.le_refl _)]
  · exact Iff.rfl

theorem Mirror.newBlock (h : Mirror gen w M σ σ') : Mirror gen w M σ.newBlock σ'.newBlock where
  ok := h.ok
  built := h.built.createBlock
  built' := h.built'.createBlock
  insertBlock := h.insertBlock
  nblocks := congrArg (· + 1) h.nblocks
  traces := by
    constructor <;> intro k <;> rw [GenState.newBlock_blocks, GenState.newBlock_blocks,
      ← h.nblocks] <;>
      split
    · exact .nil
    · exact h.traces.insts k
    · exact .none
    · exact h.traces.term k
  legal := by rw [GenState.newBlock_legal h.built, GenState.newBlock_legal h.built', h.legal]
  values := h.values
  gepbytes := h.gepbytes
  ctxcasts := h.ctxcasts

theorem GenState.endBlock_blocks (σ : GenState) (t : Term) (n k : ℕ) :
    (σ.endBlock t n).func.blocks k = if k = σ.insertBlock then
      { σ.func.blocks k with term := some t } else σ.func.blocks k := by
  refine (σ.toBuilder.terminate_block t k).trans ?_
  split
  · next h =>
      subst h
      rfl
  · rfl

theorem GenState.endBlock_insts (σ : GenState) (t : Term) (n k : ℕ) :
    ((σ.endBlock t n).func.blocks k).insts = (σ.func.blocks k).insts := by
  rw [GenState.endBlock_blocks]
  split <;> rfl

theorem GenState.endBlock_legal (σ : GenState) (t : Term) (n : ℕ) :
    (σ.endBlock t n).func.Legal ↔ σ.func.Legal :=
  forall_congr' fun k => by rw [GenState.endBlock_insts]

/-- The function after the current block is ended. -/
theorem Mirror.traces_endBlock (h : Mirror gen w M σ σ') {t t' : Term} (n : ℕ)
    (ht : t.Linked (Value.Renumbered w.pair) t') :
    Func.Traces w.pair (Logged gen w) (σ.endBlock t n).func (σ'.endBlock t' n).func := by
  constructor <;> intro k
  · rw [GenState.endBlock_insts, GenState.endBlock_insts]
    exact h.traces.insts k
  · rw [GenState.endBlock_blocks, GenState.endBlock_blocks, ← h.insertBlock]
    split
    · exact .some ht
    · exact h.traces.term k

theorem Mirror.endBlock (h : Mirror gen w M σ σ') {t t' : Term} {n : ℕ}
    (ht : t.Linked (Value.Renumbered w.pair) t') (hn : σ.toBuilder.Waiting n)
    (hn' : σ'.toBuilder.Waiting n) : Mirror gen w M (σ.endBlock t n) (σ'.endBlock t' n) where
  ok := h.ok
  built := h.built.endBlock hn
  built' := h.built'.endBlock hn'
  insertBlock := rfl
  nblocks := h.nblocks
  traces := h.traces_endBlock n ht
  legal := by rw [GenState.endBlock_legal, GenState.endBlock_legal, h.legal]
  values := h.values
  gepbytes := h.gepbytes
  ctxcasts := h.ctxcasts

/-! ## Temporaries -/

theorem mirrors_getRegValue (t : IRTemp) :
    Mirrors gen P w (getRegValue t) (getRegValue t) True SameValue := by
  intro M σ σ' σ₁ v _ hm hrun
  have hv := hm.values t
  unfold getRegValue at hrun ⊢
  generalize σ.values t = o at hv hrun
  generalize σ'.values t = o' at hv
  cases hv with
  | none => cases hrun
  | @some v v' hv =>
      cases hrun
      exact ⟨w, v', _, le_rfl, rfl, ⟨hm.ok, hm.built, hm.built', hm.insertBlock, hm.nblocks,
        hm.traces,
        hm.legal.trans (and_congr_right fun _ => (and_iff_left trivial).symm), hm.values,
          hm.gepbytes,
          hm.ctxcasts⟩, hv⟩

/-- A map in which one more value is recorded on both sides. -/
theorem rel_update {κ : Type} [DecidableEq κ] {S : Value → Value → Prop} {f f' : κ → Option Value}
    (h : ∀ q, Option.Rel S (f q) (f' q)) {v v' : Value} (hv : S v v') (k q : κ) :
    Option.Rel S (Function.update f k (some v) q) (Function.update f' k (some v') q) := by
  rw [Function.update_apply, Function.update_apply]
  split
  · exact .some hv
  · exact h q

theorem mirrors_setRegValue (t : IRTemp) {v v' : Value} (hv : SameValue w v v') :
    Mirrors gen P w (setRegValue t v) (setRegValue t v') True SameThing := by
  intro M σ σ' σ₁ v _ hm hrun
  have ht := hm.values t
  unfold setRegValue at hrun ⊢
  generalize ho : σ.values t = o at ht hrun
  generalize ho' : σ'.values t = o' at ht
  cases ht with
  | some _ => cases hrun
  | none =>
      cases hrun
      exact ⟨w, (), _, le_rfl, rfl, ⟨hm.ok, hm.built, hm.built', hm.insertBlock, hm.nblocks,
        hm.traces,
        hm.legal.trans (and_congr_right fun _ => (and_iff_left trivial).symm),
          rel_update hm.values hv t, hm.gepbytes, hm.ctxcasts⟩, rfl⟩

theorem mirrors_llvmTy_bind {t : IRType} {f f' : Ty → EmitM α}
    (h : ∀ t', vexTy2LLVM t = some t' → Mirrors gen P w (f t') (f' t') N R) :
    Mirrors gen P w (llvmTy t >>= f) (llvmTy t >>= f') N R := by
  unfold llvmTy
  cases ht : vexTy2LLVM t with
  | none => exact mirrors_throw_bind _ _ _ _
  | some t' => exact h t' ht

/-- Several computations in order. -/
theorem mirrors_emitAll {γ : Type} {S : Pairing → α → α → Prop}
    (hS : ∀ w w' a a', w ≤ w' → S w a a' → S w' a a') (l : List γ) {f f' : γ → EmitM α}
    (h : ∀ c ∈ l, ∀ w₁, w ≤ w₁ → Mirrors gen (fun _ => True) w₁ (f c) (f' c) True S) :
    Mirrors gen P w (emitAll (l.map f)) (emitAll (l.map f')) True
      fun w as as' => as.length = l.length ∧ List.Forall₂ (S w) as as' := by
  refine Mirrors.pre (P := fun _ => True) ?_ fun _ _ => trivial
  induction l generalizing w with
  | nil => exact mirrors_pure ⟨rfl, .nil⟩
  | cons c l ih =>
      exact (h c List.mem_cons_self w le_rfl).seq fun w₁ a a' hw ha =>
        (ih fun d hd w₂ hw₂ => h d (List.mem_cons_of_mem c hd) w₂ (hw.trans hw₂)).seq
          fun w₂ as as' hw₂ has => mirrors_pure
            ⟨congrArg (· + 1) has.1, .cons (hS _ _ a a' hw₂ ha) has.2⟩

/-! ## Branches -/

theorem onward_newBlocks (h : σ.toBuilder.OK) : σ.Onward σ.newBlock.newBlock :=
  (onward_newBlock h).trans (onward_newBlock (onward_newBlock h).emits.ok)

/-- The two blocks made before a condition is emitted. -/
theorem waiting_cond {cond : EmitM Value} [Builds cond] {c : Value} (h : σ.toBuilder.OK)
    (hc : cond σ.newBlock.newBlock = .ok (c, σ₁)) :
    σ₁.toBuilder.Waiting σ.func.nblocks ∧ σ₁.toBuilder.Waiting (σ.func.nblocks + 1) := by
  have h₁ := (onward_newBlock h).emits.ok
  have he := (Builds.onward hc (onward_newBlock h₁).emits.ok).emits
  exact ⟨(Builder.Waiting.createBlock h).createBlock_of.emits he,
    (Builder.Waiting.createBlock h₁).emits he⟩

variable {cond cond' : EmitM Value} {body body' : EmitM α} [Builds cond] [Builds cond'] [Builds body]
  [Builds body']

/-- A block entered when the condition holds, up to its end. -/
theorem Mirror.guarded (hm : Mirror gen w M σ σ') {c : Value} {a : α} {σ₂ : GenState}
    (hcond : Mirrors gen (fun _ => True) w cond cond' True SameValue)
    (hc : cond σ.newBlock.newBlock = .ok (c, σ₁))
    (hP : P (σ₁.endBlock (.condBr c σ.func.nblocks (σ.func.nblocks + 1)) σ.func.nblocks))
    (hbody : ∀ w₁, w ≤ w₁ → Mirrors gen P w₁ body body' N R)
    (hb : body (σ₁.endBlock (.condBr c σ.func.nblocks (σ.func.nblocks + 1)) σ.func.nblocks) =
      .ok (a, σ₂)) :
    ∃ w₁ c' σ₁' a' σ₂', w ≤ w₁ ∧ cond' σ'.newBlock.newBlock = .ok (c', σ₁') ∧
      body' (σ₁'.endBlock (.condBr c' σ'.func.nblocks (σ'.func.nblocks + 1)) σ'.func.nblocks) =
        .ok (a', σ₂') ∧ Mirror gen w₁ (M ∧ N) σ₂ σ₂' ∧ R w₁ a a' ∧
          σ₂.toBuilder.Waiting (σ.func.nblocks + 1) ∧ σ₂'.toBuilder.Waiting
            (σ.func.nblocks + 1) := by
  obtain ⟨w₁, c', σ₁', hw, hc', hm₁, hval⟩ := hcond _ _ _ _ _ trivial hm.newBlock.newBlock hc
  have hwait := waiting_cond hm.built hc
  have hwait' := waiting_cond hm.built' hc'
  rw [← hm.nblocks] at hwait' ⊢
  have hm₂ := hm₁.endBlock (t := .condBr c σ.func.nblocks (σ.func.nblocks + 1)) (.condBr _ _ hval)
    hwait.1 hwait'.1
  obtain ⟨w₂, a', σ₂', hw₂, hb', hm₃, hR⟩ := hbody w₁ hw _ _ _ _ _ hP hm₂ hb
  refine ⟨w₂, c', σ₁', a', σ₂', hw.trans hw₂, hc', hb', hm₃.congr ?_, hR,
    (hwait.2.endBlock (Nat.succ_ne_self _)).emits (Builds.onward hb hm₂.built).emits,
    (hwait'.2.endBlock (Nat.succ_ne_self _)).emits (Builds.onward hb' hm₂.built').emits⟩
  rw [and_iff_left trivial]

theorem mirrors_ifThen (hcond : Mirrors gen (fun _ => True) w cond cond' True SameValue)
    (hP : ∀ σ c σ₁, P σ → cond σ.newBlock.newBlock = .ok (c, σ₁) →
      P' (σ₁.endBlock (.condBr c σ.func.nblocks (σ.func.nblocks + 1)) σ.func.nblocks))
    (hbody : ∀ w₁, w ≤ w₁ → Mirrors gen P' w₁ body body' N R) :
    Mirrors gen P w (ifThen cond body) (ifThen cond' body') N R := by
  intro M σ σ' σ₂ a hσ hm hrun
  obtain ⟨c, σ₁, σ₂, hc, hb, rfl⟩ := ifThen_eq_ok hrun
  obtain ⟨w₁, c', σ₁', a', σ₂', hw, hc', hb', hm₂, hR, hn, hn'⟩ :=
    hm.guarded hcond hc (hP σ c σ₁ hσ hc) hbody hb
  refine ⟨w₁, a', _, hw, ifThen_ok hc' hb', ?_, hR⟩
  rw [← hm.nblocks]
  exact hm₂.endBlock (.br _) hn hn'

/-! ## Two alternatives -/

theorem onward_newBlocks₃ (h : σ.toBuilder.OK) : σ.newBlock.newBlock.newBlock.toBuilder.OK :=
  (onward_newBlock (onward_newBlocks h).emits.ok).emits.ok

/-- The three blocks made before a condition is emitted. -/
theorem waiting_cond₃ {c : Value} (h : σ.toBuilder.OK)
    (hc : cond σ.newBlock.newBlock.newBlock = .ok (c, σ₁)) :
    σ₁.toBuilder.Waiting σ.func.nblocks ∧ σ₁.toBuilder.Waiting (σ.func.nblocks + 1) ∧
      σ₁.toBuilder.Waiting (σ.func.nblocks + 2) := by
  have h₁ := (onward_newBlock h).emits.ok
  have h₂ := (onward_newBlock h₁).emits.ok
  have he := (Builds.onward hc (onward_newBlocks₃ h)).emits
  exact ⟨(Builder.Waiting.createBlock h).createBlock_of.createBlock_of.emits he,
    (Builder.Waiting.createBlock h₁).createBlock_of.emits he,
      (Builder.Waiting.createBlock h₂).emits he⟩

abbrev SameSource (w : Pairing) (p p' : Value × ℕ) : Prop := SameValue w p.1 p'.1 ∧ p.2 = p'.2

theorem mirrors_ifThenElse {b : Bool} {first first' second second' : EmitM Value} [Builds first]
    [Builds first'] [Builds second] [Builds second']
    (hcond : Mirrors gen (fun _ => True) w cond cond' True SameValue)
    (hfirst : ∀ w₁, w ≤ w₁ → Mirrors gen (fun _ => True) w₁ first first' True SameValue)
    (hsecond : ∀ w₁, w ≤ w₁ → Mirrors gen (fun _ => True) w₁ second second' True SameValue) :
    Mirrors gen P w (ifThenElse b cond first second) (ifThenElse b cond' first' second') True
      fun w r r' => SameSource w r.1 r'.1 ∧ SameSource w r.2 r'.2 := by
  intro M σ σ' σ₄ r _ hm hrun
  obtain ⟨c, σ₁, x, σ₂, y, σ₃, hc, hx, hy, rfl, rfl⟩ := ifThenElse_eq_ok hrun
  obtain ⟨w₁, c', σ₁', hw, hc', hm₁, hval⟩ :=
    hcond _ _ _ _ _ trivial hm.newBlock.newBlock.newBlock hc
  have hwait := waiting_cond₃ hm.built hc
  have hwait' := waiting_cond₃ hm.built' hc'
  have hn := hm.nblocks
  have hfst : ∀ s : GenState, s.toBuilder.Waiting σ.func.nblocks ∧
      s.toBuilder.Waiting (σ.func.nblocks + 1) ∧ s.toBuilder.Waiting (σ.func.nblocks + 2) →
      s.toBuilder.Waiting (if b then σ.func.nblocks + 1 else σ.func.nblocks) := fun s h => by
    cases b
    · exact h.1
    · exact h.2.1
  rw [← hn] at hwait'
  have hm₂ := hm₁.endBlock (t := .condBr c σ.func.nblocks (σ.func.nblocks + 1)) (.condBr _ _ hval)
    (hfst _ hwait) (hfst _ hwait')
  obtain ⟨w₂, x', σ₂', hw₂, hx', hm₃, hvx⟩ := hfirst w₁ hw _ _ _ _ _ trivial hm₂ hx
  -- the block filled second, and the one after both
  have hsnd : ∀ s s' : GenState, s.toBuilder.Waiting σ.func.nblocks ∧
      s.toBuilder.Waiting (σ.func.nblocks + 1) ∧ s.toBuilder.Waiting (σ.func.nblocks + 2) →
      ∀ t : Term, (s.endBlock t (if b then σ.func.nblocks + 1 else σ.func.nblocks)).Onward s' →
      s'.toBuilder.Waiting (if b then σ.func.nblocks else σ.func.nblocks + 1) ∧
        s'.toBuilder.Waiting (σ.func.nblocks + 2) := fun s s' h t ho => by
    cases b
    · exact ⟨(h.2.1.endBlock (by simp)).emits ho.emits, (h.2.2.endBlock (by simp)).emits ho.emits⟩
    · exact ⟨(h.1.endBlock (by simp)).emits ho.emits, (h.2.2.endBlock (by simp)).emits ho.emits⟩
  have hs := hsnd _ _ hwait _ (Builds.onward hx hm₂.built)
  have hs' := hsnd _ _ hwait' _ (Builds.onward hx' hm₂.built')
  have hm₄ := hm₃.endBlock (t := .br (σ.func.nblocks + 2)) (.br _) hs.1 hs'.1
  obtain ⟨w₃, y', σ₃', hw₃, hy', hm₅, hvy⟩ :=
    hsecond w₂ (hw.trans hw₂) _ _ _ _ _ trivial hm₄ hy
  have hne : σ.func.nblocks + 2 ≠ if b then σ.func.nblocks else σ.func.nblocks + 1 := by
    cases b <;> simp
  have hlast := (hs.2.endBlock hne).emits (Builds.onward hy hm₄.built).emits
  have hlast' := (hs'.2.endBlock hne).emits (Builds.onward hy' hm₄.built').emits
  have hm₆ := hm₅.endBlock (t := .br (σ.func.nblocks + 2)) (.br _) hlast hlast'
  rw [hn] at hx' hy'
  refine ⟨w₃, ((x', σ₂'.insertBlock), (y', σ₃'.insertBlock)), _, (hw.trans hw₂).trans hw₃,
    ifThenElse_ok hc' hx' hy', ?_, ⟨hvx.mono hw₃.1, hm₃.insertBlock⟩, hvy, hm₅.insertBlock⟩
  rw [← hn]
  exact hm₆.congr (by simp only [and_true])

end Rules

end VexLLVM
