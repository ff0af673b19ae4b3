import Mathlib.Data.Nat.Notation

/-!
# Stateful computations that may fail

Partial correctness of computations in `StateT σ (Except ε)`: `Triple P m Q` says
that from a state with `P` the computation, where it succeeds, ends in a result
and a state with `Q`. `Keeps I m` is the case of an invariant.
-/

namespace StateExcept

variable {σ ε α β : Type}

def Triple (P : σ → Prop) (m : StateT σ (Except ε) α) (Q : α → σ → Prop) : Prop :=
  ∀ s, P s → ∀ a t, m s = .ok (a, t) → Q a t

/-- The computation keeps the invariant where it succeeds. -/
def Keeps (I : σ → Prop) (m : StateT σ (Except ε) α) : Prop := Triple I m fun _ => I

variable {P P' I J : σ → Prop} {Q Q' : α → σ → Prop} {R : β → σ → Prop}
  {m : StateT σ (Except ε) α} {f : α → StateT σ (Except ε) β}

theorem bind_eq_ok {s t : σ} {b : β} (h : (m >>= f) s = .ok (b, t)) :
    ∃ a u, m s = .ok (a, u) ∧ f a u = .ok (b, t) := by
  change (m s >>= fun p => f p.1 p.2) = _ at h
  cases hm : m s with
  | error e => rw [hm] at h; cases h
  | ok p => rw [hm] at h; exact ⟨p.1, p.2, rfl, h⟩

theorem bind_ok {s u : σ} {a : α} (h : m s = .ok (a, u)) : (m >>= f) s = f a u := by
  change (m s >>= fun p => f p.1 p.2) = _
  rw [h]
  rfl

theorem bind_error {s : σ} {e : ε} (h : m s = .error e) : (m >>= f) s = .error e := by
  change (m s >>= fun p => f p.1 p.2) = _
  rw [h]
  rfl

theorem get_bind {g : σ → StateT σ (Except ε) β} (s : σ) :
    ((get : StateT σ (Except ε) σ) >>= g) s = g s s := rfl

theorem modify_bind {u : σ → σ} {g : PUnit → StateT σ (Except ε) β} (s : σ) :
    ((modify u : StateT σ (Except ε) PUnit) >>= g) s = g ⟨⟩ (u s) := rfl

theorem map_eq_ok {g : α → β} {s t : σ} {b : β} (h : (g <$> m) s = .ok (b, t)) :
    ∃ a, m s = .ok (a, t) ∧ b = g a := by
  change (m s >>= fun p => pure (g p.1, p.2)) = _ at h
  cases hm : m s with
  | error e => rw [hm] at h; cases h
  | ok p => rw [hm] at h; cases h; exact ⟨p.1, rfl, rfl⟩

theorem map_ok {g : α → β} {s t : σ} {a : α} (h : m s = .ok (a, t)) :
    (g <$> m) s = .ok (g a, t) := by
  change (m s >>= fun p => pure (g p.1, p.2)) = _
  rw [h]
  rfl

theorem Triple.conseq (h : Triple P m Q) (hP : ∀ s, P' s → P s) (hQ : ∀ a s, Q a s → Q' a s) :
    Triple P' m Q' :=
  fun s hs a t e => hQ a t (h s (hP s hs) a t e)

theorem Triple.post (h : Triple P m Q) (hQ : ∀ a s, Q a s → Q' a s) : Triple P m Q' :=
  h.conseq (fun _ => id) hQ

theorem Triple.pre (h : Triple P m Q) (hP : ∀ s, P' s → P s) : Triple P' m Q :=
  h.conseq hP fun _ _ => id

theorem Triple.and (h : Triple P m Q) (h' : Triple P' m Q') :
    Triple (fun s => P s ∧ P' s) m fun a s => Q a s ∧ Q' a s :=
  fun s hs a t e => ⟨h s hs.1 a t e, h' s hs.2 a t e⟩

theorem Triple.bind (h : Triple P m Q) (hf : ∀ a, Triple (Q a) (f a) R) : Triple P (m >>= f) R := by
  intro s hs b t e
  obtain ⟨a, u, h₁, h₂⟩ := bind_eq_ok e
  exact hf a u (h s hs a u h₁) b t h₂

theorem Triple.pure {a : α} (h : ∀ s, P s → Q a s) :
    Triple P (Pure.pure a : StateT σ (Except ε) α) Q := by
  intro s hs b t e
  cases e
  exact h s hs

theorem Triple.throw {e : ε} : Triple P (MonadExcept.throw e : StateT σ (Except ε) α) Q := by
  intro s _ b t h
  cases h

theorem Triple.get {Q : σ → σ → Prop} (h : ∀ s, P s → Q s s) :
    Triple P (MonadState.get : StateT σ (Except ε) σ) Q := by
  intro s hs b t e
  cases e
  exact h s hs

theorem Triple.modify {g : σ → σ} {Q : PUnit → σ → Prop} (h : ∀ s, P s → Q ⟨⟩ (g s)) :
    Triple P (modify g : StateT σ (Except ε) PUnit) Q := by
  intro s hs b t e
  cases e
  exact h s hs

theorem Triple.foldlM {γ : Type} {f : β → γ → StateT σ (Except ε) β}
    {I : β → σ → Prop} (l : List γ) (h : ∀ b, ∀ c ∈ l, Triple (I b) (f b c) I) (b : β) :
    Triple (I b) (l.foldlM f b) I := by
  induction l generalizing b with
  | nil => exact .pure fun _ => id
  | cons c l ih =>
      exact (h b c (by simp)).bind fun b' => ih (fun b c hc => h b c (by simp [hc])) b'

theorem Triple.forM {γ : Type} {f : γ → StateT σ (Except ε) PUnit} (l : List γ)
    (h : ∀ c ∈ l, Keeps I (f c)) : Keeps I (l.forM f) := by
  induction l with
  | nil => exact .pure fun _ => id
  | cons c l ih =>
      exact (h c (by simp)).bind fun _ => ih fun c hc => h c (by simp [hc])

/-! ## Exact failure -/

/-- From a state with `P` the computation fails exactly if `F`, and else ends
in a result and a state with `Q`. -/
def Exact (P : σ → Prop) (m : StateT σ (Except ε) α) (F : Prop) (Q : α → σ → Prop) : Prop :=
  ∀ s, P s → (∀ a t, m s = .ok (a, t) → ¬ F ∧ Q a t) ∧ ∀ e, m s = .error e → F

variable {F F' : Prop}

theorem Exact.conseq (h : Exact P m F Q) (hP : ∀ s, P' s → P s) (hF : F ↔ F')
    (hQ : ∀ a s, Q a s → Q' a s) : Exact P' m F' Q' := by
  intro s hs
  obtain ⟨hok, herr⟩ := h s (hP s hs)
  refine ⟨fun a t ht => ?_, fun e he => hF.1 (herr e he)⟩
  obtain ⟨hf, hq⟩ := hok a t ht
  exact ⟨fun hf' => hf (hF.2 hf'), hQ a t hq⟩

theorem Exact.post (h : Exact P m F Q) (hQ : ∀ a s, Q a s → Q' a s) : Exact P m F Q' :=
  h.conseq (fun _ => id) Iff.rfl hQ

theorem Exact.pre (h : Exact P m F Q) (hP : ∀ s, P' s → P s) : Exact P' m F Q :=
  h.conseq hP Iff.rfl fun _ _ => id

theorem bind_eq_error {s : σ} {e : ε} (h : (m >>= f) s = .error e) :
    m s = .error e ∨ ∃ a u, m s = .ok (a, u) ∧ f a u = .error e := by
  change (m s >>= fun p => f p.1 p.2) = _ at h
  cases hm : m s with
  | error e' =>
      rw [hm] at h
      cases h
      exact .inl rfl
  | ok p =>
      rw [hm] at h
      exact .inr ⟨p.1, p.2, rfl, h⟩

theorem Exact.bind (h : Exact P m F Q) (hf : ∀ a, Exact (Q a) (f a) F' R) :
    Exact P (m >>= f) (F ∨ F') R := by
  intro s hs
  constructor
  · intro b t e
    obtain ⟨a, u, h₁, h₂⟩ := bind_eq_ok e
    obtain ⟨hF, hQ⟩ := (h s hs).1 a u h₁
    obtain ⟨hF', hR⟩ := (hf a u hQ).1 b t h₂
    exact ⟨not_or.2 ⟨hF, hF'⟩, hR⟩
  · intro e he
    rcases bind_eq_error he with he | ⟨a, u, h₁, h₂⟩
    · exact .inl ((h s hs).2 e he)
    · exact .inr ((hf a u ((h s hs).1 a u h₁).2).2 e h₂)

theorem Exact.pure {a : α} (h : ∀ s, P s → Q a s) :
    Exact P (Pure.pure a : StateT σ (Except ε) α) False Q := by
  refine fun s hs => ⟨fun b t e => ?_, fun e he => ?_⟩
  · cases e
    exact ⟨id, h s hs⟩
  · cases he

theorem Exact.throw {e : ε} : Exact P (MonadExcept.throw e : StateT σ (Except ε) α) True Q := by
  refine fun s hs => ⟨fun b t h => ?_, fun _ _ => trivial⟩
  cases h

/-- A computation that reads the state first. -/
theorem Exact.get_bind {g : σ → StateT σ (Except ε) α}
    (h : ∀ s, P s → Exact (fun t => t = s) (g s) F Q) :
    Exact P ((get : StateT σ (Except ε) σ) >>= g) F Q :=
  fun s hs => h s hs s rfl

end StateExcept
