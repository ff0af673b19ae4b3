import VexLLVM.Cache.Represent

/-!
# The course of a prefetch

`getFPtr` asks for the constant exits of the functions it goes through one after the
other. `AsksFPtr` says for which exit it asks, and in which state. What one such
question keeps, the prefetch keeps; what has happened at one of them, and is kept,
is still so at the end.
-/

namespace VexLLVM

open StateExcept

namespace VexJITCache

variable (gen : GenLLVM)

/-- Of the exits of a list, the one that is asked for in a state. -/
inductive AsksExit : List GuestPtr → Fetch → CacheState → GuestPtr → CacheState → Prop where
  | head {es : List GuestPtr} {w : Fetch} {s : CacheState} {e : GuestPtr} (h : e ∉ s.jit.map) :
      AsksExit (e :: es) w s e s
  | tail {es : List GuestPtr} {w w' : Fetch} {s s' u : CacheState} {c e : GuestPtr}
      (h : fetchExit gen w c s = .ok (w', s')) (rest : AsksExit es w' s' e u) :
      AsksExit (c :: es) w s e u

/-- The same for the rounds of the loop over the work set. -/
inductive AsksLoop : ℕ → Fetch → CacheState → GuestPtr → CacheState → Prop where
  | here {n : ℕ} {w : Fetch} {f : Function} {l : List Function} {s u : CacheState} {e : GuestPtr}
      (hw : w.workset = f :: l) (h : AsksExit gen (getRetAddrs f) w s e u) :
      AsksLoop (n + 1) w s e u
  | next {n : ℕ} {w w' : Fetch} {f : Function} {l : List Function} {s s' u : CacheState}
      {e : GuestPtr} (hw : w.workset = f :: l)
      (h : (getRetAddrs f).foldlM (fetchExit gen) w s = .ok (w', s'))
      (more : ¬2 < (f :: w'.complete).length + w'.workset.tail.length)
      (rest : AsksLoop n ⟨w'.fnames, f :: w'.complete, w'.workset.tail⟩ s' e u) :
      AsksLoop (n + 1) w s e u

/-- `getFPtr(host, a)`, called in state `s`, asks for the exit `e` in state `u`. -/
def AsksFPtr (host : HostPtr) (a : GuestPtr) (s : CacheState) (e : GuestPtr) (u : CacheState) :
    Prop :=
  host = a ∧ ∃ s₁ f s₂, getCachedFPtr a s = .ok (none, s₁) ∧
    getFunc gen host a s₁ = .ok (some f, s₂) ∧ AsksLoop gen 3 ⟨[], [], [f]⟩ s₂ e u

variable {gen} {I : CacheState → Prop} {K : GuestPtr × FnName → Prop}

/-- An exit that is not compiled is asked for, and its function may be noted. -/
theorem fetchExit_eq_ok {w w' : Fetch} {c : GuestPtr} {s t : CacheState}
    (h : fetchExit gen w c s = .ok (w', t)) :
    (c ∈ s.jit.map ∧ w' = w ∧ t = s) ∨ (c ∉ s.jit.map ∧ ∃ r, getFunc gen c c s = .ok (r, t) ∧
      ∀ q ∈ w'.fnames, q ∈ w.fnames ∨ ∃ f, r = some f ∧ q = (c, f.name)) := by
  unfold fetchExit at h
  rw [get_bind] at h
  by_cases hm : c ∈ s.jit.map
  · rw [if_pos hm] at h
    cases h
    exact .inl ⟨hm, rfl, rfl⟩
  · rw [if_neg hm] at h
    obtain ⟨o, u, h₁, k₁⟩ := bind_eq_ok h
    refine .inr ⟨hm, o, ?_⟩
    cases o with
    | none =>
        cases k₁
        exact ⟨h₁, fun q hq => .inl hq⟩
    | some f =>
        dsimp only at k₁
        split at k₁
        · cases k₁
          exact ⟨h₁, fun q hq => .inl hq⟩
        · cases k₁
          refine ⟨h₁, fun q hq => ?_⟩
          rcases List.mem_cons.1 hq with rfl | hq
          · exact .inr ⟨f, rfl, rfl⟩
          · exact .inl hq

theorem fetchExits_along {es : List GuestPtr} {w w' : Fetch} {s t : CacheState}
    (hI : ∀ e u r v, AsksExit gen es w s e u → I u → getFunc gen e e u = .ok (r, v) →
      I v ∧ ∀ f, r = some f → K (e, f.name))
    (hs : I s) (hw : ∀ q ∈ w.fnames, K q) (h : es.foldlM (fetchExit gen) w s = .ok (w', t)) :
    I t ∧ ∀ q ∈ w'.fnames, K q := by
  induction es generalizing w s with
  | nil =>
      cases h
      exact ⟨hs, hw⟩
  | cons c es ih =>
      obtain ⟨w₁, s₁, h₁, h₂⟩ := bind_eq_ok h
      have step : I s₁ ∧ ∀ q ∈ w₁.fnames, K q := by
        rcases fetchExit_eq_ok h₁ with ⟨-, rfl, rfl⟩ | ⟨hm, r, hr, hq⟩
        · exact ⟨hs, hw⟩
        · obtain ⟨hs₁, hK⟩ := hI c s r s₁ (.head hm) hs hr
          refine ⟨hs₁, fun q hq' => ?_⟩
          rcases hq q hq' with hq | ⟨f, hf, rfl⟩
          · exact hw q hq
          · exact hK f hf
      exact ih (fun e u r v ha => hI e u r v (.tail h₁ ha)) step.1 step.2 h₂

theorem fetchLoop_along {n : ℕ} {w w' : Fetch} {s t : CacheState}
    (hI : ∀ e u r v, AsksLoop gen n w s e u → I u → getFunc gen e e u = .ok (r, v) →
      I v ∧ ∀ f, r = some f → K (e, f.name))
    (hs : I s) (hw : ∀ q ∈ w.fnames, K q) (h : fetchLoop gen n w s = .ok (w', t)) :
    I t ∧ ∀ q ∈ w'.fnames, K q := by
  induction n generalizing w s with
  | zero =>
      cases h
      exact ⟨hs, hw⟩
  | succ n ih =>
      unfold fetchLoop at h
      cases hwork : w.workset with
      | nil =>
          rw [hwork] at h
          cases h
          exact ⟨hs, hw⟩
      | cons f l =>
          rw [hwork] at h
          obtain ⟨w₁, s₁, h₁, h₂⟩ := bind_eq_ok h
          obtain ⟨hs₁, hw₁⟩ := fetchExits_along (fun e u r v ha =>
            hI e u r v (.here hwork ha)) hs hw h₁
          dsimp only at h₂
          split at h₂
          · cases h₂
            exact ⟨hs₁, hw₁⟩
          · next more => exact ih (fun e u r v ha => hI e u r v (.next hwork h₁ more ha)) hs₁ hw₁ h₂

/-- What each question of a prefetch keeps, the prefetch keeps, and what it gives for
the name it notes, all noted names have. -/
theorem fetch_along (I : CacheState → Prop) (K : GuestPtr × FnName → Prop) {host : HostPtr}
    {a : GuestPtr} {s u : CacheState} {r : Function × List (GuestPtr × FnName)}
    (h : Fetches gen host a s r u)
    (h₀ : ∀ s₁ s₂, getCachedFPtr a s = .ok (none, s₁) → getFunc gen host a s₁ = .ok (some r.1, s₂) →
      I s₂)
    (hI : ∀ e u q v, AsksFPtr gen host a s e u → I u → getFunc gen e e u = .ok (q, v) →
      I v ∧ ∀ f, q = some f → K (e, f.name)) :
    I u ∧ ∀ q ∈ r.2, K q := by
  obtain ⟨s₁, h₁, h₂⟩ := h
  obtain ⟨o, s₂, h₃, h₄⟩ := bind_eq_ok h₂
  cases o with
  | none => cases h₄
  | some f =>
      obtain ⟨L, s₃, h₅, h₆⟩ := bind_eq_ok h₄
      cases h₆
      have hs₂ : I s₂ := h₀ s₁ s₂ h₁ h₃
      unfold fetchExits at h₅
      split at h₅
      · next ha =>
          obtain ⟨w, s₄, h₇, h₈⟩ := bind_eq_ok h₅
          cases h₈
          obtain ⟨hu, hw⟩ := fetchLoop_along
            (fun e u q v hl => hI e u q v ⟨ha, s₁, f, s₂, h₁, h₃, hl⟩) hs₂ (by simp) h₇
          exact ⟨hu, fun q hq => hw q (by simpa using hq)⟩
      · cases h₅
        exact ⟨hs₂, by simp⟩

section After

variable (hkeep : ∀ e u r v, I u → getFunc gen e e u = .ok (r, v) → I v)
include hkeep

theorem fetchExits_keep {es : List GuestPtr} {w w' : Fetch} {s t : CacheState} (hs : I s)
    (h : es.foldlM (fetchExit gen) w s = .ok (w', t)) : I t := by
  have hK : ∀ q ∈ w.fnames, (fun _ => True) q := fun _ _ => trivial
  exact (fetchExits_along (fun e u r v _ hu hg => ⟨hkeep e u r v hu hg, fun _ _ => trivial⟩)
    hs hK h).1

theorem fetchLoop_keep {n : ℕ} {w w' : Fetch} {s t : CacheState} (hs : I s)
    (h : fetchLoop gen n w s = .ok (w', t)) : I t := by
  have hK : ∀ q ∈ w.fnames, (fun _ => True) q := fun _ _ => trivial
  exact (fetchLoop_along (fun e u r v _ hu hg => ⟨hkeep e u r v hu hg, fun _ _ => trivial⟩)
    hs hK h).1

theorem asksExit_keeps {es : List GuestPtr} {w : Fetch} {s u : CacheState} {e : GuestPtr}
    (ha : AsksExit gen es w s e u) (hs : I s) : I u := by
  induction ha with
  | head hm => exact hs
  | @tail es w w' s s' u c e h rest ih =>
      refine ih ?_
      rcases fetchExit_eq_ok h with ⟨-, -, rfl⟩ | ⟨-, r, hr, -⟩
      · exact hs
      · exact hkeep c s r s' hs hr

theorem asksLoop_keeps {n : ℕ} {w : Fetch} {s u : CacheState} {e : GuestPtr}
    (ha : AsksLoop gen n w s e u) (hs : I s) : I u := by
  induction ha with
  | here hw hx => exact asksExit_keeps hkeep hx hs
  | next hw hx more rest ih => exact ih (fetchExits_keep hkeep hs hx)

/-- What each question keeps holds in the states of the questions. -/
theorem asks_keeps {host : HostPtr} {a e : GuestPtr} {s u : CacheState}
    (ha : AsksFPtr gen host a s e u)
    (h₀ : ∀ s₁ f s₂, getCachedFPtr a s = .ok (none, s₁) →
      getFunc gen host a s₁ = .ok (some f, s₂) → I s₂) : I u := by
  obtain ⟨-, s₁, f, s₂, h₁, h₂, hl⟩ := ha
  exact asksLoop_keeps hkeep hl (h₀ s₁ f s₂ h₁ h₂)

theorem fetchExits_after {es : List GuestPtr} {w w' : Fetch} {s t u : CacheState} {e : GuestPtr}
    (ha : AsksExit gen es w s e u) (hI : ∀ r v, getFunc gen e e u = .ok (r, v) → I v)
    (h : es.foldlM (fetchExit gen) w s = .ok (w', t)) : I t := by
  induction ha with
  | @head es w s e hm =>
      obtain ⟨w₁, s₁, h₁, h₂⟩ := bind_eq_ok h
      have hs₁ : I s₁ := by
        rcases fetchExit_eq_ok h₁ with ⟨hm', -, -⟩ | ⟨-, r, hr, -⟩
        · exact absurd hm' hm
        · exact hI r s₁ hr
      exact fetchExits_keep hkeep hs₁ h₂
  | tail h₁ rest ih =>
      obtain ⟨w₁, s₁, h₁', h₂⟩ := bind_eq_ok h
      rw [h₁] at h₁'
      cases h₁'
      exact ih hI h₂

theorem fetchLoop_after {n : ℕ} {w w' : Fetch} {s t u : CacheState} {e : GuestPtr}
    (ha : AsksLoop gen n w s e u) (hI : ∀ r v, getFunc gen e e u = .ok (r, v) → I v)
    (h : fetchLoop gen n w s = .ok (w', t)) : I t := by
  induction ha with
  | here hw hx =>
      unfold fetchLoop at h
      rw [hw] at h
      obtain ⟨w₁, s₁, h₁, h₂⟩ := bind_eq_ok h
      have hs₁ : I s₁ := fetchExits_after hkeep hx hI h₁
      dsimp only at h₂
      split at h₂
      · cases h₂
        exact hs₁
      · exact fetchLoop_keep hkeep hs₁ h₂
  | next hw hx more rest ih =>
      unfold fetchLoop at h
      rw [hw] at h
      obtain ⟨w₁, s₁, h₁, h₂⟩ := bind_eq_ok h
      rw [hx] at h₁
      cases h₁
      dsimp only at h₂
      rw [if_neg more] at h₂
      exact ih hI h₂

/-- What holds after one question of a prefetch, and is kept by each of them, holds at
the end. -/
theorem fetch_after {host : HostPtr} {a e : GuestPtr} {s t u : CacheState}
    {r : Function × List (GuestPtr × FnName)} (ha : AsksFPtr gen host a s e u)
    (hI : ∀ q v, getFunc gen e e u = .ok (q, v) → I v) (h : Fetches gen host a s r t) : I t := by
  obtain ⟨hhost, s₁, f, s₂, h₁, h₂, hl⟩ := ha
  obtain ⟨s₁', h₁', h₃⟩ := h
  rw [h₁] at h₁'
  cases h₁'
  obtain ⟨o, s₂', h₂', h₄⟩ := bind_eq_ok h₃
  rw [h₂] at h₂'
  cases h₂'
  obtain ⟨L, s₃, h₅, h₆⟩ := bind_eq_ok h₄
  cases h₆
  unfold fetchExits at h₅
  rw [if_pos hhost] at h₅
  obtain ⟨w, s₄, h₇, h₈⟩ := bind_eq_ok h₅
  cases h₈
  exact fetchLoop_after hkeep hl hI h₇

end After

end VexJITCache

end VexLLVM
