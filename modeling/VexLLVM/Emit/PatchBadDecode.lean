import Mathlib.Data.BitVec
import Mathlib.Data.List.Basic
import Mathlib.Data.Nat.Find

/-!
# Code that does not decode

`VexXlate::xlate` and `patchBadDecode` call each other: where the decoder gives up on
the code of an X86 guest, the first bytes `cd 2e` of a window of 128 bytes are taken for
a system call of another kind, and a copy of the window with `cd 80` in their place is
translated instead. The copy is a buffer of 128 bytes, and is searched as the guest's
code was.

The decoder is a parameter. It answers for the bytes it is given, which are all of the
guest's code, or the buffer and nothing behind it.
-/

namespace VexLLVM

inductive VexArch where
  | X86 | AMD64 | ARM | MIPS32
  deriving DecidableEq, Repr

/-- Code to translate, byte by byte; nothing where it is outside of the buffer. -/
abbrev CodeBytes := ℕ → Option (BitVec 8)

/-- What the decoder ends with: it cannot read the code, it gives up on it, or it hands
over a block, with where its instructions start and their lengths, all of which can be
handled or not. -/
inductive Decoded where
  | accessFail
  | noDecode
  | block (insts : List (ℕ × ℕ)) (handled : Bool)
  deriving DecidableEq, Repr

abbrev Decoder := ℕ → CodeBytes → Decoded

/-- A block that was translated, and the bytes it was translated from. -/
structure Translation where
  code : CodeBytes
  insts : List (ℕ × ℕ)

inductive XlateError where
  | outOfBounds
  | tooDeep
  deriving DecidableEq, Repr

def patchWindow : ℕ := 128

namespace VexXlate

def readByte (gb : CodeBytes) (i : ℕ) : Except XlateError (BitVec 8) :=
  match gb i with
  | some x => .ok x
  | none => .error .outOfBounds

def findPair (gb : CodeBytes) : ℕ → ℕ → Except XlateError (Option ℕ)
  | _, 0 => .ok none
  | i, k + 1 => do
    if (← readByte gb i) = 0xcd then
      if (← readByte gb (i + 1)) = 0x2e then return some i
    findPair gb (i + 1) k

/-- `dumb_buf` after the copy, with its byte `i + 1` replaced. -/
def patchedBuf (gb : CodeBytes) (i : ℕ) : CodeBytes := fun j =>
  if j < patchWindow then if j = i + 1 then some 0x80 else gb j else none

def patchBadDecode (arch : VexArch) (xlate : CodeBytes → Except XlateError (Option Translation))
    (gb : CodeBytes) : Except XlateError (Option Translation) := do
  if arch = .X86 then
    match ← findPair gb 0 patchWindow with
    | some i => if i + 1 < patchWindow then xlate (patchedBuf gb i) else throw .outOfBounds
    | none => return none
  else return none

/-- `xlate`, with the depth it is called at, and no more than `fuel` calls from there. -/
def xlateBytes (arch : VexArch) (decode : Decoder) :
    ℕ → ℕ → CodeBytes → Except XlateError (Option Translation)
  | 0, _, _ => .error .tooDeep
  | fuel + 1, depth, gb =>
      match decode depth gb with
      | .accessFail => .ok none
      | .noDecode => patchBadDecode arch (xlateBytes arch decode fuel (depth + 1)) gb
      | .block insts handled => .ok (if handled then some ⟨gb, insts⟩ else none)

/-! ## The pairs of the window -/

def guestCode (g : ℕ → BitVec 8) : CodeBytes := fun j => some (g j)

/-- The bytes at the offset are `int 0x2e`. -/
def pairAt (g : ℕ → BitVec 8) (i : ℕ) : Bool := g i == 0xcd && g (i + 1) == 0x2e

def pairsBefore (g : ℕ → BitVec 8) (n : ℕ) : ℕ := ((List.range n).filter (pairAt g)).length

def pairs (g : ℕ → BitVec 8) : ℕ := pairsBefore g patchWindow

/-- The pairs that lie in the buffer. -/
def innerPairs (g : ℕ → BitVec 8) : ℕ := pairsBefore g (patchWindow - 1)

/-- The pair at the offset is one of the first `k`, and lies in the buffer. -/
def patchedAt (g : ℕ → BitVec 8) (k i : ℕ) : Bool :=
  i + 1 < patchWindow && pairAt g i && pairsBefore g i < k

def patchFirst (g : ℕ → BitVec 8) (k : ℕ) : ℕ → BitVec 8
  | 0 => g 0
  | j + 1 => if patchedAt g k j then 0x80 else g (j + 1)

/-- What the decoder is given at the depth `k`. -/
def codeAt (g : ℕ → BitVec 8) : ℕ → CodeBytes
  | 0 => guestCode g
  | k + 1 => fun j => if j < patchWindow then some (patchFirst g (k + 1) j) else none

section Pairs

variable {g : ℕ → BitVec 8} {i j k n : ℕ}

theorem pairsBefore_succ :
    pairsBefore g (n + 1) = pairsBefore g n + if pairAt g n then 1 else 0 := by
  rw [pairsBefore, List.range_succ, List.filter_append, List.length_append, pairsBefore]
  cases h : pairAt g n <;> simp [h]

theorem pairsBefore_mono (h : i ≤ j) : pairsBefore g i ≤ pairsBefore g j := by
  induction h with
  | refl => exact Nat.le_refl _
  | step _ ih => exact ih.trans (by rw [pairsBefore_succ]; exact Nat.le_add_right _ _)

theorem pairsBefore_lt (hi : pairAt g i = true) (h : i < j) :
    pairsBefore g i < pairsBefore g j := by
  have := pairsBefore_mono (g := g) (Nat.succ_le_of_lt h)
  rw [pairsBefore_succ, if_pos hi] at this
  omega

/-- Pairs are told apart by how many are before them. -/
theorem pair_unique (hi : pairAt g i = true) (hj : pairAt g j = true)
    (h : pairsBefore g i = pairsBefore g j) : i = j := by
  rcases Nat.lt_trichotomy i j with hlt | heq | hgt
  · have := pairsBefore_lt hi hlt
    omega
  · exact heq
  · have := pairsBefore_lt hj hgt
    omega

/-- The pair with `k` before it. -/
theorem exists_pair (h : k < pairsBefore g n) :
    ∃ i < n, pairAt g i = true ∧ pairsBefore g i = k := by
  induction n with
  | zero => cases h
  | succ n ih =>
      by_cases hk : k < pairsBefore g n
      · obtain ⟨i, hi, hp⟩ := ih hk
        exact ⟨i, Nat.lt_succ_of_lt hi, hp⟩
      · rw [pairsBefore_succ] at h
        cases hp : pairAt g n with
        | true =>
            rw [hp, if_pos rfl] at h
            exact ⟨n, Nat.lt_succ_self n, hp, by omega⟩
        | false =>
            rw [hp] at h
            exact absurd (by simpa using h) hk

theorem patchFirst_zero : patchFirst g 0 = g := by
  funext j
  cases j with
  | zero => rfl
  | succ j => simp [patchFirst, patchedAt]

theorem patchedAt_iff : patchedAt g k i = true ↔
    i + 1 < patchWindow ∧ pairAt g i = true ∧ pairsBefore g i < k := by
  simp [patchedAt, and_assoc]

/-- Patching neither makes nor takes away a first byte of a pair. -/
theorem patchFirst_eq_cd : patchFirst g k j = 0xcd ↔ g j = 0xcd := by
  cases j with
  | zero => rfl
  | succ j =>
      rw [patchFirst]
      split
      · next h =>
          have hg : g (j + 1) = 0x2e := by
            have hp := (patchedAt_iff.1 h).2.1
            simp only [pairAt, Bool.and_eq_true, beq_iff_eq] at hp
            exact hp.2
          rw [hg]
          decide
      · rfl

/-- The pairs that are left. -/
theorem pairAt_patchFirst (hi : i + 1 < patchWindow) :
    pairAt (patchFirst g k) i = true ↔ pairAt g i = true ∧ k ≤ pairsBefore g i := by
  have hpair (f : ℕ → BitVec 8) : pairAt f i = true ↔ f i = 0xcd ∧ f (i + 1) = 0x2e := by
    simp [pairAt]
  rw [hpair, patchFirst_eq_cd, patchFirst]
  by_cases hp : patchedAt g k i = true
  · rw [if_pos hp]
    have hlt := (patchedAt_iff.1 hp).2.2
    exact ⟨fun h => absurd h.2 (by decide), fun h => absurd h.2 (by omega)⟩
  · rw [if_neg hp, hpair]
    refine ⟨fun h => ⟨h, ?_⟩, fun h => h.1⟩
    by_contra hlt
    exact hp (patchedAt_iff.2 ⟨hi, (hpair g).2 h, by omega⟩)

/-- The first pair that is left is the one to patch next. -/
theorem patchFirst_succ (hi : i + 1 < patchWindow) (hp : pairAt g i = true)
    (hk : pairsBefore g i = k) :
    patchFirst g (k + 1) j = if j = i + 1 then 0x80 else patchFirst g k j := by
  cases j with
  | zero => rfl
  | succ j =>
      rw [patchFirst, patchFirst]
      by_cases hj : j = i
      · subst hj
        rw [if_pos rfl, if_pos (patchedAt_iff.2 ⟨hi, hp, by omega⟩)]
      · have hiff : patchedAt g (k + 1) j = patchedAt g k j := by
          rw [Bool.eq_iff_iff, patchedAt_iff, patchedAt_iff]
          refine and_congr_right fun _ => and_congr_right fun hpj => ?_
          have hne : pairsBefore g j ≠ k := fun h => hj (pair_unique hpj hp (h.trans hk.symm))
          omega
        rw [hiff, if_neg (by omega : ¬j + 1 = i + 1)]

end Pairs

section Scan

variable {gb : CodeBytes} {b g : ℕ → BitVec 8} {a i k m n : ℕ}

/-- One turn of the loop, where both bytes can be read. -/
theorem findPair_succ {x y : BitVec 8} (hx : gb a = some x) (hy : gb (a + 1) = some y) :
    findPair gb a (n + 1) =
      if x = 0xcd ∧ y = 0x2e then .ok (some a) else findPair gb (a + 1) n := by
  have hx' : readByte gb a = .ok x := by rw [readByte, hx]
  have hy' : readByte gb (a + 1) = .ok y := by rw [readByte, hy]
  rw [findPair, hx', hy']
  change (if x = 0xcd then if y = 0x2e then Except.ok (some a) else findPair gb (a + 1) n
    else findPair gb (a + 1) n) = _
  by_cases hcd : x = 0xcd
  · by_cases h2e : y = 0x2e
    · rw [if_pos hcd, if_pos h2e, if_pos ⟨hcd, h2e⟩]
    · rw [if_pos hcd, if_neg h2e, if_neg fun h => h2e h.2]
  · rw [if_neg hcd, if_neg fun h => hcd h.1]

theorem pairAt_iff : pairAt b a = true ↔ b a = 0xcd ∧ b (a + 1) = 0x2e := by
  simp [pairAt]

/-- Offsets without a pair are passed over. -/
theorem findPair_skip (hgb : ∀ j < patchWindow, gb j = some (b j)) (hm : a + m < patchWindow)
    (h : ∀ j < m, pairAt b (a + j) = false) : findPair gb a (m + n) = findPair gb (a + m) n := by
  induction m generalizing a with
  | zero => rw [Nat.zero_add, Nat.add_zero]
  | succ m ih =>
      have h₀ : pairAt b a = false := h 0 (Nat.succ_pos m)
      have hs := ih (a := a + 1) (by omega) fun j hj => by
        have := h (j + 1) (Nat.succ_lt_succ hj)
        rwa [Nat.add_comm j 1, ← Nat.add_assoc] at this
      have heq : m + 1 + n = m + n + 1 := by omega
      have heq' : a + (m + 1) = a + 1 + m := by omega
      rw [← Bool.not_eq_true, pairAt_iff] at h₀
      rw [heq, heq', ← hs, findPair_succ (hgb a (by omega)) (hgb (a + 1) (by omega)), if_neg h₀]

/-- The first pair in the buffer is found. -/
theorem findPair_of_first (hgb : ∀ j < patchWindow, gb j = some (b j)) (hi : i + 1 < patchWindow)
    (hp : pairAt b i = true) (h : ∀ j < i, pairAt b j = false) :
    findPair gb 0 patchWindow = .ok (some i) := by
  have hw : patchWindow = i + (patchWindow - i - 1 + 1) := by omega
  rw [hw, findPair_skip hgb (by omega) (by simpa using h), Nat.zero_add,
    findPair_succ (hgb i (by omega)) (hgb (i + 1) hi), if_pos (pairAt_iff.1 hp)]

/-- Without a pair in the buffer, the byte behind it is looked at if its last one starts a
pair. -/
theorem findPair_of_none (hgb : ∀ j < patchWindow, gb j = some (b j))
    (h : ∀ j, j + 1 < patchWindow → pairAt b j = false) :
    findPair gb 0 patchWindow = findPair gb 127 1 :=
  findPair_skip (m := 127) (n := 1) hgb (by decide) fun j hj => by
    rw [Nat.zero_add]
    exact h j (by unfold patchWindow; omega)

theorem codeAt_of_lt {j : ℕ} (hj : j < patchWindow) : codeAt g k j = some (patchFirst g k j) := by
  cases k with
  | zero => rw [patchFirst_zero]; rfl
  | succ k => exact if_pos hj

end Scan

section Recursion

variable {decode : Decoder} {g : ℕ → BitVec 8} {k s fuel : ℕ}
  {xlate : CodeBytes → Except XlateError (Option Translation)}

/-- While a pair is left, one more is patched. -/
theorem patchBadDecode_of_lt (hk : k < innerPairs g) :
    patchBadDecode .X86 xlate (codeAt g k) = xlate (codeAt g (k + 1)) := by
  obtain ⟨i, hi, hp, hrank⟩ := exists_pair hk
  have hi' : i + 1 < patchWindow := by unfold patchWindow at hi ⊢; omega
  have hfirst : findPair (codeAt g k) 0 patchWindow = .ok (some i) := by
    refine findPair_of_first (fun j => codeAt_of_lt) hi'
      ((pairAt_patchFirst hi').2 ⟨hp, hrank.ge⟩) fun j hj => ?_
    rw [← Bool.not_eq_true, pairAt_patchFirst (by omega)]
    rintro ⟨hpj, hle⟩
    have := pairsBefore_lt hpj hj
    omega
  have hbuf : patchedBuf (codeAt g k) i = codeAt g (k + 1) := by
    funext j
    by_cases hj : j < patchWindow
    · rw [patchedBuf, if_pos hj, codeAt_of_lt hj, codeAt_of_lt hj, patchFirst_succ hi' hp hrank]
      split <;> rfl
    · exact (if_neg hj).trans (if_neg hj).symm
  rw [patchBadDecode, if_pos rfl, hfirst]
  change (if i + 1 < patchWindow then xlate (patchedBuf (codeAt g k) i) else _) = _
  rw [if_pos hi', hbuf]

/-- With no pair left, the last byte of the window decides. -/
theorem patchBadDecode_of_eq (hk : k = innerPairs g) :
    patchBadDecode .X86 xlate (codeAt g k) =
      if g 127 = 0xcd ∧ (0 < k ∨ g 128 = 0x2e) then .error .outOfBounds else .ok none := by
  have hnone : findPair (codeAt g k) 0 patchWindow = findPair (codeAt g k) 127 1 := by
    refine findPair_of_none (fun j => codeAt_of_lt) fun j hj => ?_
    rw [← Bool.not_eq_true, pairAt_patchFirst hj]
    rintro ⟨hp, hle⟩
    have hlt : j < patchWindow - 1 := by omega
    have := pairsBefore_lt hp hlt
    unfold innerPairs at hk
    omega
  have h127 : readByte (codeAt g k) 127 = .ok (patchFirst g k 127) := by
    rw [readByte, codeAt_of_lt (by decide)]
  rw [patchBadDecode, if_pos rfl, hnone]
  by_cases hcd : g 127 = 0xcd
  · have hcd' : patchFirst g k 127 = 0xcd := patchFirst_eq_cd.2 hcd
    cases k with
    | zero =>
        have h128 : codeAt g 0 (127 + 1) = some (g 128) := rfl
        rw [findPair_succ (codeAt_of_lt (by decide)) h128, hcd']
        by_cases h2e : g 128 = 0x2e
        · rw [if_pos ⟨rfl, h2e⟩, if_pos ⟨hcd, .inr h2e⟩]
          rfl
        · rw [if_neg fun h => h2e h.2, if_neg fun h => h2e (h.2.resolve_left (Nat.lt_irrefl 0))]
          rfl
    | succ k =>
        have h128 : readByte (codeAt g (k + 1)) (127 + 1) = .error .outOfBounds := rfl
        rw [findPair, h127, hcd', h128, if_pos ⟨hcd, .inl (Nat.succ_pos k)⟩]
        rfl
  · have hcd' : patchFirst g k 127 ≠ 0xcd := fun h => hcd (patchFirst_eq_cd.1 h)
    rw [findPair, h127, if_neg fun h => hcd h.1]
    change (if patchFirst g k 127 = 0xcd then _ else findPair _ _ 0) >>= _ = _
    rw [if_neg hcd']
    rfl

theorem xlateBytes_noDecode (hd : decode k (codeAt g k) = .noDecode) :
    xlateBytes .X86 decode (fuel + 1) k (codeAt g k) =
      patchBadDecode .X86 (xlateBytes .X86 decode fuel (k + 1)) (codeAt g k) := by
  rw [xlateBytes, hd]

/-- While the decoder gives up, the recursion goes on with the pairs patched so far. -/
theorem xlateBytes_add (fuel : ℕ) (hk : s + k ≤ innerPairs g)
    (hd : ∀ l < k, decode (s + l) (codeAt g (s + l)) = .noDecode) :
    xlateBytes .X86 decode (fuel + k) s (codeAt g s) =
      xlateBytes .X86 decode fuel (s + k) (codeAt g (s + k)) := by
  induction k generalizing s with
  | zero => rfl
  | succ k ih =>
      have hs := ih (s := s + 1) (by omega) fun l hl => by
        have := hd (l + 1) (Nat.succ_lt_succ hl)
        rwa [Nat.add_comm l 1, ← Nat.add_assoc] at this
      have heq : s + 1 + k = s + (k + 1) := by omega
      rw [heq] at hs
      have h₀ : decode s (codeAt g s) = .noDecode := hd 0 (Nat.succ_pos k)
      rw [← Nat.add_assoc, xlateBytes_noDecode h₀, patchBadDecode_of_lt (by omega), hs]

/-- The recursion ends, after no more turns than there are pairs, without an access
outside of the buffer, exactly if the window does not end in the middle of a pair, or
what is there decodes before it is looked at. -/
theorem patchBadDecode_inBounds_iff (decode : Decoder) (g : ℕ → BitVec 8) :
    (∃ r, xlateBytes .X86 decode (pairs g + 1) 0 (guestCode g) = .ok r) ↔
      (g 127 = 0xcd → (innerPairs g = 0 ∧ g 128 ≠ 0x2e) ∨
        ∃ k ≤ innerPairs g, decode k (codeAt g k) ≠ .noDecode) := by
  have hle : innerPairs g ≤ pairs g := pairsBefore_mono (by decide)
  have hrun (k : ℕ) (hk : k ≤ innerPairs g) (hd : ∀ l < k, decode l (codeAt g l) = .noDecode) :
      xlateBytes .X86 decode (pairs g + 1) 0 (guestCode g) =
        xlateBytes .X86 decode (pairs g - k + 1) k (codeAt g k) := by
    have h := xlateBytes_add (pairs g - k + 1) (by omega : 0 + k ≤ innerPairs g) fun l hl => by rw [Nat.zero_add]; exact hd l hl
    rw [Nat.zero_add] at h
    rw [← h]
    congr 1
    omega
  by_cases hex : ∃ k ≤ innerPairs g, decode k (codeAt g k) ≠ .noDecode
  · refine iff_of_true ?_ fun _ => .inr hex
    obtain ⟨hk, hd⟩ := Nat.find_spec hex
    rw [hrun _ hk fun l hl => by
      by_contra hne
      exact Nat.find_min hex hl ⟨by omega, hne⟩, xlateBytes]
    cases hdec : decode (Nat.find hex) (codeAt g (Nat.find hex)) with
    | noDecode => exact absurd hdec hd
    | accessFail => exact ⟨_, rfl⟩
    | block insts handled => exact ⟨_, rfl⟩
  · have hd : ∀ k ≤ innerPairs g, decode k (codeAt g k) = .noDecode := fun k hk => by
      by_contra hne
      exact hex ⟨k, hk, hne⟩
    rw [hrun _ (Nat.le_refl _) fun l hl => hd l (Nat.le_of_lt hl),
      xlateBytes_noDecode (hd _ (Nat.le_refl _)), patchBadDecode_of_eq rfl]
    by_cases hc : g 127 = 0xcd ∧ (0 < innerPairs g ∨ g 128 = 0x2e)
    · rw [if_pos hc]
      refine iff_of_false (fun ⟨r, hr⟩ => by cases hr) fun h => ?_
      rcases h hc.1 with ⟨h0, h2e⟩ | h
      · rcases hc.2 with hlt | h2e'
        · omega
        · exact h2e h2e'
      · exact hex h
    · rw [if_neg hc]
      refine iff_of_true ⟨_, rfl⟩ fun hcd => .inl ⟨?_, fun h2e => hc ⟨hcd, .inr h2e⟩⟩
      by_contra hne
      exact hc ⟨hcd, .inl (Nat.pos_of_ne_zero hne)⟩

def noDecoder : Decoder := fun _ _ => .noDecode

def straddling : ℕ → BitVec 8 := fun j => if j = 127 then 0xcd else if j = 128 then 0x2e else 0

/-- A system call over the end of the window is patched outside of the buffer. -/
theorem patchBadDecode_not_inBounds : ¬∀ (decode : Decoder) (g : ℕ → BitVec 8),
    ∃ r, xlateBytes .X86 decode (pairs g + 1) 0 (guestCode g) = .ok r := by
  intro h
  obtain ⟨r, hr⟩ := h noDecoder straddling
  have h0 : innerPairs straddling = 0 := by decide +kernel
  have hout : patchBadDecode .X86 (xlateBytes .X86 noDecoder (pairs straddling) 1)
      (codeAt straddling 0) = _ := patchBadDecode_of_eq h0.symm
  rw [if_pos ⟨rfl, .inr rfl⟩] at hout
  cases hout.symm.trans hr

end Recursion

/-! ## What is translated -/

/-- The block is the translation of the guest's own bytes, but for the operands of its
instructions `int 0x2e`, and has no byte outside of the window. -/
def Faithful (g : ℕ → BitVec 8) (t : Translation) : Prop :=
  ∀ p ∈ t.insts, ∀ j, p.1 ≤ j → j < p.1 + p.2 → j < patchWindow ∧
    (t.code j = some (g j) ∨ t.code j = some 0x80 ∧ ∃ i, j = i + 1 ∧ p = (i, 2) ∧ pairAt g i = true)

/-- The first patched code that does not make the decoder give up has `k` pairs patched,
and gives a block with these instructions. -/
structure Accepted (decode : Decoder) (g : ℕ → BitVec 8) (k : ℕ) (insts : List (ℕ × ℕ)) : Prop where
  pos : 1 ≤ k
  le : k ≤ innerPairs g
  before : ∀ l, 1 ≤ l → l < k → decode l (codeAt g l) = .noDecode
  block : decode k (codeAt g k) = .block insts true

/-- The instructions lie in the window, and each of the first `k` pairs with its operand in
one of them is that instruction. -/
structure PairsAreInsts (g : ℕ → BitVec 8) (k : ℕ) (insts : List (ℕ × ℕ)) : Prop where
  window : ∀ p ∈ insts, 0 < p.2 → p.1 + p.2 ≤ patchWindow
  insts : ∀ i, patchedAt g k i = true → ∀ p ∈ insts, p.1 ≤ i + 1 → i + 1 < p.1 + p.2 → p = (i, 2)

section Faithful

variable {decode : Decoder} {g : ℕ → BitVec 8} {k s fuel : ℕ} {insts : List (ℕ × ℕ)}
  {t : Translation}

theorem patchFirst_of_patchedAt {i : ℕ} (h : patchedAt g k i = true) :
    patchFirst g k (i + 1) = 0x80 :=
  if_pos h

/-- A byte that is not the guest's own is the operand of a pair that was patched. -/
theorem patchFirst_cases (g : ℕ → BitVec 8) (k j : ℕ) :
    patchFirst g k j = g j ∨ ∃ i, j = i + 1 ∧ patchedAt g k i = true := by
  cases j with
  | zero => exact .inl rfl
  | succ j =>
      by_cases h : patchedAt g k j = true
      · exact .inr ⟨j, rfl, h⟩
      · exact .inl (if_neg h)

theorem faithful_iff : Faithful g ⟨codeAt g k, insts⟩ ↔ PairsAreInsts g k insts := by
  constructor
  · intro h
    refine ⟨fun p hp hpos => ?_, fun i hi p hp hlo hhi => ?_⟩
    · have := (h p hp (p.1 + p.2 - 1) (by omega) (by omega)).1
      omega
    · obtain ⟨hlt, hg | ⟨-, i', hj, rfl, -⟩⟩ := h p hp (i + 1) hlo hhi
      · have h80 := codeAt_of_lt (g := g) (k := k) hlt
        rw [patchFirst_of_patchedAt hi] at h80
        have h2e := (pairAt_iff.1 (patchedAt_iff.1 hi).2.1).2
        have := Option.some.inj (h80.symm.trans hg)
        rw [h2e] at this
        exact absurd this (by decide)
      · rw [Nat.succ.inj hj]
  · intro h p hp j hlo hhi
    have hlt : j < patchWindow := by
      have := h.window p hp (by omega)
      omega
    refine ⟨hlt, ?_⟩
    change codeAt g k j = _ ∨ codeAt g k j = _ ∧ _
    rw [codeAt_of_lt hlt]
    rcases patchFirst_cases g k j with heq | ⟨i, rfl, hi⟩
    · exact .inl (by rw [heq])
    · exact .inr ⟨by rw [patchFirst_of_patchedAt hi], i, rfl, h.insts i hi p hp hlo hhi,
        (patchedAt_iff.1 hi).2.1⟩

/-- A block comes from the first patched code the decoder does not give up on. -/
theorem accepted_of_xlateBytes (hs : s ≤ innerPairs g)
    (h : xlateBytes .X86 decode fuel s (codeAt g s) = .ok (some t)) :
    ∃ k insts, s ≤ k ∧ k ≤ innerPairs g ∧
      (∀ l, s ≤ l → l < k → decode l (codeAt g l) = .noDecode) ∧
      decode k (codeAt g k) = .block insts true ∧ t = ⟨codeAt g k, insts⟩ := by
  induction fuel generalizing s with
  | zero => cases h
  | succ fuel ih =>
      cases hd : decode s (codeAt g s) with
      | accessFail =>
          rw [xlateBytes, hd] at h
          cases h
      | block insts handled =>
          rw [xlateBytes, hd] at h
          cases handled with
          | false => cases h
          | true =>
              cases h
              exact ⟨s, insts, Nat.le_refl s, hs, fun l hl hlt => by omega, hd, rfl⟩
      | noDecode =>
          rw [xlateBytes_noDecode hd] at h
          rcases Nat.lt_or_eq_of_le hs with hlt | heq
          · rw [patchBadDecode_of_lt hlt] at h
            obtain ⟨k, insts, hk, hk', hbefore, hblock⟩ := ih hlt h
            refine ⟨k, insts, by omega, hk', fun l hl hlk => ?_, hblock⟩
            rcases Nat.lt_or_eq_of_le hl with hsl | rfl
            · exact hbefore l hsl hlk
            · exact hd
          · rw [patchBadDecode_of_eq heq] at h
            split at h <;> cases h

/-- The blocks that patching leads to. -/
theorem patchBadDecode_iff :
    (∃ fuel, patchBadDecode .X86 (xlateBytes .X86 decode fuel 1) (guestCode g) =
    .ok (some t)) ↔ ∃ k insts, Accepted decode g k insts ∧ t = ⟨codeAt g k, insts⟩ := by
  constructor
  · rintro ⟨fuel, h⟩
    change patchBadDecode .X86 _ (codeAt g 0) = _ at h
    rcases Nat.eq_zero_or_pos (innerPairs g) with h0 | hpos
    · rw [patchBadDecode_of_eq h0.symm] at h
      split at h <;> cases h
    · rw [patchBadDecode_of_lt hpos] at h
      obtain ⟨k, insts, hk, hle, hbefore, hblock, rfl⟩ := accepted_of_xlateBytes hpos h
      exact ⟨k, insts, ⟨hk, hle, hbefore, hblock⟩, rfl⟩
  · rintro ⟨k, insts, ⟨hpos, hle, hbefore, hblock⟩, rfl⟩
    obtain ⟨n, rfl⟩ : ∃ n, k = 1 + n := ⟨k - 1, by omega⟩
    refine ⟨1 + n, ?_⟩
    change patchBadDecode .X86 _ (codeAt g 0) = _
    rw [patchBadDecode_of_lt (by omega), Nat.zero_add,
      xlateBytes_add _ hle fun l hl => hbefore (1 + l) (by omega) (by omega), xlateBytes, hblock]
    rfl

/-- Patching changes nothing but system calls in the block it leads to exactly if the
block lies in the window, and each pair that was patched in it is an instruction. -/
theorem patchBadDecode_faithful_iff (decode : Decoder) (g : ℕ → BitVec 8) :
    (∀ fuel t, patchBadDecode .X86 (xlateBytes .X86 decode fuel 1) (guestCode g) = .ok (some t) →
      Faithful g t) ↔ ∀ k insts, Accepted decode g k insts → PairsAreInsts g k insts := by
  constructor
  · intro h k insts hk
    obtain ⟨fuel, ht⟩ := patchBadDecode_iff.2 ⟨k, insts, hk, rfl⟩
    exact faithful_iff.1 (h fuel _ ht)
  · intro h fuel t ht
    obtain ⟨k, insts, hk, rfl⟩ := patchBadDecode_iff.1 ⟨fuel, ht⟩
    exact faithful_iff.2 (h k insts hk)

/-- `mov $0x2ecd,%eax` and `int 0x2e`. -/
def movThenInt : ℕ → BitVec 8
  | 0 => 0xb8
  | 1 => 0xcd
  | 2 => 0x2e
  | 5 => 0xcd
  | 6 => 0x2e
  | _ => 0

def movIntDecoder : Decoder := fun _ code =>
  if code 6 = some 0x80 then .block [(0, 5), (5, 2)] true else .noDecode

/-- The operand of the first instruction is patched on the way to the second one. -/
theorem patchBadDecode_not_faithful : ¬∀ (decode : Decoder) (g : ℕ → BitVec 8) (fuel : ℕ)
    (t : Translation),
    patchBadDecode .X86 (xlateBytes .X86 decode fuel 1) (guestCode g) = .ok (some t) →
      Faithful g t := by
  intro h
  have hk : Accepted movIntDecoder movThenInt 2 [(0, 5), (5, 2)] := by
    refine ⟨by decide, by decide +kernel, fun l hl hlt => ?_, by decide +kernel⟩
    obtain rfl : l = 1 := by omega
    decide +kernel
  obtain ⟨fuel, ht⟩ := patchBadDecode_iff.2 ⟨2, _, hk, rfl⟩
  have hpairs := faithful_iff.1 (h movIntDecoder movThenInt fuel _ ht)
  have := hpairs.insts 1 (by decide +kernel) (0, 5) (by decide) (by decide) (by decide)
  exact absurd this (by decide)

end Faithful

end VexXlate

end VexLLVM
