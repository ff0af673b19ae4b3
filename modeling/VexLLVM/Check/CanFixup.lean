import Mathlib.Data.BitVec
import Mathlib.Data.List.Basic

/-!
# Which mismatches are fixed up

`PTShadowAMD64::canFixup` goes through the instructions of a superblock and looks for
those that the translator is known to get wrong. Each instruction is copied into the
same buffer, and is matched with windows of up to four bytes that start in it and may
end behind it, on what the buffer held before.
-/

namespace VexLLVM

namespace PTShadowAMD64

def MAX_INS_BUF : ℕ := 32

abbrev InsBuf := ℕ → BitVec 8

abbrev InstExtent := BitVec 64 × ℕ

inductive FixupDir where
  | none | native | guest
  deriving DecidableEq, Repr

/-- The settings `canFixup` looks at: `wss_status` is an illegal instruction, and the
two flags. -/
structure FixupSettings where
  sigill : Bool
  fixup_eflags : Bool
  has_memlog : Bool

/-- `memcpy` of an instruction to the start of the buffer. -/
def loadIns (mem : BitVec 64 → BitVec 8) (e : InstExtent) (buf : InsBuf) : InsBuf := fun i =>
  if i < e.2 then mem (e.1 + BitVec.ofNat 64 i) else buf i

/-- A byte of the buffer; none where the index is out of bounds. -/
def insByte (buf : InsBuf) (i : ℕ) : Option (BitVec 8) :=
  if i < MAX_INS_BUF then some (buf i) else none

def prefixBytes : List (BitVec 8) := [0x41, 0x44, 0x48, 0x49]

def op16At (buf : InsBuf) (off : ℕ) : Option (BitVec 16) := do
  return (← insByte buf (off + 1)) ++ (← insByte buf off)

def op32At (buf : InsBuf) (i : ℕ) : Option (BitVec 32) := do
  return (← insByte buf (i + 3)) ++ (← insByte buf (i + 2)) ++ (← insByte buf (i + 1)) ++
    (← insByte buf i)

/-- `divsd %xmm0, %xmm0`, and the addresses of the kernel's timer and syslog pages. -/
def wideOps : List (BitVec 32) := [0xc05e0ff2, 0xff5ff080, 0xff5ff0b0, 0xff5ff0a8]

def scan32 (buf : InsBuf) : ℕ → ℕ → Option Bool
  | _, 0 => some false
  | i, k + 1 => do
    if wideOps.contains (← op32At buf i) then return true
    scan32 buf (i + 1) k

/-- What is done for one instruction of `n` bytes: whether it is one to fix up. -/
def fixupInst (c : FixupSettings) (buf : InsBuf) (n : ℕ) : Option Bool := do
  let off := if prefixBytes.contains (← insByte buf 0) then 1 else 0
  -- shl, idiv and imul
  let op8 ← insByte buf off
  if c.fixup_eflags && [0xd3, 0xc1, 0xf7, 0x69, 0x6b].contains op8 then return true
  -- imul and bt; bsf, bsr and mxcsr
  let op16 ← op16At buf off
  if c.fixup_eflags && [0x6b4c, 0xaf0f, 0xc06b, 0xa30f].contains op16 then return true
  if [0xbc0f, 0xbd0f, 0xae0f].contains op16 then return true
  if ← scan32 buf 0 n then return true
  -- bt writes to the stack
  return c.has_memlog && op16 == 0xa30f

def fixupLoop (c : FixupSettings) (mem : BitVec 64 → BitVec 8) :
    List InstExtent → InsBuf → Option FixupDir
  | [], _ => some .none
  | e :: es, buf => do
    -- `assert (inst.second < MAX_INS_BUF)`
    if e.2 < MAX_INS_BUF then
      if ← fixupInst c (loadIns mem e buf) e.2 then return .guest
      fixupLoop c mem es (loadIns mem e buf)
    else none

/-- `PTShadowAMD64::canFixup`, for a buffer with these contents; without a result where
an index is out of bounds. -/
def canFixup (c : FixupSettings) (mem : BitVec 64 → BitVec 8) (insts : List InstExtent)
    (buf : InsBuf) : Option FixupDir :=
  if c.sigill then some .native else fixupLoop c mem insts buf

/-- The loop over the instructions, where the buffer holds `left k` when the `k`th instruction is copied. -/
def fixupLoopLeft (c : FixupSettings) (mem : BitVec 64 → BitVec 8) (left : ℕ → InsBuf) :
    ℕ → List InstExtent → Option FixupDir
  | _, [] => some .none
  | k, e :: es => do
    if e.2 < MAX_INS_BUF then
      if ← fixupInst c (loadIns mem e (left k)) e.2 then return .guest
      fixupLoopLeft c mem left (k + 1) es
    else none

def canFixupLeft (c : FixupSettings) (mem : BitVec 64 → BitVec 8) (insts : List InstExtent)
    (left : ℕ → InsBuf) : Option FixupDir :=
  if c.sigill then some .native else fixupLoopLeft c mem left 0 insts

/-- What earlier instructions leave in the buffer. -/
def leftAt (mem : BitVec 64 → BitVec 8) (insts : List InstExtent) (buf : InsBuf) (k : ℕ) : InsBuf :=
  (insts.take k).foldl (fun b e => loadIns mem e b) buf

/-! ## Windows -/

structure Window where
  off : ℕ
  bytes : List (BitVec 8)
  deriving DecidableEq

def Window.inRange (w : Window) : Bool := w.off + w.bytes.length ≤ MAX_INS_BUF

def foundAt (buf : InsBuf) : ℕ → List (BitVec 8) → Bool
  | _, [] => true
  | i, x :: p => buf i == x && foundAt buf (i + 1) p

def Window.found (buf : InsBuf) (w : Window) : Bool := foundAt buf w.off w.bytes

/-- Windows one after the other, until one is found or is not in the buffer. -/
def firstFound (buf : InsBuf) : List Window → Option Bool
  | [] => some false
  | w :: ws => if w.inRange then if w.found buf then some true else firstFound buf ws else none

/-- The bytes at the start of an instruction, with each prefix and without. -/
def headWindows (p : List (BitVec 8)) : List Window := ⟨0, p⟩ :: prefixBytes.map fun x => ⟨0, x :: p⟩

/-- The bytes that an instruction can start with where the flags are fixed up. -/
def eflagOps : List (List (BitVec 8)) :=
  [[0xd3], [0xc1], [0xf7], [0x69], [0x6b], [0x4c, 0x6b], [0x0f, 0xaf], [0x6b, 0xc0], [0x0f, 0xa3]]

def alwaysOps : List (List (BitVec 8)) := [[0x0f, 0xbc], [0x0f, 0xbd], [0x0f, 0xae]]

def widePatterns : List (List (BitVec 8)) :=
  [[0xf2, 0x0f, 0x5e, 0xc0], [0x80, 0xf0, 0x5f, 0xff], [0xb0, 0xf0, 0x5f, 0xff],
    [0xa8, 0xf0, 0x5f, 0xff]]

def wideWindows (i k : ℕ) : List Window :=
  (List.range' i k).flatMap fun j => widePatterns.map fun p => ⟨j, p⟩

def insWindows (c : FixupSettings) (n : ℕ) : List Window :=
  (if c.fixup_eflags then eflagOps.flatMap headWindows else []) ++ alwaysOps.flatMap headWindows ++
    wideWindows 0 n ++ if c.has_memlog then headWindows [0x0f, 0xa3] else []

section Windows

variable {buf : InsBuf} {c : FixupSettings} {i n : ℕ}

theorem append_eq_append_iff {v w : ℕ} {a b : BitVec v} {x y : BitVec w} :
    a ++ x = b ++ y ↔ a = b ∧ x = y := by
  constructor
  · intro h
    have hl := congrArg (BitVec.extractLsb' w v) h
    have hr := congrArg (BitVec.extractLsb' 0 w) h
    rw [BitVec.extractLsb'_append_eq_left, BitVec.extractLsb'_append_eq_left] at hl
    rw [BitVec.extractLsb'_append_eq_right, BitVec.extractLsb'_append_eq_right] at hr
    exact ⟨hl, hr⟩
  · rintro ⟨rfl, rfl⟩
    rfl

theorem insByte_of_lt (h : i < MAX_INS_BUF) : insByte buf i = some (buf i) := if_pos h

/-- Windows that lie in the buffer are looked for without regard to their order. -/
theorem firstFound_append {ws vs : List Window} (h : ∀ w ∈ ws, w.inRange = true) :
    firstFound buf (ws ++ vs) =
      if ws.any (Window.found buf) then some true else firstFound buf vs := by
  induction ws with
  | nil => rfl
  | cons w ws ih =>
      rw [List.cons_append, firstFound, if_pos (h w List.mem_cons_self),
        ih fun x hx => h x (List.mem_cons_of_mem w hx), List.any_cons]
      cases w.found buf <;> rfl

/-- Where the bytes are looked for: behind the prefix, if there is one. -/
def opOff (buf : InsBuf) : ℕ := if prefixBytes.contains (buf 0) then 1 else 0

theorem opOff_le (buf : InsBuf) : opOff buf ≤ 1 := by
  unfold opOff
  split <;> omega

/-- With each prefix or without, the bytes are found where they are looked for. -/
theorem any_headWindows {y : BitVec 8} {p : List (BitVec 8)} (hy : prefixBytes.contains y = false) :
    (headWindows (y :: p)).any (Window.found buf) = foundAt buf (opOff buf) (y :: p) := by
  have hx : (prefixBytes.map fun x => Window.mk 0 (x :: y :: p)).any (Window.found buf) =
      (prefixBytes.contains (buf 0) && foundAt buf 1 (y :: p)) := by
    rw [Bool.eq_iff_iff]
    simp only [List.any_map, List.any_eq_true, Function.comp_apply, Window.found, foundAt,
      Bool.and_eq_true, beq_iff_eq, List.contains_iff_mem, Nat.zero_add]
    constructor
    · rintro ⟨x, hx, rfl, h⟩
      exact ⟨hx, h⟩
    · rintro ⟨hx, h⟩
      exact ⟨_, hx, rfl, h⟩
  rw [headWindows, List.any_cons, hx, Window.found, opOff]
  by_cases h : prefixBytes.contains (buf 0) = true
  · have hne : (buf 0 == y) = false := by
      rw [beq_eq_false_iff_ne]
      rintro rfl
      rw [h] at hy
      cases hy
    rw [if_pos h, h]
    simp [foundAt, hne]
  · rw [if_neg h]
    rw [Bool.not_eq_true] at h
    rw [h, Bool.false_and, Bool.or_false]

theorem wideWindows_succ {k : ℕ} : wideWindows i (k + 1) =
    widePatterns.map (fun p => Window.mk i p) ++ wideWindows (i + 1) k := by
  rw [wideWindows, List.range'_succ, List.flatMap_cons]
  rfl

theorem op32At_of_lt (h : i + 3 < MAX_INS_BUF) : op32At buf i =
    some (buf (i + 3) ++ buf (i + 2) ++ buf (i + 1) ++ buf i) := by
  rw [op32At, insByte_of_lt h, insByte_of_lt (by omega), insByte_of_lt (by omega),
    insByte_of_lt (by omega)]
  rfl

/-- The comparison of four bytes at once. -/
theorem any_wideWindows : (widePatterns.map fun p => Window.mk i p).any (Window.found buf) =
    wideOps.contains (buf (i + 3) ++ buf (i + 2) ++ buf (i + 1) ++ buf i) := by
  have h (x y z w : BitVec 8) :
    (buf (i + 3) ++ buf (i + 2) ++ buf (i + 1) ++ buf i == x ++ y ++ z ++ w) =
      foundAt buf i [w, z, y, x] := by
    rw [Bool.eq_iff_iff]
    simp only [foundAt, beq_iff_eq, append_eq_append_iff, Bool.and_eq_true, Bool.and_true]
    tauto
  have h₁ := h 0xc0 0x5e 0x0f 0xf2
  have h₂ := h 0xff 0x5f 0xf0 0x80
  have h₃ := h 0xff 0x5f 0xf0 0xb0
  have h₄ := h 0xff 0x5f 0xf0 0xa8
  simp only [wideOps, widePatterns, List.map_cons, List.map_nil, List.any_cons, List.any_nil,
    Window.found, ← h₁, ← h₂, ← h₃, ← h₄, List.contains_cons, List.contains_nil]
  rfl

theorem firstFound_wideWindows {k : ℕ} {vs : List Window} :
    firstFound buf (wideWindows i k ++ vs) =
      (scan32 buf i k).bind fun b => if b then some true else firstFound buf vs := by
  induction k generalizing i with
  | zero => rfl
  | succ k ih =>
      rw [wideWindows_succ, List.append_assoc, scan32]
      by_cases hi : i + 3 < MAX_INS_BUF
      · have hin : ∀ w ∈ widePatterns.map (fun p => Window.mk i p), w.inRange = true := by
          simp only [widePatterns, List.map_cons, List.map_nil, List.mem_cons, List.not_mem_nil,
            or_false]
          unfold MAX_INS_BUF at hi
          rintro w (rfl | rfl | rfl | rfl) <;> simp [Window.inRange, MAX_INS_BUF] <;> omega
        rw [firstFound_append hin, any_wideWindows, op32At_of_lt hi, ih]
        simp only [Option.bind_eq_bind, Option.bind_some]
        cases wideOps.contains (buf (i + 3) ++ buf (i + 2) ++ buf (i + 1) ++ buf i) <;> rfl
      · have hno : op32At buf i = none := by rw [op32At, insByte, if_neg hi]; rfl
        have hout : (Window.mk i [0xf2, 0x0f, 0x5e, 0xc0]).inRange = false := by
          simp only [Window.inRange, List.length_cons, List.length_nil, decide_eq_false_iff_not]
          omega
        rw [hno, widePatterns, List.map_cons, List.cons_append, firstFound, hout]
        rfl

/-- The window of an instruction's start holds its bytes, behind a prefix or not. -/
theorem of_mem_headWindows {p : List (BitVec 8)} {w : Window} (h : w ∈ headWindows p) :
    w = ⟨0, p⟩ ∨ ∃ x ∈ prefixBytes, w = ⟨0, x :: p⟩ := by
  rcases List.mem_cons.1 h with h | h
  · exact .inl h
  · obtain ⟨x, hx, rfl⟩ := List.mem_map.1 h
    exact .inr ⟨x, hx, rfl⟩

theorem inRange_headWindows {ps : List (List (BitVec 8))} (hps : ∀ p ∈ ps, p.length < MAX_INS_BUF) :
    ∀ w ∈ ps.flatMap headWindows, w.inRange = true := by
  intro w hw
  obtain ⟨p, hp, hw⟩ := List.mem_flatMap.1 hw
  have hlt := hps p hp
  rcases of_mem_headWindows hw with rfl | ⟨x, -, rfl⟩
  · rw [Window.inRange, decide_eq_true_iff, Nat.zero_add]
    exact Nat.le_of_lt hlt
  · rw [Window.inRange, decide_eq_true_iff, Nat.zero_add]
    exact hlt

theorem ne_zero_headWindows {ps : List (List (BitVec 8))} (hps : ∀ p ∈ ps, ∀ x ∈ p, x ≠ 0) :
    ∀ w ∈ ps.flatMap headWindows, ∀ x ∈ w.bytes, x ≠ 0 := by
  intro w hw
  obtain ⟨p, hp, hw⟩ := List.mem_flatMap.1 hw
  rcases of_mem_headWindows hw with rfl | ⟨y, hy, rfl⟩
  · exact hps p hp
  · intro x hx
    rcases List.mem_cons.1 hx with rfl | hx
    · exact (by decide : ∀ x ∈ prefixBytes, x ≠ 0) x hy
    · exact hps p hp x hx

def opOk (p : List (BitVec 8)) : Bool := p != [] && !prefixBytes.contains (p.headD 0)

theorem any_opWindows {ps : List (List (BitVec 8))} (h : ∀ p ∈ ps, opOk p = true) :
    (ps.flatMap headWindows).any (Window.found buf) = ps.any (foundAt buf (opOff buf)) := by
  induction ps with
  | nil => rfl
  | cons p ps ih =>
      have hp := h p List.mem_cons_self
      rw [List.flatMap_cons, List.any_append, ih fun q hq => h q (List.mem_cons_of_mem p hq),
        List.any_cons]
      cases p with
      | nil => cases hp
      | cons y p =>
          rw [opOk, Bool.and_eq_true, Bool.not_eq_true'] at hp
          rw [any_headWindows (y := y) hp.2]

def op16 (buf : InsBuf) : BitVec 16 := buf (opOff buf + 1) ++ buf (opOff buf)

theorem op16_eq (buf : InsBuf) (x y : BitVec 8) :
    (op16 buf == y ++ x) = foundAt buf (opOff buf) [x, y] := by
  rw [Bool.eq_iff_iff]
  simp only [op16, foundAt, beq_iff_eq, Bool.and_eq_true, Bool.and_true]
  exact append_eq_append_iff.trans and_comm

theorem any_eflagOps : eflagOps.any (foundAt buf (opOff buf)) =
    ([0xd3, 0xc1, 0xf7, 0x69, 0x6b].contains (buf (opOff buf)) ||
      [0x6b4c, 0xaf0f, 0xc06b, 0xa30f].contains (op16 buf)) := by
  have h₁ := op16_eq buf 0x4c 0x6b
  have h₂ := op16_eq buf 0x0f 0xaf
  have h₃ := op16_eq buf 0x6b 0xc0
  have h₄ := op16_eq buf 0x0f 0xa3
  have h (x : BitVec 8) : foundAt buf (opOff buf) [x] = (buf (opOff buf) == x) := by simp [foundAt]
  simp only [eflagOps, List.any_cons, List.any_nil, ← h₁, ← h₂, ← h₃, ← h₄, h, List.contains_cons,
    List.contains_nil, Bool.or_false, Bool.or_assoc]
  rfl

theorem any_alwaysOps : alwaysOps.any (foundAt buf (opOff buf)) =
    [0xbc0f, 0xbd0f, 0xae0f].contains (op16 buf) := by
  have h₁ := op16_eq buf 0x0f 0xbc
  have h₂ := op16_eq buf 0x0f 0xbd
  have h₃ := op16_eq buf 0x0f 0xae
  simp only [alwaysOps, List.any_cons, List.any_nil, ← h₁, ← h₂, ← h₃, List.contains_cons,
    List.contains_nil]
  rfl

theorem firstFound_memlog : firstFound buf (if c.has_memlog then headWindows [0x0f, 0xa3] else []) =
    some (c.has_memlog && op16 buf == 0xa30f) := by
  cases c.has_memlog with
  | false => rfl
  | true =>
      have hw : firstFound buf (headWindows [0x0f, 0xa3] ++ []) = _ :=
        firstFound_append (by decide : ∀ w ∈ headWindows [0x0f, 0xa3], w.inRange = true)
      rw [List.append_nil, any_headWindows (by decide), ← op16_eq] at hw
      rw [if_pos rfl, hw]
      change (if (op16 buf == 0xa30f) = true then some true else some false) = _
      cases op16 buf == 0xa30f <;> rfl

/-- An instruction is one to fix up where a window is found. -/
theorem fixupInst_eq : fixupInst c buf n = firstFound buf (insWindows c n) := by
  have hoff := opOff_le buf
  have hlt : opOff buf + 1 < MAX_INS_BUF := by unfold MAX_INS_BUF; omega
  have h16 : op16At buf (opOff buf) = some (op16 buf) := by
    rw [op16At, insByte_of_lt hlt, insByte_of_lt (by omega)]
    rfl
  have he : ∀ p ∈ if c.fixup_eflags then eflagOps else [], opOk p = true := by
    cases c.fixup_eflags <;> decide
  have hin : ∀ w ∈ (if c.fixup_eflags then eflagOps else []).flatMap headWindows,
      w.inRange = true :=
    inRange_headWindows (by cases c.fixup_eflags <;> decide)
  have heflags : firstFound buf (insWindows c n) =
      if ((if c.fixup_eflags then eflagOps else []).any (foundAt buf (opOff buf))) = true then
        some true
      else if (alwaysOps.any (foundAt buf (opOff buf))) = true then some true
      else (scan32 buf 0 n).bind fun b =>
        if b then some true else some (c.has_memlog && op16 buf == 0xa30f) := by
    have hif : (if c.fixup_eflags then eflagOps.flatMap headWindows else []) =
        (if c.fixup_eflags then eflagOps else []).flatMap headWindows := by
      cases c.fixup_eflags <;> rfl
    rw [insWindows, hif, List.append_assoc, List.append_assoc,
      firstFound_append hin, any_opWindows he, firstFound_append (inRange_headWindows (by decide)),
      any_opWindows (by decide), firstFound_wideWindows, firstFound_memlog]
  rw [heflags, any_alwaysOps, fixupInst, insByte_of_lt (by decide)]
  simp only [Option.bind_eq_bind, Option.bind_some, Option.pure_def]
  change (insByte buf (opOff buf)).bind _ = _
  rw [insByte_of_lt (by omega), Option.bind_some]
  change (if _ then _ else (op16At buf (opOff buf)).bind _) = _
  rw [h16, Option.bind_some]
  cases c.fixup_eflags with
  | false => simp
  | true =>
      rw [if_pos rfl, any_eflagOps, Bool.true_and, Bool.true_and]
      generalize List.contains _ (buf (opOff buf)) = op8
      cases op8 <;> rfl

end Windows

/-! ## Buffers that are known in part -/

abbrev KnownBuf := ℕ → Option (BitVec 8)

def KnownBuf.Of (K : KnownBuf) (buf : InsBuf) : Prop := ∀ i x, K i = some x → buf i = x

def KnownBuf.fill (K : KnownBuf) (f : InsBuf) : InsBuf := fun i => (K i).getD (f i)

/-- All bytes of the window are known, and are those that are looked for. -/
def Window.Sure (w : Window) (K : KnownBuf) : Prop :=
  ∀ j (h : j < w.bytes.length), K (w.off + j) = some w.bytes[j]

/-- The bytes of the window that are known are those that are looked for. -/
def Window.Possible (w : Window) (K : KnownBuf) : Prop :=
  ∀ j (h : j < w.bytes.length) x, K (w.off + j) = some x → x = w.bytes[j]

section Known

variable {K : KnownBuf} {buf f : InsBuf} {w : Window}

theorem KnownBuf.fill_of (K : KnownBuf) (f : InsBuf) : K.Of (K.fill f) := fun i x h => by
  rw [KnownBuf.fill, h, Option.getD_some]

theorem foundAt_iff {i : ℕ} {p : List (BitVec 8)} :
    foundAt buf i p = true ↔ ∀ j (h : j < p.length), buf (i + j) = p[j] := by
  induction p generalizing i with
  | nil => simp [foundAt]
  | cons x p ih =>
      rw [foundAt, Bool.and_eq_true, beq_iff_eq, ih]
      constructor
      · rintro ⟨h₀, h⟩ j hj
        cases j with
        | zero => exact h₀
        | succ j =>
            have := h j (Nat.lt_of_succ_lt_succ hj)
            rwa [Nat.add_assoc, Nat.add_comm 1] at this
      · intro h
        refine ⟨h 0 (Nat.succ_pos _), fun j hj => ?_⟩
        have := h (j + 1) (Nat.succ_lt_succ hj)
        rwa [← Nat.add_assoc, Nat.add_right_comm] at this

theorem Window.found_iff :
    w.found buf = true ↔ ∀ j (h : j < w.bytes.length), buf (w.off + j) = w.bytes[j] := foundAt_iff

/-- A window that is sure is found, whatever the rest of the buffer. -/
theorem Window.Sure.found (h : w.Sure K) (hb : K.Of buf) : w.found buf = true :=
  Window.found_iff.2 fun j hj => hb _ _ (h j hj)

/-- With zeros in the rest of the buffer, only what is sure is found. -/
theorem Window.sure_of_found (h0 : ∀ x ∈ w.bytes, x ≠ 0) (h : w.found (K.fill fun _ => 0) = true) :
    w.Sure K := by
  intro j hj
  have hf := Window.found_iff.1 h j hj
  rw [KnownBuf.fill] at hf
  cases hk : K (w.off + j) with
  | some x => rw [← hf, hk, Option.getD_some]
  | none =>
      rw [hk, Option.getD_none] at hf
      exact absurd hf.symm (h0 _ (List.getElem_mem hj))

/-- A window that is possible is found in some buffer. -/
theorem Window.Possible.found (h : w.Possible K) :
    w.found (K.fill fun i => w.bytes.getD (i - w.off) 0) = true := by
  refine Window.found_iff.2 fun j hj => ?_
  rw [KnownBuf.fill]
  cases hk : K (w.off + j) with
  | some x => exact h j hj x hk
  | none => simp [List.getD_eq_getElem?_getD, hj]

/-- A window that is found in some buffer is possible. -/
theorem Window.possible_of_found (hb : K.Of buf) (h : w.found buf = true) : w.Possible K :=
  fun j hj x hx => (hb _ x hx).symm.trans (Window.found_iff.1 h j hj)

end Known

/-! ## The windows of all instructions -/

abbrev InsTest := ℕ × Window

/-- The windows of all instructions, in order, where the first is the `k`th. -/
def insTests (c : FixupSettings) : ℕ → List InstExtent → List InsTest
  | _, [] => []
  | k, e :: es => (insWindows c e.2).map (fun w => (k, w)) ++ insTests c (k + 1) es

def scanTests (B : ℕ → InsBuf) : List InsTest → Option Bool
  | [] => some false
  | t :: ts => if t.2.inRange then if t.2.found (B t.1) then some true else scanTests B ts else none

/-- The windows that are looked at before one is not in the buffer. -/
def reached (ts : List InsTest) : List InsTest := ts.takeWhile fun t => t.2.inRange

/-- What is known settles the outcome: a window that is reached is sure to be found, or
all are in the buffer and none is possible. -/
def Settled (K : ℕ → KnownBuf) (ts : List InsTest) : Prop :=
  (∃ t ∈ reached ts, t.2.Sure (K t.1)) ∨ ∀ t ∈ ts, t.2.inRange = true ∧ ¬t.2.Possible (K t.1)

section Tests

variable {c : FixupSettings} {B : ℕ → InsBuf} {K : ℕ → KnownBuf} {ts : List InsTest}

theorem scanTests_eq_true :
    scanTests B ts = some true ↔ ∃ t ∈ reached ts, t.2.found (B t.1) = true := by
  induction ts with
  | nil => simp [scanTests, reached]
  | cons t ts ih =>
      unfold reached at ih
      rw [scanTests, reached, List.takeWhile_cons]
      cases t.2.inRange with
      | false => simp
      | true => by_cases hf : t.2.found (B t.1) = true <;> simp [hf, ih]

theorem scanTests_eq_false : scanTests B ts = some false ↔
    ∀ t ∈ ts, t.2.inRange = true ∧ t.2.found (B t.1) = false := by
  induction ts with
  | nil => simp [scanTests]
  | cons t ts ih =>
      rw [scanTests, List.forall_mem_cons]
      cases t.2.inRange with
      | false => simp
      | true => by_cases hf : t.2.found (B t.1) = true <;> simp [hf, ih]

theorem mem_of_mem_reached {t : InsTest} (h : t ∈ reached ts) : t ∈ ts :=
  List.takeWhile_subset _ h

theorem scanTests_append {k : ℕ} {ws : List Window} :
    scanTests B (ws.map (fun w => (k, w)) ++ ts) =
      (firstFound (B k) ws).bind fun b => if b then some true else scanTests B ts := by
  induction ws with
  | nil => rfl
  | cons w ws ih =>
      rw [List.map_cons, List.cons_append, scanTests, firstFound, ih]
      cases w.inRange <;> cases w.found (B k) <;> rfl

/-- For buffers that may have anything where nothing is known, the outcome is the same
exactly if it is settled. -/
theorem scanTests_settled_iff {𝓑 : Set (ℕ → InsBuf)} (h0 : ∀ t ∈ ts, ∀ x ∈ t.2.bytes, x ≠ 0)
    (hof : ∀ B ∈ 𝓑, ∀ t ∈ ts, (K t.1).Of (B t.1))
    (hzero : ∃ B ∈ 𝓑, ∀ t ∈ ts, B t.1 = (K t.1).fill fun _ => 0)
    (hpos : ∀ t ∈ ts, t.2.Possible (K t.1) → ∃ B ∈ 𝓑, t.2.found (B t.1) = true) :
    (∃ r, ∀ B ∈ 𝓑, scanTests B ts = some r) ↔ Settled K ts := by
  constructor
  · rintro ⟨r, hr⟩
    obtain ⟨Z, hZ, hz⟩ := hzero
    cases r with
    | true =>
        obtain ⟨t, ht, hf⟩ := scanTests_eq_true.1 (hr Z hZ)
        have hm := mem_of_mem_reached ht
        rw [hz t hm] at hf
        exact .inl ⟨t, ht, Window.sure_of_found (h0 t hm) hf⟩
    | false =>
        refine .inr fun t ht => ⟨(scanTests_eq_false.1 (hr Z hZ) t ht).1, fun hp => ?_⟩
        obtain ⟨B, hB, hf⟩ := hpos t ht hp
        have := (scanTests_eq_false.1 (hr B hB) t ht).2
        rw [hf] at this
        cases this
  · rintro (⟨t, ht, hs⟩ | h)
    · exact ⟨true, fun B hB => scanTests_eq_true.2
        ⟨t, ht, hs.found (hof B hB t (mem_of_mem_reached ht))⟩⟩
    · refine ⟨false, fun B hB => scanTests_eq_false.2 fun t ht => ⟨(h t ht).1, ?_⟩⟩
      rw [← Bool.not_eq_true]
      exact fun hf => (h t ht).2 (Window.possible_of_found (hof B hB t ht) hf)

end Tests

/-- An instruction that is copied over what is known of the buffer. -/
def knowIns (mem : BitVec 64 → BitVec 8) (K : KnownBuf) (e : InstExtent) : KnownBuf := fun i =>
  if i < e.2 then some (mem (e.1 + BitVec.ofNat 64 i)) else K i

/-- What is known of the buffer at the `k`th instruction from that instruction. -/
def ownBytes (mem : BitVec 64 → BitVec 8) (insts : List InstExtent) (k : ℕ) : KnownBuf :=
  knowIns mem (fun _ => none) (insts.getD k (0, 0))

/-- What is known of the buffer at the `k`th instruction from all instructions up to it. -/
def blockBytes (mem : BitVec 64 → BitVec 8) (insts : List InstExtent) (k : ℕ) : KnownBuf :=
  (insts.take (k + 1)).foldl (knowIns mem) fun _ => none

def SameBytes (mem mem' : BitVec 64 → BitVec 8) (insts : List InstExtent) : Prop :=
  ∀ e ∈ insts, ∀ i < e.2, mem' (e.1 + BitVec.ofNat 64 i) = mem (e.1 + BitVec.ofNat 64 i)

def dirOf (b : Bool) : FixupDir := if b then .guest else .none

section Loops

variable {c : FixupSettings} {mem mem' : BitVec 64 → BitVec 8} {insts : List InstExtent}

theorem loadIns_fill (K : KnownBuf) (e : InstExtent) (f : InsBuf) :
    loadIns mem e (K.fill f) = (knowIns mem K e).fill f := by
  funext i
  simp only [loadIns, KnownBuf.fill, knowIns]
  split <;> rfl

theorem foldl_loadIns (K : KnownBuf) (es : List InstExtent) (f : InsBuf) :
    es.foldl (fun b e => loadIns mem e b) (K.fill f) = (es.foldl (knowIns mem) K).fill f := by
  induction es generalizing K with
  | nil => rfl
  | cons e es ih => rw [List.foldl_cons, loadIns_fill, ih, List.foldl_cons]

theorem loadIns_congr {e : InstExtent} (h : SameBytes mem mem' insts) (he : e ∈ insts)
    (buf : InsBuf) :
    loadIns mem' e buf = loadIns mem e buf := by
  funext i
  simp only [loadIns]
  split
  · exact h e he i ‹_›
  · rfl

theorem foldl_loadIns_congr {es : List InstExtent} (h : SameBytes mem mem' insts)
    (hes : ∀ e ∈ es, e ∈ insts) (buf : InsBuf) :
    es.foldl (fun b e => loadIns mem' e b) buf = es.foldl (fun b e => loadIns mem e b) buf := by
  induction es generalizing buf with
  | nil => rfl
  | cons e es ih =>
      rw [List.foldl_cons, List.foldl_cons, loadIns_congr h (hes e List.mem_cons_self),
        ih fun x hx => hes x (List.mem_cons_of_mem e hx)]

/-- The loop is one over the windows of all instructions. -/
theorem fixupLoopLeft_eq {left B : ℕ → InsBuf} {k : ℕ} (hlen : ∀ e ∈ insts, e.2 < MAX_INS_BUF)
    (hB : ∀ j (h : j < insts.length), B (k + j) = loadIns mem insts[j] (left (k + j))) :
    fixupLoopLeft c mem left k insts = (scanTests B (insTests c k insts)).map dirOf := by
  induction insts generalizing k with
  | nil => rfl
  | cons e es ih =>
      have he : B k = loadIns mem e (left k) := hB 0 (Nat.succ_pos _)
      have hes : ∀ j (h : j < es.length), B (k + 1 + j) = loadIns mem es[j] (left (k + 1 + j)) := by
        intro j hj
        have hk : k + 1 + j = k + (j + 1) := by omega
        rw [hk]
        exact hB (j + 1) (Nat.succ_lt_succ hj)
      rw [fixupLoopLeft, if_pos (hlen e List.mem_cons_self), insTests, scanTests_append,
        ih (fun x hx => hlen x (List.mem_cons_of_mem e hx)) hes, fixupInst_eq, he]
      rcases firstFound (loadIns mem e (left k)) (insWindows c e.2) with _ | _ | _ <;> rfl

/-- The loop of the code is the one where earlier instructions are what is left. -/
theorem fixupLoop_eq (pre : List InstExtent) (buf : InsBuf) :
    fixupLoop c mem insts (pre.foldl (fun b e => loadIns mem e b) buf) =
      fixupLoopLeft c mem (leftAt mem (pre ++ insts) buf) pre.length insts := by
  induction insts generalizing pre with
  | nil => rfl
  | cons e es ih =>
      have hleft : leftAt mem (pre ++ e :: es) buf pre.length =
          pre.foldl (fun b e => loadIns mem e b) buf := by
        rw [leftAt, List.take_left]
      have hpre := ih (pre ++ [e])
      rw [List.foldl_append, List.foldl_cons, List.foldl_nil, List.append_assoc,
        List.length_append] at hpre
      rw [fixupLoop, fixupLoopLeft, hleft, hpre]
      rfl

theorem mem_insTests {k : ℕ} {t : InsTest} (h : t ∈ insTests c k insts) :
    ∃ j, ∃ h : j < insts.length, t.1 = k + j ∧ t.2 ∈ insWindows c (insts[j]).2 := by
  induction insts generalizing k with
  | nil => cases h
  | cons e es ih =>
      rcases List.mem_append.1 h with h | h
      · obtain ⟨w, hw, rfl⟩ := List.mem_map.1 h
        exact ⟨0, Nat.succ_pos _, rfl, hw⟩
      · obtain ⟨j, hj, ht, hw⟩ := ih h
        exact ⟨j + 1, Nat.succ_lt_succ hj, by omega, hw⟩

/-- Nothing that is looked for has a zero byte. -/
theorem ne_zero_of_mem_insWindows {n : ℕ} {w : Window} (h : w ∈ insWindows c n) :
    ∀ x ∈ w.bytes, x ≠ 0 := by
  have hw : ∀ w ∈ wideWindows 0 n, ∀ x ∈ w.bytes, x ≠ 0 := by
    intro w hw
    obtain ⟨j, -, hw⟩ := List.mem_flatMap.1 hw
    obtain ⟨p, hp, rfl⟩ := List.mem_map.1 hw
    exact (by decide : ∀ p ∈ widePatterns, ∀ x ∈ p, x ≠ 0) p hp
  have ha : ∀ w ∈ alwaysOps.flatMap headWindows, ∀ x ∈ w.bytes, x ≠ 0 :=
    ne_zero_headWindows (by decide)
  have he : ∀ w ∈ if c.fixup_eflags then eflagOps.flatMap headWindows else [],
      ∀ x ∈ w.bytes, x ≠ 0 := by
    cases c.fixup_eflags with
    | false => exact fun w hw => by cases hw
    | true => exact ne_zero_headWindows (by decide)
  have hm : ∀ w ∈ if c.has_memlog then headWindows [0x0f, 0xa3] else [], ∀ x ∈ w.bytes, x ≠ 0 := by
    have hone := @ne_zero_headWindows [[0x0f, 0xa3]] (by decide)
    rw [List.flatMap_singleton] at hone
    cases c.has_memlog with
    | false => exact fun w hw => by cases hw
    | true => exact hone
  rw [insWindows, List.mem_append, List.mem_append, List.mem_append] at h
  rcases h with ((h | h) | h) | h
  · exact he w h
  · exact ha w h
  · exact hw w h
  · exact hm w h

theorem map_dirOf_iff {I : Type*} {x : I → Option Bool} :
    (∃ r, ∀ i, (x i).map dirOf = some r) ↔ ∃ b, ∀ i, x i = some b := by
  constructor
  · rintro ⟨r, h⟩
    have hdir (i : I) : ∃ b, x i = some b ∧ dirOf b = r := Option.map_eq_some_iff.1 (h i)
    cases r with
    | guest =>
        refine ⟨true, fun i => ?_⟩
        obtain ⟨b, hb, hr⟩ := hdir i
        cases b <;> first | exact hb | cases hr
    | none =>
        refine ⟨false, fun i => ?_⟩
        obtain ⟨b, hb, hr⟩ := hdir i
        cases b <;> first | exact hb | cases hr
    | native =>
        refine ⟨false, fun i => ?_⟩
        obtain ⟨b, -, hr⟩ := hdir i
        cases b <;> cases hr
  · rintro ⟨b, h⟩
    exact ⟨dirOf b, fun i => by rw [h i, Option.map_some]⟩

/-- For families of buffers that are any where nothing is known, at each instruction or
from the start. -/
theorem scanTests_range_iff {I : Type*} (K : ℕ → KnownBuf) (f : I → ℕ → InsBuf)
    (hf : ∀ g : InsBuf, ∃ i, ∀ k, f i k = g) :
    (∃ b, ∀ i, scanTests (fun k => (K k).fill (f i k)) (insTests c 0 insts) = some b) ↔
      Settled K (insTests c 0 insts) := by
  have h0 : ∀ t ∈ insTests c 0 insts, ∀ x ∈ t.2.bytes, x ≠ 0 := fun t ht => by
    obtain ⟨_, _, _, hw⟩ := mem_insTests ht
    exact ne_zero_of_mem_insWindows hw
  rw [← scanTests_settled_iff (𝓑 := Set.range fun i k => (K k).fill (f i k)) h0]
  · simp only [Set.forall_mem_range]
  · rintro _ ⟨i, rfl⟩ t -
    exact KnownBuf.fill_of _ _
  · obtain ⟨i, hi⟩ := hf fun _ => 0
    exact ⟨_, ⟨i, rfl⟩, fun t _ => by simp only [hi]⟩
  · intro t _ hp
    obtain ⟨i, hi⟩ := hf fun j => t.2.bytes.getD (j - t.2.off) 0
    exact ⟨_, ⟨i, rfl⟩, by simp only [hi]; exact hp.found⟩

theorem fixupLoop_eq_scanTests (hlen : ∀ e ∈ insts, e.2 < MAX_INS_BUF)
    (hs : SameBytes mem mem' insts) (buf : InsBuf) : fixupLoop c mem' insts buf =
      (scanTests (fun k => (blockBytes mem insts k).fill buf) (insTests c 0 insts)).map dirOf := by
  have h : fixupLoop c mem' insts ([].foldl (fun b e => loadIns mem' e b) buf) =
      fixupLoopLeft c mem' (leftAt mem' ([] ++ insts) buf) ([] : List InstExtent).length insts :=
    fixupLoop_eq [] buf
  rw [List.foldl_nil, List.nil_append, List.length_nil] at h
  refine h.trans (fixupLoopLeft_eq hlen fun j hj => ?_)
  have hsub : ∀ e ∈ insts.take j, e ∈ insts := fun e he => List.mem_of_mem_take he
  have hfill : buf = KnownBuf.fill (fun _ => none) buf := rfl
  rw [Nat.zero_add, loadIns_congr hs (List.getElem_mem hj), leftAt, foldl_loadIns_congr hs hsub,
    blockBytes, ← foldl_loadIns, ← hfill, List.take_succ_eq_append_getElem hj, List.foldl_append]
  rfl

theorem fixupLoopLeft_eq_scanTests (hlen : ∀ e ∈ insts, e.2 < MAX_INS_BUF)
    (hs : SameBytes mem mem' insts) (left : ℕ → InsBuf) : fixupLoopLeft c mem' left 0 insts =
      (scanTests (fun k => (ownBytes mem insts k).fill (left k)) (insTests c 0 insts)).map
        dirOf := by
  refine fixupLoopLeft_eq hlen fun j hj => ?_
  have hget : insts.getD j (0, 0) = insts[j] := by simp [List.getD_eq_getElem?_getD, hj]
  rw [Nat.zero_add, loadIns_congr hs (List.getElem_mem hj), ownBytes, hget, ← loadIns_fill]
  rfl

/-- What `canFixup` decides is decided by the instructions, with any contents of the
buffer at the start, and with any contents before each instruction, exactly if the bytes
of the instructions settle it: those of the block so far, and those of the instruction
alone. -/
theorem canFixup_settled_iff (c : FixupSettings) (mem : BitVec 64 → BitVec 8)
    (insts : List InstExtent) (hlen : ∀ e ∈ insts, e.2 < MAX_INS_BUF) :
    ((∃ r, ∀ mem' buf, SameBytes mem mem' insts → canFixup c mem' insts buf = some r) ↔
      c.sigill = true ∨ Settled (blockBytes mem insts) (insTests c 0 insts)) ∧
    ((∃ r, ∀ mem' left, SameBytes mem mem' insts → canFixupLeft c mem' insts left = some r) ↔
      c.sigill = true ∨ Settled (ownBytes mem insts) (insTests c 0 insts)) := by
  cases hc : c.sigill with
  | true =>
      simp only [canFixup, canFixupLeft, hc, if_true, true_or, iff_true]
      exact ⟨⟨.native, fun _ _ _ => rfl⟩, ⟨.native, fun _ _ _ => rfl⟩⟩
  | false =>
      have hself : SameBytes mem mem insts := fun _ _ _ _ => rfl
      simp only [canFixup, canFixupLeft, hc, Bool.false_eq_true, if_false, false_or]
      constructor
      · rw [← scanTests_range_iff _ (fun f _ => f) fun g => ⟨g, fun _ => rfl⟩, ← map_dirOf_iff]
        refine exists_congr fun r => ⟨fun h buf => ?_, fun h mem' buf hs => ?_⟩
        · rw [← fixupLoop_eq_scanTests hlen hself]
          exact h mem buf hself
        · rw [fixupLoop_eq_scanTests hlen hs]
          exact h buf
      · rw [← scanTests_range_iff _ (fun f => f) fun g => ⟨fun _ => g, fun _ => rfl⟩,
          ← map_dirOf_iff]
        refine exists_congr fun r => ⟨fun h left => ?_, fun h mem' left hs => ?_⟩
        · rw [← fixupLoopLeft_eq_scanTests hlen hself]
          exact h mem left hself
        · rw [fixupLoopLeft_eq_scanTests hlen hs]
          exact h left

def fixupFlags : FixupSettings := ⟨false, true, false⟩

/-- `mov $0x80,%al` at 0, and zeros behind it. -/
def movBytes (a : BitVec 64) : BitVec 8 := if a = 0 then 0xb0 else if a = 1 then 0x80 else 0

/-- `shl %cl,%esi` is one to fix up, whatever the buffer had. -/
theorem canFixup_shl : ∃ r, ∀ mem' buf,
    SameBytes (fun a => if a = 0 then 0xd3 else 0xe6) mem' [(0, 2)] →
      canFixup fixupFlags mem' [(0, 2)] buf = some r := by
  refine ((canFixup_settled_iff fixupFlags (fun a => if a = 0 then 0xd3 else 0xe6) [(0, 2)]
    (by decide)).1).2 (.inr (.inl ⟨(0, ⟨0, [0xd3]⟩), by decide, ?_⟩))
  intro j hj
  obtain rfl : j = 0 := by simpa using hj
  rfl

/-- What was in the buffer behind `mov $0x80,%al` decides whether it is fixed up. -/
theorem canFixup_unsettled : ¬∀ (c : FixupSettings) (mem : BitVec 64 → BitVec 8)
    (insts : List InstExtent), (∀ e ∈ insts, e.2 < MAX_INS_BUF) →
      ∃ r, ∀ mem' buf, SameBytes mem mem' insts → canFixup c mem' insts buf = some r := by
  intro h
  obtain ⟨r, hr⟩ := h fixupFlags movBytes [(0, 2)] (by decide)
  have h₀ := hr movBytes (fun _ => 0) fun _ _ _ _ => rfl
  have h₁ := hr movBytes (fun i => if i = 2 then 0xf0 else if i = 3 then 0x5f else 0xff)
    fun _ _ _ _ => rfl
  have hne : canFixup fixupFlags movBytes [(0, 2)] (fun _ => 0) ≠ canFixup fixupFlags movBytes
      [(0, 2)] fun i => if i = 2 then 0xf0 else if i = 3 then 0x5f else 0xff := by
    decide +kernel
  exact hne (h₀.trans h₁.symm)

end Loops

end PTShadowAMD64

end VexLLVM
