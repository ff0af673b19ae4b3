import VexLLVM.Elf.ElfCore

/-!
# The floating-point note

`writeElfCore` fills a local `_libc_fpstate`, of which it clears no byte, with the
low halves of the YMM registers, and writes all of it.
-/

namespace VexLLVM

namespace ElfImg

def sizeofFpstate : ℕ := 512

def memset (b : ℕ → Byte) (c : Byte) (n : ℕ) : ℕ → Byte := fun p => if p < n then c else b p

def setQuad (b : ℕ → Byte) (off : ℕ) (v : BitVec 64) : ℕ → Byte := fun p =>
  if off ≤ p ∧ p < off + 8 then v.extractLsb' (8 * (p - off)) 8 else b p

variable (getReg : String → ℕ → ℕ → BitVec 64) (stack : ℕ → Byte)

/-- One round of the loop: both halves of an XMM slot. -/
def setXmm (fpr : ℕ → Byte) (i : ℕ) : ℕ → Byte :=
  let v := 32 + 128 + i * 2 * 8
  setQuad (setQuad fpr (v + 8) (getReg "YMM" 64 (i * 4))) v (getReg "YMM" 64 (i * 4 + 1))

/-- `fpr`, which starts as what is on the stack. -/
def fpstate : ℕ → Byte := (List.range 16).foldl (setXmm getReg) (memset stack 0 0)

def fprBytes : List Byte := (List.range sizeofFpstate).map (fpstate getReg stack)

def Notes.withFpr (n : Notes) : Notes where
  prs := n.prs
  prps := n.prps
  fpr := fprBytes getReg stack
  prs_length := n.prs_length
  prps_length := n.prps_length
  fpr_length := by rw [fprBytes, List.length_map, List.length_range, sizeofFpstate]

theorem Notes.withFpr_fpr (n : Notes) : (n.withFpr getReg stack).fpr = fprBytes getReg stack := by
  rw [Notes.withFpr]

/-- `getReg` reads the quadwords of the YMM registers, which are 64. -/
def ReadsYmm (ymm : ℕ → Byte) : Prop :=
  ∀ k < 64, ∀ b < 8, (getReg "YMM" 64 k).extractLsb' (8 * b) 8 = ymm (8 * k + b)

/-- Slot `i` holds the low half of YMM `i`, the low quadword first. -/
def SlotOK (ymm : ℕ → Byte) (i : ℕ) : Prop :=
  ∀ j < 16, (fprBytes getReg stack)[160 + 16 * i + j]? = some (ymm (32 * i + j))

section Bytes

variable {getReg stack} {ymm : ℕ → Byte} {i j n p : ℕ}

theorem setXmm_slot (h : ReadsYmm getReg ymm) (fpr : ℕ → Byte) (hi : i < 16) (hj : j < 16) :
    setXmm getReg fpr i (160 + 16 * i + j) = ymm (32 * i + (j + 8) % 16) := by
  unfold setXmm setQuad
  by_cases hlow : j < 8
  · have hb := h (i * 4 + 1) (by omega) j hlow
    rw [if_pos (by omega), show 160 + 16 * i + j - (32 + 128 + i * 2 * 8) = j by omega, hb]
    congr 1
    omega
  · have hb := h (i * 4) (by omega) (j - 8) (by omega)
    rw [if_neg (by omega), if_pos (by omega),
      show 160 + 16 * i + j - (32 + 128 + i * 2 * 8 + 8) = j - 8 by omega, hb]
    congr 1
    omega

theorem setXmm_of_ne (fpr : ℕ → Byte) (hp : p < 160 + 16 * i ∨ 160 + 16 * i + 16 ≤ p) :
    setXmm getReg fpr i p = fpr p := by
  unfold setXmm setQuad
  rw [if_neg (by omega), if_neg (by omega)]

/-- The loop sets the slots, with the halves the wrong way round, and nothing else. -/
theorem foldl_setXmm (h : ReadsYmm getReg ymm) (fpr : ℕ → Byte) (hn : n ≤ 16) :
    (∀ i < n, ∀ j < 16, (List.range n).foldl (setXmm getReg) fpr (160 + 16 * i + j) =
      ymm (32 * i + (j + 8) % 16)) ∧
    ∀ p, p < 160 ∨ 160 + 16 * n ≤ p → (List.range n).foldl (setXmm getReg) fpr p = fpr p := by
  induction n with
  | zero => exact ⟨fun i hi => absurd hi (Nat.not_lt_zero i), fun _ _ => rfl⟩
  | succ n ih =>
      obtain ⟨hslots, hrest⟩ := ih (by omega)
      rw [List.range_succ, List.foldl_append]
      refine ⟨fun i hi j hj => ?_, fun p hp => ?_⟩
      · change setXmm getReg _ n _ = _
        by_cases hin : i = n
        · subst hin
          exact setXmm_slot h _ (by omega) hj
        · rw [setXmm_of_ne _ (by omega)]
          exact hslots i (by omega) j hj
      · change setXmm getReg _ n _ = _
        rw [setXmm_of_ne _ (by omega)]
        exact hrest p (by omega)

theorem fprBytes_slot (h : ReadsYmm getReg ymm) (hi : i < 16) (hj : j < 16) :
    (fprBytes getReg stack)[160 + 16 * i + j]? = some (ymm (32 * i + (j + 8) % 16)) := by
  have hlt : 160 + 16 * i + j < sizeofFpstate := by
    rw [sizeofFpstate]
    omega
  rw [fprBytes, List.getElem?_map, List.getElem?_range hlt]
  exact congrArg some ((foldl_setXmm h _ (Nat.le_refl 16)).1 i hi j hj)

theorem fprBytes_rest (h : ReadsYmm getReg ymm) (hp : p < 160 ∨ 416 ≤ p) (hlt : p < 512) :
    (fprBytes getReg stack)[p]? = some (stack p) := by
  rw [fprBytes, List.getElem?_map, List.getElem?_range (show p < sizeofFpstate from hlt)]
  exact congrArg some ((foldl_setXmm h _ (Nat.le_refl 16)).2 p (by omega))

/-- A slot is right exactly if the two low quadwords of its register are the same. -/
theorem slotOK_iff (h : ReadsYmm getReg ymm) (hi : i < 16) :
    SlotOK getReg stack ymm i ↔ ∀ b < 8, ymm (32 * i + b) = ymm (32 * i + 8 + b) := by
  constructor
  · intro hs b hb
    have hbyte := hs b (by omega)
    rw [fprBytes_slot h hi (by omega), Nat.mod_eq_of_lt (show b + 8 < 16 by omega)] at hbyte
    rw [← Option.some.inj hbyte]
    congr 1
    omega
  · intro hs j hj
    rw [fprBytes_slot h hi hj]
    by_cases hlow : j < 8
    · rw [hs j hlow, Nat.mod_eq_of_lt (show j + 8 < 16 by omega)]
      congr 2
      omega
    · have := hs (j - 8) (by omega)
      rw [show (j + 8) % 16 = j - 8 by omega, this]
      congr 2
      omega

/-- Notes that agree in all but the last differ in the last. -/
theorem fpr_of_noteBytes {n n' : Notes} (hs : n.prs = n'.prs) (hp : n.prps = n'.prps)
    (h : noteBytes n = noteBytes n') : n.fpr = n'.fpr := by
  have hlen : n.fpr.length = n'.fpr.length := n.fpr_length.trans n'.fpr_length.symm
  rw [noteBytes, noteBytes, hs, hp] at h
  have hnote : writeNote 2 n.fpr = writeNote 2 n'.fpr := List.append_cancel_left h
  rw [writeNote, writeNote, hlen] at hnote
  exact List.append_cancel_left hnote

/-- With other bytes on the stack, the notes are others. -/
theorem noteBytes_ne (h : ReadsYmm getReg ymm) (notes : Notes) :
    noteBytes (notes.withFpr getReg fun _ => 0) ≠ noteBytes (notes.withFpr getReg fun _ => 1) := by
  intro heq
  have h₀ : (fprBytes getReg fun _ => 0)[0]? = some 0 :=
    fprBytes_rest h (.inl (by decide)) (by decide)
  have h₁ : (fprBytes getReg fun _ => 1)[0]? = some 1 :=
    fprBytes_rest h (.inl (by decide)) (by decide)
  have hfpr := fpr_of_noteBytes (by rfl) (by rfl) heq
  rw [Notes.withFpr_fpr, Notes.withFpr_fpr] at hfpr
  rw [hfpr, h₁] at h₀
  exact absurd (Option.some.inj h₀) (by decide)

end Bytes

/-- The slots hold the low halves of the registers, and the notes are the same
whatever is on the stack. -/
def FprOfGuest (ymm : ℕ → Byte) (notes : Notes) : Prop :=
  (∀ stack, ∀ i < 16, SlotOK getReg stack ymm i) ∧
    ∀ stack stack', noteBytes (notes.withFpr getReg stack) = noteBytes (notes.withFpr getReg stack')

/-- The floating-point note is a function of no guest state: the bytes outside of the
slots are those of the stack. A slot is right exactly if the two low quadwords of its
register are the same. -/
theorem fprBytes_statement (ymm : ℕ → Byte) (h : ReadsYmm getReg ymm) (notes : Notes) :
    ¬ FprOfGuest getReg ymm notes ∧
    (∀ stack, ∀ p < sizeofFpstate, p < 160 ∨ 416 ≤ p →
      (fprBytes getReg stack)[p]? = some (stack p)) ∧
    ∀ stack, ∀ i < 16,
      (SlotOK getReg stack ymm i ↔ ∀ b < 8, ymm (32 * i + b) = ymm (32 * i + 8 + b)) :=
  ⟨fun hf => noteBytes_ne h notes (hf.2 _ _), fun _ _ hlt hp => fprBytes_rest h hp hlt,
    fun _ _ hi => slotOK_iff h hi⟩

def lowYmm (p : ℕ) : Byte := if p < 8 then 0xff else 0

def lowReg (_ : String) (_ k : ℕ) : BitVec 64 := if k = 0 then 0xffffffffffffffff else 0

theorem readsYmm_lowReg : ReadsYmm lowReg lowYmm := by
  intro k hk b hb
  by_cases h : k = 0
  · have hb' : ∀ b < 8, (0xffffffffffffffff : BitVec 64).extractLsb' (8 * b) 8 = 0xff := by decide
    rw [lowReg, if_pos h, lowYmm, if_pos (by omega)]
    exact hb' b hb
  · rw [lowReg, if_neg h, lowYmm, if_neg (by omega)]
    exact BitVec.eq_of_toNat_eq (by simp)

/-- A register whose low quadwords are equal. -/
theorem fprBytes_slot_one : SlotOK lowReg (fun _ => 0) lowYmm 1 :=
  ((fprBytes_statement lowReg lowYmm readsYmm_lowReg zeroNotes).2.2 _ 1 (by decide)).2 fun b hb => by
    rw [lowYmm, if_neg (by omega), lowYmm, if_neg (by omega)]

/-- Slot 0 is wrong, and the note of a run with ones on the stack is another one. -/
theorem fprBytes_not_ofGuest : ReadsYmm lowReg lowYmm ∧ ¬ SlotOK lowReg (fun _ => 0) lowYmm 0 ∧
    noteBytes (zeroNotes.withFpr lowReg fun _ => 0) ≠
      noteBytes (zeroNotes.withFpr lowReg fun _ => 1) ∧
    ¬ FprOfGuest lowReg lowYmm zeroNotes := by
  have hne := noteBytes_ne readsYmm_lowReg zeroNotes
  refine ⟨readsYmm_lowReg, fun hs => ?_, hne, fun hf => hne (hf.2 _ _)⟩
  exact absurd ((slotOK_iff readsYmm_lowReg (by decide)).1 hs 0 (by decide)) (by decide)

end ElfImg

end VexLLVM
