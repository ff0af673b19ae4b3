import VexLLVM.Check.PTShadowAMD64
import Mathlib.Data.BitVec
import Mathlib.Logic.Function.Basic

/-!
# The registers of a traced process as guest state

`setRegs` writes the registers of the traced process into the guest state, and
`vex2ptrace` writes the guest state into such registers. One is a list of fields,
the other a loop over the table of registers. The vector registers are 32 bytes
apart on one side and 16 on the other.

The x87 registers are 80 bits on the side of the process, 16 bytes apart. `setRegs`
copies 64 bytes in one piece, and so fills the eight registers of the guest with the
halves of the first four.
-/

namespace VexLLVM

namespace PTShadowAMD64

def memcpy (dst : ℕ → BitVec 8) (d : ℕ) (src : ℕ → BitVec 8) (s n : ℕ) : ℕ → BitVec 8 :=
  fun b => if d ≤ b ∧ b < d + n then src (s + (b - d)) else dst b

/-- The loop over the vector registers: 16 bytes of each. -/
def copyLanes (dst : ℕ → BitVec 8) (d : ℕ) (src : ℕ → BitVec 8) (s n : ℕ) : ℕ → BitVec 8 :=
  (List.range n).foldl (fun y i => memcpy y (i * d) src (i * s) 16) dst

/-- `AMD64CPUState::setRegs`; without a result where the assertion on FS fails. -/
def setRegs (v : VexState) (u : UserRegs) : Option VexState :=
  if u.user .fs_base ≠ 0 then
    some {
      guest := fun
        | .RAX => u.user .rax
        | .RCX => u.user .rcx
        | .RDX => u.user .rdx
        | .RBX => u.user .rbx
        | .RSP => u.user .rsp
        | .RBP => u.user .rbp
        | .RSI => u.user .rsi
        | .RDI => u.user .rdi
        | .R8 => u.user .r8
        | .R9 => u.user .r9
        | .R10 => u.user .r10
        | .R11 => u.user .r11
        | .R12 => u.user .r12
        | .R13 => u.user .r13
        | .R14 => u.user .r14
        | .R15 => u.user .r15
        | .RIP => u.user .rip
        | .FS_CONST => u.user .fs_base
        | .DFLAG => if u.user .eflags &&& 1 <<< 10 ≠ 0 then -1 else 1
        | .CC_OP => 0
        | .CC_DEP1 => u.user .eflags &&& (0xff ||| 3 <<< 10)
        | .CC_DEP2 => 0
        | .CC_NDEP => u.user .eflags &&& (0xff ||| 3 <<< 10)
        | .IDFLAG => v.guest .IDFLAG
        | .ACFLAG => v.guest .ACFLAG
      guest_YMM := copyLanes v.guest_YMM 32 u.xmm_space 16 16
      guest_FTOP := v.guest_FTOP
      guest_FPREG := fun k =>
        if k < 8 then u.st_space (2 * k + 1) ++ u.st_space (2 * k) else v.guest_FPREG k }
  else none

def ptrace2vex (u : UserRegs) (v : VexState) : Option VexState := setRegs v u

def vex2ptrace (o : Ops) (v : VexState) (u : UserRegs) : UserRegs where
  user := Function.update
    (user_regs_desc_tab.foldl (fun r d => Function.update r d.user_off (v.guest d.vex_off)) u.user)
    .eflags (getRFLAGS o v ||| 0x200)
  xmm_space := copyLanes (fun _ => 0) 16 v.guest_YMM 32 16
  st_space := fun _ => 0

/-- The flags C, P, A, Z, S and O. -/
def STATUS_MASK : BitVec 64 := 0x8d5

def DFLAG_MASK : BitVec 64 := 0x400

/-- The flags C, P, A, Z, S, D and O. -/
def SHARED_MASK : BitVec 64 := STATUS_MASK ||| DFLAG_MASK

/-- The direction flag of the guest state is one that the flags can be asked of. -/
def VexState.DirOk (v : VexState) : Prop := v.guest .DFLAG = 1 ∨ v.guest .DFLAG = -1

/-- On a thunk that is a copy, the flags are the status bits of the copy, and the
direction flag. -/
def Ops.CopiesFlags (o : Ops) : Prop :=
  ∀ v : VexState, v.guest .CC_OP = 0 → v.DirOk →
    o.get_rflags v &&& FLAGS_MASK =
      v.guest .CC_DEP1 &&& STATUS_MASK ||| (if v.guest .DFLAG = -1 then DFLAG_MASK else 0)

/-- The bits 3 and 5. -/
def RESERVED_MASK : BitVec 64 := 0x28

/-- The reserved bits of a register of flags: bit 1 is set, bits 3 and 5 are not. -/
def Reserved (eflags : BitVec 64) : Prop := eflags &&& 0x2a = 2

section Lanes

variable {dst src : ℕ → BitVec 8} {d s n i b : ℕ}

theorem copyLanes_succ : copyLanes dst d src s (n + 1) =
    memcpy (copyLanes dst d src s n) (n * d) src (n * s) 16 := by
  simp [copyLanes, List.range_succ]

/-- A lane has the 16 bytes of its register. -/
theorem copyLanes_lane (hd : 16 ≤ d) (hi : i < n) (hb : b < 16) :
    copyLanes dst d src s n (i * d + b) = src (i * s + b) := by
  induction n with
  | zero => omega
  | succ n ih =>
      rw [copyLanes_succ, memcpy]
      rcases Nat.lt_succ_iff_lt_or_eq.1 hi with h | rfl
      · have hlt : i * d + d ≤ n * d := by
          rw [← Nat.succ_mul]
          exact Nat.mul_le_mul_right d h
        rw [if_neg (by omega), ih h]
      · rw [if_pos (by omega), Nat.add_sub_cancel_left]

/-- What is in no lane is as it was. -/
theorem copyLanes_frame (h : ∀ i < n, ∀ k < 16, b ≠ i * d + k) :
    copyLanes dst d src s n b = dst b := by
  induction n with
  | zero => rfl
  | succ n ih =>
      rw [copyLanes_succ, memcpy, if_neg, ih fun i hi => h i (by omega)]
      rintro ⟨h₁, h₂⟩
      exact h n (by omega) (b - n * d) (by omega) (by omega)

end Lanes

section Flags

theorem and_dflag (x : BitVec 64) :
    (if x &&& DFLAG_MASK ≠ 0 then DFLAG_MASK else 0) = x &&& DFLAG_MASK := by
  have h := BitVec.and_twoPow x 10
  have hd : BitVec.twoPow 64 10 = DFLAG_MASK := by decide
  rw [hd] at h
  rw [h]
  cases x.getLsbD 10 <;> decide

/-- The flags the guest state stands for once it has those of the process. -/
theorem getRFLAGS_of_copy {o : Ops} (ho : o.CopiesFlags) {v : VexState} {e : BitVec 64}
    (hop : v.guest .CC_OP = 0) (hdep : v.guest .CC_DEP1 = e &&& (0xff ||| 3 <<< 10))
    (hdf : v.guest .DFLAG = if e &&& 1 <<< 10 ≠ 0 then -1 else 1) :
    getRFLAGS o v = e &&& SHARED_MASK ||| 2 := by
  have hdir : v.DirOk := by
    unfold VexState.DirOk
    rw [hdf]
    split
    · exact .inr rfl
    · exact .inl rfl
  have hneg : (if v.guest .DFLAG = -1 then DFLAG_MASK else 0) = e &&& DFLAG_MASK := by
    rw [← and_dflag, hdf]
    change _ = if e &&& 1 <<< 10 ≠ 0 then DFLAG_MASK else 0
    split <;> rfl
  have hstatus : e &&& (0xff ||| 3 <<< 10) &&& STATUS_MASK = e &&& STATUS_MASK := by
    rw [BitVec.and_assoc]
    rfl
  rw [getRFLAGS, ho v hop hdir, hdep, hneg, hstatus, ← BitVec.and_or_distrib_left]
  rfl

/-- Where the reserved bits are those of the hardware, the flags are compared in full. -/
theorem and_flagsMask {e : BitVec 64} (hr : Reserved e) :
    e &&& FLAGS_MASK = e &&& SHARED_MASK ||| 2 := by
  have hm : FLAGS_MASK &&& (0xff ||| 3 <<< 10) = SHARED_MASK ||| 0x2a := by decide
  have hf : FLAGS_MASK = FLAGS_MASK &&& (0xff ||| 3 <<< 10) := by decide
  rw [hf, hm, BitVec.and_or_distrib_left, hr]

end Flags

section SetRegs

variable {o : Ops} {v v' : VexState} {u : UserRegs}

/-- One slot of the x87 comparison, as the registers of the process have it: the two
halves that went into the register of the guest are those the slot starts with, and the
rest of the slot looks like no exponent; or the number in the slot is the one the two
halves are the bits of. -/
def SlotAgrees (o : Ops) (st : ℕ → BitVec 32) (r i : ℕ) : Prop :=
  (st (2 * r + 1) ++ st (2 * r) = st (2 * i + 1) ++ st (2 * i) ∧
      (st (2 * i + 2) = 0 ∨ st (2 * i + 2) = 0xFFFF) ∧ st (2 * i + 3) = 0) ∨
    o.ldToDouble (fun k => st (2 * i + k)) = st (2 * r + 1) ++ st (2 * r)

def slotReg (top : BitVec 32) (i : ℕ) : ℕ := ((top + BitVec.ofNat 32 i) &&& 0x7).toNat

theorem slotReg_lt (top : BitVec 32) (i : ℕ) : slotReg top i < 8 := by
  rw [slotReg, BitVec.toNat_and]
  exact Nat.lt_of_le_of_lt Nat.and_le_right (by decide : (7#32).toNat < 8)

theorem x87Ok_slotReg (i : ℕ) : x87Ok o v u i =
    fcompare o (fun k => u.st_space (2 * i + k)) (v.guest_FPREG (slotReg v.guest_FTOP i)) := rfl

theorem setRegs_isSome (hfs : u.user .fs_base ≠ 0) : ∃ v', setRegs v u = some v' :=
  ⟨_, if_pos hfs⟩

/-- What the guest state has of the process, apart from the flags and the x87 registers. -/
theorem setRegs_general (h : setRegs v u = some v') :
    (∀ r ∈ generalRegs, v'.guest r.2 = u.user r.1) ∧ v'.guest .FS_CONST = u.user .fs_base := by
  unfold setRegs at h
  split at h
  · cases h
    simp [generalRegs]
  · cases h

theorem setRegs_flags (h : setRegs v u = some v') (ho : o.CopiesFlags) :
    getRFLAGS o v' = u.user .eflags &&& SHARED_MASK ||| 2 := by
  unfold setRegs at h
  split at h
  · cases h
    exact getRFLAGS_of_copy ho rfl rfl rfl
  · cases h

theorem setRegs_ymm (h : setRegs v u = some v') :
    v'.guest_YMM = copyLanes v.guest_YMM 32 u.xmm_space 16 16 := by
  unfold setRegs at h
  split at h
  · cases h
    rfl
  · cases h

theorem setRegs_sameXMM (h : setRegs v u = some v') : SameXMM v' u := fun i hi b hb => by
  rw [setRegs_ymm h, copyLanes_lane (by omega) hi hb]

/-- The x87 registers of the guest are the halves of the first four slots. -/
theorem setRegs_x87Ok (h : setRegs v u = some v') (i : ℕ) :
    x87Ok o v' u i = true ↔ SlotAgrees o u.st_space (slotReg v.guest_FTOP i) i := by
  unfold setRegs at h
  split at h
  · cases h
    rw [x87Ok_slotReg]
    simp only [fcompare, ldeqd, SlotAgrees, if_pos (slotReg_lt v.guest_FTOP i), Bool.or_eq_true,
      Bool.and_eq_true, beq_iff_eq, Nat.add_zero, and_assoc]
  · cases h

/-- The guest state that was written from the process is found to match it exactly if
the x87 slots agree with the halves that were copied. -/
theorem setRegs_isMatch_iff (o : Ops) (ho : o.CopiesFlags) (xchk_eflags : Bool) (v : VexState)
    (u : UserRegs) (hfs : u.user .fs_base ≠ 0) (hr : Reserved (u.user .eflags)) :
    (∃ v', setRegs v u = some v' ∧ isMatch o xchk_eflags v' u = true) ↔
      ∀ i < 8, SlotAgrees o u.st_space (slotReg v.guest_FTOP i) i := by
  obtain ⟨v', h⟩ := setRegs_isSome (v := v) hfs
  have hiff : isMatch o xchk_eflags v' u = true ↔
      ∀ i < 8, SlotAgrees o u.st_space (slotReg v.guest_FTOP i) i := by
    rw [isMatch_eq_true]
    constructor
    · exact fun hc i hi => (setRegs_x87Ok h i).1 (hc.x87 i hi)
    · intro hs
      refine ⟨fun r hr _ => ((setRegs_general h).1 r hr).symm, .inr (setRegs_general h).2.symm,
        setRegs_sameXMM h, fun _ => ?_, fun i hi => (setRegs_x87Ok h i).2 (hs i hi)⟩
      rw [and_flagsMask hr, setRegs_flags h ho]
  rw [← hiff]
  constructor
  · rintro ⟨w, hw, hm⟩
    rw [h] at hw
    cases hw
    exact hm
  · exact fun hm => ⟨v', h, hm⟩

/-- Flags that are a copy, for a state whose thunk is one; a number's value as given. -/
def copyOps (ld : (ℕ → BitVec 32) → BitVec 64) : Ops :=
  ⟨fun v => v.guest .CC_DEP1 &&& STATUS_MASK ||| (if v.guest .DFLAG = -1 then DFLAG_MASK else 0), ld⟩

theorem copyOps_copiesFlags (ld : (ℕ → BitVec 32) → BitVec 64) : (copyOps ld).CopiesFlags := by
  intro v _ _
  have h : STATUS_MASK &&& FLAGS_MASK = STATUS_MASK := by decide
  have hd : DFLAG_MASK &&& FLAGS_MASK = DFLAG_MASK := by decide
  have hz : (0 : BitVec 64) &&& FLAGS_MASK = 0 := by decide
  rw [copyOps, BitVec.and_comm, BitVec.and_or_distrib_left, BitVec.and_comm, BitVec.and_assoc, h,
    BitVec.and_comm FLAGS_MASK]
  split
  · rw [hd]
  · rw [hz]

/-- Registers of a process that has TLS, interrupts enabled, and these x87 slots. -/
def sampleRegs (st : ℕ → BitVec 32) : UserRegs :=
  ⟨fun r => if r = .fs_base then 0x7f0000001000 else if r = .eflags then 0x202 else 0, fun _ => 0, st⟩

def sampleState : VexState := ⟨fun _ => 0, fun _ => 0, 0, fun _ => 0⟩

/-- With empty x87 registers, the states match. -/
theorem setRegs_isMatch_empty : ∃ v', setRegs sampleState (sampleRegs fun _ => 0) = some v' ∧
    isMatch (copyOps fun _ => 0) true v' (sampleRegs fun _ => 0) = true :=
  (setRegs_isMatch_iff _ (copyOps_copiesFlags _) true sampleState (sampleRegs fun _ => 0)
    (by decide) (by unfold Reserved; decide)).2
    fun _ _ => .inr (show (0 : BitVec 64) = (0 : BitVec 32) ++ (0 : BitVec 32) from rfl)

def oneOnStack : ℕ → BitVec 32
  | 1 => 0x80000000
  | 2 => 0x3fff
  | _ => 0

/-- With 1.0 on the x87 stack, they do not. -/
theorem setRegs_not_isMatch : ¬∀ (o : Ops), o.CopiesFlags → ∀ (xchk_eflags : Bool) (v : VexState)
    (u : UserRegs), u.user .fs_base ≠ 0 → Reserved (u.user .eflags) →
      ∃ v', setRegs v u = some v' ∧ isMatch o xchk_eflags v' u = true := by
  intro h
  obtain ⟨v', hv, hm⟩ := h _ (copyOps_copiesFlags fun _ => 0x3ff0000000000000) false sampleState
    (sampleRegs oneOnStack) (by decide) (by unfold Reserved; decide)
  have hs := (setRegs_x87Ok hv 0).1 ((isMatch_eq_true.1 hm).x87 0 (by decide))
  have hne : ¬SlotAgrees (copyOps fun _ => 0x3ff0000000000000) oneOnStack 0 0 := by
    unfold SlotAgrees
    decide
  exact hne hs

end SetRegs

section Conversions

variable {o : Ops} {v v' w : VexState} {u : UserRegs}

/-- The table has every register of the guest state that the process has as well. -/
theorem vex2ptrace_general : (∀ r ∈ generalRegs, (vex2ptrace o v u).user r.1 = v.guest r.2) ∧
    (vex2ptrace o v u).user .fs_base = v.guest .FS_CONST := by
  simp [vex2ptrace, user_regs_desc_tab, generalRegs, Function.update]

theorem vex2ptrace_eflags : (vex2ptrace o v u).user .eflags = getRFLAGS o v ||| 0x200 := by
  simp only [vex2ptrace, Function.update_self]

theorem vex2ptrace_xmm {i b : ℕ} (hi : i < 16) (hb : b < 16) :
    (vex2ptrace o v u).xmm_space (i * 16 + b) = v.guest_YMM (i * 32 + b) :=
  copyLanes_lane (by omega) hi hb

/-- The flags of a guest state are those that are kept, what its thunk has of the
reserved bits, and the bit that is forced. -/
theorem getRFLAGS_eq : getRFLAGS o v =
    o.get_rflags v &&& SHARED_MASK ||| o.get_rflags v &&& RESERVED_MASK ||| 2 := by
  have hm : FLAGS_MASK = SHARED_MASK ||| RESERVED_MASK ||| 2 := by decide
  have habs (x m : BitVec 64) : x &&& m ||| m = m := by
    ext i
    simp
  calc getRFLAGS o v
      = o.get_rflags v &&& (SHARED_MASK ||| RESERVED_MASK ||| 2) ||| 2 := by rw [← hm]; rfl
    _ = o.get_rflags v &&& SHARED_MASK ||| o.get_rflags v &&& RESERVED_MASK |||
          (o.get_rflags v &&& 2 ||| 2) := by
        rw [BitVec.and_or_distrib_left, BitVec.and_or_distrib_left, BitVec.or_assoc]
    _ = o.get_rflags v &&& SHARED_MASK ||| o.get_rflags v &&& RESERVED_MASK ||| 2 := by rw [habs]

/-- Forced bits are not among those that are kept. -/
theorem or_and_shared (x : BitVec 64) {m : BitVec 64} (hm : m &&& SHARED_MASK = 0) :
    (x &&& SHARED_MASK ||| m) &&& SHARED_MASK = x &&& SHARED_MASK := by
  rw [BitVec.and_or_distrib_right, hm, BitVec.and_assoc, BitVec.and_self]
  exact BitVec.or_zero

/-- The guest state `w` has the registers of `v`, apart from the flags, that a process
has as well. -/
structure SharedVex (v w : VexState) : Prop where
  general : ∀ r ∈ generalRegs, w.guest r.2 = v.guest r.2
  fs : w.guest .FS_CONST = v.guest .FS_CONST
  ymm : ∀ i < 16, ∀ b < 16, w.guest_YMM (i * 32 + b) = v.guest_YMM (i * 32 + b)

structure SharedFlags (o : Ops) (v w : VexState) : Prop where
  status : getRFLAGS o w &&& SHARED_MASK = getRFLAGS o v &&& SHARED_MASK
  rflags : getRFLAGS o w = getRFLAGS o v ↔ o.get_rflags v &&& RESERVED_MASK = 0

/-- The registers `t` are those of `u`, as far as a guest state has them. -/
structure SharedPtrace (u t : UserRegs) : Prop where
  general : ∀ r ∈ generalRegs, t.user r.1 = u.user r.1
  fs : t.user .fs_base = u.user .fs_base
  xmm : ∀ i < 16, ∀ b < 16, t.xmm_space (i * 16 + b) = u.xmm_space (i * 16 + b)
  flags : t.user .eflags &&& SHARED_MASK =
    u.user .eflags &&& SHARED_MASK

/-- The vector registers are as they were, apart from the lower halves of the first
sixteen. -/
def UpperKept (v v' : VexState) : Prop :=
  ∀ b, (∀ i < 16, ∀ k < 16, b ≠ i * 32 + k) → v'.guest_YMM b = v.guest_YMM b

theorem setRegs_upperKept (h : setRegs v u = some v') : UpperKept v v' := fun b hb => by
  rw [setRegs_ymm h, copyLanes_frame hb]

/-- From the guest state to the process and back. -/
theorem sharedVex_of_setRegs (h : setRegs w (vex2ptrace o v u) = some v') : SharedVex v v' where
  general r hr := ((setRegs_general h).1 r hr).trans (vex2ptrace_general.1 r hr)
  fs := (setRegs_general h).2.trans vex2ptrace_general.2
  ymm i hi b hb := (setRegs_sameXMM h i hi b hb).trans (vex2ptrace_xmm hi hb)

theorem getRFLAGS_and_shared :
    getRFLAGS o v &&& SHARED_MASK = o.get_rflags v &&& SHARED_MASK := by
  have hm : FLAGS_MASK &&& SHARED_MASK = SHARED_MASK := by decide
  have h₂ : 1 <<< 1 &&& SHARED_MASK = 0 := by decide
  rw [getRFLAGS, BitVec.and_or_distrib_right, h₂, BitVec.and_assoc, hm]
  exact BitVec.or_zero

/-- On the way back the thunk is a copy, and has none of the reserved bits. -/
theorem getRFLAGS_of_setRegs (ho : o.CopiesFlags) (h : setRegs w (vex2ptrace o v u) = some v') :
    getRFLAGS o v' = o.get_rflags v &&& SHARED_MASK ||| 2 := by
  have h₂ : 0x200 &&& SHARED_MASK = 0 := by decide
  rw [setRegs_flags h ho, vex2ptrace_eflags, ← getRFLAGS_and_shared,
    BitVec.and_or_distrib_right, h₂]
  exact congrArg (· ||| 2) BitVec.or_zero

theorem or_and_reserved (x y : BitVec 64) :
    (x &&& SHARED_MASK ||| y ||| 2) &&& RESERVED_MASK = y &&& RESERVED_MASK := by
  have hs : SHARED_MASK &&& RESERVED_MASK = 0 := by decide
  have h₂ : 2 &&& RESERVED_MASK = 0 := by decide
  rw [BitVec.and_or_distrib_right, BitVec.and_or_distrib_right, BitVec.and_assoc, hs, h₂]
  simp

theorem sharedFlags_of_setRegs (ho : o.CopiesFlags)
    (h : setRegs w (vex2ptrace o v u) = some v') : SharedFlags o v v' where
  status := by
    have h₂ : 2 &&& SHARED_MASK = 0 := by decide
    rw [getRFLAGS_of_setRegs ho h, or_and_shared _ h₂, getRFLAGS_and_shared]
  rflags := by
    rw [getRFLAGS_of_setRegs ho h, getRFLAGS_eq]
    constructor
    · intro he
      have hr := congrArg (· &&& RESERVED_MASK) he
      have hl := or_and_reserved (o.get_rflags v) 0
      have hk : RESERVED_MASK &&& RESERVED_MASK = RESERVED_MASK := by decide
      simp only [or_and_reserved, BitVec.and_assoc, hk] at hr
      rw [← hr]
      simpa using hl
    · intro he
      rw [he]
      exact congrArg (· ||| 2) BitVec.or_zero.symm

/-- From the process to the guest state and back. -/
theorem sharedPtrace_of_setRegs (ho : o.CopiesFlags) (h : setRegs v u = some v') (t : UserRegs) :
    SharedPtrace u (vex2ptrace o v' t) where
  general r hr := (vex2ptrace_general.1 r hr).trans ((setRegs_general h).1 r hr)
  fs := vex2ptrace_general.2.trans (setRegs_general h).2
  xmm i hi b hb := (vex2ptrace_xmm hi hb).trans (setRegs_sameXMM h i hi b hb)
  flags := by
    have h₂ : (2 ||| 0x200) &&& SHARED_MASK = 0 := by decide
    rw [vex2ptrace_eflags, setRegs_flags h ho, BitVec.or_assoc]
    exact or_and_shared _ h₂

/-- The conversions between the registers of the guest and those of a process are
inverse on what both have: from any guest state, over any registers of the process and
any guest state, and from any registers of the process. What the process does not have
of the vector registers stays. The reserved flags that a thunk may stand for are lost on
the way, as a thunk that is a copy has none. -/
theorem ptrace2vex_vex2ptrace (o : Ops) (ho : o.CopiesFlags) :
    (∀ v w u, v.guest .FS_CONST ≠ 0 → v.DirOk →
      ∃ w', ptrace2vex (vex2ptrace o v u) w = some w' ∧ SharedVex v w' ∧
        SharedFlags o v w' ∧ UpperKept w w') ∧
    (∀ u v, u.user .fs_base ≠ 0 → ∃ v', ptrace2vex u v = some v' ∧ UpperKept v v' ∧
      ∀ t, SharedPtrace u (vex2ptrace o v' t)) := by
  constructor
  · intro v w u hfs _
    obtain ⟨w', hw⟩ := setRegs_isSome (v := w) (u := vex2ptrace o v u)
      (by rwa [vex2ptrace_general.2])
    exact ⟨w', hw, sharedVex_of_setRegs hw, sharedFlags_of_setRegs ho hw, setRegs_upperKept hw⟩
  · intro u v hfs
    obtain ⟨v', hv⟩ := setRegs_isSome (v := v) hfs
    exact ⟨v', hv, setRegs_upperKept hv, sharedPtrace_of_setRegs ho hv⟩

def backwardState : VexState :=
  ⟨fun r => if r = .FS_CONST then 0x7f0000001000 else if r = .DFLAG then -1 else 0,
    fun b => BitVec.ofNat 8 b, 0, fun _ => 0⟩

theorem ptrace2vex_vex2ptrace_backward :
    ∃ w', ptrace2vex (vex2ptrace (copyOps fun _ => 0) backwardState (sampleRegs fun _ => 0))
        sampleState = some w' ∧
      SharedVex backwardState w' ∧ SharedFlags (copyOps fun _ => 0) backwardState w' ∧
        UpperKept sampleState w' :=
  (ptrace2vex_vex2ptrace _ (copyOps_copiesFlags _)).1 backwardState
    sampleState (sampleRegs fun _ => 0) (by decide) (.inr (by decide))

def CC_OP_ROLQ : BitVec 64 := 40

/-- Flags that are a copy, or those after a rotation: C and O are those of the result, and
the others those of before, as they were kept. -/
def rotateOps : Ops where
  get_rflags v :=
    (if v.guest .CC_OP = CC_OP_ROLQ then
      v.guest .CC_NDEP &&& ~~~(0x801 : BitVec 64) ||| v.guest .CC_DEP1 &&& 1 |||
        0x800 &&& (v.guest .CC_DEP1 >>> 52 ^^^ v.guest .CC_DEP1 <<< 11)
    else v.guest .CC_DEP1 &&& STATUS_MASK) ||| (if v.guest .DFLAG = -1 then DFLAG_MASK else 0)
  ldToDouble _ := 0

theorem rotateOps_copiesFlags : rotateOps.CopiesFlags := by
  intro v hop hd
  rw [← copyOps_copiesFlags (fun _ => 0) v hop hd]
  have hne : (0 : BitVec 64) ≠ CC_OP_ROLQ := by decide
  simp only [rotateOps, copyOps, hop, if_neg hne]

/-- A guest that has TLS, after a rotation; bit 3 is among the flags of before. -/
def rotatedState : VexState where
  guest
    | .FS_CONST => 0x7f0000001000
    | .DFLAG => 1
    | .CC_OP => CC_OP_ROLQ
    | .CC_NDEP => 8
    | _ => 0
  guest_YMM := fun _ => 0
  guest_FTOP := 0
  guest_FPREG := fun _ => 0

/-- After a rotation, the flags are not the same. -/
theorem ptrace2vex_rflags_lost : ¬∀ o : Ops, o.CopiesFlags → ∀ v w u, v.guest .FS_CONST ≠ 0 →
    v.DirOk → ∃ w', ptrace2vex (vex2ptrace o v u) w = some w' ∧ SharedVex v w' ∧
      getRFLAGS o w' = getRFLAGS o v ∧ UpperKept w w' := by
  intro h
  obtain ⟨w', hw, -, hf, -⟩ := h rotateOps rotateOps_copiesFlags rotatedState sampleState
    (sampleRegs fun _ => 0) (by decide) (.inl (by decide))
  have hr := (sharedFlags_of_setRegs rotateOps_copiesFlags hw).rflags.1 hf
  revert hr
  decide

end Conversions

end PTShadowAMD64

end VexLLVM
