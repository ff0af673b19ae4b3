import Mathlib.Data.List.Basic
import Mathlib.Data.Nat.Notation

/-!
# The comparison of the guest state with a traced process

`PTShadowAMD64`: the registers of the translator are compared with those of a process
that runs the same program under `ptrace`. The comparison is driven by a table of
registers. It goes through the first `GPR_COUNT` entries, which are one short of the
general registers: R15 is never looked at.
-/

namespace VexLLVM

namespace PTShadowAMD64

/-- The fields of `user_regs_struct` that are read. -/
inductive UserReg where
  | rip | rax | rbx | rcx | rdx | rsp | rbp | rdi | rsi
  | r8 | r9 | r10 | r11 | r12 | r13 | r14 | r15
  | fs_base | eflags
  deriving DecidableEq, Repr

/-- The 64-bit fields of `VexGuestAMD64State` that are read, and those the flags are
computed from. -/
inductive VexReg where
  | RIP | RAX | RBX | RCX | RDX | RSP | RBP | RDI | RSI
  | R8 | R9 | R10 | R11 | R12 | R13 | R14 | R15
  | FS_CONST
  | CC_OP | CC_DEP1 | CC_DEP2 | CC_NDEP | DFLAG | IDFLAG | ACFLAG
  deriving DecidableEq, Repr

/-- `VexGuestAMD64State`. The vector registers are bytes from the start of the first. -/
structure VexState where
  guest : VexReg → BitVec 64
  guest_YMM : ℕ → BitVec 8
  guest_FTOP : BitVec 32
  guest_FPREG : ℕ → BitVec 64

/-- `user_regs_struct` and `user_fpregs_struct` of the traced process. -/
structure UserRegs where
  user : UserReg → BitVec 64
  xmm_space : ℕ → BitVec 8
  st_space : ℕ → BitVec 32

structure UserRegsDesc where
  name : String
  user_off : UserReg
  vex_off : VexReg

def GPR_COUNT : ℕ := 16

def user_regs_desc_tab : List UserRegsDesc :=
  [⟨"rip", .rip, .RIP⟩, ⟨"rax", .rax, .RAX⟩, ⟨"rbx", .rbx, .RBX⟩, ⟨"rcx", .rcx, .RCX⟩,
    ⟨"rdx", .rdx, .RDX⟩, ⟨"rsp", .rsp, .RSP⟩, ⟨"rbp", .rbp, .RBP⟩, ⟨"rdi", .rdi, .RDI⟩,
    ⟨"rsi", .rsi, .RSI⟩, ⟨"r8", .r8, .R8⟩, ⟨"r9", .r9, .R9⟩, ⟨"r10", .r10, .R10⟩,
    ⟨"r11", .r11, .R11⟩, ⟨"r12", .r12, .R12⟩, ⟨"r13", .r13, .R13⟩, ⟨"r14", .r14, .R14⟩,
    ⟨"r15", .r15, .R15⟩, ⟨"fs_base", .fs_base, .FS_CONST⟩]

def FLAGS_MASK : BitVec 64 := 0xff ||| 1 <<< 10 ||| 1 <<< 11

/-- What the comparison takes from elsewhere: the flags the guest state stands for, and
the double an 80-bit number is converted to. -/
structure Ops where
  get_rflags : VexState → BitVec 64
  ldToDouble : (ℕ → BitVec 32) → BitVec 64

variable (o : Ops)

def getRFLAGS (v : VexState) : BitVec 64 := o.get_rflags v &&& FLAGS_MASK ||| 1 <<< 1

def ldeqd (ld : ℕ → BitVec 32) (d : BitVec 64) : Bool := o.ldToDouble ld == d

def fcompare (a : ℕ → BitVec 32) (d : BitVec 64) : Bool :=
  (d == a 1 ++ a 0 && (a 2 == 0 || a 2 == 0xFFFF) && a 3 == 0) || ldeqd o a d

def isRegMismatch (v : VexState) (u : UserRegs) : Bool :=
  (user_regs_desc_tab.take GPR_COUNT).any fun d => u.user d.user_off != v.guest d.vex_off

def sseOk (v : VexState) (u : UserRegs) (i : ℕ) : Bool :=
  (List.range 16).all fun b => v.guest_YMM (i * 32 + b) == u.xmm_space (i * 16 + b)

def x87Ok (v : VexState) (u : UserRegs) (i : ℕ) : Bool :=
  fcompare o (fun k => u.st_space (2 * i + k))
    (v.guest_FPREG ((v.guest_FTOP + BitVec.ofNat 32 i) &&& 0x7).toNat)

def segFail (v : VexState) (u : UserRegs) : Bool :=
  if u.user .fs_base ≠ 0 then u.user .fs_base ^^^ v.guest .FS_CONST ≠ 0 else false

def isMatch (xchk_eflags : Bool) (v : VexState) (u : UserRegs) : Bool :=
  if xchk_eflags && u.user .eflags &&& FLAGS_MASK != getRFLAGS o v then false
  else !isRegMismatch v u && ((List.range 8).all (x87Ok o v u) && (List.range 16).all (sseOk v u)) &&
    !segFail v u

def generalRegs : List (UserReg × VexReg) :=
  [(.rip, .RIP), (.rax, .RAX), (.rbx, .RBX), (.rcx, .RCX), (.rdx, .RDX), (.rsp, .RSP),
    (.rbp, .RBP), (.rdi, .RDI), (.rsi, .RSI), (.r8, .R8), (.r9, .R9), (.r10, .R10),
    (.r11, .R11), (.r12, .R12), (.r13, .R13), (.r14, .R14), (.r15, .R15)]

/-- The base of FS, where the traced process has one. -/
def SameSeg (v : VexState) (u : UserRegs) : Prop :=
  u.user .fs_base = 0 ∨ u.user .fs_base = v.guest .FS_CONST

/-- The low halves of the vector registers. -/
def SameXMM (v : VexState) (u : UserRegs) : Prop :=
  ∀ i < 16, ∀ b < 16, v.guest_YMM (i * 32 + b) = u.xmm_space (i * 16 + b)

structure Complete (xchk_eflags : Bool) (v : VexState) (u : UserRegs) : Prop where
  general : ∀ r ∈ generalRegs, u.user r.1 = v.guest r.2
  seg : SameSeg v u
  xmm : SameXMM v u
  flags : xchk_eflags = true → u.user .eflags &&& FLAGS_MASK = getRFLAGS o v

/-- All that is looked at agrees: not R15, and the x87 registers as well. -/
structure Compared (xchk_eflags : Bool) (v : VexState) (u : UserRegs) : Prop where
  general : ∀ r ∈ generalRegs, r.1 ≠ .r15 → u.user r.1 = v.guest r.2
  seg : SameSeg v u
  xmm : SameXMM v u
  flags : xchk_eflags = true → u.user .eflags &&& FLAGS_MASK = getRFLAGS o v
  x87 : ∀ i < 8, x87Ok o v u i = true

variable {o} {xchk_eflags : Bool} {v : VexState} {u : UserRegs}

/-- The loop over the table leaves out R15. -/
theorem isRegMismatch_eq_false :
    isRegMismatch v u = false ↔ ∀ r ∈ generalRegs, r.1 ≠ .r15 → u.user r.1 = v.guest r.2 := by
  simp [isRegMismatch, user_regs_desc_tab, generalRegs, GPR_COUNT]

theorem segFail_eq_false : segFail v u = false ↔ SameSeg v u := by
  unfold segFail SameSeg
  rw [or_iff_not_imp_left]
  simp [BitVec.xor_eq_zero_iff]

theorem sse_iff : (List.range 16).all (sseOk v u) = true ↔ SameXMM v u := by
  simp [sseOk, SameXMM, List.all_eq_true]

/-- What a match says. -/
theorem isMatch_eq_true : isMatch o xchk_eflags v u = true ↔ Compared o xchk_eflags v u := by
  have hx : (List.range 8).all (x87Ok o v u) = true ↔ ∀ i < 8, x87Ok o v u i = true := by
    simp [List.all_eq_true]
  have hf : (xchk_eflags && u.user .eflags &&& FLAGS_MASK != getRFLAGS o v) = true ↔
      ¬(xchk_eflags = true → u.user .eflags &&& FLAGS_MASK = getRFLAGS o v) := by
    cases xchk_eflags <;> simp
  unfold isMatch
  by_cases h : (xchk_eflags && u.user .eflags &&& FLAGS_MASK != getRFLAGS o v) = true
  · rw [if_pos h]
    refine ⟨fun h' => (Bool.false_ne_true h').elim, fun hc => absurd hc.flags (hf.1 h)⟩
  · rw [if_neg h]
    rw [hf, not_not] at h
    simp only [Bool.and_eq_true, Bool.not_eq_true', isRegMismatch_eq_false, segFail_eq_false,
      sse_iff,
      hx]
    exact ⟨fun ⟨⟨hg, h87, hs⟩, hseg⟩ => ⟨hg, hseg, hs, h, h87⟩,
      fun hc => ⟨⟨hc.general, hc.x87, hc.xmm⟩, hc.seg⟩⟩

/-- The state comparison. -/
theorem isMatch_complete_iff (o : Ops) (xchk_eflags : Bool) (v : VexState) (u : UserRegs) :
    (isMatch o xchk_eflags v u = true → Complete o xchk_eflags v u) ↔
      (Compared o xchk_eflags v u → u.user .r15 = v.guest .R15) := by
  rw [isMatch_eq_true]
  constructor
  · exact fun h hc => (h hc).general (.r15, .R15) (by simp [generalRegs])
  · intro h hc
    refine ⟨fun r hr => ?_, hc.seg, hc.xmm, hc.flags⟩
    by_cases h15 : r.1 = .r15
    · have hr' : r = (.r15, .R15) := by
        simp only [generalRegs, List.mem_cons, List.not_mem_nil, or_false] at hr
        rcases hr with rfl | rfl | rfl | rfl | rfl | rfl | rfl | rfl | rfl | rfl | rfl | rfl | rfl |
          rfl | rfl | rfl | rfl <;> first | rfl | cases h15
      rw [hr']
      exact h hc
    · exact hc.general r hr h15

/-- Two states that differ in R15 alone match. -/
theorem isMatch_not_complete : ¬∀ (o : Ops) (xchk_eflags : Bool) (v : VexState) (u : UserRegs),
    isMatch o xchk_eflags v u = true → Complete o xchk_eflags v u := by
  intro h
  have hc := h ⟨fun _ => 0, fun _ => 0⟩ false ⟨fun _ => 0, fun _ => 0, 0, fun _ => 0⟩
    ⟨fun r => if r = .r15 then 1 else 0, fun _ => 0, fun _ => 0⟩ (by decide +kernel)
  have := hc.general (.r15, .R15) (by simp [generalRegs])
  revert this
  decide

end PTShadowAMD64

end VexLLVM
