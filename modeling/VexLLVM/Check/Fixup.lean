import VexLLVM.Check.CanFixup
import VexLLVM.Check.MemLog
import VexLLVM.Exec.GuestMem
import VexLLVM.Lib.Scatter
import VexLLVM.Lib.Words
import VexLLVM.LLVM.Bytes
import Mathlib.Data.Finset.Insert

/-!
# Fixing up a mismatch

`PTImgChk` compares the memories of the guest and of the shadow process at the stack, at
the last store, at a watched address, and on the pages that the words of the guest state
point to. Where a block is known to give the two different results, a fixup copies the
state of one to the other: the registers, and pages that the registers point to.
-/

namespace VexLLVM

abbrev GuestBytes := GuestPtr → BitVec 8

/-- What the fixups and the checks use of the architecture: the guest state in words of eight
bytes, and how its registers and those of the process are copied and compared. -/
structure PTShadow (V R : Type) where
  words : V → List (BitVec 64)
  pushRegisters : V → R → R
  slurpRegisters : R → V → V
  isMatch : V → R → Bool
  stackPtr : R → GuestPtr

/-- The guest and the process, with the address and the size of the last store. -/
structure PTImg (V R : Type) where
  gs : V
  mem : GuestBytes
  regs : R
  ptMem : GuestBytes
  memLog : Option (GuestPtr × ℕ)
  fixupC : ℕ

structure ChkFlags where
  xchkStack : Bool
  xchkRootptrs : Bool
  xchkWatchptr : GuestPtr

def pageOf (p : GuestPtr) : GuestPtr := p &&& ~~~0xfff

/-- `memcpy` of a page through a buffer, from one memory to the other. -/
def copyPage (dst src : GuestBytes) (q : GuestPtr) : GuestBytes :=
  fun a => if (a - q).toNat < 4096 then src a else dst a

namespace PTImg

variable {V R : Type} (lookupMapping : GuestPtr → Option Mapping) (arch : PTShadow V R)

/-! ## The fixups -/

def pushPage (mem ptMem : GuestBytes) (p : GuestPtr) : GuestBytes :=
  match lookupMapping (pageOf p) with
  | none => ptMem
  | some mp => if mp.reqProt.write then copyPage ptMem mem (pageOf p) else ptMem

def doFixupNative (s : PTImg V R) : PTImg V R :=
  { s with
    regs := arch.pushRegisters s.gs s.regs
    ptMem := (arch.words s.gs).foldl (fun ptMem reg =>
      if reg < 0x1000 then ptMem
      else pushPage lookupMapping s.mem (pushPage lookupMapping s.mem ptMem (reg - 4096)) reg)
      s.ptMem }

def doFixupGuest (s : PTImg V R) : PTImg V R :=
  let gs := arch.slurpRegisters s.regs s.gs
  { s with
    gs := gs
    mem := (arch.words gs).foldl (fun mem reg =>
      match lookupMapping reg with
      | none => mem
      | some mp => if mp.reqProt.write then copyPage mem s.ptMem (pageOf reg) else mem) s.mem }

def fixedUp (s : PTImg V R) : PTImg V R :=
  { s with fixupC := s.fixupC + 1, memLog := s.memLog.map fun _ => (0, 0) }

/-- `fixup`, for the direction that `canFixup` gives. -/
def fixup (dir : PTShadowAMD64.FixupDir) (s : PTImg V R) : Bool × PTImg V R :=
  match dir with
  | .none => (false, s)
  | .native => (true, fixedUp (doFixupNative lookupMapping arch s))
  | .guest => (true, fixedUp (doFixupGuest lookupMapping arch s))

/-! ## The checks -/

def getPageMismatch (s : PTImg V R) (p : GuestPtr) : GuestPtr :=
  let q := pageOf p
  match lookupMapping q with
  | none => 0
  | some mp =>
      if mp.reqProt.write then
        match (List.range 4096).find? fun i =>
          s.ptMem (q + BitVec.ofNat 64 i) != s.mem (q + BitVec.ofNat 64 i) with
        | some i => q + BitVec.ofNat 64 i
        | none => 0
      else 0

/-- One of the two pages that `printRootTraceDat` looks at, with `mptrs` and `cptrs`. -/
def rootTracePage (s : PTImg V R) (r : Finset GuestPtr × Finset GuestPtr) (chkPtr : GuestPtr) :
    Finset GuestPtr × Finset GuestPtr :=
  let mismatch := getPageMismatch lookupMapping s chkPtr
  (if chkPtr ∉ r.2 ∧ mismatch ≠ 0 then insert mismatch r.1 else r.1, insert chkPtr r.2)

def printRootTraceDat (s : PTImg V R) (r : Finset GuestPtr × Finset GuestPtr) (dat : BitVec 64) :
    Finset GuestPtr × Finset GuestPtr :=
  rootTracePage lookupMapping s (rootTracePage lookupMapping s r (pageOf (dat - 4096)))
    (pageOf dat)

def printRootTrace (s : PTImg V R) : Bool :=
  ((arch.words s.gs).foldl (printRootTraceDat lookupMapping s) (∅, ∅)).1.card = 0

def isWatchPtrMatch (watch : GuestPtr) (s : PTImg V R) : Bool :=
  let p := watch &&& ~~~7
  match lookupMapping p with
  | none => true
  | some _ => LLVM.readBytes s.ptMem p 8 = LLVM.readBytes s.mem p 8

/-- Without a result where `readMemLogData` overruns its buffer. -/
def isMatchMemLog (s : PTImg V R) : Option Bool :=
  match s.memLog with
  | none => some true
  | some (address, size) =>
      (PTImgChk.readMemLogData s.ptMem address size).map fun data =>
        (List.range size).all fun i => data i == s.mem (address + BitVec.ofNat 64 i)

def STACK_XCHK_BYTES : ℕ := 1024 + 128

/-- The loop of `isStackMatch`, from `-128 / 8` on. -/
def isStackMatch (s : PTImg V R) : Bool :=
  (List.range (128 / 8 + STACK_XCHK_BYTES / 8)).all fun i =>
    let p := arch.stackPtr s.regs - 128 + BitVec.ofNat 64 (8 * i)
    LLVM.readBytes s.ptMem p 8 == LLVM.readBytes s.mem p 8

def isMatch (flags : ChkFlags) (s : PTImg V R) : Option Bool :=
  if !arch.isMatch s.gs s.regs then some false
  else if flags.xchkStack && !isStackMatch arch s then some false
  else (isMatchMemLog s).map fun log =>
    log && (flags.xchkWatchptr == 0 || isWatchPtrMatch lookupMapping flags.xchkWatchptr s) &&
      (!flags.xchkRootptrs || printRootTrace lookupMapping arch s)

end PTImg

/-! ## Pages -/

section Pages

variable {p a : GuestPtr}

theorem toNat_pageOf (p : GuestPtr) : (pageOf p).toNat = p.toNat / 4096 * 4096 :=
  Word.toNat_clearLow p 12

theorem mem_page_iff : (a - pageOf p).toNat < 4096 ↔ pageOf a = pageOf p := by
  have hp := toNat_pageOf p
  have ha := toNat_pageOf a
  have hlt := a.isLt
  have hlt' := p.isLt
  rw [BitVec.toNat_sub, ← BitVec.toNat_inj]
  omega

@[simp] theorem pageOf_pageOf (p : GuestPtr) : pageOf (pageOf p) = pageOf p := by
  have hp := toNat_pageOf p
  have hpp := toNat_pageOf (pageOf p)
  rw [← BitVec.toNat_inj]
  omega

theorem toNat_page_add (p : GuestPtr) {i : ℕ} (hi : i < 4096) :
    (pageOf p + BitVec.ofNat 64 i).toNat = (pageOf p).toNat + i := by
  have hp := toNat_pageOf p
  have hlt := p.isLt
  rw [BitVec.toNat_add, BitVec.toNat_ofNat]
  omega

theorem pageOf_page_add (p : GuestPtr) {i : ℕ} (hi : i < 4096) :
    pageOf (pageOf p + BitVec.ofNat 64 i) = pageOf p := by
  have hp := toNat_pageOf p
  rw [← BitVec.toNat_inj, toNat_pageOf, toNat_page_add p hi]
  omega

end Pages

namespace PTImg

variable {V R : Type} {lookupMapping : GuestPtr → Option Mapping} {arch : PTShadow V R}
    {s : PTImg V R} {mem ptMem : GuestBytes} {a p q : GuestPtr}

def writable (lookupMapping : GuestPtr → Option Mapping) (q : GuestPtr) : Bool :=
  (lookupMapping q).any fun mp => mp.reqProt.write

def PageAgrees (s : PTImg V R) (q : GuestPtr) : Prop := ∀ a, pageOf a = q → s.ptMem a = s.mem a

/-! ## The pages that words point to -/

theorem ptMem_eq_of_find (hq : pageOf q = q)
    (h : (List.range 4096).find? (fun i =>
      s.ptMem (q + BitVec.ofNat 64 i) != s.mem (q + BitVec.ofNat 64 i)) = none) :
    PageAgrees s q := by
  intro a ha
  have hlt : (a - q).toNat < 4096 := by
    rw [← hq]
    exact mem_page_iff.mpr (ha.trans hq.symm)
  have hi := List.find?_eq_none.mp h (a - q).toNat (List.mem_range.mpr hlt)
  rw [BitVec.ofNat_toNat, BitVec.setWidth_eq, add_sub_cancel] at hi
  simpa using hi

/-- Where the null page cannot be written, the address zero stands for no mismatch. -/
theorem getPageMismatch_eq_zero (hnull : writable lookupMapping 0 = false) :
    getPageMismatch lookupMapping s p = 0 ↔
      (writable lookupMapping (pageOf p) = true → PageAgrees s (pageOf p)) := by
  unfold getPageMismatch writable
  cases hm : lookupMapping (pageOf p) with
  | none => simp [hm]
  | some mp =>
      cases hw : mp.reqProt.write with
      | false => simp [hm, hw]
      | true =>
          simp only [hm, hw, if_true, Option.any_some, forall_const]
          cases hfind : (List.range 4096).find? fun i =>
              s.ptMem (pageOf p + BitVec.ofNat 64 i) != s.mem (pageOf p + BitVec.ofNat 64 i) with
          | none => exact ⟨fun _ => ptMem_eq_of_find (pageOf_pageOf p) hfind, fun _ => rfl⟩
          | some i =>
              have hi : i < 4096 := List.mem_range.mp (List.mem_of_find?_eq_some hfind)
              have hne := List.find?_some hfind
              have hto := toNat_page_add p hi
              refine ⟨fun h => ?_, fun h => ?_⟩
              · have hzero : pageOf p = 0 := by
                  have h0 := congrArg BitVec.toNat h
                  rw [hto] at h0
                  exact BitVec.eq_of_toNat_eq (Nat.eq_zero_of_add_eq_zero_right h0)
                rw [hzero] at hm
                rw [writable, hm, Option.any_some, hw] at hnull
                cases hnull
              · have heq := h (pageOf p + BitVec.ofNat 64 i) (pageOf_page_add p hi)
                simp [heq] at hne

/-- The pages that `printRootTrace` looks at for a word. -/
def rootPages (dat : BitVec 64) : List GuestPtr := [pageOf (dat - 4096), pageOf dat]

/-- A page seen before is not looked at again, but it has been looked at. -/
theorem foldl_rootTracePage {r : Finset GuestPtr × Finset GuestPtr} (ps : List GuestPtr)
    (hr : r.1 = ∅ ↔ ∀ q ∈ r.2, getPageMismatch lookupMapping s q = 0) :
    (ps.foldl (rootTracePage lookupMapping s) r).1 = ∅ ↔
      r.1 = ∅ ∧ ∀ q ∈ ps, getPageMismatch lookupMapping s q = 0 := by
  induction ps generalizing r with
  | nil => simp
  | cons p ps ih =>
      have hstep : (rootTracePage lookupMapping s r p).1 = ∅ ↔
          r.1 = ∅ ∧ getPageMismatch lookupMapping s p = 0 := by
        change (if p ∉ r.2 ∧ getPageMismatch lookupMapping s p ≠ 0 then _ else r.1) = ∅ ↔ _
        by_cases hnew : p ∉ r.2 ∧ getPageMismatch lookupMapping s p ≠ 0
        · rw [if_pos hnew]
          exact iff_of_false (Finset.insert_ne_empty _ _) fun h => hnew.2 h.2
        · rw [if_neg hnew]
          refine ⟨fun h => ⟨h, ?_⟩, fun h => h.1⟩
          by_contra hne
          exact hnew ⟨fun hp => hne (hr.mp h p hp), hne⟩
      have hinv : (rootTracePage lookupMapping s r p).1 = ∅ ↔
          ∀ q ∈ (rootTracePage lookupMapping s r p).2, getPageMismatch lookupMapping s q = 0 := by
        rw [hstep, hr]
        change _ ↔ ∀ q ∈ insert p r.2, _
        rw [Finset.forall_mem_insert]
        exact and_comm
      rw [List.foldl_cons, ih hinv, hstep, List.forall_mem_cons, and_assoc]

theorem printRootTrace_eq_true : printRootTrace lookupMapping arch s = true ↔
    ∀ dat ∈ arch.words s.gs, ∀ q ∈ rootPages dat, getPageMismatch lookupMapping s q = 0 := by
  have hfold : (arch.words s.gs).foldl (printRootTraceDat lookupMapping s) (∅, ∅) =
      ((arch.words s.gs).flatMap rootPages).foldl (rootTracePage lookupMapping s) (∅, ∅) := by
    rw [List.foldl_flatMap]
    rfl
  rw [printRootTrace, hfold, decide_eq_true_eq, Finset.card_eq_zero,
    foldl_rootTracePage _ (by simp)]
  simp only [true_and, List.mem_flatMap]
  exact ⟨fun h dat hd q hq => h q ⟨dat, hd, hq⟩, fun h q ⟨dat, hd, hq⟩ => h dat hd q hq⟩

/-- The root pointers match where the memories agree on the writable pages of the words and on
those before. -/
theorem printRootTrace_iff (hnull : writable lookupMapping 0 = false) :
    printRootTrace lookupMapping arch s = true ↔ ∀ dat ∈ arch.words s.gs, ∀ q ∈ rootPages dat,
      writable lookupMapping q = true → PageAgrees s q := by
  have hpage : ∀ dat, ∀ q ∈ rootPages dat, pageOf q = q := by
    intro dat q hq
    rcases List.mem_pair.mp hq with rfl | rfl <;> exact pageOf_pageOf _
  rw [printRootTrace_eq_true]
  refine forall₂_congr fun dat _ => forall₂_congr fun q hq => ?_
  rw [getPageMismatch_eq_zero hnull, hpage dat q hq]

/-! ## What the fixups copy -/

theorem copyPage_apply {dst src : GuestBytes} :
    copyPage dst src (pageOf p) a = if pageOf a = pageOf p then src a else dst a :=
  if_congr mem_page_iff rfl rfl

theorem pushPage_apply : pushPage lookupMapping mem ptMem p a =
    if writable lookupMapping (pageOf p) = true ∧ pageOf a = pageOf p then mem a else ptMem a := by
  unfold pushPage writable
  cases hm : lookupMapping (pageOf p) with
  | none => simp
  | some mp =>
      cases hw : mp.reqProt.write with
      | false => simp [hw]
      | true => simp [hw, copyPage_apply]

/-- The places that `doFixupNative` copies for a word. -/
def Pushes (lookupMapping : GuestPtr → Option Mapping) (reg : BitVec 64) (a : GuestPtr) : Prop :=
  ¬reg < 0x1000 ∧ pageOf a ∈ rootPages reg ∧ writable lookupMapping (pageOf a) = true

theorem copies_native (mem : GuestBytes) :
    Scatter.Copies (fun ptMem reg => if reg < 0x1000 then ptMem
      else pushPage lookupMapping mem (pushPage lookupMapping mem ptMem (reg - 4096)) reg) mem
      (Pushes lookupMapping) where
  taken f reg a h := by
    obtain ⟨hsmall, hpage, hw⟩ := h
    rw [if_neg hsmall, pushPage_apply, pushPage_apply]
    rcases List.mem_pair.mp hpage with h | h
    · rw [h] at hw
      by_cases hreg : writable lookupMapping (pageOf reg) = true ∧ pageOf a = pageOf reg
      · rw [if_pos hreg]
      · rw [if_neg hreg, if_pos ⟨hw, h⟩]
    · rw [h] at hw
      rw [if_pos ⟨hw, h⟩]
  frame f reg a h := by
    by_cases hsmall : reg < 0x1000
    · rw [if_pos hsmall]
    · rw [if_neg hsmall, pushPage_apply, pushPage_apply, if_neg, if_neg]
      · rintro ⟨hw, heq⟩
        exact h ⟨hsmall, heq ▸ List.mem_cons_self, heq ▸ hw⟩
      · rintro ⟨hw, heq⟩
        exact h ⟨hsmall, heq ▸ List.mem_cons_of_mem _ List.mem_cons_self, heq ▸ hw⟩

/-- The places that `doFixupGuest` copies for a word. -/
def Pulls (lookupMapping : GuestPtr → Option Mapping) (reg : BitVec 64) (a : GuestPtr) : Prop :=
  pageOf a = pageOf reg ∧ writable lookupMapping reg = true

theorem copies_guest (ptMem : GuestBytes) :
    Scatter.Copies (fun mem reg => match lookupMapping reg with
      | none => mem
      | some mp => if mp.reqProt.write then copyPage mem ptMem (pageOf reg) else mem) ptMem
      (Pulls lookupMapping) where
  taken f reg a h := by
    obtain ⟨hpage, hw⟩ := h
    cases hm : lookupMapping reg with
    | none => rw [writable, hm] at hw; cases hw
    | some mp =>
        rw [writable, hm, Option.any_some] at hw
        change (if mp.reqProt.write = true then copyPage f ptMem (pageOf reg) else f) a = _
        rw [if_pos hw, copyPage_apply, if_pos hpage]
  frame f reg a h := by
    cases hm : lookupMapping reg with
    | none => rfl
    | some mp =>
        change (if mp.reqProt.write = true then copyPage f ptMem (pageOf reg) else f) a = _
        by_cases hw : mp.reqProt.write = true
        · rw [if_pos hw, copyPage_apply, if_neg]
          exact fun hpage => h ⟨hpage, by rw [writable, hm, Option.any_some, hw]⟩
        · rw [if_neg hw]

/-! ## What the fixups repair -/

theorem doFixupNative_frame (h : ∀ reg ∈ arch.words s.gs, ¬Pushes lookupMapping reg a) :
    (doFixupNative lookupMapping arch s).ptMem a = s.ptMem a :=
  (copies_native s.mem).foldl_frame h

theorem doFixupNative_pushes {reg : BitVec 64} (hreg : reg ∈ arch.words s.gs)
    (ha : Pushes lookupMapping reg a) :
    (doFixupNative lookupMapping arch s).ptMem a = s.mem a :=
  (copies_native s.mem).foldl_taken hreg ha

theorem doFixupGuest_frame
    (h : ∀ reg ∈ arch.words (arch.slurpRegisters s.regs s.gs), ¬Pulls lookupMapping reg a) :
    (doFixupGuest lookupMapping arch s).mem a = s.mem a :=
  (copies_guest s.ptMem).foldl_frame h

theorem doFixupGuest_pulls {reg : BitVec 64}
    (hreg : reg ∈ arch.words (arch.slurpRegisters s.regs s.gs)) (ha : Pulls lookupMapping reg a) :
    (doFixupGuest lookupMapping arch s).mem a = s.ptMem a :=
  (copies_guest s.ptMem).foldl_taken hreg ha

/-- Mappings are made of pages, and neither the first nor the last page can be written. -/
structure Paged (lookupMapping : GuestPtr → Option Mapping) : Prop where
  page : ∀ p, lookupMapping p = lookupMapping (pageOf p)
  null : writable lookupMapping 0 = false
  top : writable lookupMapping 0xfffffffffffff000 = false

/-- After the guest's side is copied to the shadow's, the root pointers match. -/
theorem printRootTrace_native (hp : Paged lookupMapping) :
    printRootTrace lookupMapping arch (doFixupNative lookupMapping arch s) = true := by
  rw [printRootTrace_iff hp.null]
  intro dat hdat q hq hw a ha
  by_cases hsmall : dat < 0x1000
  · have hlt : dat.toNat < 4096 := hsmall
    rcases List.mem_pair.mp hq with rfl | rfl
    · have htop : pageOf (dat - 4096) = 0xfffffffffffff000 := by
        rw [← BitVec.toNat_inj, toNat_pageOf, BitVec.toNat_sub]
        change (2 ^ 64 - 4096 + dat.toNat) % 2 ^ 64 / 4096 * 4096 = 2 ^ 64 - 4096
        omega
      rw [htop, hp.top] at hw
      cases hw
    · have hnull : pageOf dat = 0 := by
        rw [← BitVec.toNat_inj, toNat_pageOf]
        change _ = 0
        omega
      rw [hnull, hp.null] at hw
      cases hw
  · exact doFixupNative_pushes hdat ⟨hsmall, ha ▸ hq, ha ▸ hw⟩

theorem Paged.writable_pageOf (hp : Paged lookupMapping) (p : GuestPtr) :
    writable lookupMapping (pageOf p) = writable lookupMapping p := by
  rw [writable, writable, ← hp.page]

/-- After the shadow's side is copied to the guest's, the root pointers match where the pages
before the words' own are among these or agreed before. -/
theorem printRootTrace_guest (hp : Paged lookupMapping) :
    printRootTrace lookupMapping arch (doFixupGuest lookupMapping arch s) = true ↔
      ∀ dat ∈ arch.words (arch.slurpRegisters s.regs s.gs),
        writable lookupMapping (pageOf (dat - 4096)) = true →
        (∃ reg ∈ arch.words (arch.slurpRegisters s.regs s.gs),
          pageOf reg = pageOf (dat - 4096)) ∨ PageAgrees s (pageOf (dat - 4096)) := by
  have hpull : ∀ reg ∈ arch.words (arch.slurpRegisters s.regs s.gs),
      writable lookupMapping (pageOf reg) = true →
      PageAgrees (doFixupGuest lookupMapping arch s) (pageOf reg) := by
    intro reg hreg hw a ha
    exact (doFixupGuest_pulls hreg ⟨ha, hp.writable_pageOf reg ▸ hw⟩).symm
  rw [printRootTrace_iff hp.null]
  constructor
  · intro h dat hdat hw
    rw [or_iff_not_imp_left]
    intro hno a ha
    have hagree := h dat hdat _ List.mem_cons_self hw a ha
    rwa [doFixupGuest_frame fun reg hreg hpull => hno ⟨reg, hreg, hpull.1.symm.trans ha⟩] at hagree
  · intro h dat hdat q hq hw
    rcases List.mem_pair.mp hq with rfl | rfl
    · rcases h dat hdat hw with ⟨reg, hreg, heq⟩ | hagree
      · rw [← heq] at hw ⊢
        exact hpull reg hreg hw
      · intro a ha
        exact ((copies_guest s.ptMem).foldl_agree (hagree a ha).symm).symm
    · exact hpull dat hdat hw

/-! ## The other checks -/

theorem eight_range {P : ℕ → Prop} (n : ℕ) :
    (∀ i < n, ∀ j < 8, P (8 * i + j)) ↔ ∀ k < 8 * n, P k := by
  constructor
  · intro h k hk
    have := h (k / 8) (by omega) (k % 8) (by omega)
    rwa [Nat.div_add_mod] at this
  · intro h i hi j hj
    exact h _ (by omega)

/-- The stack matches where the bytes agree from the red zone on. -/
theorem isStackMatch_iff : isStackMatch arch s = true ↔
    ∀ k < 128 + STACK_XCHK_BYTES, s.ptMem (arch.stackPtr s.regs - 128 + BitVec.ofNat 64 k) =
      s.mem (arch.stackPtr s.regs - 128 + BitVec.ofNat 64 k) := by
  simp only [isStackMatch, List.all_eq_true, List.mem_range, beq_iff_eq, LLVM.readBytes_eq_iff]
  refine Iff.trans ?_ (eight_range (P := fun k =>
    s.ptMem (arch.stackPtr s.regs - 128 + BitVec.ofNat 64 k) =
      s.mem (arch.stackPtr s.regs - 128 + BitVec.ofNat 64 k)) 160)
  refine forall₂_congr fun i _ => forall₂_congr fun j _ => ?_
  rw [add_assoc, ← BitVec.ofNat_add]

/-- After the guest's side is copied, the stack matches where the memories agree past the page of
the stack pointer. -/
theorem isStackMatch_native {sp : GuestPtr}
    (hsp : arch.stackPtr (arch.pushRegisters s.gs s.regs) = sp) (hmem : sp ∈ arch.words s.gs)
    (hlarge : ¬sp < 0x1000) (hw : ∀ q ∈ rootPages sp, writable lookupMapping q = true) :
    isStackMatch arch (doFixupNative lookupMapping arch s) = true ↔
      ∀ k < 128 + STACK_XCHK_BYTES, pageOf (sp - 128 + BitVec.ofNat 64 k) ∉ rootPages sp →
        (doFixupNative lookupMapping arch s).ptMem (sp - 128 + BitVec.ofNat 64 k) =
          s.mem (sp - 128 + BitVec.ofNat 64 k) := by
  rw [isStackMatch_iff, ← hsp]
  rw [← hsp] at hmem hlarge hw
  refine forall₂_congr fun k _ => ⟨fun h _ => h, fun h => ?_⟩
  by_cases hpage : pageOf (arch.stackPtr (arch.pushRegisters s.gs s.regs) - 128 +
      BitVec.ofNat 64 k) ∈ rootPages (arch.stackPtr (arch.pushRegisters s.gs s.regs))
  · exact doFixupNative_pushes hmem ⟨hlarge, hpage, hw _ hpage⟩
  · exact h hpage

theorem isWatchPtrMatch_iff {watch : GuestPtr} :
    isWatchPtrMatch lookupMapping watch s = true ↔
      ∀ mp, lookupMapping (watch &&& ~~~7) = some mp →
        ∀ i < 8, s.ptMem ((watch &&& ~~~7) + BitVec.ofNat 64 i) =
          s.mem ((watch &&& ~~~7) + BitVec.ofNat 64 i) := by
  unfold isWatchPtrMatch
  dsimp only
  cases lookupMapping (watch &&& ~~~7) with
  | none => exact iff_of_true rfl fun mp hm => nomatch hm
  | some mp =>
      dsimp only
      rw [decide_eq_true_eq, LLVM.readBytes_eq_iff]
      exact ⟨fun h _ _ => h, fun h => h mp rfl⟩

/-- A watched word that matched still does where what agreed still does. -/
theorem isWatchPtrMatch_of_agree {s' : PTImg V R} {watch : GuestPtr}
    (hkept : ∀ a, s.ptMem a = s.mem a → s'.ptMem a = s'.mem a)
    (h : isWatchPtrMatch lookupMapping watch s = true) :
    isWatchPtrMatch lookupMapping watch s' = true := by
  rw [isWatchPtrMatch_iff] at h ⊢
  exact fun mp hm i hi => hkept _ (h mp hm i hi)

/-- The log is empty after a fixup. -/
theorem isMatchMemLog_empty (h : s.memLog = none ∨ s.memLog = some (0, 0)) :
    isMatchMemLog s = some true := by
  rcases h with h | h
  · rw [isMatchMemLog, h]
  · rw [isMatchMemLog, h]
    rfl

theorem isMatch_of_memLog {flags : ChkFlags} (h : isMatchMemLog s = some true) :
    isMatch lookupMapping arch flags s = some (arch.isMatch s.gs s.regs &&
      (!flags.xchkStack || isStackMatch arch s) &&
      (flags.xchkWatchptr == 0 || isWatchPtrMatch lookupMapping flags.xchkWatchptr s) &&
      (!flags.xchkRootptrs || printRootTrace lookupMapping arch s)) := by
  rw [isMatch, h, Option.map_some, Bool.true_and]
  cases arch.isMatch s.gs s.regs with
  | false => rfl
  | true =>
      cases flags.xchkStack with
      | false => rfl
      | true =>
          cases isStackMatch arch s with
          | false => rfl
          | true => rfl

/-- The guest's side was copied to the shadow's. -/
structure Pushed (lookupMapping : GuestPtr → Option Mapping) (arch : PTShadow V R)
    (s s' : PTImg V R) : Prop where
  gs : s'.gs = s.gs
  mem : s'.mem = s.mem
  regs : s'.regs = arch.pushRegisters s.gs s.regs
  frame : ∀ a, s'.ptMem a ≠ s.ptMem a → ∃ reg ∈ arch.words s.gs, Pushes lookupMapping reg a
  isMatch : ∀ flags, isMatch lookupMapping arch flags s' = some (arch.isMatch s'.gs s'.regs &&
    (!flags.xchkStack || isStackMatch arch s') &&
    (flags.xchkWatchptr == 0 || isWatchPtrMatch lookupMapping flags.xchkWatchptr s'))
  isStackMatch : ∀ sp, arch.stackPtr s'.regs = sp → sp ∈ arch.words s.gs → ¬sp < 0x1000 →
    (∀ q ∈ rootPages sp, writable lookupMapping q = true) →
    (isStackMatch arch s' = true ↔ ∀ k < 128 + STACK_XCHK_BYTES,
      pageOf (sp - 128 + BitVec.ofNat 64 k) ∉ rootPages sp →
      s'.ptMem (sp - 128 + BitVec.ofNat 64 k) = s.mem (sp - 128 + BitVec.ofNat 64 k))

/-- The shadow's side was copied to the guest's. -/
structure Pulled (lookupMapping : GuestPtr → Option Mapping) (arch : PTShadow V R)
    (s s' : PTImg V R) : Prop where
  gs : s'.gs = arch.slurpRegisters s.regs s.gs
  regs : s'.regs = s.regs
  ptMem : s'.ptMem = s.ptMem
  frame : ∀ a, s'.mem a ≠ s.mem a → ∃ reg ∈ arch.words s'.gs, Pulls lookupMapping reg a
  isMatch : ∀ flags, isMatch lookupMapping arch flags s' = some (arch.isMatch s'.gs s'.regs &&
    (!flags.xchkStack || PTImg.isStackMatch arch s') &&
    (flags.xchkWatchptr == 0 || isWatchPtrMatch lookupMapping flags.xchkWatchptr s') &&
    (!flags.xchkRootptrs || PTImg.printRootTrace lookupMapping arch s'))
  printRootTrace : printRootTrace lookupMapping arch s' = true ↔ ∀ dat ∈ arch.words s'.gs,
    writable lookupMapping (pageOf (dat - 4096)) = true →
    (∃ reg ∈ arch.words s'.gs, pageOf reg = pageOf (dat - 4096)) ∨
      PageAgrees s (pageOf (dat - 4096))

structure Repaired (lookupMapping : GuestPtr → Option Mapping) (arch : PTShadow V R)
    (dir : PTShadowAMD64.FixupDir) (s s' : PTImg V R) : Prop where
  agree : ∀ a, s.ptMem a = s.mem a → s'.ptMem a = s'.mem a
  watch : ∀ w, isWatchPtrMatch lookupMapping w s = true → isWatchPtrMatch lookupMapping w s' = true
  memLog : isMatchMemLog s' = some true
  native : dir = .native → Pushed lookupMapping arch s s'
  guest : dir = .guest → Pulled lookupMapping arch s s'

theorem getPageMismatch_fixedUp :
    getPageMismatch lookupMapping (fixedUp s) p = getPageMismatch lookupMapping s p := by
  simp only [getPageMismatch, fixedUp]

theorem printRootTrace_fixedUp : printRootTrace lookupMapping arch (fixedUp s) =
    printRootTrace lookupMapping arch s := by
  have hgs : (fixedUp s).gs = s.gs := rfl
  rw [Bool.eq_iff_iff, printRootTrace_eq_true, printRootTrace_eq_true, hgs]
  simp only [getPageMismatch_fixedUp]

theorem isMatchMemLog_fixedUp : isMatchMemLog (fixedUp s) = some true := by
  apply isMatchMemLog_empty
  change s.memLog.map _ = none ∨ s.memLog.map _ = some (0, 0)
  cases s.memLog with
  | none => exact .inl rfl
  | some log => exact .inr rfl

/-- A fixup breaks no agreement between the two memories. After the guest's side is copied, the
root pointers match, and the registers, the stack and the watched word decide the check; the
shadow's side is copied on the words' own pages only, so that the root pointers match just where
the pages below were among them or agreed. -/
theorem fixup_statement {V R : Type} (lookupMapping : GuestPtr → Option Mapping)
    (arch : PTShadow V R) (hp : Paged lookupMapping) (dir : PTShadowAMD64.FixupDir)
    (s s' : PTImg V R) (h : fixup lookupMapping arch dir s = (true, s')) :
    Repaired lookupMapping arch dir s s' := by
  cases dir with
  | none => cases h
  | native =>
      obtain rfl : fixedUp (doFixupNative lookupMapping arch s) = s' := (Prod.mk.inj h).2
      have hagree : ∀ a, s.ptMem a = s.mem a →
          (doFixupNative lookupMapping arch s).ptMem a = s.mem a :=
        fun a ha => (copies_native s.mem).foldl_agree ha
      refine ⟨hagree, fun w => isWatchPtrMatch_of_agree hagree, isMatchMemLog_fixedUp,
        fun _ => ?_, fun h => nomatch h⟩
      refine ⟨rfl, rfl, rfl, fun a ha => ?_, fun flags => ?_, fun sp hsp hmem hlarge hw => ?_⟩
      · by_contra hno
        exact ha (doFixupNative_frame fun reg hreg hpush => hno ⟨reg, hreg, hpush⟩)
      · rw [isMatch_of_memLog isMatchMemLog_fixedUp, printRootTrace_fixedUp,
          printRootTrace_native hp, Bool.or_true, Bool.and_true]
      · exact isStackMatch_native hsp hmem hlarge hw
  | guest =>
      obtain rfl : fixedUp (doFixupGuest lookupMapping arch s) = s' := (Prod.mk.inj h).2
      have hagree : ∀ a, s.ptMem a = s.mem a →
          s.ptMem a = (doFixupGuest lookupMapping arch s).mem a :=
        fun a ha => ((copies_guest s.ptMem).foldl_agree ha.symm).symm
      refine ⟨hagree, fun w => isWatchPtrMatch_of_agree hagree, isMatchMemLog_fixedUp,
        fun h => (nomatch h), fun _ => ?_⟩
      refine ⟨rfl, rfl, rfl, fun a ha => ?_, fun flags => isMatch_of_memLog isMatchMemLog_fixedUp,
        ?_⟩
      · by_contra hno
        exact ha (doFixupGuest_frame fun reg hreg hpull => hno ⟨reg, hreg, hpull⟩)
      · rw [printRootTrace_fixedUp]
        exact printRootTrace_guest hp

/-- An architecture whose state is its words, the first of them the stack pointer. -/
def wordShadow : PTShadow (List (BitVec 64)) (List (BitVec 64)) where
  words gs := gs
  pushRegisters gs _ := gs
  slurpRegisters regs _ := regs
  isMatch gs regs := gs == regs
  stackPtr regs := regs.headD 0

def twoPages : GuestPtr → Option Mapping :=
  (listMem 0).lookupMapping [⟨0x10000, 0x2000, ⟨true, true, false⟩, ⟨true, true, false⟩⟩]

theorem contains_pageOf {m : Mapping} (hoff : m.offset.toNat % 4096 = 0)
    (hlen : m.length.toNat % 4096 = 0) : m.Contains (pageOf p) ↔ m.Contains p := by
  have hp := toNat_pageOf p
  unfold Mapping.Contains
  omega

theorem twoPages_paged : Paged twoPages where
  page p := by
    dsimp only [twoPages, listMem]
    rw [List.find?_singleton, List.find?_singleton,
      decide_eq_decide.mpr (contains_pageOf (p := p) (by decide) (by decide))]
  null := by decide
  top := by decide

/-- A process with no registers and zeros for memory is made to match. -/
theorem fixup_twoPages : ∃ s', fixup twoPages wordShadow .native
      ⟨[0x11008], fun a => a.setWidth 8, [], fun _ => 0, none, 0⟩ = (true, s') ∧
    isMatch twoPages wordShadow ⟨false, true, 0⟩ s' = some true := by
  refine ⟨_, rfl, ?_⟩
  rw [((fixup_statement twoPages wordShadow twoPages_paged .native _ _ rfl).native rfl).isMatch]
  rfl

end PTImg

end VexLLVM
