import VexLLVM.Emit.Access

/-!
# The last store, logged and compared

A store is logged by the code that makes it: `recordStore` puts its address, its size
and its bytes into an entry with sixteen bytes of data. After the superblock, the
checker reads as many bytes at that address from the traced process, word by word into
a buffer that is one word longer than the data of an entry.
-/

namespace VexLLVM

open LLVM LLVM.Code

namespace MemLog

/-- In bits. -/
def MAX_STORE_SIZE : ℕ := 128

structure Entry where
  address : ℕ
  size : ℕ
  data : Fin (MAX_STORE_SIZE / 8) → LLVM.Byte

def entryOf : List ℕ → Option Entry
  | [a, n, d] => some ⟨a, n, fun i => BitVec.ofNat 8 (d / 2 ^ (8 * i.val))⟩
  | _ => none

end MemLog

namespace PTImgChk

def MEMLOG_BUF_SZ : ℕ := MemLog.MAX_STORE_SIZE / 8 + 8

/-- The loop of `PTRACE_PEEKDATA`, with `room` words left in the buffer from `mem` on;
without a result where a word is written outside of it. -/
def peekLoop (shadow : BitVec 64 → LLVM.Byte) (stop : BitVec 64) :
    ℕ → BitVec 64 → ℕ → (ℕ → LLVM.Byte) → Option (ℕ → LLVM.Byte)
  | 0, aligned, _, data => if aligned < stop then none else some data
  | room + 1, aligned, mem, data =>
      if aligned < stop then
        peekLoop shadow stop room (aligned + 8) (mem + 8) fun i =>
          if mem ≤ i ∧ i < mem + 8 then shadow (aligned + BitVec.ofNat 64 (i - mem)) else data i
      else some data

def readMemLogData (shadow : BitVec 64 → LLVM.Byte) (base : BitVec 64) (size : ℕ) :
    Option (ℕ → LLVM.Byte) := do
  let aligned := base &&& ~~~(7 : BitVec 64)
  let stop := base + BitVec.ofNat 64 size
  let extra := (base - aligned).toNat
  let data ← peekLoop shadow stop (MEMLOG_BUF_SZ / 8) aligned 0 fun _ => 0
  if extra ≠ 0 then
    if extra + size ≤ MEMLOG_BUF_SZ then
      return fun i => if i < size then data (extra + i) else data i
    else none
  else return data

section Reader

variable {shadow : BitVec 64 → LLVM.Byte} {stop aligned base : BitVec 64} {room mem size : ℕ}
  {data : ℕ → LLVM.Byte}

/-- The loop writes outside of the buffer where it does not stop within it. -/
theorem peekLoop_eq_none (h : ∀ k ≤ room, aligned + BitVec.ofNat 64 (8 * k) < stop) :
    peekLoop shadow stop room aligned mem data = none := by
  have h₀ : aligned < stop := by simpa using h 0 (Nat.zero_le _)
  induction room generalizing aligned mem data with
  | zero => rw [peekLoop, if_pos h₀]
  | succ room ih =>
      have hs : ∀ k ≤ room, aligned + 8 + BitVec.ofNat 64 (8 * k) < stop := fun k hk => by
        have := h (k + 1) (Nat.succ_le_succ hk)
        rwa [Nat.mul_succ, Nat.add_comm (8 * k), BitVec.ofNat_add, ← BitVec.add_assoc] at this
      rw [peekLoop, if_pos h₀, ih hs (by simpa using hs 0 (Nat.zero_le _))]

/-- Below the last word of the address space the loop reads all words up to its end, and
leaves what is in the buffer before them. -/
theorem peekLoop_eq_some (shadow : BitVec 64 → LLVM.Byte) (mem : ℕ) (data : ℕ → LLVM.Byte)
    (hstop : stop.toNat + 8 ≤ 2 ^ 64) (hroom : stop.toNat ≤ aligned.toNat + 8 * room) :
    ∃ data', peekLoop shadow stop room aligned mem data = some data' ∧
      (∀ i < mem, data' i = data i) ∧
      ∀ k, aligned.toNat + k < stop.toNat →
        data' (mem + k) = shadow (aligned + BitVec.ofNat 64 k) := by
  induction room generalizing aligned mem data with
  | zero =>
      have hno : ¬aligned < stop := by
        rw [BitVec.lt_def]
        omega
      exact ⟨data, by rw [peekLoop, if_neg hno], fun _ _ => rfl, fun k hk => by omega⟩
  | succ room ih =>
      rw [peekLoop]
      by_cases hlt : aligned < stop
      · rw [if_pos hlt]
        rw [BitVec.lt_def] at hlt
        have hnext : (aligned + 8).toNat = aligned.toNat + 8 := by
          rw [BitVec.toNat_add]
          exact Nat.mod_eq_of_lt (by simp; omega)
        obtain ⟨data', h', hfr, hk⟩ := @ih (aligned + 8) (mem + 8)
          (fun i => if mem ≤ i ∧ i < mem + 8 then
            shadow (aligned + BitVec.ofNat 64 (i - mem)) else data i) (by omega)
        refine ⟨data', h', fun i hi => ?_, fun k hkk => ?_⟩
        · rw [hfr i (by omega), if_neg (by omega)]
        · by_cases h8 : k < 8
          · rw [hfr _ (by omega), if_pos (by omega), Nat.add_sub_cancel_left]
          · obtain ⟨j, rfl⟩ : ∃ j, k = 8 + j := ⟨k - 8, by omega⟩
            rw [← Nat.add_assoc, hk j (by omega), BitVec.ofNat_add, ← BitVec.add_assoc]
            rfl
      · rw [if_neg hlt]
        rw [BitVec.lt_def] at hlt
        exact ⟨data, rfl, fun _ _ => rfl, fun k hk => by omega⟩

/-- `readMemLogData` stays in its buffer, and starts it with the bytes of the process at
the address. -/
def ReadsBack (base : BitVec 64) (size : ℕ) : Prop :=
  ∀ shadow, ∃ data, readMemLogData shadow base size = some data ∧
    ∀ i < size, data i = shadow (base + BitVec.ofNat 64 i)

theorem toNat_and_not_seven (base : BitVec 64) :
    (base &&& ~~~(7 : BitVec 64)).toNat = base.toNat / 8 * 8 := by
  have heq : base &&& ~~~(7 : BitVec 64) = base >>> 3 <<< 3 := by
    ext i hi
    have h7 : (7#64)[i] = decide (i < 3) := by
      rw [BitVec.getElem_eq_testBit_toNat]
      exact Nat.testBit_two_pow_sub_one 3 i
    rw [BitVec.getElem_and, BitVec.getElem_not]
    change (base[i] && !(7#64)[i]) = _
    rw [h7, BitVec.getElem_shiftLeft]
    by_cases hi3 : i < 3
    · simp [hi3]
    · have hi3' : 3 + (i - 3) = i := by omega
      simp [hi3, hi3', BitVec.getLsbD_eq_getElem hi]
  rw [heq, BitVec.toNat_shiftLeft, BitVec.toNat_ushiftRight, Nat.shiftLeft_eq,
    Nat.shiftRight_eq_div_pow]
  have := base.isLt
  omega

/-- What is behind the last aligned address. -/
theorem toNat_sub_aligned (base : BitVec 64) :
    (base - (base &&& ~~~(7 : BitVec 64))).toNat = base.toNat % 8 := by
  have ha := toNat_and_not_seven base
  have hle : (base &&& ~~~(7 : BitVec 64)) ≤ base := by
    rw [BitVec.le_def, ha]
    omega
  rw [BitVec.toNat_sub_of_le hle, ha]
  omega

theorem readsBack_of_le (hsize : size ≤ 16) (hbase : base.toNat + size + 8 ≤ 2 ^ 64) :
    ReadsBack base size := by
  intro shadow
  have ha := toNat_and_not_seven base
  have hstop : (base + BitVec.ofNat 64 size).toNat = base.toNat + size := by
    rw [BitVec.toNat_add, BitVec.toNat_ofNat, Nat.mod_eq_of_lt (a := size) (by omega),
      Nat.mod_eq_of_lt (by omega)]
  have hroom : (base + BitVec.ofNat 64 size).toNat ≤
      (base &&& ~~~(7 : BitVec 64)).toNat + 8 * (MEMLOG_BUF_SZ / 8) := by
    rw [hstop, ha]
    simp only [MEMLOG_BUF_SZ, MemLog.MAX_STORE_SIZE]
    omega
  obtain ⟨data, hd, -, hk⟩ := peekLoop_eq_some shadow 0 (fun _ => 0) (by omega) hroom
  have hread (i : ℕ) (hi : i < size) :
    data (base.toNat % 8 + i) = shadow (base + BitVec.ofNat 64 i) := by
    have heq : (base &&& ~~~(7 : BitVec 64)) + BitVec.ofNat 64 (base.toNat % 8) = base := by
      rw [← toNat_sub_aligned, BitVec.ofNat_toNat, BitVec.setWidth_eq, BitVec.add_comm,
        BitVec.sub_add_cancel]
    have h := hk (base.toNat % 8 + i) (by omega)
    rw [Nat.zero_add] at h
    rw [h, BitVec.ofNat_add, ← BitVec.add_assoc, heq]
  simp only [readMemLogData, hd, toNat_sub_aligned, Option.bind_eq_bind, Option.bind_some]
  by_cases h0 : base.toNat % 8 = 0
  · refine ⟨data, by simp [h0], fun i hi => ?_⟩
    rw [← hread i hi, h0, Nat.zero_add]
  · have hroom : base.toNat % 8 + size ≤ MEMLOG_BUF_SZ := by
      simp only [MEMLOG_BUF_SZ, MemLog.MAX_STORE_SIZE]
      omega
    rw [if_pos h0, if_pos hroom]
    exact ⟨_, rfl, fun i hi => by rw [if_pos hi, hread i hi]⟩

/-- At the end of the address space the loop does not find its end, or reads nothing. -/
theorem not_readsBack_of_lt (hpos : 0 < size) (hsize : size ≤ 16)
    (hbase : 2 ^ 64 < base.toNat + size + 8) : ¬ReadsBack base size := by
  intro h
  have ha := toNat_and_not_seven base
  have hlt := base.isLt
  by_cases hwrap : base.toNat + size < 2 ^ 64
  · have hstop : (base + BitVec.ofNat 64 size).toNat = base.toNat + size := by
      rw [BitVec.toNat_add, BitVec.toNat_ofNat, Nat.mod_eq_of_lt (a := size) (by omega),
        Nat.mod_eq_of_lt hwrap]
    obtain ⟨data, hd, -⟩ := h fun _ => 0
    have hnone : peekLoop (fun _ => 0) (base + BitVec.ofNat 64 size) (MEMLOG_BUF_SZ / 8)
        (base &&& ~~~(7 : BitVec 64)) 0 (fun _ => 0) = none :=
      peekLoop_eq_none fun k _ => by
        rw [BitVec.lt_def, hstop, BitVec.toNat_add, ha, BitVec.toNat_ofNat]
        omega
    rw [readMemLogData, hnone] at hd
    cases hd
  · have hstop : (base + BitVec.ofNat 64 size).toNat = base.toNat + size - 2 ^ 64 := by
      rw [BitVec.toNat_add, BitVec.toNat_ofNat]
      omega
    obtain ⟨data, hd, hdata⟩ := h fun _ => 1
    have hno : ¬(base &&& ~~~(7 : BitVec 64)) < base + BitVec.ofNat 64 size := by
      rw [BitVec.lt_def, ha, hstop]
      omega
    have hloop : peekLoop (fun _ => 1) (base + BitVec.ofNat 64 size) (MEMLOG_BUF_SZ / 8)
        (base &&& ~~~(7 : BitVec 64)) 0 (fun _ => 0) = some fun _ => 0 := by
      change (if _ then _ else _) = _
      rw [if_neg hno]
    have hzero : data 0 = 0 := by
      simp only [readMemLogData, hloop, Option.bind_eq_bind, Option.bind_some] at hd
      split at hd
      · split at hd
        · cases hd
          simp
        · cases hd
      · cases hd
        rfl
    have := hdata 0 hpos
    rw [hzero] at this
    exact absurd this (by decide)

/-- A store of 32 bytes leaves the buffer. -/
theorem readMemLogData_wide (hbase : base.toNat + 32 < 2 ^ 64) (shadow : BitVec 64 → LLVM.Byte) :
    readMemLogData shadow base 32 = none := by
  have ha := toNat_and_not_seven base
  have hnone : peekLoop shadow (base + BitVec.ofNat 64 32) (MEMLOG_BUF_SZ / 8)
      (base &&& ~~~(7 : BitVec 64)) 0 (fun _ => 0) = none :=
    peekLoop_eq_none fun k hk => by
      simp only [MEMLOG_BUF_SZ, MemLog.MAX_STORE_SIZE] at hk
      rw [BitVec.lt_def, BitVec.toNat_add, BitVec.toNat_add, ha, BitVec.toNat_ofNat,
        BitVec.toNat_ofNat]
      omega
  rw [readMemLogData, hnone]
  rfl

end Reader

end PTImgChk

namespace MemLog

variable {gen : GenLLVM} {t : Ty} {a d : Value}

/-- The code of `recordStore` for a value of the type is well formed, and where it runs
the entry holds the address, the size and all bytes of the value. -/
def RecordsStore (gen : GenLLVM) (t : Ty) : Prop :=
  ∀ (a d : Value) (b b' : Builder), a.ty = .int gen.addrBits → d.ty = t → b.OK →
    (GenLLVM.recordStore GenLLVM.curMemoryLog a d).run b = .ok ((), b') →
      (∀ k i, Builder.Added b b' k i → i.WF = true) ∧
      ∀ (ext : Extern) (G : Func) (fr : Frame) (x y : ℕ), Builder.Extends b'.func G → fr.At b →
        fr.Has b.nextId a (.bits x) → fr.Has b.nextId d (.bits y) →
          ∃ fr' e, G.Reach ext fr fr' ∧ fr'.At b' ∧ entryOf fr'.m.log = some e ∧ e.address = x ∧
            e.size = t.bytes ∧ ∀ i < t.bytes, ∃ h : i < MAX_STORE_SIZE / 8,
              e.data ⟨i, h⟩ = BitVec.ofNat 8 (y / 2 ^ (8 * i))

theorem castOk_zext_iff (w w' : ℕ) : castOk .zext (.int w) (.int w') = true ↔ w ≤ w' := by
  rw [castOk, Bool.or_eq_true, beq_iff_eq, Nat.le_iff_lt_or_eq, or_comm]
  refine or_congr ?_ ⟨fun h => by cases h; rfl, fun h => by rw [h]⟩
  simp [CastOp.ok, Ty.sameShape, Ty.elem?, CastOp.elemOk]

theorem castOk_bitcast_bits (ht : t.elem?.isSome = true) :
    castOk .bitcast t (.int t.bits) = true := by
  cases t with
  | scalar s =>
      exact Bool.or_eq_true_iff.2 (.inr (by simp [CastOp.ok, Ty.elem?, Ty.bits, Scalar.bits]))
  | vec n s => exact castOk_bitcast_int n _ s rfl
  | _ => cases ht

/-- All of the code is legal but for the widening of a value that is too wide. -/
theorem ensures_recordStore_iff {w : ℕ} (ha : a.ty = .int w) (hd : d.ty.elem?.isSome = true) :
    (GenLLVM.recordStore GenLLVM.curMemoryLog a d).Ensures (fun _ => True) False
      (fun _ ok => ok ↔ d.ty.bits ≤ MAX_STORE_SIZE) True := by
  have hins {α : Type} {i : Inst} {k : Value → Code EmitError α} {Q : α → Prop → Prop} {ok : Prop}
      (hi : i.incoming = [])
      (h : ∀ v, v.ty = i.ty → (k v).Ensures (fun _ => True) False Q (ok ∧ i.createOk = true)) :
      (Code.ins i k).Ensures (fun _ => True) False Q ok :=
    ⟨⟨fun _ _ => trivial, hi⟩, fun v _ hv => h v hv⟩
  refine hins rfl fun p hp => hins rfl fun e₁ he₁ => hins rfl fun e₂ he₂ => hins rfl fun d₁ hd₁ =>
    hins rfl fun d₂ hd₂ => hins rfl fun d₃ hd₃ => hins rfl fun e₃ he₃ => hins rfl fun _ _ => ?_
  have hp : p.ty = .ptr (.int 8) := hp
  have he₁ : e₁.ty = MemLog.type := he₁
  have he₂ : e₂.ty = MemLog.type := he₂.trans he₁
  have he₃ : e₃.ty = MemLog.type := he₃.trans he₂
  have hd₁ : d₁.ty = .int d.ty.bits := hd₁
  have hd₂ : d₂.ty = .int 128 := hd₂
  have hd₃ : d₃.ty = .vec 16 (.int 8) := hd₃
  have c₁ : (Inst.cast .inttoptr a (.ptr (.int 8))).createOk = true := by
    rw [Inst.createOk_cast, ha]
    rfl
  have c₂ : (Inst.insertvalue (.undef MemLog.type) p 0).createOk = true := by
    simp [Inst.createOk, Inst.WF, MemLog.type, Ty.field?, hp]
  have c₃ : (Inst.insertvalue e₁ (constInt 64 (d.ty.bits / 8)) 1).createOk = true := by
    simp [Inst.createOk, Inst.WF, MemLog.type, Ty.field?, he₁]
  have c₄ : (Inst.cast .bitcast d (.int d.ty.bits)).createOk = true := by
    rw [Inst.createOk_cast, castOk_bitcast_bits hd]
  have c₅ : (Inst.cast .zext d₁ (.int 128)).createOk = true ↔ d.ty.bits ≤ MAX_STORE_SIZE := by
    rw [Inst.createOk_cast, hd₁, castOk_zext_iff]
    rfl
  have c₆ : (Inst.cast .bitcast d₂ (.vec 16 (.int 8))).createOk = true := by
    rw [Inst.createOk_cast, hd₂]
    rfl
  have c₇ : (Inst.insertvalue e₂ d₃ 2).createOk = true := by
    simp [Inst.createOk, Inst.WF, MemLog.type, Ty.field?, he₂, hd₃]
  have c₈ : (Inst.store e₃ GenLLVM.curMemoryLog 8).createOk = true := by
    simp [Inst.createOk, Inst.WF, GenLLVM.curMemoryLog, he₃]
  rw [← c₅]
  simp only [c₁, c₂, c₃, c₄, c₆, c₇, c₈, and_true, true_and]
  exact Iff.rfl

/-- A run of the code exists, and its instructions are well formed exactly if the value is
not too wide. -/
theorem recordStore_wf_iff {w : ℕ} {b b' : Builder} (ha : a.ty = .int w)
    (hd : d.ty.elem?.isSome = true) (hb : b.OK)
    (hrun : (GenLLVM.recordStore GenLLVM.curMemoryLog a d).run b = .ok ((), b')) :
    (∀ k i, Builder.Added b b' k i → i.WF = true) ↔ d.ty.bits ≤ MAX_STORE_SIZE := by
  obtain ⟨⟨ok', h, hok⟩, -⟩ := (ensures_recordStore_iff ha hd).run hrun hb
    ⟨fun _ _ => trivial, fun _ _ _ => trivial⟩
  rw [← h, hok, true_and]

theorem exists_recordStore_run {w : ℕ} (b : Builder) (ha : a.ty = .int w)
    (hd : d.ty.elem?.isSome = true) :
    ∃ b', (GenLLVM.recordStore GenLLVM.curMemoryLog a d).run b = .ok ((), b') := by
  cases hrun : (GenLLVM.recordStore GenLLVM.curMemoryLog a d).run b with
  | ok r => exact ⟨r.2, rfl⟩
  | error e => exact ((ensures_recordStore_iff ha hd).run_error hrun).elim

/-- What is stored through the log. -/
theorem recordStore_logs {b b' : Builder} (ha : a.ty = .int gen.addrBits) (hb : b.OK)
    (hrun : (GenLLVM.recordStore GenLLVM.curMemoryLog a d).run b = .ok ((), b'))
    (ext : Extern) {G : Func} {fr : Frame} {x y : ℕ} (hG : Builder.Extends b'.func G)
    (hat : fr.At b) (hx : fr.Has b.nextId a (.bits x)) (hy : fr.Has b.nextId d (.bits y)) :
    ∃ fr', G.Reach ext fr fr' ∧ fr'.At b' ∧ fr'.m.log = [x, d.ty.bytes % 2 ^ 64, y] := by
  let σ : GenState := ⟨b, fun _ => none, fun _ => none, fun _ => none, []⟩
  have hcode : code (GenLLVM.recordStore GenLLVM.curMemoryLog a d) σ =
      .ok ((), { σ with toBuilder := b' }) := by
    rw [code, show σ.toBuilder = b from rfl, hrun]
  have hstands : Stands (fun _ => none) [(a, .bits x), (d, .bits y)] fr.m σ fr := by
    refine ⟨rfl, ?_, fun _ _ _ h => (by cases h), fun _ _ _ h => (by cases h),
      fun _ _ _ _ h => (by cases h)⟩
    intro v r hv
    rcases List.mem_cons.1 hv with hv | hv
    · cases hv
      exact hx
    · cases List.mem_singleton.1 hv
      exact hy
  have hruns : Runs true ext (Stands (fun _ => none) [(a, .bits x), (d, .bits y)] fr.m)
      (code (GenLLVM.recordStore GenLLVM.curMemoryLog a d))
      (fun _ => Stands (fun _ => none) [(a, .bits x), (d, .bits y)]
        { fr.m with log := [x, d.ty.bytes % 2 ^ 64, y] }) fun _ _ => False :=
    runs_recordStore ha (by simp) (by simp)
  rcases hruns σ () _ G fr hcode hb hG (.inl rfl) hat hstands with
    ⟨fr', hr, hat', -, hs⟩ | ⟨_, _, _, _, h⟩
  · exact ⟨fr', hr, hat', by rw [hs.mach]⟩
  · exact h.elim

/-- A type with a size that fits an entry is logged in full, and any other one is not
logged by well-formed code. -/
theorem recordsStore_iff (gen : GenLLVM) (ht : t.elem?.isSome = true) :
    RecordsStore gen t ↔ t.bits ≤ MAX_STORE_SIZE := by
  constructor
  · intro h
    have hb : Builder.empty.OK := .empty
    obtain ⟨b', hrun⟩ := exists_recordStore_run (a := .undef (.int gen.addrBits)) (d := .undef t)
      Builder.empty rfl ht
    exact (recordStore_wf_iff (d := .undef t) rfl ht hb hrun).1 (h _ _ _ b' rfl rfl hb hrun).1
  · rintro h a d b b' ha rfl hb hrun
    refine ⟨(recordStore_wf_iff ha ht hb hrun).2 h, fun ext G fr x y hG hat hx hy => ?_⟩
    obtain ⟨fr', hr, hat', hlog⟩ := recordStore_logs ha hb hrun ext hG hat hx hy
    have hbytes : d.ty.bytes ≤ MAX_STORE_SIZE / 8 := Nat.div_le_div_right h
    have hmod : d.ty.bytes % 2 ^ 64 = d.ty.bytes := by
      refine Nat.mod_eq_of_lt (Nat.lt_of_le_of_lt hbytes ?_)
      decide
    rw [hmod] at hlog
    refine ⟨fr', _, hr, hat', by rw [hlog]; rfl, rfl, rfl, fun i hi => ⟨by omega, rfl⟩⟩

end MemLog

/-- A store of a supported type of at least a byte is logged, and compared with what the
traced process has at the address, exactly if it is at most as wide as the data of an
entry, and does not reach the last eight bytes of the address space. -/
theorem memLog_store_iff (gen : GenLLVM) (ty : Vex.IRType) (t : Ty) (hty : vexTy2LLVM ty = some t)
    (h8 : 8 ≤ t.bits) (base : BitVec 64) :
    (MemLog.RecordsStore gen t ∧ PTImgChk.ReadsBack base t.bytes) ↔
      t.bits ≤ MemLog.MAX_STORE_SIZE ∧ base.toNat + t.bytes + 8 ≤ 2 ^ 64 := by
  have ht : t.elem?.isSome = true := by
    cases ty <;> cases hty <;> rfl
  rw [MemLog.recordsStore_iff gen ht]
  refine and_congr_right fun hle => ?_
  have hsize : t.bytes ≤ 16 := Nat.div_le_div_right hle
  have hpos : 0 < t.bytes := Nat.div_pos h8 (by decide)
  refine ⟨fun h => ?_, PTImgChk.readsBack_of_le hsize⟩
  by_contra hlt
  exact PTImgChk.not_readsBack_of_lt hpos hsize (Nat.lt_of_not_le hlt) h

/-- A store of sixteen bytes at any alignment. -/
theorem memLog_store_v128 : MemLog.RecordsStore plainGen (.vec 16 (.int 8)) ∧
    PTImgChk.ReadsBack 0x601003 (Ty.vec 16 (.int 8)).bytes :=
  (memLog_store_iff plainGen .V128 _ rfl (by decide) 0x601003).2 (by decide)

/-- A store of 32 bytes is not. -/
theorem memLog_not_store_v256 : ¬∀ (gen : GenLLVM) (ty : Vex.IRType) (t : Ty),
    vexTy2LLVM ty = some t → 8 ≤ t.bits → ∀ base : BitVec 64,
      MemLog.RecordsStore gen t ∧ PTImgChk.ReadsBack base t.bytes := by
  intro h
  obtain ⟨data, hd, -⟩ := (h plainGen .V256 _ rfl (by decide) 0x601000).2 fun _ => 0
  have hnone : PTImgChk.readMemLogData (fun _ => 0) 0x601000 32 = none :=
    PTImgChk.readMemLogData_wide (by decide) _
  exact Option.some_ne_none data (hd.symm.trans hnone)

end VexLLVM
