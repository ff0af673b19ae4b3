import VexLLVM.Emit.MirrorSB
import VexLLVM.LLVM.Bytes

/-!
# Running a superblock with a log of its stores

Both checkers run a superblock with the log as a second argument if there is one, and
without it otherwise; the code is compiled for the one or the other. Then they set the
guest's program counter, all but one path: `VexExecFastChk::doVexSB` returns right away
where there is a log.
-/

namespace VexLLVM

open LLVM LLVM.Code Vex

/-- The program counter of a guest CPU: where its state holds it, in how many bytes. -/
structure PCReg where
  off : BitVec 64
  bytes : ℕ
  bytes_le : bytes ≤ 8

namespace PCReg

variable (pc : PCReg)

/-- `guest_RIP`. -/
def amd64 : PCReg := ⟨184, 8, le_rfl⟩

def setPC (ip : BitVec 64) (m : Machine) : Machine := m.setCtx pc.off pc.bytes ip.toNat

def getPC (m : Machine) : BitVec 64 := BitVec.ofNat 64 (readBytes m.ctx pc.off pc.bytes)

/-- The program counter is the address, as far as it has room for it. -/
def IsAt (ip : BitVec 64) (m : Machine) : Prop :=
  pc.getPC m = BitVec.ofNat 64 (ip.toNat % 2 ^ (8 * pc.bytes))

variable {pc} {ip : BitVec 64} {m m' : Machine}

theorem isAt_amd64 : amd64.IsAt ip m ↔ amd64.getPC m = ip := by
  rw [IsAt, show 2 ^ (8 * amd64.bytes) = 2 ^ 64 from rfl, Nat.mod_eq_of_lt ip.isLt,
    BitVec.ofNat_toNat,
    BitVec.setWidth_eq]

theorem bytes_lt (pc : PCReg) : pc.bytes ≤ 2 ^ 64 := pc.bytes_le.trans (by decide)

theorem isAt_setPC (pc : PCReg) (ip : BitVec 64) (m : Machine) : pc.IsAt ip (pc.setPC ip m) :=
  congrArg (BitVec.ofNat 64) (readBytes_writeBytes pc.bytes_lt)

theorem isAt_congr (h : m.Same m') : pc.IsAt ip m ↔ pc.IsAt ip m' := by
  rw [IsAt, IsAt, getPC, getPC, h.ctx]

/-- Where the program counter is at the address, setting it there changes nothing. -/
theorem setPC_eq_self (h : pc.IsAt ip m) : pc.setPC ip m = m := by
  have hpow : 2 ^ (8 * pc.bytes) ≤ 2 ^ 64 :=
    Nat.pow_le_pow_right Nat.two_pos (by have := pc.bytes_le; omega)
  have hpos : 0 < 2 ^ (8 * pc.bytes) := Nat.two_pow_pos _
  have hread : readBytes m.ctx pc.off pc.bytes = ip.toNat % 2 ^ (8 * pc.bytes) := by
    have h := congrArg BitVec.toNat h
    rwa [getPC, BitVec.toNat_ofNat, BitVec.toNat_ofNat, Nat.mod_eq_of_lt
      ((readBytes_lt _ _ _).trans_le hpow), Nat.mod_eq_of_lt
        ((Nat.mod_lt _ hpos).trans_le hpow)] at h
  have hwrite : writeBytes m.ctx pc.off pc.bytes ip.toNat = m.ctx := by
    have hmod : writeBytes m.ctx pc.off pc.bytes ip.toNat =
        writeBytes m.ctx pc.off pc.bytes (ip.toNat % 2 ^ (8 * pc.bytes)) :=
      (writeBytes_eq_iff pc.bytes_lt).2 (Nat.mod_mod _ _).symm
    rw [hmod, ← hread, writeBytes_readBytes]
  rw [setPC, Machine.setCtx, hwrite]

theorem same_setPC (pc : PCReg) (ip : BitVec 64) (h : m.Same m') :
    (pc.setPC ip m).Same (pc.setPC ip m') :=
  ⟨by rw [setPC, setPC, Machine.setCtx, Machine.setCtx, h.ctx], h.mem⟩

end PCReg

structure SBRun where
  gs : Machine
  sbExecutedC : ℕ

namespace SBRun

/-- The same but for the log. -/
structure Same (s s' : SBRun) : Prop where
  gs : s.gs.Same s'.gs
  sbExecutedC : s.sbExecutedC = s'.sbExecutedC

def clearLog (s : SBRun) : SBRun := { s with gs := { s.gs with log := [0, 0, 0] } }

def setPC (pc : PCReg) (ip : BitVec 64) (s : SBRun) : SBRun := { s with gs := pc.setPC ip s.gs }

variable (ext : Extern) (F : Func) (fuel : ℕ) (s : SBRun)

def call : Option (BitVec 64 × SBRun) :=
  (F.run ext fuel (Func.start s.gs)).bind fun r =>
    r.1.bits?.map fun ip => (BitVec.ofNat 64 ip, ⟨r.2, s.sbExecutedC + 1⟩)

/-- `VexExec::doVexSBAux`, with the log for `aux`. -/
def doVexSBAux : Option (BitVec 64 × SBRun) := call ext F fuel s

def doVexSB : Option (BitVec 64 × SBRun) := call ext F fuel s

/-- `VexExecChk::doVexSB`, from the test for a log up to where the comparison starts. -/
def chkDoVexSB (pc : PCReg) (log : Bool) : Option (BitVec 64 × SBRun) := do
  let (newIp, s) ← if log then doVexSBAux ext F fuel s.clearLog else doVexSB ext F fuel s
  return (newIp, s.setPC pc newIp)

def fastChkDoVexSB (pc : PCReg) (log : Bool) : Option (BitVec 64 × SBRun) :=
  if log then doVexSBAux ext F fuel s.clearLog
  else do
    let (newIp, s) ← doVexSB ext F fuel s
    return (newIp, s.setPC pc newIp)

end SBRun

/-- The two checkers: `VexExecChk` and `VexExecFastChk`. -/
inductive Checker where
  | chk
  | fastChk
  deriving DecidableEq, Repr

def Checker.doVexSB (c : Checker) (ext : Extern) (pc : PCReg) (log : Bool) (F : Func) (fuel : ℕ)
    (s : SBRun) : Option (BitVec 64 × SBRun) :=
  match c with
  | chk => s.chkDoVexSB ext F fuel pc log
  | fastChk => s.fastChkDoVexSB ext F fuel pc log

/-- The generator, with `VEXLLVM_LAST_STORE` set or not. -/
def GenLLVM.withLog (log : Bool) (gen : GenLLVM) : GenLLVM := { gen with logLastStore := log }

def VexSB.Compiled (gen : GenLLVM) (sb : VexSB) (F : Func) : Prop := sb.emit gen = .ok F ∧ F.Legal

/-- The same address is returned, with states that differ in the log only. -/
abbrev SameReturn (r r' : BitVec 64 × SBRun) : Prop := r.1 = r'.1 ∧ r.2.Same r'.2

/-- The superblock has code with a log as well, and logging its stores from the state
does not change its execution. -/
structure Checker.LogUnseen (c : Checker) (ext : Extern) (pc : PCReg) (gen : GenLLVM) (sb : VexSB)
    (s : SBRun) : Prop where
  compiled : ∃ F, sb.Compiled (gen.withLog true) F
  same : ∀ F F' k r, sb.Compiled (gen.withLog false) F → sb.Compiled (gen.withLog true) F' →
    c.doVexSB ext pc false F k s = some r →
      ∃ k' r', c.doVexSB ext pc true F' k' s = some r' ∧ SameReturn r r'
  same_back : ∀ F F' k r', sb.Compiled (gen.withLog false) F → sb.Compiled (gen.withLog true) F' →
    c.doVexSB ext pc true F' k s = some r' →
      ∃ k' r, c.doVexSB ext pc false F k' s = some r ∧ SameReturn r r'
  isAt : ∀ log F k r, sb.Compiled (gen.withLog log) F → c.doVexSB ext pc log F k s = some r →
    pc.IsAt r.1 r.2.gs
  written : ∀ F k r l, sb.Compiled (gen.withLog true) F → s.doVexSBAux ext F k = some r →
    ∃ k' r', SBRun.doVexSBAux ext F k' { s with gs := { s.gs with log := l } } = some r' ∧
      SameReturn r r'

namespace VexSB

/-- What the superblock stores has the types VEX gives it: at addresses of the guest's
word size, scalars or vectors. -/
def StoresTyped (gen : GenLLVM) (sb : VexSB) : Prop :=
  ∀ p ∈ sb.stored gen, p.1 = .int gen.addrBits ∧ p.2.elem?.isSome = true

def StoresFit (gen : GenLLVM) (sb : VexSB) : Prop :=
  ∀ p ∈ sb.stored gen, p.2.bits ≤ MemLog.MAX_STORE_SIZE

end VexSB

section

variable {ext : Extern} {pc : PCReg} {gen : GenLLVM} {sb : VexSB} {F F' F'' : Func} {s s' : SBRun}
  {c : Checker} {k : ℕ} {r r' : BitVec 64 × SBRun}

namespace SBRun

theorem Same.refl (s : SBRun) : s.Same s := ⟨.refl _, rfl⟩

theorem Same.symm (h : s.Same s') : s'.Same s := ⟨h.gs.symm, h.sbExecutedC.symm⟩

theorem same_clearLog (s : SBRun) : s.Same s.clearLog := ⟨⟨rfl, rfl⟩, rfl⟩

theorem call_eq_some : s.call ext F k = some r ↔
    ∃ x ip, F.run ext k (Func.start s.gs) = some x ∧ x.1.bits? = some ip ∧
      r = (BitVec.ofNat 64 ip, ⟨x.2, s.sbExecutedC + 1⟩) := by
  rw [call, Option.bind_eq_some_iff]
  refine exists_congr fun x => ⟨?_, ?_⟩
  · rintro ⟨hx, h⟩
    obtain ⟨ip, hip, rfl⟩ := Option.map_eq_some_iff.1 h
    exact ⟨ip, hx, hip, rfl⟩
  · rintro ⟨ip, hx, hip, rfl⟩
    exact ⟨hx, Option.map_eq_some_iff.2 ⟨ip, hip, rfl⟩⟩

/-- From states that differ in the log only, what one function returns the other one
does. -/
def Follows (ext : Extern) (F F' : Func) : Prop :=
  ∀ s s' : SBRun, s.Same s' → ∀ k r, s.call ext F k = some r →
    ∃ k' r', s'.call ext F' k' = some r' ∧ SameReturn r r'

theorem Follows.of_run (h : ∀ m m' : Machine, m.Same m' →
    ∀ k x, F.run ext k (Func.start m) = some x →
    ∃ k' x', F'.run ext k' (Func.start m') = some x' ∧ SameRun x x') : Follows ext F F' := by
  intro s s' hs k r hr
  obtain ⟨x, ip, hx, hip, rfl⟩ := call_eq_some.1 hr
  obtain ⟨k', x', hx', hv, hm⟩ := h s.gs s'.gs hs.gs k x hx
  exact ⟨k', _, call_eq_some.2 ⟨x', ip, hx', by rw [← hv, hip], rfl⟩, rfl, hm,
    by rw [hs.sbExecutedC]⟩

theorem Follows.trans (h : Follows ext F F') (h' : Follows ext F' F'') : Follows ext F F'' := by
  intro s s' hs k r hr
  obtain ⟨k₁, r₁, hr₁, hip₁, hs₁⟩ := h s s' hs k r hr
  obtain ⟨k₂, r₂, hr₂, hip₂, hs₂⟩ := h' s' s' (.refl s') k₁ r₁ hr₁
  exact ⟨k₂, r₂, hr₂, hip₁.trans hip₂, hs₁.gs.trans hs₂.gs, hs₁.sbExecutedC.trans hs₂.sbExecutedC⟩

end SBRun

def Checker.finish (c : Checker) (pc : PCReg) (log : Bool) (r : BitVec 64 × SBRun) : BitVec 64 × SBRun :=
  if c = chk ∨ log = false then (r.1, r.2.setPC pc r.1) else r

namespace Checker

theorem doVexSB_eq (log : Bool) (k : ℕ) (s : SBRun) : c.doVexSB ext pc log F k s =
    ((if log then s.clearLog else s).call ext F k).map (c.finish pc log) := by
  have hset : ∀ {o : Option (BitVec 64 × SBRun)} {log : Bool}, c = chk ∨ log = false →
      (do let (ip, s) ← o; return (ip, s.setPC pc ip)) = o.map (c.finish pc log) :=
        fun {o log} h => by
    cases o with
    | none => rfl
    | some r => exact congrArg some (if_pos h).symm
  have hkeep : (fastChk.finish pc true) = id := funext fun r => if_neg (by simp)
  cases c with
  | chk =>
      cases log with
      | false => exact hset (.inl rfl)
      | true => exact hset (.inl rfl)
  | fastChk =>
      cases log with
      | false => exact hset (.inr rfl)
      | true =>
          rw [hkeep, Option.map_id]
          rfl

/-- With the program counter at the address already, all paths do the same. -/
theorem same_finish (log log' : Bool) (h : SameReturn r r') (hat : c = chk ∨ pc.IsAt r.1 r.2.gs) :
    SameReturn (c.finish pc log r) (c.finish pc log' r') := by
  obtain ⟨hip, hs⟩ := h
  have hset : (r.2.setPC pc r.1).Same (r'.2.setPC pc r'.1) := by
    rw [← hip]
    exact ⟨pc.same_setPC r.1 hs.gs, hs.sbExecutedC⟩
  rcases hat with rfl | hat
  · exact ⟨hip, hset⟩
  · have hself : r.2.setPC pc r.1 = r.2 := by rw [SBRun.setPC, PCReg.setPC_eq_self hat]
    have hself' : r'.2.setPC pc r'.1 = r'.2 := by
      rw [SBRun.setPC, PCReg.setPC_eq_self ((PCReg.isAt_congr hs.gs).1 (hip ▸ hat))]
    have hfin : ∀ b, c.finish pc b r = r := fun b => by
      unfold finish
      rw [hself, ite_self]
    have hfin' : ∀ b, c.finish pc b r' = r' := fun b => by
      unfold finish
      rw [hself', ite_self]
    rw [hfin, hfin']
    exact ⟨hip, hs⟩

theorem isAt_finish (log : Bool) (hat : c = chk ∨ log = false ∨ pc.IsAt r.1 r.2.gs) :
    pc.IsAt (c.finish pc log r).1 (c.finish pc log r).2.gs := by
  unfold finish
  split
  · exact pc.isAt_setPC _ _
  · next h =>
      obtain ⟨hc, hl⟩ := not_or.1 h
      exact (hat.resolve_left hc).resolve_left hl

end Checker

/-- The code with a log: it is well formed where what is stored fits into an entry, and
goes along with the code without a log. -/
theorem VexSB.exists_logged (hext : ext.Blind) (hF : sb.Compiled (gen.withLog false) F)
    (hty : sb.StoresTyped (gen.withLog false)) :
    ∃ F', sb.emit (gen.withLog true) = .ok F' ∧ (F'.Legal ↔ sb.StoresFit (gen.withLog false)) ∧
      SBRun.Follows ext F F' ∧ SBRun.Follows ext F' F := by
  obtain ⟨F', w, n, n', he, hw, htr, hl⟩ := exists_emit_logging rfl hty hF.1
  refine ⟨F', he, hl.trans (and_iff_right hF.2), .of_run fun m m' hm => ?_, .of_run
    fun m m' hm => ?_⟩
  · exact (run_logging hext hw htr hm).1
  · intro k x hx
    obtain ⟨k', x', hx', hsame⟩ := (run_logging hext hw htr hm.symm).2 k x hx
    exact ⟨k', x', hx', hsame.1.symm, hsame.2.symm⟩

theorem VexSB.Compiled.unique (h : sb.Compiled gen F) (h' : sb.Compiled gen F') : F = F' :=
  Except.ok.inj (h.1.symm.trans h'.1)

/-- Logging the stores of a superblock does not change its execution exactly if each of
them fits into an entry, and either the checker sets the program counter afterwards or
the superblock has set it itself. -/
theorem logUnseen_iff (c : Checker) (pc : PCReg) (hext : ext.Blind)
    (hF : sb.Compiled (gen.withLog false) F) (hty : sb.StoresTyped (gen.withLog false)) (s : SBRun) :
    c.LogUnseen ext pc gen sb s ↔ sb.StoresFit (gen.withLog false) ∧
      (c = .chk ∨ ∀ k r, s.doVexSB ext F k = some r → pc.IsAt r.1 r.2.gs) := by
  obtain ⟨F', he, hl, hfollows, hback⟩ := VexSB.exists_logged hext hF hty
  constructor
  · intro h
    obtain ⟨F₁, hF₁⟩ := h.compiled
    obtain rfl : F₁ = F' := Except.ok.inj (hF₁.1.symm.trans he)
    refine ⟨hl.1 hF₁.2, ?_⟩
    cases c with
    | chk => exact .inl rfl
    | fastChk =>
        refine .inr fun k r hr => ?_
        obtain ⟨k', r', hr', hip, hs⟩ := hfollows s s.clearLog s.same_clearLog k r hr
        have hat := h.isAt true F₁ k' r' hF₁ hr'
        rwa [← hip, ← PCReg.isAt_congr hs.gs] at hat
  · rintro ⟨hfit, hat⟩
    have hF' : sb.Compiled (gen.withLog true) F' := ⟨he, hl.2 hfit⟩
    refine ⟨⟨F', hF'⟩, ?_, ?_, ?_, ?_⟩
    · intro F₀ F₁ k r h₀ h₁ hr
      cases h₀.unique hF
      cases h₁.unique hF'
      rw [Checker.doVexSB_eq] at hr
      obtain ⟨x, hx, rfl⟩ := Option.map_eq_some_iff.1 hr
      obtain ⟨k', x', hx', hsame⟩ := hfollows s s.clearLog s.same_clearLog k x hx
      refine ⟨k', c.finish pc true x', ?_, Checker.same_finish false true hsame
        (hat.imp_right fun hat => hat k x hx)⟩
      rw [Checker.doVexSB_eq]
      exact Option.map_eq_some_iff.2 ⟨x', hx', rfl⟩
    · intro F₀ F₁ k r' h₀ h₁ hr
      cases h₀.unique hF
      cases h₁.unique hF'
      rw [Checker.doVexSB_eq] at hr
      obtain ⟨x', hx', rfl⟩ := Option.map_eq_some_iff.1 hr
      obtain ⟨k', x, hx, hip, hs⟩ := hback s.clearLog s s.same_clearLog.symm k x' hx'
      refine ⟨k', c.finish pc false x, ?_, Checker.same_finish false true ⟨hip.symm, hs.symm⟩
        (hat.imp_right fun hat => hat k' x hx)⟩
      rw [Checker.doVexSB_eq]
      exact Option.map_eq_some_iff.2 ⟨x, hx, rfl⟩
    · intro log F₁ k r h₁ hr
      rw [Checker.doVexSB_eq] at hr
      obtain ⟨x, hx, rfl⟩ := Option.map_eq_some_iff.1 hr
      refine Checker.isAt_finish log (hat.imp_right fun hat => ?_)
      cases log with
      | false => exact .inl rfl
      | true =>
          cases h₁.unique hF'
          obtain ⟨k', y, hy, hip, hs⟩ := hback s.clearLog s s.same_clearLog.symm k x hx
          refine .inr ?_
          rw [hip, PCReg.isAt_congr hs.gs]
          exact hat k' y hy
    · intro F₁ k r l h₁ hr
      cases h₁.unique hF'
      have hs : s.Same { s with gs := { s.gs with log := l } } := ⟨⟨rfl, rfl⟩, rfl⟩
      exact (hback.trans hfollows) s _ hs k r hr

/-! ## Two superblocks -/

end

def noExtern : Extern := fun _ _ _ => none

theorem noExtern_blind : noExtern.Blind := fun _ _ _ _ _ => .none

def storeSB : VexSB :=
  ⟨0x1000, [], [.store (.const (.U64 0x601000)) (.const (.U64 7))], .Boring, .const (.U64 0x1004)⟩

def zeroRun : SBRun := ⟨⟨fun _ => 0, fun _ => 0, []⟩, 0⟩

theorem storeSB_compiled (log : Bool) : ∃ F, storeSB.Compiled (plainGen.withLog log) F := by
  cases log <;>
  · refine ⟨_, rfl, fun k p hp => ?_⟩
    cases k with
    | zero =>
        revert p
        decide +kernel
    | succ k => cases hp

theorem logUnseen_storeSB : Checker.chk.LogUnseen noExtern .amd64 plainGen storeSB zeroRun := by
  obtain ⟨F, hF⟩ := storeSB_compiled false
  have hty : storeSB.StoresTyped (plainGen.withLog false) := by
    unfold VexSB.StoresTyped
    decide +kernel
  refine (logUnseen_iff .chk .amd64 noExtern_blind hF hty zeroRun).2 ⟨?_, .inl rfl⟩
  unfold VexSB.StoresFit
  decide +kernel

/-- With a log the fast checker leaves the program counter where it was. -/
theorem not_logUnseen_storeSB : ¬ Checker.fastChk.LogUnseen noExtern .amd64 plainGen storeSB zeroRun := by
  intro h
  obtain ⟨F, hF⟩ := storeSB_compiled true
  have hrun : ∃ m, Checker.fastChk.doVexSB noExtern .amd64 true F 20 zeroRun = some (0x1004, ⟨m, 1⟩) ∧
      PCReg.amd64.getPC m = 0 := by
    cases hF.1
    exact ⟨_, rfl, by decide +kernel⟩
  obtain ⟨m, hrun, hpc⟩ := hrun
  have hat := h.isAt true F 20 _ hF hrun
  rw [PCReg.isAt_amd64, hpc] at hat
  cases hat

end VexLLVM
