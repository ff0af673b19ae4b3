import VexLLVM.Exec.VexExec

/-!
# Blocks within their mapping

Before a block is dispatched, its end is compared with the end of the mapping it starts
in. The end is that of its last instruction. The comparison is a strict one, so that a
block may not use the last byte of its mapping.
-/

namespace VexLLVM

open Vex StateExcept

variable {M : Type} {gm : GuestMem M} {gen : GenLLVM} {s : ExecState M} {p : GuestPtr} {m : Mapping}
  {vsb : VSB}

def VexSB.imarks (ss : List VexStmt) : List (GuestPtr × ℕ) :=
  ss.filterMap fun
    | .imark a n => some (a, n)
    | _ => none

theorem VexSB.lastImark_eq (ss : List VexStmt) : lastImark ss = (imarks ss).getLast? := by
  induction ss with
  | nil => rfl
  | cons s ss ih =>
      cases s with
      | imark a n =>
          change (lastImark ss).or (some (a, n)) = ((a, n) :: imarks ss).getLast?
          rw [ih, List.getLast?_cons]
          cases (imarks ss).getLast? <;> rfl
      | _ => exact ih

def Mapping.top (m : Mapping) : ℕ := m.offset.toNat + m.length.toNat

def VSB.top (x : VSB) : ℕ := ((VexSB.lastImark x.sb.stmts).map fun q => q.1.toNat + q.2).getD 0

def VSB.Inside (x : VSB) (m : Mapping) : Prop :=
  ∀ q ∈ VexSB.imarks x.sb.stmts, m.offset.toNat ≤ q.1.toNat ∧ q.1.toNat + q.2 ≤ m.top

instance (x : VSB) (m : Mapping) : Decidable (x.Inside m) :=
  inferInstanceAs (Decidable (∀ q ∈ _, _))

theorem Mapping.toNat_endPtr (m : Mapping) : m.endPtr.toNat = m.top % 2 ^ 64 :=
  BitVec.toNat_add _ _

theorem VSB.toNat_endAddr (x : VSB) : x.endAddr.toNat = x.top % 2 ^ 64 := by
  rw [endAddr, top, VexSB.endAddr?]
  cases VexSB.lastImark x.sb.stmts with
  | none => rfl
  | some q => simp

theorem VSB.Inside.top_le (h : vsb.Inside m) : vsb.top ≤ m.top := by
  rw [VSB.top, VexSB.lastImark_eq]
  cases hq : (VexSB.imarks vsb.sb.stmts).getLast? with
  | none => exact Nat.zero_le _
  | some q => exact (h q (List.mem_of_getLast? hq)).2

namespace VexExec

def Decodes (gm : GuestMem M) (gen : GenLLVM) (s : ExecState M) (p : GuestPtr) (vsb : VSB)
    (cache : CacheState) : Prop :=
  ∃ c fp, VexJITCache.getVSB gen (hostPtr gm p) p s.cache = .ok (some vsb, c) ∧
    VexJITCache.getFPtr gen (hostPtr gm p) p c = .ok (fp, cache)

/-- The block in an executable mapping, as it is dispatched or not. -/
theorem getSBFromGuestAddr_eq {cache : CacheState} (hm : gm.lookupMapping s.mem p = some m)
    (hx : m.reqProt.exec = true) (hd : Decodes gm gen s p vsb cache) :
    getSBFromGuestAddr gm gen p s =
      if vsb.endAddr < m.endPtr then
        .ok (some vsb, { s with mem := protectedMem gm s.mem m, cache := cache })
      else .error (.assertion "code spanned known page mappings") := by
  obtain ⟨c, fp, hv, hf⟩ := hd
  have hv' : onCache (VexJITCache.getVSB gen (hostPtr gm p) p)
      { s with mem := protectedMem gm s.mem m } =
        .ok (some vsb, { s with mem := protectedMem gm s.mem m, cache := c }) := by
    rw [onCache, hv]
  have hf' : onCache (VexJITCache.getFPtr gen (hostPtr gm p) p)
      { s with mem := protectedMem gm s.mem m, cache := c } =
        .ok (fp, { s with mem := protectedMem gm s.mem m, cache := cache }) := by
    rw [onCache, hf]
  unfold getSBFromGuestAddr
  rw [get_bind, hm]
  dsimp only
  rw [if_pos hx, bind_ok (protectMapping_eq m), compileSB, bind_ok hv']
  dsimp only
  rw [bind_ok hf']
  by_cases hlt : vsb.endAddr < m.endPtr
  · rw [if_pos hlt, if_pos fun q hq => by cases hq; exact hlt]
    rfl
  · rw [if_neg hlt, if_neg fun h => hlt (h m rfl)]
    rfl

/-- The dispatcher takes the block if it lies in its mapping, and finds that it does not
if it runs past the end. -/
structure Dispatches (gm : GuestMem M) (gen : GenLLVM) (s : ExecState M) (p : GuestPtr) (m : Mapping)
    (vsb : VSB) : Prop where
  inside : vsb.Inside m → ∃ t, getSBFromGuestAddr gm gen p s = .ok (some vsb, t)
  past : m.top < vsb.top →
    getSBFromGuestAddr gm gen p s = .error (.assertion "code spanned known page mappings")

/-- It does so exactly where the last instruction does not end with the mapping, nor the
mapping with the address space, and where the block does not run round to an address
before the end. -/
theorem dispatches_iff (gm : GuestMem M) (gen : GenLLVM) (s : ExecState M) (p : GuestPtr) (m : Mapping)
    (vsb : VSB) (cache : CacheState) (hm : gm.lookupMapping s.mem p = some m)
    (hx : m.reqProt.exec = true) (hw : m.top ≤ 2 ^ 64) (hd : Decodes gm gen s p vsb cache) :
    Dispatches gm gen s p m vsb ↔ (vsb.Inside m → vsb.top ≠ m.top ∧ m.top ≠ 2 ^ 64) ∧
      (m.top < vsb.top → m.top % 2 ^ 64 ≤ vsb.top % 2 ^ 64) := by
  have hget := getSBFromGuestAddr_eq hm hx hd
  have hlt : vsb.endAddr < m.endPtr ↔ vsb.top % 2 ^ 64 < m.top % 2 ^ 64 := by
    rw [BitVec.lt_def, vsb.toNat_endAddr, m.toNat_endPtr]
  have hreturns : (∃ t, getSBFromGuestAddr gm gen p s = .ok (some vsb, t)) ↔
      vsb.top % 2 ^ 64 < m.top % 2 ^ 64 := by
    rw [hget, ← hlt]
    split
    · next h => exact iff_of_true ⟨_, rfl⟩ h
    · next h => exact iff_of_false (fun ⟨t, ht⟩ => by cases ht) h
  have hstops : getSBFromGuestAddr gm gen p s =
      .error (.assertion "code spanned known page mappings") ↔
        m.top % 2 ^ 64 ≤ vsb.top % 2 ^ 64 := by
    rw [hget, ← Nat.not_lt, ← hlt]
    split
    · next h => exact iff_of_false (fun he => by cases he) (not_not.2 h)
    · next h => exact iff_of_true rfl h
  have hedge : vsb.Inside m → (vsb.top % 2 ^ 64 < m.top % 2 ^ 64 ↔ vsb.top ≠ m.top ∧ m.top ≠ 2 ^ 64) := by
    intro hin
    have hle := hin.top_le
    rcases Nat.lt_or_eq_of_le hw with hlt | heq
    · rw [Nat.mod_eq_of_lt hlt, Nat.mod_eq_of_lt (hle.trans_lt hlt)]
      omega
    · rw [heq, Nat.mod_self]
      omega
  constructor
  · exact fun h => ⟨fun hin => (hedge hin).1 (hreturns.1 (h.inside hin)), fun hp => hstops.1 (h.past hp)⟩
  · exact fun h => ⟨fun hin => hreturns.2 ((hedge hin).2 (h.1 hin)), fun hp => hstops.2 (h.2 hp)⟩

def codeMapping (n : BitVec 64) : Mapping := ⟨0x1000, n, ⟨true, false, true⟩, ⟨true, false, true⟩⟩

/-- An executor with a block of four bytes at the start of its mapping. -/
def codeExec (n : BitVec 64) : ExecState (List Mapping) :=
  .start (.init twoBlocks fun _ => 0) [codeMapping n] 0x1000

/-- The block it is about to dispatch. -/
theorem exists_decodes (n : BitVec 64) (P : VSB → Bool)
    (h : (match VexJITCache.getVSB plainGen (hostPtr (listMem 0) 0x1000) 0x1000
      (codeExec n).cache with
      | .ok (some vsb, c) => match VexJITCache.getFPtr plainGen
        (hostPtr (listMem 0) 0x1000) 0x1000 c with
        | .ok _ => P vsb
        | .error _ => false
      | _ => false) = true) :
    ∃ vsb cache, Decodes (listMem 0) plainGen (codeExec n) 0x1000 vsb cache ∧ P vsb = true := by
  split at h
  · next vsb c hv =>
      split at h
      · next r hf => exact ⟨vsb, r.2, ⟨c, r.1, hv, hf⟩, h⟩
      · cases h
  · cases h

theorem dispatches_codeExec : ∃ vsb, vsb.Inside (codeMapping 0x1000) ∧
    Dispatches (listMem 0) plainGen (codeExec 0x1000) 0x1000 (codeMapping 0x1000) vsb := by
  obtain ⟨vsb, cache, hd, hP⟩ := exists_decodes 0x1000
    (fun x => x.top == 0x1004 && decide (x.Inside (codeMapping 0x1000))) (by decide +kernel)
  rw [Bool.and_eq_true, beq_iff_eq, decide_eq_true_eq] at hP
  refine ⟨vsb, hP.2, (dispatches_iff (listMem 0) plainGen (codeExec 0x1000) 0x1000 (codeMapping 0x1000)
    vsb cache rfl rfl (by decide) hd).2 ⟨fun _ => ?_, fun hp => ?_⟩⟩
  · rw [hP.1]
    decide
  · rw [hP.1] at hp
    exact absurd hp (by decide)

/-- A block that fills its mapping. -/
theorem not_dispatches_codeExec : ∃ vsb cache,
    (listMem 0).lookupMapping (codeExec 4).mem 0x1000 = some (codeMapping 4) ∧
      Decodes (listMem 0) plainGen (codeExec 4) 0x1000 vsb cache ∧ vsb.Inside (codeMapping 4) ∧
        ¬ Dispatches (listMem 0) plainGen (codeExec 4) 0x1000 (codeMapping 4) vsb := by
  obtain ⟨vsb, cache, hd, hP⟩ := exists_decodes 4
    (fun x => decide (¬ x.endAddr < (codeMapping 4).endPtr) && decide (x.Inside (codeMapping 4)))
    (by decide +kernel)
  rw [Bool.and_eq_true, decide_eq_true_eq, decide_eq_true_eq] at hP
  refine ⟨vsb, cache, rfl, hd, hP.2, fun h => ?_⟩
  obtain ⟨t, ht⟩ := h.inside hP.2
  rw [getSBFromGuestAddr_eq (m := codeMapping 4) rfl rfl hd, if_neg hP.1] at ht
  cases ht

end VexExec

end VexLLVM
