import VexLLVM.Emit.PatchBadDecode
import VexLLVM.Emit.VexSB

/-!
# Translation

`VexXlate::xlate`, on the block the decoder handed to `vex_finaltidy`. An object
whose construction ended the process is found by a search through the tree of
the superblock object.
-/

namespace VexLLVM

open LLVM Vex

/-- What constructing the object ended the process with, if it did. -/
def VexExpr.aborts : VexExpr → Option EmitError
  | abort e => some e
  | stub n args => (List.finRange n).findSome? fun i => (args i).aborts
  | getI _ _ _ ix _ => ix.aborts
  | nary op args => (List.finRange op.tagop).findSome? fun i => (args i).aborts
  | load _ addr => addr.aborts
  | ccall _ _ n args => (List.finRange n).findSome? fun i => (args i).aborts
  | mux0X cond expr0 exprX => cond.aborts.or (expr0.aborts.or exprX.aborts)
  | null | get _ _ | rdTmp _ | const _ | gsptr => none

def VexStmt.exprs : VexStmt → List VexExpr
  | abort e => [.abort e]
  | noOp | imark _ _ | abiHint | mbe => []
  | put _ data => [data]
  | putI _ _ ix _ data => [ix, data]
  | wrTmp _ data => [data]
  | store addr data => [addr, data]
  | llsc _ addr data => addr :: data.toList
  | cas _ _ addr expectedHi expected new newHi =>
      addr :: (expectedHi.toList ++ expected :: new :: newHi.toList)
  | dirty _ _ guard _ args => guard :: args
  | exit guard _ _ _ => [guard]
  | storeG addr data guard => [addr, data, guard]
  | loadG _ _ addr alt guard => [addr, alt, guard]

def VexSB.exprs (sb : VexSB) : List VexExpr := sb.stmts.flatMap VexStmt.exprs ++ [sb.jumpExpr]

namespace VexXlate

def unhandled (irsb : IRSB) : ℕ :=
  (irsb.stmts.map VexStmt.unhandled).sum + VexExpr.unhandled irsb.next

/-- `VexXlate::xlate`, from the moment the decoder is left. The size of the block
is asked for before the counters are compared. -/
def xlate (gen : GenLLVM) (guestAddr : BitVec 64) (irsb : IRSB) : Except EmitError (Option VexSB) :=
  match VexSB.create gen guestAddr irsb with
  | none => .ok none
  | some sb =>
      match sb.exprs.findSome? VexExpr.aborts, VexSB.lastImark sb.stmts with
      | some e, _ => .error e
      | none, none => .error (.assertion "last_imark != NULL")
      | none, some _ => .ok (if unhandled irsb = 0 then some sb else none)

theorem xlate_eq_some {gen : GenLLVM} {a : BitVec 64} {irsb : IRSB} {sb : VexSB}
    (h : xlate gen a irsb = .ok (some sb)) : sb = .ofIRSB gen a irsb := by
  unfold xlate VexSB.create at h
  by_cases hn : irsb.jumpkind = .NoDecode
  · simp [hn] at h
  · simp only [hn, if_false] at h
    split at h <;> simp at h
    exact h.2.symm

theorem xlate_guestAddr {gen : GenLLVM} {a : BitVec 64} {irsb : IRSB} {sb : VexSB}
    (h : xlate gen a irsb = .ok (some sb)) : sb.guestAddr = a := by
  rw [xlate_eq_some h, VexSB.ofIRSB]

/-! ## Blocks that do not decode -/

/-- What the library makes of the code, at each depth of the recursion, up to the point
where the decoder is left; nothing where it cannot read the code. -/
abbrev FrontEnd := ℕ → CodeBytes → Option IRSB

def insts (sb : VexSB) : List (ℕ × ℕ) :=
  sb.stmts.filterMap fun
    | .imark a n => some ((a - sb.guestAddr).toNat, n)
    | _ => none

/-- The decoder gives up on the code where no object is made of its block. -/
def decoder (fe : FrontEnd) (gen : GenLLVM) (a : BitVec 64) : Decoder := fun depth gb =>
  match fe depth gb with
  | none => .accessFail
  | some irsb =>
      match VexSB.create gen a irsb with
      | none => .noDecode
      | some sb => .block (insts sb) (unhandled irsb = 0)

section Decoder

variable {fe : FrontEnd} {gen : GenLLVM} {a : BitVec 64} {arch : VexArch} {gb : CodeBytes}
  {depth fuel k : ℕ} {irsb : IRSB} {r : Option VexSB} {sb : VexSB} {is : List (ℕ × ℕ)}
  {g : ℕ → BitVec 8} {t : Translation}

/-- What is translated, and what is not, where the process goes on. -/
theorem xlate_eq_ok (hx : xlate gen a irsb = .ok r) :
    r = (VexSB.create gen a irsb).filter fun _ => unhandled irsb = 0 := by
  unfold xlate at hx
  split at hx
  · next h =>
      cases hx
      rw [h]
      rfl
  · next h =>
      split at hx <;> cases hx
      rw [h, Option.filter_some]
      simp

theorem decoder_noDecode_iff : decoder fe gen a depth gb = .noDecode ↔
    ∃ irsb, fe depth gb = some irsb ∧ irsb.jumpkind = .NoDecode := by
  unfold decoder
  cases hf : fe depth gb with
  | none => simp
  | some irsb =>
      unfold VexSB.create
      by_cases hn : irsb.jumpkind = .NoDecode <;> simp [hn]

/-- The blocks of the decoder are those that are translated. -/
theorem decoder_block_iff (hc : ∀ irsb, fe depth gb = some irsb → ∃ r, xlate gen a irsb = .ok r) :
    decoder fe gen a depth gb = .block is true ↔
      ∃ irsb sb, fe depth gb = some irsb ∧ xlate gen a irsb = .ok (some sb) ∧ insts sb = is := by
  unfold decoder
  cases hf : fe depth gb with
  | none => simp
  | some irsb =>
      obtain ⟨r, hx⟩ := hc irsb hf
      have hr := xlate_eq_ok hx
      cases hs : VexSB.create gen a irsb with
      | none =>
          rw [hs] at hr
          cases hr
          simp [hs, hx]
      | some sb =>
          rw [hs, Option.filter_some] at hr
          by_cases hu : unhandled irsb = 0 <;> simp [hu] at hr <;> simp [hs, hx, hr, hu]

/-- Away from the code that is patched, one call of the recursion is `xlate`. -/
theorem xlateBytes_of_xlate (hf : fe depth gb = some irsb) (hx : xlate gen a irsb = .ok r)
    (hd : irsb.jumpkind = .NoDecode → arch ≠ .X86) :
    xlateBytes arch (decoder fe gen a) (fuel + 1) depth gb =
      .ok (r.map fun sb => ⟨gb, insts sb⟩) := by
  have hr := xlate_eq_ok hx
  have hdec : decoder fe gen a depth gb = match VexSB.create gen a irsb with
      | none => .noDecode
      | some sb => .block (insts sb) (unhandled irsb = 0) := by
    rw [decoder, hf]
  rw [xlateBytes, hdec]
  cases hs : VexSB.create gen a irsb with
  | none =>
      have hn : irsb.jumpkind = .NoDecode := by
        unfold VexSB.create at hs
        by_contra hn
        rw [if_neg hn] at hs
        cases hs
      rw [hs] at hr
      cases hr
      exact if_neg (hd hn)
  | some sb =>
      rw [hs, Option.filter_some] at hr
      by_cases hu : unhandled irsb = 0 <;> simp [hu] at hr <;> simp [hr, hu]

/-- The code of an X86 guest is translated to what `xlate` makes of the first block that
decodes, of the blocks of the code with its pairs patched one after another. -/
theorem xlateBytes_guestCode_iff
    (hc : ∀ k irsb, fe k (codeAt g k) = some irsb → ∃ r, xlate gen a irsb = .ok r) :
    (∃ fuel, xlateBytes .X86 (decoder fe gen a) fuel 0 (guestCode g) = .ok (some t)) ↔
      ∃ k ≤ innerPairs g, (∀ l < k, ∃ irsb, fe l (codeAt g l) = some irsb ∧ irsb.jumpkind = .NoDecode) ∧
        ∃ irsb sb, fe k (codeAt g k) = some irsb ∧ xlate gen a irsb = .ok (some sb) ∧
          t = ⟨codeAt g k, insts sb⟩ := by
  constructor
  · rintro ⟨fuel, h⟩
    obtain ⟨k, is, -, hk, hbefore, hblock, rfl⟩ := accepted_of_xlateBytes (Nat.zero_le _) h
    obtain ⟨irsb, sb, hf, hx, rfl⟩ := (decoder_block_iff (hc k)).1 hblock
    exact ⟨k, hk, fun l hl => decoder_noDecode_iff.1 (hbefore l (Nat.zero_le l) hl), irsb, sb, hf, hx, rfl⟩
  · rintro ⟨k, hk, hbefore, irsb, sb, hf, hx, rfl⟩
    refine ⟨1 + k, ?_⟩
    have hnoDecode : ∀ l < k, decoder fe gen a (0 + l) (codeAt g (0 + l)) = .noDecode := fun l hl => by
      rw [Nat.zero_add]
      exact decoder_noDecode_iff.2 (hbefore l hl)
    have hadd := xlateBytes_add 1 (by omega : 0 + k ≤ innerPairs g) hnoDecode
    rw [Nat.zero_add] at hadd
    have hblock := (decoder_block_iff (hc k)).2 ⟨irsb, sb, hf, hx, rfl⟩
    exact hadd.trans (by rw [xlateBytes, hblock]; rfl)

end Decoder

end VexXlate

end VexLLVM
