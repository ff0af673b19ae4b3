import VexLLVM.Emit.Access

/-!
# Compare-and-swap

What `VexStmtCAS` does to memory. The old words are loaded and handed back. The stores
are made where the comparisons of the low and of the high word have the same result,
and both of them store the low data.
-/

namespace VexLLVM

open LLVM LLVM.Code Vex StateExcept VexStmt

variable {k : ℕ} {mem : BitVec 64 → LLVM.Byte} {p q : BitVec 64}

/-! ## Words -/

def wordAt (mem : BitVec 64 → LLVM.Byte) (p : BitVec 64) (k : ℕ) : BitVec (8 * k) :=
  BitVec.ofNat (8 * k) (readBytes mem p k)

def setWord (mem : BitVec 64 → LLVM.Byte) (p : BitVec 64) (v : BitVec (8 * k)) : BitVec 64 → LLVM.Byte :=
  writeBytes mem p k v.toNat

theorem toNat_wordAt (mem : BitVec 64 → LLVM.Byte) (p : BitVec 64) (k : ℕ) :
    (wordAt mem p k).toNat = readBytes mem p k := by
  rw [wordAt, BitVec.toNat_ofNat, Nat.mod_eq_of_lt (readBytes_lt mem p k)]

theorem wordAt_setWord (mem : BitVec 64 → LLVM.Byte) (p : BitVec 64) (v : BitVec (8 * k))
    (hk : k ≤ 2 ^ 64) :
    wordAt (setWord mem p v) p k = v := by
  apply BitVec.eq_of_toNat_eq
  rw [toNat_wordAt, setWord, readBytes_writeBytes hk, Nat.mod_eq_of_lt v.isLt]

theorem setWord_wordAt : setWord mem p (wordAt mem p k) = mem := by
  rw [setWord, toNat_wordAt, writeBytes_readBytes]

def Apart (k : ℕ) (p q : BitVec 64) : Prop := ∀ i < k, k ≤ (p + BitVec.ofNat 64 i - q).toNat

theorem Apart.wordAt_setWord (h : Apart k p q) (mem : BitVec 64 → LLVM.Byte) (v : BitVec (8 * k)) :
    wordAt (setWord mem q v) p k = wordAt mem p k := by
  unfold wordAt setWord
  rw [readBytes_writeBytes_of_le h]

theorem setWord_left_injective {v w : BitVec (8 * k)} (hk : k ≤ 2 ^ 64) :
    setWord mem p v = setWord mem p w ↔ v = w := by
  constructor
  · intro h
    rw [← wordAt_setWord mem p v hk, h, wordAt_setWord mem p w hk]
  · exact fun h => congrArg _ h

/-- Two words that are stored are what was there. -/
theorem setWord_setWord_eq_self_iff {v : BitVec (8 * k)} (hk : k ≤ 2 ^ 64) (h : Apart k p q) :
    setWord (setWord mem p v) q v = mem ↔ wordAt mem p k = v ∧ wordAt mem q k = v := by
  constructor
  · intro he
    have hq := wordAt_setWord (setWord mem p v) q v hk
    have hp := h.wordAt_setWord (setWord mem p v) v
    rw [he] at hp hq
    rw [VexLLVM.wordAt_setWord mem p v hk] at hp
    exact ⟨hp, hq⟩
  · rintro ⟨hp, hq⟩
    have h₁ : setWord mem p v = mem := by rw [← hp, setWord_wordAt]
    rw [h₁, ← hq, setWord_wordAt]

def GenLLVM.above (gen : GenLLVM) (a : BitVec gen.addrBits) (k : ℕ) : BitVec gen.addrBits :=
  a + BitVec.ofNat gen.addrBits k

theorem apart_above (gen : GenLLVM) (a : BitVec gen.addrBits) (hk : k ≤ 8) :
    Apart k (gen.hostAt a.toNat) (gen.hostAt (gen.above a k).toNat) := by
  intro i hi
  have hA : gen.addrBits = 32 ∨ gen.addrBits = 64 := by
    unfold GenLLVM.addrBits
    split
    · exact .inl rfl
    · exact .inr rfl
  have hlt := a.isLt
  have hsum : (gen.above a k).toNat = (a.toNat + k % 2 ^ gen.addrBits) % 2 ^ gen.addrBits := by
    rw [GenLLVM.above, BitVec.toNat_add, BitVec.toNat_ofNat]
  rw [hsum]
  generalize a.toNat = n at hlt ⊢
  unfold GenLLVM.hostAt
  generalize (if gen.relocates then gen.base else 0) = base
  have hsub : ∀ m : ℕ, BitVec.ofNat 64 n + base + BitVec.ofNat 64 i - (BitVec.ofNat 64 m + base) =
      BitVec.ofNat 64 n + BitVec.ofNat 64 i - BitVec.ofNat 64 m := fun m => by
    rw [add_right_comm, add_sub_add_right_eq_sub]
  rw [hsub, BitVec.toNat_sub, BitVec.toNat_add, BitVec.toNat_ofNat, BitVec.toNat_ofNat,
    BitVec.toNat_ofNat]
  rcases hA with hA | hA
  · rw [hA] at hlt ⊢
    omega
  · rw [hA] at hlt ⊢
    omega

/-! ## The statement -/

/-- One word of the statement: the temporary for the old word, and the expressions. -/
structure CASWord where
  old : IRTemp
  expd : VexExpr
  data : VexExpr

structure CASValue (k : ℕ) where
  expd : BitVec (8 * k)
  data : BitVec (8 * k)

def CASWord.Reads (w : CASWord) (gen : GenLLVM) (ρ : IRTemp → Option (Ty × ℕ)) (v : CASValue k) : Prop :=
  Operand gen ρ w.expd (.int (8 * k)) (.bits v.expd.toNat) ∧
    Operand gen ρ w.data (.int (8 * k)) (.bits v.data.toNat)

/-- The statement with a low word, and a high word where it is double. -/
def casStmt (addr : VexExpr) (lo : CASWord) (hi : Option CASWord) : VexStmt :=
  .cas (hi.map CASWord.old) lo.old addr (hi.map CASWord.expd) lo.expd lo.data (hi.map CASWord.data)

/-- What the emitted code compares. -/
def casTaken (mem : BitVec 64 → LLVM.Byte) (p q : BitVec 64) (lo : CASValue k) : Option (CASValue k) → Bool
  | none => lo.expd == wordAt mem p k
  | some hi => (lo.expd == wordAt mem p k) == (hi.expd == wordAt mem q k)

def casStored (mem : BitVec 64 → LLVM.Byte) (p q : BitVec 64) (lo : CASValue k) :
    Option (CASValue k) → BitVec 64 → LLVM.Byte
  | none => setWord mem p lo.data
  | some _ => setWord (setWord mem p lo.data) q lo.data

def casTemps (ρ : IRTemp → Option (Ty × ℕ)) (mem : BitVec 64 → LLVM.Byte) (p q : BitVec 64) (k : ℕ)
    (lo : CASWord) : Option CASWord → IRTemp → Option (Ty × ℕ)
  | none => Function.update ρ lo.old (some (.int (8 * k), (wordAt mem p k).toNat))
  | some hi => Function.update (Function.update ρ lo.old (some (.int (8 * k), (wordAt mem p k).toNat)))
      hi.old (some (.int (8 * k), (wordAt mem q k).toNat))

section Runs

variable {total : Bool} {ext : Extern} {R : Frame → RVal → Prop} {ρ : IRTemp → Option (Ty × ℕ)}
  {L : List (Value × RVal)} {M : Machine} {gen : GenLLVM} {types : List IRType}

theorem eval_eq (w : ℕ) (x y : BitVec w) : IPred.eq.eval w x.toNat y.toNat = (x == y) := by
  rw [IPred.eval, BitVec.ofNat_toNat, BitVec.ofNat_toNat, BitVec.setWidth_eq, BitVec.setWidth_eq]

theorem eval_eq_one (b c : Bool) : IPred.eq.eval 1 b.toNat c.toNat = (b == c) := by
  cases b <;> cases c <;> rfl

/-- The data is stored at an address. -/
theorem runs_casStore {e : VexExpr} {a : Value} {x : ℕ} {d : BitVec (8 * k)}
    (he : Operand gen ρ e (.int (8 * k)) (.bits d.toNat)) (hty : a.ty = .int gen.addrBits)
    (ha : (a, .bits x) ∈ L) :
    Runs total ext (Stands ρ L M)
      (do
        let n ← e.emit gen
        gen.store a n)
      (fun _ => Stands ρ L (gen.storeTo M x k d.toNat)) R := by
  refine (he total ext L M R).got fun n hn => ?_
  have hbytes : n.ty.bytes = k := by
    rw [hn, Ty.bytes, Ty.bits_int, Nat.mul_div_cancel_left _ (by decide)]
  have h : Runs total ext (Stands ρ ((n, .bits d.toNat) :: L) M) (gen.store a n)
      (fun _ => Stands ρ ((n, .bits d.toNat) :: L) (gen.storeTo M x n.ty.bytes d.toNat)) R :=
    runs_store hty (List.mem_cons_of_mem _ ha) (List.mem_cons_self ..)
  rw [hbytes] at h
  exact h.post fun _ _ _ h => h.drop

/-- The temporaries are set once the blocks are left. -/
theorem runs_casTemps {lo hi : IRTemp} {l h : Value} {t : Ty} {x y : ℕ} (hl : (l, .bits x) ∈ L)
    (hlt : l.ty = t) (hh : (h, .bits y) ∈ L) (hht : h.ty = t) :
    Runs total ext (Stands ρ L M)
      (do
        setRegValue lo l
        setRegValue hi h)
      (fun _ => Stands (Function.update (Function.update ρ lo (some (t, x))) hi (some (t, y)))
        L M) R :=
  (runs_setRegValue_stands lo hlt hl).bind fun _ => runs_setRegValue_stands hi hht hh

variable {oldLo : IRTemp} {new : VexExpr} {a e l : Value} {x : ℕ} {lo hi : CASValue k}

/-- A block that leaves another machine. -/
theorem runs_ifThen_machine {cond : EmitM Value} {body : EmitM Unit} [Builds cond] [Builds body]
    {M' : Machine} {c : ℕ} {t : Ty} (hc : Runs total ext (Stands ρ L M) cond
      (Got ρ L M t (.bits c)) R)
    (hb : Runs total ext (Stands ρ L M) body (fun _ => Stands ρ L M') R) :
    Runs total ext (Stands ρ L M) (ifThen cond body)
      (fun _ => Stands ρ L (if c = 0 then M else M')) R :=
  runs_ifThen_stands (kept_stands ρ L _) hc (fun h σ fr hs => by rw [if_pos h]; exact hs)
    fun h => by rw [if_neg h]; exact hb

/-- One word is compared and stored. -/
theorem runs_swap_single (hnew : Operand gen ρ new (.int (8 * k)) (.bits lo.data.toNat))
    (hat : a.ty = .int gen.addrBits) (ha : (a, .bits x) ∈ L) (het : e.ty = .int (8 * k))
    (he : (e, .bits lo.expd.toNat) ∈ L) (hlt : l.ty = .int (8 * k))
    (hl : (l, .bits (wordAt M.mem p k).toNat) ∈ L) :
    Runs total ext (Stands ρ L M) (emitCASSwap gen none oldLo new a e l none)
      (fun _ => Stands (Function.update ρ oldLo (some (.int (8 * k), (wordAt M.mem p k).toNat))) L
        (if (lo.expd == wordAt M.mem p k).toNat = 0 then M
          else gen.storeTo M x k lo.data.toNat)) R := by
  have hcond : Runs total ext (Stands ρ L M) (code (createICmp .eq e l >>= fun cmp => pure cmp))
      (Got ρ L M (.int 1) (.bits (lo.expd == wordAt M.mem p k).toNat)) R := by
    refine runs_code_got fun ev hev => ?_
    have h := computes_icmp (ε := EmitError) (m := M) .eq (hev.num het he) (hev.num hlt hl)
    rw [eval_eq] at h
    exact h.then fun c hc => hc
  have hbody : Runs total ext (Stands ρ L M)
      (new.emit gen >>= fun n => gen.store a n >>= fun _ => pure ())
      (fun _ => Stands ρ L (gen.storeTo M x k lo.data.toNat)) R := by
    rw [← bind_assoc]
    exact (runs_casStore hnew hat ha).bind fun _ => runs_done
  unfold emitCASSwap
  refine (runs_ifThen_machine hcond hbody).bind fun _ => ?_
  exact (runs_setRegValue_stands oldLo hlt hl).bind fun _ => runs_done

/-- Two words are compared, and the data of the low word is stored in both. -/
theorem runs_swap_double (hi : CASValue k) {oldHi : IRTemp} {eh ah lh : Value} {y : ℕ}
    (hnew : Operand gen ρ new (.int (8 * k)) (.bits lo.data.toNat))
    (hat : a.ty = .int gen.addrBits) (ha : (a, .bits x) ∈ L) (het : e.ty = .int (8 * k))
    (he : (e, .bits lo.expd.toNat) ∈ L) (hlt : l.ty = .int (8 * k))
    (hl : (l, .bits (wordAt M.mem p k).toNat) ∈ L)
    (haht : ah.ty = .int gen.addrBits) (hah : (ah, .bits y) ∈ L) (heht : eh.ty = .int (8 * k))
    (heh : (eh, .bits hi.expd.toNat) ∈ L) (hlht : lh.ty = .int (8 * k))
    (hlh : (lh, .bits (wordAt M.mem q k).toNat) ∈ L) :
    Runs total ext (Stands ρ L M) (emitCASSwap gen (some oldHi) oldLo new a e l (some (eh, ah, lh)))
      (fun _ => Stands (Function.update
          (Function.update ρ oldLo (some (.int (8 * k), (wordAt M.mem p k).toNat)))
          oldHi (some (.int (8 * k), (wordAt M.mem q k).toNat))) L
        (if ((lo.expd == wordAt M.mem p k) == (hi.expd == wordAt M.mem q k)).toNat = 0 then M
        else gen.storeTo (gen.storeTo M x k lo.data.toNat) y k lo.data.toNat)) R := by
  have hcond : Runs total ext (Stands ρ L M)
      (code (createICmp .eq e l >>= fun cmp => createICmp .eq eh lh >>= fun c =>
        createICmp .eq cmp c))
      (Got ρ L M (.int 1)
        (.bits ((lo.expd == wordAt M.mem p k) == (hi.expd == wordAt M.mem q k)).toNat)) R := by
    refine runs_code_got fun ev hev => ?_
    have h₁ := computes_icmp (ε := EmitError) (m := M) .eq (hev.num het he) (hev.num hlt hl)
    have h₂ := computes_icmp (ε := EmitError) (m := M) .eq (hev.num heht heh) (hev.num hlht hlh)
    rw [eval_eq] at h₁ h₂
    refine h₁.then fun c hc => h₂.then fun d hd => ?_
    have h₃ := computes_icmp (ε := EmitError) (m := M) .eq hc hd
    rwa [eval_eq_one] at h₃
  have hbody : Runs total ext (Stands ρ L M)
      (new.emit gen >>= fun n => gen.store a n >>= fun _ => new.emit gen >>= fun n =>
        gen.store ah n)
      (fun _ => Stands ρ L
        (gen.storeTo (gen.storeTo M x k lo.data.toNat) y k lo.data.toNat)) R := by
    rw [← bind_assoc]
    exact (runs_casStore hnew hat ha).bind fun _ => runs_casStore hnew haht hah
  unfold emitCASSwap
  refine (runs_ifThen_machine hcond hbody).bind fun _ => ?_
  exact runs_casTemps hl hlt hlh hlht

/-- The word at an address is loaded. -/
theorem runs_load_word {t : Ty} (hk : 0 < k) (hk' : k ≤ 8) (ht : t = .int (8 * k))
    (hat : a.ty = .int gen.addrBits) (ha : (a, .bits x) ∈ L) (hc : gen.Copies M.mem) :
    Runs total ext (Stands ρ L M) (gen.load a t)
      (Got ρ L M (.int (8 * k)) (.bits (wordAt M.mem (gen.hostAt x) k).toNat)) R := by
  rw [toNat_wordAt, ht]
  exact runs_load rfl hk hk' hat ha hc

/-- The address of the high word is computed. -/
theorem runs_above {adr : BitVec gen.addrBits} (hat : a.ty = .int gen.addrBits)
    (ha : (a, .bits adr.toNat) ∈ L) :
    Runs total ext (Stands ρ L M) (code (createBin .add a
      (constInt a.ty.bits ((Ty.int (8 * k)).bits / 8))))
      (Got ρ L M (.int gen.addrBits) (.bits (gen.above adr k).toNat)) R := by
  refine runs_code_got fun ev hev => ?_
  rw [hat, Ty.bits_int, Ty.bits_int, Nat.mul_div_cancel_left _ (by decide)]
  refine computes_bin (hev.num hat ha) ⟨rfl, hev.consts _ _⟩ ?_
  simp [BinOp.eval, GenLLVM.above]

structure CASDone (gen : GenLLVM) (M M' : Machine) (adr : BitVec gen.addrBits) (lo : CASValue k)
    (hi : Option (CASValue k)) : Prop where
  ctx : M'.ctx = M.ctx
  mem : M'.mem =
    if casTaken M.mem (gen.hostAt adr.toNat) (gen.hostAt (gen.above adr k).toNat) lo hi then
      casStored M.mem (gen.hostAt adr.toNat) (gen.hostAt (gen.above adr k).toNat) lo hi
    else M.mem

theorem CASDone.of_taken {adr : BitVec gen.addrBits} {hi : Option (CASValue k)} {M' : Machine}
    {b : Bool}
    (hb : casTaken M.mem (gen.hostAt adr.toNat) (gen.hostAt (gen.above adr k).toNat) lo hi = b)
    (hctx : M'.ctx = M.ctx)
    (hmem : M'.mem =
      casStored M.mem (gen.hostAt adr.toNat) (gen.hostAt (gen.above adr k).toNat) lo hi) :
    CASDone gen M (if b.toNat = 0 then M else M') adr lo hi := by
  cases b with
  | true => exact ⟨hctx, by rw [hb, if_pos rfl]; exact hmem⟩
  | false => exact ⟨rfl, by rw [hb]; rfl⟩

variable {adr : BitVec gen.addrBits} {addr : VexExpr} {wlo whi : CASWord}

theorem runs_cas_single (hk : 0 < k) (hk' : k ≤ 8) (hc : gen.Copies M.mem)
    (hadr : Operand gen ρ addr (.int gen.addrBits) (.bits adr.toNat)) (hlo : wlo.Reads gen ρ lo) :
    Runs total ext (Stands ρ [] M) ((casStmt addr wlo none).emit gen types)
      (fun _ σ fr => ∃ M', CASDone gen M M' adr lo none ∧
        Stands (casTemps ρ M.mem (gen.hostAt adr.toNat) (gen.hostAt (gen.above adr k).toNat)
          k wlo none)
          [] M' σ fr) R := by
  change Runs total ext _ (emitCAS gen none wlo.old addr none wlo.expd wlo.data) _ R
  rw [emitCAS_none]
  refine (hadr total ext [] M R).got fun a hat => ?_
  refine (hlo.1 total ext _ M R).got fun e het => ?_
  have ha : (a, RVal.bits adr.toNat) ∈ [(e, .bits lo.expd.toNat), (a, .bits adr.toNat)] := by simp
  refine (runs_load_word hk hk' het hat ha hc).got fun l hlt => ?_
  refine (runs_swap_single hlo.2 hat (List.mem_cons_of_mem _ ha) het (by simp) hlt
    (List.mem_cons_self ..)).post fun _ σ fr h => ?_
  refine ⟨_, ?_, h.sub (List.nil_subset _)⟩
  exact .of_taken rfl rfl rfl

theorem runs_cas_double (hk : 0 < k) (hk' : k ≤ 8) (hc : gen.Copies M.mem)
    (hadr : Operand gen ρ addr (.int gen.addrBits) (.bits adr.toNat)) (hlo : wlo.Reads gen ρ lo)
    (hhi : whi.Reads gen ρ hi) :
    Runs total ext (Stands ρ [] M) ((casStmt addr wlo (some whi)).emit gen types)
      (fun _ σ fr => ∃ M', CASDone gen M M' adr lo (some hi) ∧
        Stands (casTemps ρ M.mem (gen.hostAt adr.toNat) (gen.hostAt (gen.above adr k).toNat)
          k wlo (some whi))
          [] M' σ fr) R := by
  change Runs total ext _ (emitCAS gen (some whi.old) wlo.old addr
    (some whi.expd) wlo.expd wlo.data) _ R
  rw [emitCAS_some]
  refine (hadr total ext [] M R).got fun a hat => ?_
  refine (hlo.1 total ext _ M R).got fun e het => ?_
  have ha : (a, RVal.bits adr.toNat) ∈ [(e, .bits lo.expd.toNat), (a, .bits adr.toNat)] := by simp
  refine (runs_load_word hk hk' het hat ha hc).got fun l hlt => ?_
  unfold emitCASHi
  rw [het]
  simp only [bind_assoc, pure_bind]
  refine (hhi.1 total ext _ M R).got fun eh heht => ?_
  refine (runs_above hat (List.mem_cons_of_mem _ (List.mem_cons_of_mem _ ha))).got fun ah haht => ?_
  refine (runs_load_word hk hk' rfl haht (List.mem_cons_self ..) hc).got fun lh hlht => ?_
  refine (runs_swap_double hi (x := adr.toNat) (y := (gen.above adr k).toNat)
    (p := gen.hostAt adr.toNat)
    (q := gen.hostAt (gen.above adr k).toNat) hlo.2 hat (by simp) het (by simp) hlt (by simp) haht
    (by simp) heht (by simp) hlht (by simp)).post fun _ σ fr h => ?_
  refine ⟨_, ?_, h.sub (List.nil_subset _)⟩
  exact .of_taken rfl rfl rfl

/-- The statement at run time, single or double. -/
theorem runs_casStmt (hk : 0 < k) (hk' : k ≤ 8) (hc : gen.Copies M.mem)
    (hadr : Operand gen ρ addr (.int gen.addrBits) (.bits adr.toNat)) (hlo : wlo.Reads gen ρ lo)
    {whi : Option CASWord} {hi : Option (CASValue k)}
    (hhi : Option.Rel (fun w v => w.Reads gen ρ v) whi hi) :
    Runs total ext (Stands ρ [] M) ((casStmt addr wlo whi).emit gen types)
      (fun _ σ fr => ∃ M', CASDone gen M M' adr lo hi ∧
        Stands (casTemps ρ M.mem (gen.hostAt adr.toNat) (gen.hostAt (gen.above adr k).toNat)
          k wlo whi)
          [] M' σ fr) R := by
  cases hhi with
  | none => exact runs_cas_single hk hk' hc hadr hlo
  | some h => exact runs_cas_double hk hk' hc hadr hlo h

end Runs

/-! ## Compare-and-swap -/

def casMem (mem : BitVec 64 → LLVM.Byte) (p q : BitVec 64) (lo : CASValue k) :
    Option (CASValue k) → BitVec 64 → LLVM.Byte
  | none => if wordAt mem p k = lo.expd then setWord mem p lo.data else mem
  | some hi =>
      if wordAt mem p k = lo.expd ∧ wordAt mem q k = hi.expd then
        setWord (setWord mem p lo.data) q hi.data
      else mem

/-- A double one that matches has the same data for both words, and one where neither word
matches stores what is there already. -/
def CASFine (mem : BitVec 64 → LLVM.Byte) (p q : BitVec 64) (lo : CASValue k) :
    Option (CASValue k) → Prop
  | none => True
  | some hi =>
      (wordAt mem p k = lo.expd → wordAt mem q k = hi.expd → hi.data = lo.data) ∧
        (wordAt mem p k ≠ lo.expd → wordAt mem q k ≠ hi.expd →
          wordAt mem p k = lo.data ∧ wordAt mem q k = lo.data)

theorem casTaken_none {lo : CASValue k} :
    casTaken mem p q lo none = true ↔ wordAt mem p k = lo.expd := by
  rw [casTaken, beq_iff_eq, eq_comm]

theorem casTaken_some {lo hi : CASValue k} : casTaken mem p q lo (some hi) = true ↔
    (wordAt mem p k = lo.expd ↔ wordAt mem q k = hi.expd) := by
  rw [casTaken, beq_iff_eq, Bool.eq_iff_iff, beq_iff_eq, beq_iff_eq, eq_comm,
    eq_comm (a := hi.expd)]

theorem casStored_eq_casMem_iff {lo : CASValue k} {hi : Option (CASValue k)} (hk : k ≤ 2 ^ 64)
    (h : Apart k p q) :
    (if casTaken mem p q lo hi then casStored mem p q lo hi else mem) = casMem mem p q lo hi ↔
      CASFine mem p q lo hi := by
  cases hi with
  | none => exact iff_of_true (if_congr casTaken_none rfl rfl) trivial
  | some hi =>
      have htaken : casTaken mem p q lo (some hi) = true ↔ _ := casTaken_some
      rw [casMem, CASFine]
      by_cases hp : wordAt mem p k = lo.expd <;> by_cases hq : wordAt mem q k = hi.expd
      · -- both words match
        rw [if_pos (htaken.2 (iff_of_true hp hq)), if_pos ⟨hp, hq⟩, casStored,
          setWord_left_injective hk]
        exact ⟨fun he => ⟨fun _ _ => he.symm, fun hne => absurd hp hne⟩,
          fun hf => (hf.1 hp hq).symm⟩
      · rw [if_neg fun ht => hq ((htaken.1 ht).1 hp), if_neg fun ha => hq ha.2]
        exact iff_of_true rfl ⟨fun _ h => absurd h hq, fun hne => absurd hp hne⟩
      · rw [if_neg fun ht => hp ((htaken.1 ht).2 hq), if_neg fun ha => hp ha.1]
        exact iff_of_true rfl ⟨fun h => absurd h hp, fun _ hne => absurd hq hne⟩
      · -- neither does, and the comparisons are equal
        rw [if_pos (htaken.2 (iff_of_false hp hq)), if_neg fun ha => hp ha.1, casStored,
          setWord_setWord_eq_self_iff hk h]
        exact ⟨fun he => ⟨fun h => absurd h hp, fun _ _ => he⟩, fun hf => hf.2 hp hq⟩

section Statement

variable {gen : GenLLVM} {types : List IRType} {ρ : IRTemp → Option (Ty × ℕ)} {M : Machine}
  {addr : VexExpr} {adr : BitVec gen.addrBits} {wlo : CASWord} {lo : CASValue k} {whi : Option CASWord}
  {hi : Option (CASValue k)} {σ σ' : GenState} {G : Func} {fr : Frame}

theorem casStmt_arrives (ext : Extern) (hk : 0 < k) (hk' : k ≤ 8) (hc : gen.Copies M.mem)
    (hadr : Operand gen ρ addr (.int gen.addrBits) (.bits adr.toNat)) (hlo : wlo.Reads gen ρ lo)
    (hhi : Option.Rel (fun w v => w.Reads gen ρ v) whi hi) (hok : σ.toBuilder.OK)
    (hem : (casStmt addr wlo whi).emit gen types σ = .ok ((), σ')) (hG : Builder.Extends σ'.func G)
    (hat : fr.At σ.toBuilder) (hs : Stands ρ [] M σ fr) :
    ∃ fr' M', G.Reach ext fr fr' ∧ fr'.At σ'.toBuilder ∧
      Stands (casTemps ρ M.mem (gen.hostAt adr.toNat) (gen.hostAt (gen.above adr k).toNat)
        k wlo whi)
        [] M' σ' fr' ∧ CASDone gen M M' adr lo hi := by
  have hrun : Runs true ext (Stands ρ [] M) ((casStmt addr wlo whi).emit gen types) _
    fun _ _ => False :=
    runs_casStmt hk hk' hc hadr hlo hhi
  rcases hrun σ () σ' G fr hem hok hG (.inl rfl) hat hs with
    ⟨fr', hr, hat', -, M', hd, hs'⟩ | ⟨_, _, _, _, h⟩
  · exact ⟨fr', M', hr, hat', hs', hd⟩
  · exact h.elim

/-- The emitted statement comes to its end with the old words in their temporaries. Memory
is that of a compare-and-swap exactly if the statement is single, the words do not match
each on its own, or the stores make no difference. -/
theorem casStmt_correct_iff (ext : Extern) (hk : 0 < k) (hk' : k ≤ 8) (hc : gen.Copies M.mem)
    (hadr : Operand gen ρ addr (.int gen.addrBits) (.bits adr.toNat)) (hlo : wlo.Reads gen ρ lo)
    (hhi : Option.Rel (fun w v => w.Reads gen ρ v) whi hi) (hok : σ.toBuilder.OK)
    (hem : (casStmt addr wlo whi).emit gen types σ = .ok ((), σ')) (hG : Builder.Extends σ'.func G)
    (hat : fr.At σ.toBuilder) (hs : Stands ρ [] M σ fr) :
    ∃ fr' M', G.Reach ext fr fr' ∧ fr'.At σ'.toBuilder ∧
      Stands (casTemps ρ M.mem (gen.hostAt adr.toNat) (gen.hostAt (gen.above adr k).toNat) k wlo whi)
        [] M' σ' fr' ∧ M'.ctx = M.ctx ∧
      (M'.mem = casMem M.mem (gen.hostAt adr.toNat) (gen.hostAt (gen.above adr k).toNat) lo hi ↔
        CASFine M.mem (gen.hostAt adr.toNat) (gen.hostAt (gen.above adr k).toNat) lo hi) := by
  obtain ⟨fr', M', hr, hat', hs', hd⟩ :=
    casStmt_arrives ext hk hk' hc hadr hlo hhi hok hem hG hat hs
  refine ⟨fr', M', hr, hat', hs', hd.ctx, ?_⟩
  rw [hd.mem]
  exact casStored_eq_casMem_iff (by omega) (apart_above gen adr hk')

end Statement

def zeroWord (t : IRTemp) (d : BitVec 32) : CASWord := ⟨t, .const (.U32 0), .const (.U32 d)⟩

theorem zeroWord_reads (gen : GenLLVM) (ρ : IRTemp → Option (Ty × ℕ)) (t : IRTemp) (d : BitVec 32) :
    (zeroWord t d).Reads gen ρ (⟨0, d⟩ : CASValue 4) :=
  ⟨operand_const gen ρ rfl, operand_const gen ρ rfl⟩

theorem exists_emit_stmt {stmt : VexStmt}
    (h : (stmt.emit plainGen [] GenLLVM.beginBB).toOption.isSome = true) :
    ∃ σ', stmt.emit plainGen [] GenLLVM.beginBB = .ok ((), σ') := by
  cases he : stmt.emit plainGen [] GenLLVM.beginBB with
  | error e => rw [he] at h; cases h
  | ok r => exact ⟨r.2, rfl⟩

def zeroMachine : Machine := ⟨fun _ => 0, fun _ => 0, []⟩

def casAddr : BitVec plainGen.addrBits := (0x1000 : BitVec 64)

def casLo : BitVec 64 := plainGen.hostAt casAddr.toNat

def casHi : BitVec 64 := plainGen.hostAt (plainGen.above casAddr 4).toNat

theorem casStmt_correct_single : ∃ σ' fr' M',
    (casStmt (.const (.U64 0x1000)) (zeroWord 0 1) none).emit plainGen [] GenLLVM.beginBB = .ok ((), σ') ∧
      σ'.func.Reach (fun _ _ _ => none) (Func.start zeroMachine) fr' ∧ fr'.At σ'.toBuilder ∧ fr'.m = M' ∧
      M'.mem = casMem zeroMachine.mem casLo casHi (⟨0, 1⟩ : CASValue 4) none := by
  obtain ⟨σ', hem⟩ : ∃ σ', (casStmt (.const (.U64 0x1000)) (zeroWord 0 1) none).emit plainGen []
      GenLLVM.beginBB = .ok ((), σ') := exists_emit_stmt (by decide +kernel)
  have hadr : Operand plainGen (fun _ => none) (.const (.U64 0x1000)) (.int plainGen.addrBits)
    (.bits casAddr.toNat) := operand_const plainGen _ rfl
  obtain ⟨fr', M', hr, hat, hs, -, hiff⟩ := casStmt_correct_iff (k := 4) (fun _ _ _ => none) (by decide)
    (by decide) (fun h => by cases h) hadr (zeroWord_reads plainGen _ 0 1) .none .empty hem (.refl _)
    (at_beginBB zeroMachine) (stands_beginBB zeroMachine)
  exact ⟨σ', fr', M', hem, hr, hat, hs.mach, hiff.2 trivial⟩

/-- Both words match, and the high one gets the data of the low one. -/
theorem casStmt_not_correct : ∃ σ' fr' M',
    (casStmt (.const (.U64 0x1000)) (zeroWord 0 1) (some (zeroWord 1 2))).emit plainGen []
        GenLLVM.beginBB = .ok ((), σ') ∧
      σ'.func.Reach (fun _ _ _ => none) (Func.start zeroMachine) fr' ∧ fr'.At σ'.toBuilder ∧ fr'.m = M' ∧
      M'.mem ≠ casMem zeroMachine.mem casLo casHi (⟨0, 1⟩ : CASValue 4) (some ⟨0, 2⟩) := by
  obtain ⟨σ', hem⟩ : ∃ σ', (casStmt (.const (.U64 0x1000)) (zeroWord 0 1) (some (zeroWord 1 2))).emit
      plainGen [] GenLLVM.beginBB = .ok ((), σ') := exists_emit_stmt (by decide +kernel)
  have hadr : Operand plainGen (fun _ => none) (.const (.U64 0x1000)) (.int plainGen.addrBits)
    (.bits casAddr.toNat) := operand_const plainGen _ rfl
  obtain ⟨fr', M', hr, hat, hs, hd⟩ := casStmt_arrives (k := 4) (fun _ _ _ => none) (by decide)
    (by decide) (fun h => by cases h) hadr (zeroWord_reads plainGen _ 0 1)
    (.some (zeroWord_reads plainGen _ 1 2)) .empty hem (.refl _) (at_beginBB zeroMachine)
    (stands_beginBB zeroMachine)
  refine ⟨σ', fr', M', hem, hr, hat, hs.mach, fun he => ?_⟩
  rw [hd.mem] at he
  have hfine := (casStored_eq_casMem_iff (by decide) (apart_above plainGen casAddr (by decide))).1 he
  exact absurd (hfine.1 rfl rfl) (by decide)

end VexLLVM
