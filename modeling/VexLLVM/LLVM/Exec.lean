import VexLLVM.LLVM.Eval
import Mathlib.Logic.Relation

/-!
# Running a function

A machine has two byte-addressed regions, the one the first argument points to
and guest memory, and the entry last stored through the second argument. Loads
and stores are byte-exact and little-endian. A frame is the point reached in a
function: block, position, the block come from, and the results so far.
-/

namespace LLVM

abbrev Byte := BitVec 8

def readBytes (f : BitVec 64 → Byte) (a : BitVec 64) : ℕ → ℕ
  | 0 => 0
  | n + 1 => (f a).toNat + 2 ^ 8 * readBytes f (a + 1) n

def writeBytes (f : BitVec 64 → Byte) (a : BitVec 64) (n v : ℕ) : BitVec 64 → Byte :=
  fun p => if (p - a).toNat < n then BitVec.ofNat 8 (v / 2 ^ (8 * (p - a).toNat)) else f p

theorem readBytes_lt (f : BitVec 64 → Byte) (a : BitVec 64) (n : ℕ) :
    readBytes f a n < 2 ^ (8 * n) := by
  induction n generalizing a with
  | zero => simp [readBytes]
  | succ n ih =>
      have hb := (f a).isLt
      have hr := ih (a + 1)
      rw [readBytes, Nat.mul_succ, Nat.add_comm, Nat.add_comm (8 * n) 8, Nat.pow_add]
      omega

structure Machine where
  ctx : BitVec 64 → Byte
  mem : BitVec 64 → Byte
  log : List ℕ

/-- What external functions do: their result and the machine they leave. -/
abbrev Extern := String → List RVal → Machine → Option (RVal × Machine)

structure Frame where
  blk : ℕ
  pos : ℕ
  prev : ℕ
  regs : ℕ → Option RVal
  m : Machine

namespace Frame

/-- The value of an operand: the first argument points to the context region,
the second one to the log. -/
def eval (fr : Frame) : Value → Option RVal
  | .inst id _ => fr.regs id
  | .arg 0 _ => some (.ctxPtr 0)
  | .arg _ _ => some .logPtr
  | v => v.constEval

@[simp] theorem eval_const (fr : Frame) (t : Ty) (n : ℕ) :
    fr.eval (.const t n) = some (.bits n) := rfl

@[simp] theorem eval_constInt (fr : Frame) (w v : ℕ) :
    fr.eval (constInt w v) = some (.bits (v % 2 ^ w)) := rfl

def goto (fr : Frame) (b : ℕ) : Frame := { fr with blk := b, pos := 0, prev := fr.blk }

def advance (fr : Frame) (id : ℕ) (x : RVal) (m : Machine) : Frame :=
  { fr with pos := fr.pos + 1, regs := Function.update fr.regs id (some x), m := m }

end Frame

namespace Machine

def load (m : Machine) (p : RVal) (n : ℕ) : Option ℕ :=
  match p with
  | .ctxPtr off => some (readBytes m.ctx off n)
  | .bits a => some (readBytes m.mem (BitVec.ofNat 64 a) n)
  | _ => none

def store (m : Machine) (p : RVal) (n : ℕ) (v : RVal) : Option Machine :=
  match p, v with
  | .ctxPtr off, .bits x => some { m with ctx := writeBytes m.ctx off n x }
  | .bits a, .bits x => some { m with mem := writeBytes m.mem (BitVec.ofNat 64 a) n x }
  | .logPtr, .agg l => some { m with log := l }
  | _, _ => none

end Machine

def CastOp.isFP : CastOp → Bool
  | .fptrunc | .fpext | .sitofp | .uitofp | .fptosi => true
  | _ => false

/-- The arithmetic that is up to the host where it has no value here, and its operands:
that of floating point, and shifts and divisions that have no result. -/
def Inst.hostOp? : Inst → Option (String × List Value)
  | bin o a b => some (reprStr (o, a.ty), [a, b])
  | fcmp p a b => some (reprStr (p, a.ty), [a, b])
  | cast k v t => if k.isFP then some (reprStr (k, v.ty, t), [v]) else none
  | _ => none

/-- The value the host gives an instruction, as it does that of a function. -/
def Inst.hostEval (ext : Extern) (fr : Frame) (i : Inst) : Option RVal :=
  i.hostOp?.bind fun q =>
    (q.2.mapM fun v => (fr.eval v).bind RVal.bits?).bind fun xs =>
      (ext q.1 (xs.map .bits) fr.m).bind fun r => r.1.bits?.map fun x => .bits (x % 2 ^ i.ty.bits)

/-- One instruction: the value it defines and the machine it leaves. -/
def Inst.exec (ext : Extern) (fr : Frame) : Inst → Option (RVal × Machine)
  | load p al =>
      (fr.eval p).bind fun a =>
        (fr.m.load a (Inst.load p al).ty.bytes).map fun x => (.bits x, fr.m)
  | store v p _ =>
      (fr.eval p).bind fun a => (fr.eval v).bind fun x =>
        (fr.m.store a v.ty.bytes x).map fun m => (.bits 0, m)
  | call f _ args => (args.mapM fr.eval).bind fun xs => ext f xs fr.m
  | phi _ inc =>
      ((inc.find? fun p => p.2 == fr.prev).bind fun p => fr.eval p.1).map fun x => (x, fr.m)
  | fence => some (.bits 0, fr.m)
  | i => ((i.eval fr.eval).or (i.hostEval ext fr)).map fun x => (x, fr.m)

inductive Outcome where
  | next (fr : Frame)
  | done (v : RVal) (m : Machine)
  | stuck

namespace Func

def step (ext : Extern) (F : Func) (fr : Frame) : Outcome :=
  match (F.blocks fr.blk).insts[fr.pos]? with
  | some (id, i) =>
      match i.exec ext fr with
      | some (x, m) => .next (fr.advance id x m)
      | none => .stuck
  | none =>
      match (F.blocks fr.blk).term with
      | some (.br t) => .next (fr.goto t)
      | some (.condBr c t f) =>
          match fr.eval c with
          | some (.bits n) => .next (fr.goto (if n = 0 then f else t))
          | _ => .stuck
      | some (.ret v) =>
          match fr.eval v with
          | some x => .done x fr.m
          | none => .stuck
      | none => .stuck

/-- Run for at most `fuel` steps; the result is what the function returns and
the machine it leaves. -/
def run (ext : Extern) (F : Func) : ℕ → Frame → Option (RVal × Machine)
  | 0, _ => none
  | fuel + 1, fr =>
      match F.step ext fr with
      | .next fr' => run ext F fuel fr'
      | .done v m => some (v, m)
      | .stuck => none

def start (m : Machine) : Frame := ⟨0, 0, 0, fun _ => none, m⟩

def Reach (ext : Extern) (F : Func) : Frame → Frame → Prop :=
  Relation.ReflTransGen fun a b => F.step ext a = .next b

theorem Reach.trans {ext : Extern} {F : Func} {a b c : Frame} (h : F.Reach ext a b)
    (h' : F.Reach ext b c) : F.Reach ext a c :=
  Relation.ReflTransGen.trans h h'

/-- A frame that reaches one where the function returns has a finite run. -/
theorem Reach.run_eq {ext : Extern} {F : Func} {a b : Frame} {v : RVal} {m : Machine}
    (h : F.Reach ext a b) (hb : F.step ext b = .done v m) :
    ∃ fuel, F.run ext fuel a = some (v, m) := by
  induction h using Relation.ReflTransGen.head_induction_on with
  | refl => exact ⟨1, by simp [run, hb]⟩
  | head hs _ ih =>
      obtain ⟨fuel, hf⟩ := ih
      exact ⟨fuel + 1, by simp [run, hs, hf]⟩

theorem run_mono {ext : Extern} {F : Func} {fr : Frame} {r : RVal × Machine} {n k : ℕ}
    (h : F.run ext n fr = some r) (hk : n ≤ k) : F.run ext k fr = some r := by
  induction n generalizing fr k with
  | zero => cases h
  | succ n ih =>
      obtain ⟨k, rfl⟩ : ∃ k', k = k' + 1 := ⟨k - 1, by omega⟩
      rw [run] at h ⊢
      cases hs : F.step ext fr with
      | next fr' =>
          rw [hs] at h
          exact ih h (by omega)
      | done v m => simpa [hs] using h
      | stuck => simp [hs] at h

end Func

end LLVM
