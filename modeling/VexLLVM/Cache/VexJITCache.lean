import VexLLVM.Cache.State

/-!
# The function cache and the JIT cache

`VexFCache`, `JITEngine` and `VexJITCache`. Calls of virtual functions are those of
a `VexJITCache`.
-/

namespace VexLLVM

open LLVM StateExcept

namespace VexFCache

def getCachedVSB (a : GuestPtr) : CacheM (Option VSB) := do
  let r := (← get).vexsb.getCached a
  modify fun s => { s with vexsb := r.2 }
  pure r.1

def getCachedFunc (a : GuestPtr) : CacheM (Option Function) := do
  let r := (← get).func.getCached a
  modify fun s => { s with func := r.2 }
  pure r.1

/-- `delete` and `eraseFromParent`: the function leaves its module. -/
def release (f : Function) : CacheM Unit :=
  modify fun s => { s with released := f.uid :: s.released, genMod := s.genMod.unlink f }

def evictFunc (a : GuestPtr) : CacheM Unit := do
  match ← getCachedFunc a with
  | some f => do
      modify fun s => { s with func := s.func.erase a }
      release f
  | none => pure ()

def evictVSB (a : GuestPtr) : CacheM Unit := do
  match ← getCachedVSB a with
  | some _ => modify fun s => { s with vexsb := s.vexsb.erase a }
  | none => pure ()

def evict (a : GuestPtr) : CacheM Unit := do
  evictFunc a
  evictVSB a

def flush : CacheM Unit :=
  modify fun s => { s with vexsb := .empty, func := .empty, flushed := fun _ => s.next }

def inRange {α : Type} (c : AddrCache α) (b e : GuestPtr) : CacheM (List GuestPtr) :=
  match c.range b e with
  | some ks => pure ks
  | none => throw (.assertion "iterator past the end")

def flushRange (b e : GuestPtr) : CacheM Unit := do
  let ks ← inRange (← get).vexsb b e
  modify fun s => { s with vexsb := ks.foldl AddrCache.erase s.vexsb }
  let ks ← inRange (← get).func b e
  let fs := ks.filterMap (← get).func.find
  fs.forM release
  modify fun s => { s with
    func := ks.foldl AddrCache.erase s.func
    flushed := fun p => if b ≤ p ∧ p ≤ e then s.next else s.flushed p }

end VexFCache

namespace JITEngine

def getPointerToNamedFunction (n : FnName) : CacheM (Option FPtr) :=
  return (← get).funcAddrs.lookup n

/-- `mod_to_engine`: functions under a name that is known stay uncompiled. -/
def addFunctions (t : AList fun _ : FnName => FPtr) (fns : List Function) :
    AList fun _ : FnName => FPtr :=
  (fns.filter fun f => f.name ∉ t).foldl (fun t f => t.insert f.name ⟨f⟩) t

def destroyModule (m : Module) : CacheM Unit :=
  modify fun s => { s with destroyed := m.id :: s.destroyed }

/-- `moveModule`. The engine that compiled the module is dropped, and the module
with it. -/
def moveModule (m : Module) : CacheM Unit := do
  modify fun s => { s with funcAddrs := addFunctions s.funcAddrs m.fns }
  destroyModule m

def getPointerToFunction (f : Function) (m : Module) : CacheM (Option FPtr) := do
  match ← getPointerToNamedFunction f.name with
  | some p => do
      destroyModule m
      pure (some p)
  | none => do
      moveModule m
      getPointerToNamedFunction f.name

end JITEngine

namespace VexJITCache

def getCachedFPtr (a : GuestPtr) : CacheM (Option FPtr) := do
  let r := (← get).jit.getCached a
  modify fun s => { s with jit := r.2 }
  pure r.1

def deleteFunc (a : GuestPtr) : CacheM Unit := do
  match ← VexFCache.getCachedFunc a with
  | some f => VexFCache.release f
  | none => pure ()

/-- `evict`: the function is deleted, and released again by `VexFCache::evict`. -/
def evict (a : GuestPtr) : CacheM Unit := do
  deleteFunc a
  modify fun s => { s with
    jit := s.jit.erase a
    flushed := Function.update s.flushed a s.next }
  VexFCache.evict a

def flush : CacheM Unit := do
  modify fun s => { s with jit := .empty }
  VexFCache.flush

/-- `flush(begin, end)`: the compiled code of the addresses of the function map. -/
def flushRange (b e : GuestPtr) : CacheM Unit := do
  let ks ← VexFCache.inRange (← get).func b e
  modify fun s => { s with jit := ks.foldl AddrCache.erase s.jit }
  VexFCache.flushRange b e

def setMaxCache (x : ℕ) : CacheM Unit := do
  let s ← get
  if x < s.maxCacheEnts then
    flush
    modify fun s => { s with maxCacheEnts := x }
  else modify fun s => { s with maxCacheEnts := x }

variable (gen : GenLLVM)

/-- `xlate->xlate`, on the guest code as it is now. -/
def xlate (host : HostPtr) (a : GuestPtr) : CacheM (Option VSB) := do
  let s ← get
  match s.code host a with
  | none => pure none
  | some irsb =>
      match VexXlate.xlate gen a irsb with
      | .error e => throw e
      | .ok none => pure none
      | .ok (some sb) => do
          modify fun s => { s with next := s.next + 1 }
          pure (some ⟨s.next, sb⟩)

/-- The eviction `allocCacheVSB` makes when the cache is full. -/
def makeRoom : CacheM Unit := do
  let s ← get
  if s.vexsb.size = s.maxCacheEnts then
    match s.selectVictimAddress with
    | none => throw (.assertion "0 evict addr?")
    | some a => do
        modify fun s => { s with rand := fun n => s.rand (n + 1) }
        evict a
  else pure ()

def putVSB (a : GuestPtr) (vsb : VSB) : CacheM Unit := do
  let s ← get
  if s.vexsb.size < s.maxCacheEnts then
    modify fun s => { s with vexsb := s.vexsb.put a (some vsb) }
  else throw (.assertion "vexsb_cache.size() < max_cache_ents")

def allocCacheVSB (host : HostPtr) (a : GuestPtr) : CacheM (Option VSB) := do
  match ← xlate gen host a with
  | none => pure none
  | some vsb => do
      makeRoom
      putVSB a vsb
      pure (some vsb)

def getVSB (host : HostPtr) (a : GuestPtr) : CacheM (Option VSB) := do
  match ← VexFCache.getCachedVSB a with
  | some vsb => pure (some vsb)
  | none => allocCacheVSB gen host a

def genFunctionByVSB (vsb : VSB) : CacheM Function := do
  match vsb.sb.emit gen with
  | .error e => throw e
  | .ok body => do
      let s ← get
      let n := s.genMod.makeName vsb.guestAddr
      let f : Function := ⟨s.next, n.1, s.genMod.id, vsb, body⟩
      set { s with
        next := s.next + 1
        genMod := ⟨s.genMod.id, f :: s.genMod.fns, n.2⟩
        func := s.func.put vsb.guestAddr (some f) }
      pure f

def getFunc (host : HostPtr) (a : GuestPtr) : CacheM (Option Function) := do
  match ← VexFCache.getCachedFunc a with
  | some f => pure (some f)
  | none =>
      match ← getVSB gen host a with
      | none => pure none
      | some vsb => some <$> genFunctionByVSB gen vsb

def retAddr (b : Block) : Option GuestPtr :=
  match b.term with
  | some (.ret (.const (.int _) n)) => some (BitVec.ofNat 64 n)
  | _ => none

def constReturns (body : Func) : List GuestPtr :=
  (((List.range body.nblocks).filterMap fun i => retAddr (body.blocks i)).dedup).insertionSort
    (· ≤ ·)

def getRetAddrs (f : Function) : List GuestPtr := constReturns f.body

structure Fetch where
  fnames : List (GuestPtr × FnName)
  complete : List Function
  workset : List Function

def hasFn (l : List Function) (f : Function) : Bool := l.any fun g => g.uid == f.uid

def fetchExit (w : Fetch) (addr : GuestPtr) : CacheM Fetch := do
  if addr ∈ (← get).jit.map then pure w
  else
    match ← getFunc gen addr addr with
    | none => pure w
    | some f =>
        if hasFn w.workset f || hasFn w.complete f then pure w
        else pure { w with
          fnames := (addr, f.name) :: w.fnames
          workset := w.workset ++ [f] }

/-- The loop over the work set, which is a queue as well: a round for each of the
first `n` functions. -/
def fetchLoop : ℕ → Fetch → CacheM Fetch
  | 0, w => pure w
  | n + 1, w =>
      match w.workset with
      | [] => pure w
      | f :: _ => do
          let w ← (getRetAddrs f).foldlM (fetchExit gen) w
          let w := { w with workset := w.workset.tail, complete := f :: w.complete }
          if 2 < w.complete.length + w.workset.length then pure w else fetchLoop n w

/-- The order of the pairs in `fnames`. -/
def fnameLe (p q : GuestPtr × FnName) : Bool :=
  p.1 < q.1 || (p.1 == q.1 && p.2.copy ≤ q.2.copy)

/-- The prefetch: the extra functions, with the addresses they are for. It is
made when guest addresses are host addresses. Every round completes one more
function, so that it ends after the third. -/
def fetchExits (host : HostPtr) (a : GuestPtr) (f : Function) :
    CacheM (List (GuestPtr × FnName)) := do
  if host = a then
    let w ← fetchLoop gen 3 ⟨[], [], [f]⟩
    pure (w.fnames.dedup.insertionSort fun p q => fnameLe p q)
  else pure []

/-- `takeModule`: the generator goes on with a new module. -/
def takeModule : CacheM Module := do
  let s ← get
  set { s with next := s.next + 1, genMod := ⟨s.next, [], 0⟩ }
  pure s.genMod

/-- The first half of `getFPtr`: the function, and what is prefetched with it. -/
def fetch (host : HostPtr) (a : GuestPtr) : CacheM (Function × List (GuestPtr × FnName)) := do
  match ← getFunc gen host a with
  | none => throw (.assertion "Could not get function")
  | some f => do
      let fnames ← fetchExits gen host a f
      pure (f, fnames)

/-- The pointer of a prefetched function, into the map alone. -/
def enter (p : GuestPtr × FnName) : CacheM Unit := do
  let vf ← JITEngine.getPointerToNamedFunction p.2
  modify fun s => { s with jit := s.jit.assign p.1 vf }

/-- The second half of `getFPtr`: the module is compiled and the pointers are
entered. -/
def compile (a : GuestPtr) (f : Function) (fnames : List (GuestPtr × FnName)) : CacheM FPtr := do
  let m ← takeModule
  match ← JITEngine.getPointerToFunction f m with
  | none => throw (.assertion "Could not JIT")
  | some p => do
      fnames.forM enter
      modify fun s => { s with jit := s.jit.put a (some p) }
      pure p

def getFPtr (host : HostPtr) (a : GuestPtr) : CacheM FPtr := do
  match ← getCachedFPtr a with
  | some p => pure p
  | none => do
      let r ← fetch gen host a
      compile a r.1 r.2

end VexJITCache

/-- What is done with a `VexJITCache`, and what happens to the guest code. -/
inductive CacheOp where
  | getVSB (host : HostPtr) (a : GuestPtr)
  | getFunc (host : HostPtr) (a : GuestPtr)
  | getFPtr (host : HostPtr) (a : GuestPtr)
  | getCachedFPtr (a : GuestPtr)
  | evict (a : GuestPtr)
  | flush
  | flushRange (b e : GuestPtr)
  | setMaxCache (x : ℕ)
  | guestCode (code : HostPtr → GuestPtr → Option Vex.IRSB)

namespace CacheOp

open VexJITCache

def exec (gen : GenLLVM) : CacheOp → CacheM (Option FPtr)
  | getVSB host a => (fun _ => none) <$> VexJITCache.getVSB gen host a
  | getFunc host a => (fun _ => none) <$> VexJITCache.getFunc gen host a
  | getFPtr host a => some <$> VexJITCache.getFPtr gen host a
  | getCachedFPtr a => VexJITCache.getCachedFPtr a
  | evict a => (fun _ => none) <$> VexJITCache.evict a
  | flush => (fun _ => none) <$> VexJITCache.flush
  | flushRange b e => (fun _ => none) <$> VexJITCache.flushRange b e
  | setMaxCache x => (fun _ => none) <$> VexJITCache.setMaxCache x
  | guestCode code => do
      modify fun s => { s with code := code }
      pure none

end CacheOp

/-- The state the operations of the list leave the caches in, where none of them
ends the process and each of them meets the condition in the state it finds. -/
inductive CacheRun (gen : GenLLVM) (C : CacheState → CacheOp → Prop) (s₀ : CacheState) :
    List CacheOp → CacheState → Prop where
  | nil : CacheRun gen C s₀ [] s₀
  | step {ops : List CacheOp} {s t : CacheState} {op : CacheOp} {r : Option FPtr}
      (run : CacheRun gen C s₀ ops s) (hc : C s op) (h : op.exec gen s = .ok (r, t)) :
      CacheRun gen C s₀ (ops ++ [op]) t

/-- What holds at first and is kept by each operation holds in every state. -/
theorem CacheRun.keeps {gen : GenLLVM} {C : CacheState → CacheOp → Prop} {s₀ s : CacheState}
    {ops : List CacheOp} (run : CacheRun gen C s₀ ops s) (I : CacheState → Prop) (h₀ : I s₀)
    (hI : ∀ s op r t, I s → C s op → op.exec gen s = .ok (r, t) → I t) : I s := by
  induction run with
  | nil => exact h₀
  | step run hc h ih => exact hI _ _ _ _ ih hc h

abbrev AnyOp : CacheState → CacheOp → Prop := fun _ _ => True

def CacheOp.execAll (gen : GenLLVM) : List CacheOp → CacheM Unit
  | [] => pure ()
  | op :: ops => do
      let _ ← op.exec gen
      execAll gen ops

theorem CacheRun.of_execAll {gen : GenLLVM} {C : CacheState → CacheOp → Prop}
    {s₀ s t : CacheState} {pre ops : List CacheOp} (run : CacheRun gen C s₀ pre s)
    (hC : ∀ op ∈ ops, ∀ s, C s op) (h : CacheOp.execAll gen ops s = .ok ((), t)) :
    CacheRun gen C s₀ (pre ++ ops) t := by
  induction ops generalizing pre s with
  | nil =>
      cases h
      simpa using run
  | cons op ops ih =>
      obtain ⟨r, s₁, h₁, h₂⟩ := bind_eq_ok h
      simpa using ih (run.step (hC op (by simp) s) h₁) (fun o ho => hC o (by simp [ho])) h₂

/-- A state a run ends in, found by running it. -/
theorem CacheRun.exists_of_check (gen : GenLLVM) (C : CacheState → CacheOp → Prop)
    (s₀ : CacheState) (ops : List CacheOp) (P : CacheState → Bool) (hC : ∀ op ∈ ops, ∀ s, C s op)
    (h : (match CacheOp.execAll gen ops s₀ with
      | .ok (_, s) => P s
      | .error _ => false) = true) :
    ∃ s, CacheRun gen C s₀ ops s ∧ P s = true := by
  cases he : CacheOp.execAll gen ops s₀ with
  | error e => rw [he] at h; cases h
  | ok p => rw [he] at h; exact ⟨p.2, CacheRun.of_execAll .nil hC he, h⟩

def jumpBlock (a dst : GuestPtr) : Vex.IRSB :=
  ⟨[], [.IMark a 4], .Const (.U64 dst), .Boring⟩

def twoBlocks : HostPtr → GuestPtr → Option Vex.IRSB := fun _ a =>
  if a = 0x1000 then some (jumpBlock 0x1000 0x2000)
  else if a = 0x2000 then some (jumpBlock 0x2000 0)
  else none

end VexLLVM
