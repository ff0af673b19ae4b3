import VexLLVM.Exec.Dispatch
import VexLLVM.Lib.BoundedLog

/-!
# The log of dispatches

`VexExec` with what it counts and keeps beside the dispatcher: the depth of calls, the number of
blocks that ran, and a log of the last dispatches. None of it is looked at by the dispatcher.
-/

namespace VexLLVM

open BoundedLog StateExcept

inductive TraceConf where
  | off
  | log
  | stderr
  deriving DecidableEq, Repr

/-- The executor with `call_depth`, `sb_executed_c`, and `trace_c` beside `trace`. -/
structure LogState (M : Type) where
  exec : ExecState M
  callDepth : BitVec 32
  sbExecutedC : BitVec 32
  trace : ℕ × List (GuestPtr × BitVec 32)

def TRACE_MAX : ℕ := 500

variable {M : Type}

abbrev LogM (M : Type) := StateT (LogState M) (Except EmitError)

/-- What a program does with the executor: `beginStepping`, at a program counter, and `stepVSB`,
with what the superblock does. -/
inductive ExecOp (M : Type) where
  | beginStepping (pc : GuestPtr)
  | stepVSB (run : BlockRun M)

namespace ExecOp

variable (gm : GuestMem M) (gen : GenLLVM)

def exec : ExecOp M → ExecM M Bool
  | beginStepping pc => do
      modify fun s => { s with nextAddr := pc }
      pure true
  | stepVSB run => do
      let s ← get
      if s.exited then pure false else VexExec.doNextSB gm gen run

def execAll (ops : List (ExecOp M)) : ExecM M Unit :=
  ops.forM fun op => do
    let _ ← op.exec gm gen
    pure ()

end ExecOp

namespace LogState

variable (gm : GuestMem M) (gen : GenLLVM) (conf : TraceConf)

def onExec {α : Type} (m : ExecM M α) : LogM M α := fun s =>
  match m s.exec with
  | .ok (a, e) => .ok (a, { s with exec := e })
  | .error e => .error e

/-- The executor after the head of `doNextSB`. -/
def logged (s : LogState M) : LogState M :=
  { s with trace :=
      if conf = .log then push TRACE_MAX s.trace (s.exec.nextAddr, s.callDepth) else s.trace }

def doVexSB (run : BlockRun M) (vsb : VSB) : LogM M GuestPtr := do
  let newIp ← onExec (VexExec.doVexSB gm run vsb)
  modify fun s => { s with sbExecutedC := s.sbExecutedC + 1 }
  pure newIp

def handleExit (run : BlockRun M) : LogM M Unit := do
  match run.exitType with
  | .CALL => modify fun s => { s with callDepth := s.callDepth + 1 }
  | .RETURN => modify fun s => { s with callDepth := s.callDepth - 1 }
  | _ => onExec (VexExec.handleExit run)

def runSB (run : BlockRun M) (vsb : VSB) : LogM M Bool := do
  let newIp ← doVexSB gm run vsb
  handleExit run
  let s ← get
  if s.exec.exited then pure false
  else do
    modify fun s => { s with exec := { s.exec with nextAddr := newIp } }
    pure true

def doNextSB (run : BlockRun M) : LogM M Bool := do
  modify (logged conf)
  match ← onExec (VexExec.nextSB gm gen) with
  | none => pure false
  | some vsb => runSB gm run vsb

def beginStepping (pc : GuestPtr) : LogM M Unit :=
  modify fun s => { s with exec := { s.exec with nextAddr := pc }, callDepth := 0 }

def stepVSB (run : BlockRun M) : LogM M Bool := do
  let s ← get
  if s.exec.exited then pure false else doNextSB gm gen conf run

def execOp : ExecOp M → LogM M Bool
  | .beginStepping pc => do
      beginStepping pc
      pure true
  | .stepVSB run => stepVSB gm gen conf run

def execAll (ops : List (ExecOp M)) : LogM M Unit :=
  ops.forM fun op => do
    let _ ← execOp gm gen conf op
    pure ()

/-- The executor as it is constructed. The depth is set when stepping begins. -/
def start (s : ExecState M) (callDepth : BitVec 32) : LogState M := ⟨s, callDepth, 0, (0, [])⟩

end LogState

/-! ## What happened -/

/-- What happens when an operation is done: stepping begins, or a dispatch at an address is tried,
of a block that runs and exits with the type. -/
inductive DispatchEvent where
  | begin
  | dispatch (addr : GuestPtr) (ran : Option GuestExitType)
  deriving DecidableEq

namespace DispatchEvent

def ran : DispatchEvent → Bool
  | dispatch _ (some _) => true
  | _ => false

def exits (t : GuestExitType) : DispatchEvent → Bool
  | dispatch _ (some u) => u == t
  | _ => false

/-- The calls less the returns since stepping last began. -/
def depth (es : List DispatchEvent) : ℤ :=
  let es := es.rtakeWhile (· ≠ begin)
  es.countP (exits .CALL) - es.countP (exits .RETURN)

def tried : List DispatchEvent → List DispatchEvent → List (GuestPtr × BitVec 32)
  | _, [] => []
  | before, begin :: es => tried (before ++ [begin]) es
  | before, dispatch a r :: es =>
      (a, BitVec.ofInt 32 (depth before)) :: tried (before ++ [dispatch a r]) es

end DispatchEvent

namespace ExecOp

variable (gm : GuestMem M) (gen : GenLLVM)

def events (s : ExecState M) : ExecOp M → List DispatchEvent
  | beginStepping _ => [.begin]
  | stepVSB run =>
      if s.exited then []
      else
        match VexExec.nextSB gm gen s with
        | .ok (some _, _) => [.dispatch s.nextAddr (some run.exitType)]
        | _ => [.dispatch s.nextAddr none]

def allEvents : ExecState M → List (ExecOp M) → List DispatchEvent
  | _, [] => []
  | s, op :: ops => op.events gm gen s ++
      match op.exec gm gen s with
      | .ok (_, t) => allEvents t ops
      | .error _ => []

end ExecOp

/-! ## One operation -/

namespace LogState

variable {gm : GuestMem M} {gen : GenLLVM} {conf : TraceConf} {s : LogState M}

/-- The executor after an event, but for what the dispatcher did. -/
def note (conf : TraceConf) (s : LogState M) : DispatchEvent → LogState M
  | .begin => { s with callDepth := 0 }
  | .dispatch a r =>
      { s with
        callDepth := if r = some .CALL then s.callDepth + 1
          else if r = some .RETURN then s.callDepth - 1 else s.callDepth
        sbExecutedC := if r.isSome then s.sbExecutedC + 1 else s.sbExecutedC
        trace := if conf = .log then push TRACE_MAX s.trace (a, s.callDepth) else s.trace }

theorem handleExit_eq (run : BlockRun M) : handleExit run s =
    (VexExec.handleExit run s.exec).map fun r => (r.1, { s with
      exec := r.2
      callDepth := if run.exitType = .CALL then s.callDepth + 1
        else if run.exitType = .RETURN then s.callDepth - 1 else s.callDepth }) := by
  unfold handleExit VexExec.handleExit
  cases run.exitType <;> rfl

theorem onExec_ok {α : Type} {m : ExecM M α} {a : α} {e : ExecState M} (h : m s.exec = .ok (a, e)) :
    onExec m s = .ok (a, { s with exec := e }) := by
  rw [onExec, h]

theorem onExec_error {α : Type} {m : ExecM M α} {e : EmitError} (h : m s.exec = .error e) :
    onExec m s = .error e := by
  rw [onExec, h]

theorem runSB_eq (run : BlockRun M) (vsb : VSB) : runSB gm run vsb s =
    (VexExec.runSB gm run vsb s.exec).map fun r => (r.1, { s with
      exec := r.2
      callDepth := if run.exitType = .CALL then s.callDepth + 1
        else if run.exitType = .RETURN then s.callDepth - 1 else s.callDepth
      sbExecutedC := s.sbExecutedC + 1 }) := by
  unfold runSB VexExec.runSB doVexSB
  cases hv : VexExec.doVexSB gm run vsb s.exec with
  | error e =>
      rw [bind_error (bind_error (onExec_error hv)), bind_error hv]
      rfl
  | ok p =>
      have hran : (do
          let newIp ← onExec (VexExec.doVexSB gm run vsb)
          modify fun s => { s with sbExecutedC := s.sbExecutedC + 1 }
          pure newIp : LogM M GuestPtr) s =
          .ok (p.1, { s with exec := p.2, sbExecutedC := s.sbExecutedC + 1 }) :=
        bind_ok (onExec_ok hv)
      rw [bind_ok hran, bind_ok hv]
      have hexit := handleExit_eq (s := { s with exec := p.2, sbExecutedC := s.sbExecutedC + 1 }) run
      cases hx : VexExec.handleExit run p.2 with
      | error e =>
          rw [hx] at hexit
          rw [bind_error hexit, bind_error hx]
          rfl
      | ok q =>
          rw [hx] at hexit
          rw [bind_ok hexit, bind_ok hx, get_bind, get_bind]
          dsimp only
          cases q.2.exited <;> rfl

theorem doNextSB_eq (run : BlockRun M) (h : s.exec.exited = false) : doNextSB gm gen conf run s =
    (VexExec.doNextSB gm gen run s.exec).map fun r =>
      (r.1, { ((ExecOp.stepVSB run).events gm gen s.exec).foldl (note conf) s with exec := r.2 }) := by
  unfold doNextSB VexExec.doNextSB ExecOp.events
  rw [modify_bind, h]
  cases hn : VexExec.nextSB gm gen s.exec with
  | error e =>
      rw [bind_error (onExec_error (s := logged conf s) hn), bind_error hn]
      rfl
  | ok p =>
      obtain ⟨o, e⟩ := p
      rw [bind_ok (onExec_ok (s := logged conf s) hn), bind_ok hn]
      cases o with
      | none => rfl
      | some vsb =>
          dsimp only
          rw [runSB_eq]
          refine congrArg (Except.map · _) (funext fun r => ?_)
          simp only [Bool.false_eq_true, if_false, List.foldl_cons, List.foldl_nil, note,
            Option.some.injEq, Option.isSome_some, if_true, logged]

theorem execOp_eq (op : ExecOp M) : execOp gm gen conf op s =
    (op.exec gm gen s.exec).map fun r =>
      (r.1, { (op.events gm gen s.exec).foldl (note conf) s with exec := r.2 }) := by
  cases op with
  | beginStepping pc => rfl
  | stepVSB run =>
      have hlog : execOp gm gen conf (.stepVSB run) s =
          if s.exec.exited then .ok (false, s) else doNextSB gm gen conf run s := by
        rw [execOp, stepVSB, get_bind]
        split <;> rfl
      have hplain : (ExecOp.stepVSB run).exec gm gen s.exec =
          if s.exec.exited then .ok (false, s.exec) else VexExec.doNextSB gm gen run s.exec := by
        rw [ExecOp.exec, get_bind]
        split <;> rfl
      rw [hlog, hplain]
      cases hx : s.exec.exited with
      | true =>
          rw [ExecOp.events, hx]
          rfl
      | false => exact doNextSB_eq run hx

end LogState

/-! ## A run -/

namespace DispatchEvent

variable {es : List DispatchEvent}

@[simp] theorem depth_begin : depth (es ++ [begin]) = 0 := by
  rw [depth, List.rtakeWhile_concat_neg _ _ _ (by simp)]
  rfl

theorem depth_dispatch (a : GuestPtr) (r : Option GuestExitType) :
    depth (es ++ [dispatch a r]) = depth es +
      if r = some .CALL then 1 else if r = some .RETURN then -1 else 0 := by
  rw [depth, depth, List.rtakeWhile_concat_pos _ _ _ (by simp)]
  rw [List.countP_append, List.countP_append, List.countP_singleton, List.countP_singleton]
  cases r with
  | none => simp [exits]
  | some t =>
      simp only [exits, beq_iff_eq, Option.some.injEq]
      split_ifs <;> first | omega | simp_all

theorem tried_append (before es' : List DispatchEvent) :
    tried before (es ++ es') = tried before es ++ tried (before ++ es) es' := by
  induction es generalizing before with
  | nil => rw [List.append_nil, List.nil_append]; rfl
  | cons e es ih =>
      cases e with
      | begin =>
          rw [List.cons_append, tried, ih, List.append_assoc]
          rfl
      | dispatch a r =>
          rw [List.cons_append, tried, ih, List.append_assoc]
          rfl

theorem tried_begin : tried [] (es ++ [begin]) = tried [] es := by
  rw [tried_append]
  exact List.append_nil _

theorem tried_dispatch (a : GuestPtr) (r : Option GuestExitType) :
    tried [] (es ++ [dispatch a r]) = tried [] es ++ [(a, BitVec.ofInt 32 (depth es))] :=
  tried_append [] _

end DispatchEvent

namespace LogState

open DispatchEvent

variable {gm : GuestMem M} {gen : GenLLVM} {conf : TraceConf} {s t : LogState M}
    {es es' : List DispatchEvent}

structure Logged (conf : TraceConf) (es : List DispatchEvent) (s : LogState M) : Prop where
  callDepth : s.callDepth = BitVec.ofInt 32 (depth es)
  sbExecutedC : s.sbExecutedC = BitVec.ofNat 32 (es.countP ran)
  trace : Keeps TRACE_MAX s.trace (if conf = .log then tried [] es else [])

theorem Logged.step (h : Logged conf es s) (e : DispatchEvent) :
    Logged conf (es ++ [e]) (note conf s e) := by
  cases e with
  | begin =>
      refine ⟨?_, ?_, ?_⟩
      · rw [depth_begin]
        rfl
      · rw [List.countP_append]
        exact h.sbExecutedC
      · rw [tried_begin]
        exact h.trace
  | dispatch a r =>
      refine ⟨?_, ?_, ?_⟩
      · rw [depth_dispatch, BitVec.ofInt_add, ← h.callDepth]
        change (if _ then _ else _) = _
        split_ifs <;> simp [BitVec.sub_eq_add_neg]
      · rw [List.countP_append, List.countP_singleton]
        cases r with
        | none => exact h.sbExecutedC
        | some t =>
            change s.sbExecutedC + 1 = BitVec.ofNat 32 (es.countP ran + 1)
            rw [h.sbExecutedC, BitVec.ofNat_add]
            rfl
      · rw [tried_dispatch]
        have htrace := h.trace
        change Keeps TRACE_MAX (if conf = .log then _ else _) _
        by_cases hc : conf = .log
        · rw [if_pos hc] at htrace ⊢
          rw [if_pos hc, h.callDepth]
          exact htrace.push _
        · rw [if_neg hc] at htrace ⊢
          rwa [if_neg hc]

theorem Logged.steps (h : Logged conf es s) (es' : List DispatchEvent) :
    Logged conf (es ++ es') (es'.foldl (note conf) s) := by
  induction es' generalizing es s with
  | nil =>
      rw [List.append_nil]
      exact h
  | cons e es' ih =>
      rw [List.foldl_cons, List.append_cons]
      exact ih (h.step e)

theorem Logged.exec (h : Logged conf es s) (e : ExecState M) : Logged conf es { s with exec := e } :=
  ⟨h.callDepth, h.sbExecutedC, h.trace⟩

/-- What a run does to the executor, and what it leaves beside it. -/
theorem execAll_spec (h : Logged conf es s) (ops : List (ExecOp M)) :
    (execAll gm gen conf ops s).map (fun r => r.2.exec) =
        (ExecOp.execAll gm gen ops s.exec).map Prod.snd ∧
      ∀ t, execAll gm gen conf ops s = .ok ((), t) →
        Logged conf (es ++ ExecOp.allEvents gm gen s.exec ops) t := by
  induction ops generalizing es s with
  | nil =>
      refine ⟨rfl, fun t ht => ?_⟩
      cases ht
      rw [ExecOp.allEvents, List.append_nil]
      exact h
  | cons op ops ih =>
      have hop : execOp gm gen conf op s = _ := execOp_eq op
      cases hx : op.exec gm gen s.exec with
      | error e =>
          rw [hx] at hop
          have hlog : execAll gm gen conf (op :: ops) s = .error e := bind_error (bind_error hop)
          have hplain : ExecOp.execAll gm gen (op :: ops) s.exec = .error e :=
            bind_error (bind_error hx)
          rw [hlog, hplain]
          exact ⟨rfl, fun t ht => nomatch ht⟩
      | ok p =>
          rw [hx] at hop
          have hlog : execAll gm gen conf (op :: ops) s = execAll gm gen conf ops _ :=
            bind_ok (bind_ok hop)
          have hplain : ExecOp.execAll gm gen (op :: ops) s.exec = ExecOp.execAll gm gen ops p.2 :=
            bind_ok (bind_ok hx)
          have hrest := ih ((h.steps (op.events gm gen s.exec)).exec p.2)
          rw [hlog, hplain, ExecOp.allEvents, hx, ← List.append_assoc]
          exact hrest

/-- Whether a log is kept or not, a run of the executor dispatches alike, and ends with the same
error where it does. The depth is that of the calls since stepping began, the count that of the
blocks that ran, and the log holds the last `TRACE_MAX + 1` of the dispatches that were tried, with
their depths. -/
theorem dispatchLog_statement (gm : GuestMem M) (gen : GenLLVM) (conf : TraceConf)
    (s : ExecState M) (callDepth : BitVec 32) (pc : GuestPtr) (ops : List (ExecOp M)) :
    (execAll gm gen conf (.beginStepping pc :: ops) (start s callDepth)).map (fun r => r.2.exec) =
        (ExecOp.execAll gm gen (.beginStepping pc :: ops) s).map Prod.snd ∧
      ∀ t, execAll gm gen conf (.beginStepping pc :: ops) (start s callDepth) = .ok ((), t) →
        Logged conf (ExecOp.allEvents gm gen s (.beginStepping pc :: ops)) t := by
  have hbegin : Logged conf [.begin] { start s 0 with exec := { s with nextAddr := pc } } :=
    ⟨rfl, rfl, by split <;> exact keeps_nil⟩
  exact execAll_spec hbegin ops

def callOps : List (ExecOp (List Mapping)) :=
  [.beginStepping 0x1000,
    .stepVSB ⟨[], fun _ a => some (jumpBlock a 0x2000), 0x2000, .CALL, id, false⟩]

theorem dispatchLog_call : ∃ t,
    execAll (listMem 0) plainGen .log callOps (start (jumpExec .Call) 7) = .ok ((), t) ∧
      t.callDepth = 1 ∧ t.sbExecutedC = 1 ∧ t.trace = (1, [(0x1000, 0)]) := by
  have hevents : ExecOp.allEvents (listMem 0) plainGen (jumpExec .Call) callOps =
      [.begin, .dispatch 0x1000 (some .CALL)] := by decide +kernel
  have hplain : (ExecOp.execAll (listMem 0) plainGen callOps (jumpExec .Call)).isOk = true := by
    decide +kernel
  have hops : ExecOp.beginStepping 0x1000 :: callOps.tail = callOps := rfl
  have h := dispatchLog_statement (listMem 0) plainGen .log (jumpExec .Call) 7 0x1000 callOps.tail
  rw [hops, hevents] at h
  cases ht : execAll (listMem 0) plainGen .log callOps (start (jumpExec .Call) 7) with
  | error e =>
      cases hp : ExecOp.execAll (listMem 0) plainGen callOps (jumpExec .Call) with
      | error e => rw [hp] at hplain; cases hplain
      | ok p => rw [ht, hp] at h; cases h.1
  | ok p =>
      obtain ⟨hdepth, hcount, htrace⟩ := h.2 p.2 ht
      exact ⟨p.2, rfl, hdepth, hcount, Prod.ext (htrace.count.trans (congrArg _ htrace.last))
        htrace.last⟩

end LogState

end VexLLVM
