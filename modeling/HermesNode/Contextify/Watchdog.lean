/-
Module: HermesNode.Contextify.Watchdog
Purpose: The SIGINT watchdog of the `contextify` binding: the flags it shares with the signal handler,
  the depth of the evaluations on the stack, and `runInContext` step by step, so that the handler may
  run between any two of its steps.
Trusted boundary: human-reviewed spec (the runtime's async break is a flag that the interpreter may
  take while a script runs and that `cancel` clears)
Main exports: Phase, Evaluation, Watchdog, Action
-/
import HermesNode.Lib.Machine

namespace HermesNode.Contextify

/-- Where an evaluation is in `runInContext`. -/
inductive Phase where
  /-- The depth counts it; the latch is yet to be checked. -/
  | entering
  /-- A latched signal cancels it at entry: the depth, the latch and the break are yet to be
  reset. -/
  | refused
  | refusedLeft
  | refusedCleared
  /-- The interpreter runs the script. -/
  | running
  /-- The script ended; the depth still counts it. -/
  | returned (failed : Bool)
  /-- The break is yet to be cancelled. -/
  | left (failed : Bool)
  /-- The latch is yet to be checked. -/
  | checking (failed breakWasPending : Bool)
  /-- The exception is to be replaced, the latch yet to be cleared. -/
  | converting
  deriving DecidableEq, Repr

/-- The phases in which `s_vmScriptDepth` counts an evaluation. -/
def Phase.counted : Phase → Bool
  | .entering | .refused | .running | .returned _ => true
  | _ => false

structure Evaluation where
  phase : Phase
  /-- The interpreter took an async break while the evaluation was on the stack. -/
  consumed : Bool
  deriving DecidableEq, Repr

/-- A SIGINT, by the order of the handler's invocations. -/
abbrev Signal := Nat

structure Watchdog where
  /-- `s_sigintWatching`. -/
  watching : Bool
  /-- `startSigintWatchdog` installed the handler and is yet to set the flag. -/
  starting : Bool
  /-- The handler is installed. -/
  installed : Bool
  /-- `s_sigintReceived`. -/
  received : Bool
  /-- `s_vmScriptDepth`. -/
  depth : Nat
  /-- An async break is pending in the runtime. -/
  breakPending : Bool
  /-- The evaluations, the innermost first. -/
  stack : List Evaluation
  /-- How many signals there were, and what became of them. -/
  signals : Nat
  latched : List Signal
  delivered : List Signal
  reported : List Signal
  /-- An exception was replaced though no break was taken during the evaluation. -/
  misattributed : Bool
  deriving DecidableEq, Repr

def Watchdog.init : Watchdog where
  watching := false
  starting := false
  installed := false
  received := false
  depth := 0
  breakPending := false
  stack := []
  signals := 0
  latched := []
  delivered := []
  reported := []
  misattributed := false

inductive Action where
  /-- `startSigintWatchdog`, up to the handler and behind it. -/
  | start
  | startDone
  | stop
  /-- The handler is invoked. -/
  | signal
  /-- `runInContext` is called. -/
  | runInContext
  /-- The interpreter takes the break. -/
  | consume
  /-- The script ends. -/
  | returns (failed : Bool)
  /-- The next step of the innermost `runInContext`. -/
  | advance
  deriving DecidableEq, Repr

/-- JavaScript runs: the innermost script, or code outside of all. -/
def Watchdog.jsRuns (w : Watchdog) : Bool :=
  !w.starting && match w.stack with
    | [] => true
    | e :: _ => e.phase == .running

/-- A watchdog that is active is left alone. -/
def Watchdog.start (w : Watchdog) : Watchdog :=
  if w.watching then w
  else { w with received := false, latched := [], installed := true, starting := true }

def Watchdog.stop (w : Watchdog) : Watchdog :=
  if w.watching then
    { w with
      installed := false
      watching := false
      reported := if w.received then w.reported ++ w.latched else w.reported
      latched := []
      received := false
      breakPending := false }
  else w

/-- `sigintHandler`. -/
def Watchdog.sigintHandler (w : Watchdog) : Watchdog :=
  { w with
    received := true
    signals := w.signals + 1
    latched := w.latched ++ [w.signals]
    breakPending := w.breakPending || 0 < w.depth }

/-- `s_sigintReceived.store(false)` where the error is thrown. -/
def Watchdog.deliver (w : Watchdog) : Watchdog :=
  { w with received := false, delivered := w.delivered ++ w.latched, latched := [] }

/-- The innermost evaluation goes on to a phase. -/
def Watchdog.goto (w : Watchdog) (e : Evaluation) (rest : List Evaluation) (phase : Phase) :
    Watchdog :=
  { w with stack := { e with phase := phase } :: rest }

/-- The next step of `runInContext`. -/
def Watchdog.advance (w : Watchdog) (e : Evaluation) (rest : List Evaluation) :
    Option Watchdog :=
  match e.phase with
  | .running => none
  | .entering => some (w.goto e rest (if w.watching && w.received then .refused else .running))
  | .refused => some { w.goto e rest .refusedLeft with depth := w.depth - 1 }
  | .refusedLeft => some (w.deliver.goto e rest .refusedCleared)
  | .refusedCleared => some { w with breakPending := false, stack := rest }
  | .returned failed => some { w.goto e rest (.left failed) with depth := w.depth - 1 }
  | .left failed =>
      some
        { w.goto e rest (.checking failed (w.watching && w.breakPending)) with
          breakPending := !w.watching && w.breakPending }
  | .checking failed breakWasPending =>
      some
        (if failed && w.received && !breakWasPending then w.goto e rest .converting
        else { w with stack := rest })
  | .converting =>
      some { w.deliver with stack := rest, misattributed := w.misattributed || !e.consumed }

def Watchdog.step (w : Watchdog) : Action → Option Watchdog
  | .start => if w.jsRuns then some w.start else none
  | .startDone => if w.starting then some { w with starting := false, watching := true } else none
  | .stop => if w.jsRuns then some w.stop else none
  | .signal => if w.installed then some w.sigintHandler else none
  | .runInContext =>
      if w.jsRuns then
        some { w with depth := w.depth + 1, stack := ⟨.entering, false⟩ :: w.stack }
      else none
  | .consume =>
      if w.jsRuns && w.breakPending && !w.stack.isEmpty then
        some
          { w with
            breakPending := false
            stack := w.stack.map fun e => { e with consumed := true } }
      else none
  | .returns failed =>
      match w.stack with
      | [] => none
      | e :: rest => if w.jsRuns then some (w.goto e rest (.returned failed)) else none
  | .advance =>
      match w.stack with
      | [] => none
      | e :: rest => w.advance e rest

end HermesNode.Contextify
