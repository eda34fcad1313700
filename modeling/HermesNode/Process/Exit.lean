/-
Module: HermesNode.Process.Exit
Purpose: How a program ends. Its code runs in the entry script, in callbacks of the loop and in
  listeners; between them the end of the loop, `process.exit` and an exception that nobody takes each
  emit 'exit', run what is left of the loop and settle a status, each with a flag and a variable of
  its own. Kept beside them are how often 'exit' was emitted and the status that is due: the last one
  the program asked for since the last failure, else 1 after a failure. A number becomes an int32 on
  its way and a byte at its end. Where the routes do not meet in the places the condition names, 'exit'
  is emitted once and the status is the one due.
Trusted boundary: human-reviewed spec (transcribed from `lib/process/node_process.cpp`,
  `libjs/process-events.js`, `lib/bindings/node_errors.cpp` and steps 12c to 16 of
  `lib/runtime/hermes_node_runtime.cpp`; the listeners of an 'exit' or 'uncaughtException' event are
  one piece of code)
Main exports: Number, State, State.due, exit_runs_lawful
-/
import HermesNode.Lib.Machine
import HermesNode.Process.Uncaught

namespace HermesNode.Process.Exit

/-! ### Numbers -/

/-- A JavaScript number as the native code reads it, which cuts fractions and high bits off. -/
structure Number where
  int32 : Int32
  /-- It is the number. -/
  exact : Bool
deriving DecidableEq, Repr

namespace Number

def ofInt32 (code : Int32) : Number := ⟨code, true⟩

def ofStatus (status : UInt8) : Number := ofInt32 status.toUInt32.toInt32

/-- A process can end with it. -/
def IsStatus (n : Number) : Prop := n = ofStatus (exitStatus n.int32)

end Number

/-! ### States -/

/-- What the main thread is in. -/
inductive Base where
  /-- Steps 12c and 13: preloads, the script, eval code or a bundle. -/
  | script
  /-- Step 14. -/
  | loop
  /-- Step 15: the 'exit' listeners, with `process.exitCode` as it was before them. -/
  | emitting (before : Option Int32)
  /-- Step 15: the flush behind them. -/
  | flushing
  /-- Step 16. -/
  | cleanup
  /-- The 'exit' listeners of `process.exit`, which never returns. -/
  | exiting (code : Int32)
  /-- The flush of `process.exit`. -/
  | exitFlush (code : Int32)
  /-- The 'exit' listeners of `_fatalException`, before the exception is reported. -/
  | crashing (e : Thrown)
  | ended (status : UInt8)
  /-- A value was read that was never set. -/
  | undefined
deriving DecidableEq, Repr

/-- What a loop runs at the moment. -/
inductive Inside where
  | nothing
  | callback
  /-- The listeners of 'uncaughtExceptionMonitor' and 'uncaughtException'. -/
  | fatal (e : Thrown)
deriving DecidableEq, Repr

structure State where
  base : Base
  inside : Inside
  /-- The `exitCode` of the runtime. -/
  exitCode : Int32
  /-- `process.exitCode`, when it is a number. -/
  property : Option Number
  processExiting : Bool
  /-- `process._exiting`. -/
  exitingProperty : Bool
  /-- How often 'exit' was emitted. -/
  emits : Nat
  /-- The entry script or a preload failed, or an exception was not taken. -/
  failed : Bool
  /-- What the program asked for, by an argument or an assignment, since the last failure. -/
  wanted : Option Number
deriving DecidableEq, Repr

def initial : State where
  base := .script
  inside := .nothing
  exitCode := 0
  property := none
  processExiting := false
  exitingProperty := false
  emits := 0
  failed := false
  wanted := none

namespace State

/-- The status the program is entitled to. -/
def due (s : State) : Number := s.wanted.getD (.ofInt32 (if s.failed then 1 else 0))

/-- `readProcessExitCode` -/
def code (s : State) : Option Int32 := s.property.map Number.int32

def fail (s : State) : State := { s with failed := true, wanted := none }

/-- Code of the program is on top. -/
def runsCode (s : State) : Bool :=
  match s.inside, s.base with
  | .callback, _ | .fatal _, _ => true
  | .nothing, .script | .nothing, .emitting _ | .nothing, .exiting _ | .nothing, .crashing _ => true
  | .nothing, _ => false

/-- A loop is on top and may call back. -/
def runsLoop (s : State) : Bool :=
  match s.inside, s.base with
  | .nothing, .loop | .nothing, .flushing | .nothing, .cleanup | .nothing, .exitFlush _ => true
  | _, _ => false

/-! ### The end of the loop -/

/-- Step 15 up to the 'exit' listeners. -/
def naturalEnd (s : State) : State :=
  { s with
    base := .emitting s.code
    inside := .nothing
    exitCode := if s.exitCode = 0 then s.code.getD s.exitCode else s.exitCode
    processExiting := true
    emits := s.emits + 1 }

/-- What step 15 makes of `process.exitCode` behind the listeners. -/
def settled (s : State) (before : Option Int32) : Int32 :=
  if s.code ≠ before then s.code.getD s.exitCode else s.exitCode

/-! ### process.exit -/

/-- `process.exit` with an argument that passed the checks, or without one. A call that is not made on
`process` has no property to read or to set, and no `emit` to call. -/
def processExit (s : State) (onProcess : Bool) (arg : Option Number) : State :=
  let code := (arg.map Number.int32).getD ((if onProcess then s.code else none).getD 0)
  let asked := { s with inside := .nothing, wanted := arg.or s.wanted }
  if s.processExiting then { asked with base := .exitFlush code }
  else if onProcess then
    { asked with
      base := .exiting code
      property := some (.ofInt32 code)
      processExiting := true
      emits := s.emits + 1 }
  else { asked with base := .exitFlush code, processExiting := true }

/-! ### Exceptions -/

/-- Behind `reportError`. -/
def reported (s : State) (e : Thrown) : State :=
  { s with base := if e.reportError.isSome then .ended 1 else .undefined, inside := .nothing }

/-- Behind `printAndClearException`. -/
def printed (s : State) (e : Thrown) : State :=
  if e.printAndClearException.isSome then s else { s with base := .undefined, inside := .nothing }

/-- `triggerUncaughtException` reports and leaves. -/
def crash (s : State) (e : Thrown) : State := s.fail.reported e

/-- `_fatalException` when no listener took the exception. -/
def notTaken (s : State) (e : Thrown) : State :=
  if s.exitingProperty then s.crash e
  else
    { s with
      base := .crashing e
      inside := .nothing
      property := some (.ofInt32 1)
      exitingProperty := true
      emits := s.emits + 1 }.fail

/-- Code on top returns. -/
def returns (s : State) : Option State :=
  match s.inside, s.base with
  | .callback, _ => some { s with inside := .nothing }
  | .fatal _, _ => none
  | .nothing, .script => some { s with base := .loop }
  | .nothing, .emitting before =>
      some { s with base := .flushing, exitCode := s.settled before }
  | .nothing, .exiting code => some { s with base := .exitFlush (s.code.getD code) }
  | .nothing, .crashing e => some (s.reported e)
  | .nothing, _ => none

/-- An exception leaves the code on top. Behind 'exit' listeners it is printed or dropped, and what a
listener of 'uncaughtException' throws is dropped for the exception it was called with. -/
def throws (s : State) (e : Thrown) : Option State :=
  match s.inside, s.base with
  | .callback, _ => some { s with inside := .fatal e }
  | .fatal first, _ => some (s.crash first)
  | .nothing, .script => some ({ s with exitCode := 1 }.fail.naturalEnd.printed e)
  | .nothing, .emitting before =>
      some ({ s with base := .flushing, exitCode := s.settled before }.fail.printed e)
  | .nothing, .exiting code => some { s with base := .exitFlush (s.code.getD code) }.fail
  | .nothing, .crashing first => some (s.crash first)
  | .nothing, _ => none

/-- Nothing keeps the loop. -/
def loopEnds (s : State) : Option State :=
  match s.inside, s.base with
  | .nothing, .loop => some s.naturalEnd
  | .nothing, .flushing => some { s with base := .cleanup }
  | .nothing, .cleanup => some { s with base := .ended (exitStatus s.exitCode) }
  | .nothing, .exitFlush code => some { s with base := .ended (exitStatus code) }
  | _, _ => none

end State

/-! ### Steps -/

inductive Event where
  /-- The code on top assigns `process.exitCode`, perhaps something that is not a number. -/
  | assign (value : Option Number)
  | exit (onProcess : Bool) (arg : Option Number)
  | returns
  | throws (e : Thrown)
  /-- The loop on top calls back. -/
  | callback
  | loopEnds
  /-- The 'uncaughtException' event is over: did a listener take the exception? -/
  | handled (taken : Bool)
  /-- The code on top calls `triggerUncaughtException` of the errors binding. -/
  | triggerUncaught (e : Thrown)

def step (s : State) : Event → Option State
  | .assign value =>
      if s.runsCode then some { s with property := value, wanted := value } else none
  | .exit onProcess arg => if s.runsCode then some (s.processExit onProcess arg) else none
  | .returns => s.returns
  | .throws e => s.throws e
  | .callback => if s.runsLoop then some { s with inside := .callback } else none
  | .loopEnds => s.loopEnds
  | .handled taken =>
      match s.inside with
      | .fatal e => some (if taken then { s with inside := .nothing } else s.notTaken e)
      | _ => none
  | .triggerUncaught e => if s.runsCode then some (s.crash e) else none

/-- 'exit' is emitted once, and the status is the one that is due. -/
structure Lawful (s : State) : Prop where
  emits : s.emits ≤ 1
  defined : s.base ≠ .undefined
  ended : ∀ status, s.base = .ended status → s.emits = 1 ∧ s.due = .ofStatus status

/-! ### The condition -/

namespace State

/-- The code that is already settled. -/
def inForce (s : State) : Option Int32 :=
  match s.base with
  | .flushing | .cleanup => some s.exitCode
  | .exitFlush code => some code
  | _ => none

/-- An assignment behind the 'exit' listeners asks for what is settled. -/
def AssignSafe (s : State) (value : Option Number) : Prop :=
  ∀ code ∈ s.inForce, { s with wanted := value }.due.int32 = code

def isCrashing (s : State) : Bool :=
  match s.base with
  | .crashing _ => true
  | _ => false

/-- `process.exit` is not called by the 'exit' listeners of a crash, nor off `process` before 'exit'
was emitted; and without an argument only where what it reads is due. -/
def ExitSafe (s : State) (onProcess : Bool) (arg : Option Number) : Prop :=
  s.isCrashing = false ∧ (onProcess = false → s.processExiting = true) ∧
    (arg = none → (if onProcess then s.code else none).getD 0 = s.due.int32)

/-- The 'exit' listeners leave a number, or none where 0 is in force; after a failure they do not
assign what was there before, and in a crash nothing but 1. -/
def ReturnSafe (s : State) : Prop :=
  match s.inside, s.base with
  | .nothing, .emitting before =>
      (s.failed = false → s.property = none → s.exitCode = 0) ∧
        (s.failed = true → s.code = before → s.due.int32 = 1)
  | .nothing, .exiting code => s.property = none → code = 0
  | .nothing, .crashing e => s.property.getD (.ofInt32 1) = .ofInt32 1 ∧ e.Readable
  | _, _ => True

/-- No 'exit' listener throws unless 1 is in force, and no 'uncaughtException' listener before 'exit'
was emitted; and what has to be printed can be. -/
def ThrowSafe (s : State) (e : Thrown) : Prop :=
  match s.inside, s.base with
  | .nothing, .script => e.Printable
  | .nothing, .emitting before => s.settled before = 1 ∧ e.Printable
  | .nothing, .exiting code => s.code.getD code = 1
  | .nothing, .crashing first => first.Readable
  | .fatal first, _ => s.processExiting = true ∧ first.Readable
  | _, _ => True

/-- What is due at the end is a status. -/
def EndSafe (s : State) : Prop :=
  match s.inside, s.base with
  | .nothing, .cleanup | .nothing, .exitFlush _ => s.due.IsStatus
  | _, _ => True

end State

def Careful (s : State) : Event → Prop
  | .assign value => s.AssignSafe value
  | .exit onProcess arg => s.ExitSafe onProcess arg
  | .returns => s.ReturnSafe
  | .throws e => s.ThrowSafe e
  | .callback => True
  | .loopEnds => s.EndSafe
  -- no exception goes untaken once 'exit' was emitted
  | .handled taken => taken = false → s.processExiting = false
  -- the errors binding is not called before
  | .triggerUncaught e => (s.processExiting = true ∨ s.isCrashing = true) ∧ e.Readable

/-! ### The invariant -/

namespace State

/-- Nobody has asked for an end. -/
structure Fresh (s : State) : Prop where
  exitCode : s.exitCode = 0
  processExiting : s.processExiting = false
  exitingProperty : s.exitingProperty = false
  emits : s.emits = 0
  failed : s.failed = false
  agrees : s.code.getD 0 = (s.wanted.map Number.int32).getD 0

/-- The native code has emitted 'exit'. -/
structure Leaving (s : State) : Prop where
  processExiting : s.processExiting = true
  exitingProperty : s.exitingProperty = false
  emits : s.emits = 1

/-- Before a failure the property is what the program asked for. -/
def Agrees (s : State) : Prop :=
  s.failed = false → s.code.getD 0 = (s.wanted.map Number.int32).getD 0

end State

def Inv (s : State) : Prop :=
  match s.base with
  | .script => s.inside = .nothing ∧ s.Fresh
  | .loop => s.Fresh
  | .emitting before =>
      s.inside = .nothing ∧ s.Leaving ∧ s.Agrees ∧
        (s.failed = false → s.exitCode = before.getD 0) ∧
        (s.failed = true → s.exitCode = 1 ∧
          (s.property = s.wanted ∨ s.wanted = none ∧ s.code = before))
  | .flushing | .cleanup => s.Leaving ∧ s.exitCode = s.due.int32
  | .exiting _ => s.inside = .nothing ∧ s.Leaving ∧ s.Agrees ∧ s.failed = false
  | .exitFlush code => s.Leaving ∧ code = s.due.int32
  | .crashing _ =>
      s.inside = .nothing ∧ s.emits = 1 ∧ s.failed = true ∧
        s.wanted.getD (.ofInt32 1) = s.property.getD (.ofInt32 1)
  | .ended status => s.inside = .nothing ∧ s.emits = 1 ∧ s.due = .ofStatus status
  | .undefined => False

theorem Inv.initial : Inv initial := ⟨rfl, rfl, rfl, rfl, rfl, rfl, rfl⟩

theorem Inv.lawful {s : State} (h : Inv s) : Lawful s := by
  constructor
  · unfold Inv at h
    split at h
    · have hemits := h.2.emits
      omega
    · have hemits := h.emits
      omega
    · have hemits := h.2.1.emits
      omega
    · have hemits := h.1.emits
      omega
    · have hemits := h.1.emits
      omega
    · have hemits := h.2.1.emits
      omega
    · have hemits := h.1.emits
      omega
    · have hemits := h.2.1
      omega
    · have hemits := h.2.1
      omega
    · exact h.elim
  · intro hbase
    rw [Inv, hbase] at h
    exact h
  · intro status hbase
    rw [Inv, hbase] at h
    exact h.2

namespace Inv

variable {s t : State}

theorem assign (h : Inv s) {value : Option Number} (hruns : s.runsCode = true)
    (hsafe : s.AssignSafe value) : Inv { s with property := value, wanted := value } := by
  rcases s with ⟨base, inside, exitCode, property, processExiting, exitingProperty, emits, failed,
    wanted⟩
  cases base with
  | script => exact ⟨h.1, { h.2 with agrees := rfl }⟩
  | loop => exact { exitCode := h.exitCode, processExiting := h.processExiting,
                    exitingProperty := h.exitingProperty, emits := h.emits, failed := h.failed,
                    agrees := rfl }
  | emitting before =>
      rcases h with ⟨hinside, hleaving, _, hzero, hone⟩
      exact ⟨hinside, ⟨hleaving.1, hleaving.2, hleaving.3⟩, fun _ => rfl, hzero,
        fun hfailed => ⟨(hone hfailed).1, .inl rfl⟩⟩
  | flushing | cleanup =>
      exact ⟨⟨h.1.1, h.1.2, h.1.3⟩, (hsafe _ rfl).symm⟩
  | exiting code => exact ⟨h.1, ⟨h.2.1.1, h.2.1.2, h.2.1.3⟩, fun _ => rfl, h.2.2.2⟩
  | exitFlush code => exact ⟨⟨h.1.1, h.1.2, h.1.3⟩, (hsafe _ rfl).symm⟩
  | crashing e => exact ⟨h.1, h.2.1, h.2.2.1, rfl⟩
  | ended status =>
      cases h.1
      cases hruns
  | undefined => exact h.elim

/-- What `process.exit` takes is due, once the program has asked for it. -/
theorem exit_due {onProcess : Bool} {arg : Option Number}
    (hsafe : arg = none → (if onProcess then s.code else none).getD 0 = s.due.int32) :
    (arg.map Number.int32).getD ((if onProcess then s.code else none).getD 0) =
      { s with wanted := arg.or s.wanted }.due.int32 := by
  cases arg with
  | none => exact hsafe rfl
  | some code => rfl

theorem exitAgain (hleaving : s.Leaving) {onProcess : Bool} {arg : Option Number}
    (hsafe : s.ExitSafe onProcess arg) : Inv (s.processExit onProcess arg) := by
  unfold State.processExit
  rw [if_pos hleaving.processExiting]
  exact ⟨⟨hleaving.1, hleaving.2, hleaving.3⟩, exit_due hsafe.2.2⟩

theorem exitFirst (hfresh : s.Fresh) {onProcess : Bool} {arg : Option Number}
    (hsafe : s.ExitSafe onProcess arg) : Inv (s.processExit onProcess arg) := by
  rcases hsafe with ⟨_, hon, hdue⟩
  unfold State.processExit
  rw [if_neg (by rw [hfresh.processExiting]; decide)]
  cases onProcess with
  | false => exact absurd (hon rfl) (by rw [hfresh.processExiting]; decide)
  | true =>
      refine ⟨rfl, ⟨rfl, hfresh.exitingProperty, ?_⟩, fun _ => ?_, hfresh.failed⟩
      · show s.emits + 1 = 1
        rw [hfresh.emits]
      · refine (exit_due hdue).trans ?_
        unfold State.due
        rw [hfresh.failed]
        cases arg.or s.wanted <;> rfl

theorem exit (h : Inv s) {onProcess : Bool} {arg : Option Number} (hruns : s.runsCode = true)
    (hsafe : s.ExitSafe onProcess arg) : Inv (s.processExit onProcess arg) := by
  unfold Inv at h
  split at h
  · exact exitFirst h.2 hsafe
  · exact exitFirst h hsafe
  · exact exitAgain h.2.1 hsafe
  · exact exitAgain h.1 hsafe
  · exact exitAgain h.1 hsafe
  · exact exitAgain h.2.1 hsafe
  · exact exitAgain h.1 hsafe
  · rename_i hbase
    have hcrashing := hsafe.1
    rw [State.isCrashing, hbase] at hcrashing
    cases hcrashing
  · rename_i hbase
    rw [State.runsCode, h.1, hbase] at hruns
    cases hruns
  · exact h.elim

/-! ### The end of the loop -/

theorem naturalEnd (hcode : s.exitCode = 0) (hproperty : s.exitingProperty = false)
    (hemits : s.emits = 0) (hfailed : s.failed = false)
    (hagrees : s.code.getD 0 = (s.wanted.map Number.int32).getD 0) : Inv s.naturalEnd := by
  unfold State.naturalEnd
  refine ⟨rfl, ⟨rfl, hproperty, ?_⟩, fun _ => hagrees, fun _ => ?_, fun h => ?_⟩
  · show s.emits + 1 = 1
    rw [hemits]
  · show (if s.exitCode = 0 then s.code.getD s.exitCode else s.exitCode) = s.code.getD 0
    rw [if_pos hcode, hcode]
  · exact absurd (hfailed.symm.trans h) (by decide)

theorem failedEnd (h : s.Fresh) : Inv { s with exitCode := 1 }.fail.naturalEnd := by
  unfold State.naturalEnd State.fail
  refine ⟨rfl, ⟨rfl, h.exitingProperty, ?_⟩, fun hf => ?_, fun hf => ?_, fun _ => ⟨rfl, ?_⟩⟩
  · show s.emits + 1 = 1
    rw [h.emits]
  · cases hf
  · cases hf
  · exact .inr ⟨rfl, rfl⟩

theorem settled_due {before : Option Int32} (hagrees : s.Agrees)
    (hzero : s.failed = false → s.exitCode = before.getD 0)
    (hone : s.failed = true → s.exitCode = 1 ∧
      (s.property = s.wanted ∨ s.wanted = none ∧ s.code = before))
    (hnone : s.failed = false → s.property = none → s.exitCode = 0)
    (hsame : s.failed = true → s.code = before → s.due.int32 = 1) :
    s.settled before = s.due.int32 := by
  unfold State.settled
  cases hfailed : s.failed with
  | false =>
      have hdue : s.due.int32 = s.code.getD 0 := by
        rw [hagrees hfailed, State.due, hfailed]
        cases s.wanted <;> rfl
      have hcode := hzero hfailed
      rw [hdue]
      cases hproperty : s.property with
      | none =>
          have hread : s.code = none := by rw [State.code, hproperty]; rfl
          have hnought := hnone hfailed hproperty
          simp [hnought, hread]
      | some value =>
          have hread : s.code = some value.int32 := by rw [State.code, hproperty]; rfl
          split
          · rw [hread]
            rfl
          · rename_i heq
            rw [hcode, ← not_ne_iff.1 heq]
  | true =>
      rcases hone hfailed with ⟨hcode, hwanted⟩
      by_cases hbefore : s.code = before
      · rw [if_neg (not_ne_iff.2 hbefore), hcode]
        exact (hsame hfailed hbefore).symm
      · rw [if_pos hbefore, hcode]
        rcases hwanted with hwanted | ⟨_, hread⟩
        · rw [State.code, State.due, hwanted, hfailed]
          cases s.wanted <;> rfl
        · exact absurd hread hbefore

/-- A report that has something to print ends with 1. -/
theorem reported {e : Thrown} (hread : e.Readable) (hemits : s.emits = 1)
    (hdue : s.due = .ofInt32 1) : Inv (s.reported e) := by
  have hsome : e.reportError.isSome = true := by
    rw [Option.isSome_iff_ne_none, ne_eq, Thrown.reportError_eq_none]
    exact not_not_intro hread
  unfold State.reported
  rw [hsome]
  exact ⟨rfl, hemits, hdue⟩

theorem crash {e : Thrown} (hread : e.Readable) (hemits : s.emits = 1) : Inv (s.crash e) :=
  reported hread hemits rfl

theorem printed {e : Thrown} (hprint : e.Printable) (h : Inv s) : Inv (s.printed e) := by
  unfold State.printed
  rw [Thrown.printAndClearException_isSome.2 hprint]
  exact h

/-- A callback, or the listeners for its exception, can begin and end only on the loop. -/
theorem within {inside : Inside} (h : Inv s) (hloop : s.inside = .nothing → s.runsLoop = true) :
    Inv { s with inside } := by
  rcases s with ⟨base, inside', exitCode, property, processExiting, exitingProperty, emits, failed,
    wanted⟩
  cases base with
  | loop => exact ⟨h.1, h.2, h.3, h.4, h.5, h.6⟩
  | flushing | cleanup | exitFlush => exact ⟨⟨h.1.1, h.1.2, h.1.3⟩, h.2⟩
  | script | emitting | exiting | crashing | ended =>
      cases h.1
      cases hloop rfl
  | undefined => exact h.elim

theorem returns (h : Inv s) (hsafe : s.ReturnSafe) (ht : s.returns = some t) : Inv t := by
  rcases s with ⟨base, inside, exitCode, property, processExiting, exitingProperty, emits, failed,
    wanted⟩
  cases inside with
  | callback =>
      cases ht
      exact h.within Inside.noConfusion
  | fatal first => cases ht
  | nothing =>
      cases base with
      | script =>
          cases ht
          rcases h with ⟨_, hfresh⟩
          exact ⟨hfresh.1, hfresh.2, hfresh.3, hfresh.4, hfresh.5, hfresh.6⟩
      | emitting before =>
          cases ht
          rcases h with ⟨_, hleaving, hagrees, hzero, hone⟩
          exact ⟨⟨hleaving.1, hleaving.2, hleaving.3⟩,
            settled_due hagrees hzero hone hsafe.1 hsafe.2⟩
      | exiting code =>
          cases ht
          rcases h with ⟨_, hleaving, hagrees, hfailed⟩
          refine ⟨⟨hleaving.1, hleaving.2, hleaving.3⟩, ?_⟩
          cases hfailed
          have hdue : (wanted.map Number.int32).getD 0 = (wanted.getD (.ofInt32 0)).int32 := by
            cases wanted <;> rfl
          cases property with
          | none =>
              cases hsafe rfl
              exact (hagrees rfl).trans hdue
          | some value => exact (hagrees rfl).trans hdue
      | crashing first =>
          cases ht
          rcases h with ⟨_, hemits, hfailed, hwanted⟩
          cases hfailed
          exact reported hsafe.2 hemits (hwanted.trans hsafe.1)
      | loop | flushing | cleanup | exitFlush | ended | undefined => cases ht

theorem emits_one (h : Inv s) (hexit : s.processExiting = true ∨ s.isCrashing = true) :
    s.emits = 1 := by
  unfold Inv at h
  split at h
  · rename_i hbase
    rw [State.isCrashing, hbase, h.2.processExiting] at hexit
    simp at hexit
  · rename_i hbase
    rw [State.isCrashing, hbase, h.processExiting] at hexit
    simp at hexit
  · exact h.2.1.emits
  · exact h.1.emits
  · exact h.1.emits
  · exact h.2.1.emits
  · exact h.1.emits
  · exact h.2.1
  · exact h.2.1
  · exact h.elim

theorem throws (h : Inv s) {e : Thrown} (hsafe : s.ThrowSafe e) (ht : s.throws e = some t) :
    Inv t := by
  rcases s with ⟨base, inside, exitCode, property, processExiting, exitingProperty, emits, failed,
    wanted⟩
  cases inside with
  | callback =>
      cases ht
      exact h.within Inside.noConfusion
  | fatal first =>
      cases ht
      have hexiting : processExiting = true := hsafe.1
      cases base with
      | loop => exact absurd (h.processExiting.symm.trans hexiting) (by decide)
      | flushing | cleanup | exitFlush => exact crash hsafe.2 h.1.emits
      | script | emitting | exiting | crashing | ended => cases h.1
      | undefined => exact h.elim
  | nothing =>
      cases base with
      | script =>
          cases ht
          exact printed hsafe (failedEnd h.2)
      | emitting before =>
          cases ht
          exact printed hsafe.2 ⟨⟨h.2.1.1, h.2.1.2, h.2.1.3⟩, hsafe.1⟩
      | exiting code =>
          cases ht
          exact ⟨⟨h.2.1.1, h.2.1.2, h.2.1.3⟩, hsafe⟩
      | crashing first =>
          cases ht
          exact crash hsafe h.2.1
      | loop | flushing | cleanup | exitFlush | ended | undefined => cases ht

/-- What is due is what the low eight bits say. -/
theorem ends {code : Int32} (hemits : s.emits = 1) (hcode : code = s.due.int32)
    (hsafe : s.due.IsStatus) : s.emits = 1 ∧ s.due = .ofStatus (exitStatus code) := by
  rw [hcode]
  exact ⟨hemits, hsafe⟩

theorem loopEnds (h : Inv s) (hsafe : s.EndSafe) (ht : s.loopEnds = some t) : Inv t := by
  rcases s with ⟨base, inside, exitCode, property, processExiting, exitingProperty, emits, failed,
    wanted⟩
  cases inside with
  | callback => cases ht
  | fatal first => cases ht
  | nothing =>
      cases base with
      | loop =>
          cases ht
          exact naturalEnd h.exitCode h.exitingProperty h.emits h.failed h.agrees
      | flushing =>
          cases ht
          exact ⟨⟨h.1.1, h.1.2, h.1.3⟩, h.2⟩
      | cleanup | exitFlush =>
          cases ht
          exact ⟨rfl, ends h.1.emits h.2 hsafe⟩
      | script | emitting | exiting | crashing | ended | undefined => cases ht

theorem handled (h : Inv s) {taken : Bool} {e : Thrown} (hinside : s.inside = .fatal e)
    (hsafe : taken = false → s.processExiting = false) :
    Inv (if taken then { s with inside := .nothing } else s.notTaken e) := by
  rcases s with ⟨base, inside, exitCode, property, processExiting, exitingProperty, emits, failed,
    wanted⟩
  cases hinside
  cases taken with
  | true => exact h.within Inside.noConfusion
  | false =>
      have hexiting : processExiting = false := hsafe rfl
      cases base with
      | loop =>
          have hproperty : exitingProperty = false := h.exitingProperty
          have hemits : emits = 0 := h.emits
          subst hproperty hemits
          exact ⟨rfl, rfl, rfl, rfl⟩
      | flushing | cleanup | exitFlush =>
          exact absurd (h.1.processExiting.symm.trans hexiting) (by decide)
      | script | emitting | exiting | crashing | ended => cases h.1
      | undefined => exact h.elim

/-- Every allowed step keeps the invariant. -/
theorem step {e : Event} (h : Inv s) (hcareful : Careful s e) (ht : step s e = some t) :
    Inv t := by
  cases e with
  | assign value =>
      rcases Option.ite_none_right_eq_some.1 ht with ⟨hruns, hsome⟩
      cases hsome
      exact h.assign hruns hcareful
  | exit onProcess arg =>
      rcases Option.ite_none_right_eq_some.1 ht with ⟨hruns, hsome⟩
      cases hsome
      exact h.exit hruns hcareful
  | returns => exact h.returns hcareful ht
  | throws e => exact h.throws hcareful ht
  | callback =>
      rcases Option.ite_none_right_eq_some.1 ht with ⟨hruns, hsome⟩
      cases hsome
      exact h.within fun _ => hruns
  | loopEnds => exact h.loopEnds hcareful ht
  | handled taken =>
      simp only [Exit.step] at ht
      split at ht
      · rename_i first hinside
        cases ht
        exact h.handled hinside hcareful
      · cases ht
  | triggerUncaught e =>
      rcases Option.ite_none_right_eq_some.1 ht with ⟨_, hsome⟩
      cases hsome
      exact crash hcareful.2 (h.emits_one hcareful.1)

end Inv

/-! ### Runs -/

/-- In every run whose steps all meet the condition, 'exit' is emitted once and the status is the
one that is due. -/
theorem exit_runs_lawful {events : List Event} {s : State}
    (run : GuardedRun step Careful initial events s) : Lawful s := by
  have hinv : Inv s :=
    run.invariant (fun _ _ _ h hcareful ht => h.step hcareful ht) Inv.initial
  exact hinv.lawful

/-- A callback sets the code and exits, an 'exit' listener sets another. -/
def plainExit : List Event :=
  [.returns, .callback, .assign (some (.ofInt32 3)), .exit true none, .assign (some (.ofInt32 4)),
    .returns, .callback, .returns, .loopEnds]

theorem plainExit_lawful :
    ∃ s, GuardedRun step Careful initial plainExit s ∧ s.base = .ended 4 ∧ Lawful s := by
  have hrun : GuardedRun step Careful initial plainExit _ :=
    ((((((((GuardedRun.start.next trivial rfl).next trivial rfl).next
      (fun _ h => by cases h) rfl).next ⟨by decide, by decide, fun _ => rfl⟩ rfl).next
      (fun _ h => by cases h) rfl).next (fun h => by cases h) rfl).next trivial rfl).next
      trivial rfl).next (by exact rfl) rfl
  exact ⟨_, hrun, rfl, exit_runs_lawful hrun⟩

/-- The script throws; an 'exit' listener calls `process.exit()`. -/
def failedThenExit : List Event := [.throws plainError, .exit true none, .loopEnds]

/-- Nobody takes the exception of a callback; an 'exit' listener calls `process.exit(5)`. -/
def exitInCrash : List Event :=
  [.returns, .callback, .throws plainError, .handled false, .exit true (some (.ofInt32 5))]

/-- Nobody takes the exception of a callback; an 'exit' listener sets the code to 3. -/
def assignInCrash : List Event :=
  [.returns, .callback, .throws plainError, .handled false, .assign (some (.ofInt32 3)), .returns]

/-- Nobody takes the exception of a callback of the last flush. -/
def throwInFlush : List Event :=
  [.returns, .loopEnds, .returns, .callback, .throws plainError, .handled false]

/-- The script throws; an 'exit' listener sets the code to 256. -/
def assignTooMuch : List Event :=
  [.throws plainError, .assign (some (.ofInt32 256)), .returns, .loopEnds, .loopEnds]

/-- The script throws a symbol. -/
def throwSymbol : List Event := [.throws symbol]

/-- A failed run ends with status 0 although nobody asked for it, 'exit' is emitted twice by two pairs
of routes, an assignment behind the failure is ignored, or comes to 0, and a symbol leaves nothing
certain. -/
theorem exit_goes_wrong :
    (∃ s, runEvents step initial failedThenExit = some s ∧ s.base = .ended 0 ∧
      s.due = .ofInt32 1) ∧
    (∃ s, runEvents step initial exitInCrash = some s ∧ s.emits = 2) ∧
    (∃ s, runEvents step initial assignInCrash = some s ∧ s.base = .ended 1 ∧
      s.due = .ofInt32 3) ∧
    (∃ s, runEvents step initial throwInFlush = some s ∧ s.emits = 2) ∧
    (∃ s, runEvents step initial assignTooMuch = some s ∧ s.base = .ended 0 ∧
      s.due = .ofInt32 256) ∧
    (∃ s, runEvents step initial throwSymbol = some s ∧ s.base = .undefined) :=
  ⟨⟨_, rfl, rfl, rfl⟩, ⟨_, rfl, rfl⟩, ⟨_, rfl, rfl, rfl⟩, ⟨_, rfl, rfl⟩, ⟨_, rfl, rfl, rfl⟩,
    ⟨_, rfl, rfl⟩⟩

end HermesNode.Process.Exit
