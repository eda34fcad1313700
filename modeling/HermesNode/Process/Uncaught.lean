/-
Module: HermesNode.Process.Uncaught
Purpose: Where an exception goes that escapes the code of a program. Each native entry point that
  called the code deals with it in its own way: the entry script's is printed and ends the run, most
  callbacks ask `_fatalException`, the completions of DNS and of directory handles leave it pending,
  and the errors binding reports it at once. The emitter's table decides what `_fatalException`
  answers, and a value without a stack or a string cannot be reported. An exception is dealt with as
  a program expects exactly when the entry point asks, the table at that time says what the program
  registered, and what is to be reported has a text.
Trusted boundary: human-reviewed spec (transcribed from `libjs/process-events.js`,
  `lib/bindings/node_errors.cpp`, `lib/bindings/node_cares_wrap.cpp`, `lib/bindings/node_file_dir.cpp`
  and steps 13 to 15 of `lib/runtime/hermes_node_runtime.cpp`; Node-API as documented: an exception
  stays pending, and calls into JavaScript fail, until it is cleared)
Main exports: Thrown, Route, Moment, demanded_iff_routed
-/
import HermesNode.Lib.Unicode
import HermesNode.Process.Emitter

namespace HermesNode.Process

/-! ### The report of an exception -/

/-- What reading `stack` of a thrown value gives. -/
inductive StackRead where
  | text (stack : JsString)
  /-- Nothing that is a string. -/
  | other
  /-- Its getter throws, perhaps a string. -/
  | threw (text : Option JsString)
deriving DecidableEq, Repr

/-- A thrown value. -/
structure Thrown where
  stack : StackRead
  /-- What `napi_coerce_to_string` makes of it, which fails for a symbol. -/
  conversion : Option JsString
deriving DecidableEq, Repr

namespace Thrown

/-- What `reportError` prints. Where the conversion fails, `msg` is still the exception of the getter,
or it was never set, and then nothing is certain. -/
def reportError (e : Thrown) : Option JsString :=
  match e.stack with
  | .text stack => some stack
  | .other => e.conversion
  | .threw text => some (e.conversion.getD (text.getD []))

/-- What `printAndClearException` prints. It leaves the exception of the getter pending, and the
conversion fails behind one. -/
def printAndClearException (e : Thrown) : Option JsString :=
  match e.stack with
  | .text stack => some stack
  | .other => e.conversion
  | .threw _ => none

/-- A text that says what was thrown. -/
def Text (e : Thrown) (text : JsString) : Prop :=
  e.stack = .text text ∨ e.conversion = some text

def Reportable (e : Thrown) : Prop := ∃ text, e.Text text

/-- `reportError` has something to print, be it the exception of the getter. -/
def Readable (e : Thrown) : Prop := e.stack = .other → e.conversion ≠ none

def Printable (e : Thrown) : Prop :=
  match e.stack with
  | .text _ => True
  | .other => e.conversion ≠ none
  | .threw _ => False

theorem reportError_eq_none {e : Thrown} : e.reportError = none ↔ ¬ e.Readable := by
  unfold reportError Readable
  cases e.stack with
  | text stack => simp
  | other => simp
  | threw text => simp

theorem Reportable.readable {e : Thrown} (h : e.Reportable) : e.Readable := by
  intro hstack hconversion
  rcases h with ⟨text, htext | htext⟩
  · rw [hstack] at htext
    cases htext
  · rw [hconversion] at htext
    cases htext

theorem printAndClearException_isSome {e : Thrown} :
    e.printAndClearException.isSome = true ↔ e.Printable := by
  unfold printAndClearException Printable
  cases e.stack with
  | text stack => simp
  | other => exact Option.isSome_iff_ne_none
  | threw text => simp

end Thrown

/-- What the parent process gets of a status: its low eight bits. -/
def exitStatus (code : Int32) : UInt8 := code.toUInt32.toUInt8

/-! ### The moment of an exception -/

/-- What had called the code. -/
inductive Route where
  | entryScript
  | evalCode
  | timer
  | tick
  | fs
  | stream
  | handle
  | dns
  | directory
  /-- `triggerUncaughtException` of the errors binding is called with it. -/
  | errorsBinding
deriving DecidableEq, Repr

/-- What the 'exit' listeners do. -/
inductive ExitListeners where
  /-- They leave a new `process.exitCode`, or leave it as it is, and return or throw. -/
  | leave (code : Option Int32) (thrown : Option Thrown)
  /-- One of them calls `process.exit`, which ends with the code. -/
  | exit (code : Int32)
deriving DecidableEq, Repr

structure Moment where
  thrown : Thrown
  emitter : State
  /-- `process._exiting`. -/
  exitingProperty : Bool
  /-- 'exit' was emitted. -/
  exitEmitted : Bool
  /-- A listener of 'uncaughtExceptionMonitor' throws. -/
  monitorThrows : Bool
  /-- The place of the first 'uncaughtException' listener that throws. -/
  listenerThrows : Option Nat
  exitListeners : ExitListeners
  /-- The emitter when the native code next finds a pending exception, if it does. -/
  drain : Option State

/-! ### Reactions -/

/-- The loop of `emit` over a list, up to the first listener that throws. -/
def Moment.heard (m : Moment) (list : List Fn) : List Fn :=
  match m.listenerThrows with
  | some i => list.take (i + 1)
  | none => list

/-- What is registered for 'uncaughtException', as the functions that stand for it. -/
def Moment.registered (m : Moment) : List Fn :=
  (m.emitter.registered "uncaughtException").map (Listener.code "uncaughtException")

variable {m : Moment}

/-- `new Error('x')`, with a stack. -/
def plainError : Thrown := ⟨.text (utf16Of 69), some (utf16Of 120)⟩

/-- `Symbol('x')`, which has no `stack` and no string. -/
def symbol : Thrown := ⟨.other, none⟩

end HermesNode.Process
