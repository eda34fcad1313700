/-
Module: HermesNode.Process.Emitter
Purpose: The event emitter on `process`. A state holds the table of handlers, the stack of what is
  running (program code, an `emit` between two listeners, an `on` that announces its listener) and,
  beside them, what a program may expect: the listeners it registered and not yet lost, the calls of
  its once listeners, and how every finished `emit` and `on` went.
Trusted boundary: human-reviewed spec (transcribed from `libjs/process-events.js`; the keys a plain
  object inherits as in ECMAScript)
Main exports: Fn, Listener, Op, Event
-/
import Mathlib.Logic.Function.Basic
import HermesNode.Lib.Machine

namespace HermesNode.Process

/-- A function that can stand in the table: one of the program's, or the `wrapper` that `once`
makes. Every wrapper is a new function, which its number says. -/
inductive Fn where
  | user (code : Nat)
  | wrapper (id : Nat) (event : String) (fn : Fn)
deriving DecidableEq, Repr

def Fn.isWrapper : Fn → Bool
  | .user _ => false
  | .wrapper .. => true

/-- What a program registered: a function, and for a once listener the number of its wrapper. -/
structure Listener where
  once : Option Nat
  fn : Fn
deriving DecidableEq, Repr

/-- The function that stands in the table for a listener. -/
def Listener.code (event : String) (l : Listener) : Fn :=
  match l.once with
  | none => l.fn
  | some id => .wrapper id event l.fn

/-! ### The table -/

/-- The own properties of `handlers`. -/
abbrev Handlers := String → Option (List Fn)

/-- The keys that `{}` inherits; none of them has a falsy value. -/
def inheritedKeys : List String :=
  ["constructor", "hasOwnProperty", "isPrototypeOf", "propertyIsEnumerable", "toLocaleString",
    "toString", "valueOf", "__proto__", "__defineGetter__", "__defineSetter__",
    "__lookupGetter__", "__lookupSetter__"]

/-- What `handlers[event]` evaluates to. -/
inductive Slot where
  | absent
  | list (l : List Fn)
  /-- A function or `Object.prototype`: truthy, but without `push`, `indexOf` or `slice`. -/
  | inherited

def Handlers.get (handlers : Handlers) (event : String) : Slot :=
  match handlers event with
  | some l => .list l
  | none => if event ∈ inheritedKeys then .inherited else .absent

/-- `if (!handlers[event]) handlers[event] = []`. -/
def Handlers.ensure (handlers : Handlers) (event : String) : Handlers :=
  match handlers.get event with
  | .absent => Function.update handlers event (some [])
  | .list _ | .inherited => handlers

/-- `push` or `unshift` on `handlers[event]`; `none` is a TypeError. -/
def Handlers.add (handlers : Handlers) (prepend : Bool) (event : String) (fn : Fn) :
    Option Handlers :=
  match handlers.get event with
  | .absent | .inherited => none
  | .list l => some (Function.update handlers event (some (if prepend then fn :: l else l ++ [fn])))

/-- `process.off`: the first occurrence is spliced out; `none` is a TypeError. -/
def Handlers.off (handlers : Handlers) (event : String) (fn : Fn) : Option Handlers :=
  match handlers.get event with
  | .absent => some handlers
  | .inherited => none
  | .list l => some (Function.update handlers event (some (l.erase fn)))

/-! ### States -/

/-- An `emit` that is over: `none` is an exception. -/
structure Emit where
  event : String
  atStart : List Listener
  called : List Fn
  result : Option Bool

inductive Frame where
  /-- Program code: the main program or a listener. -/
  | code
  /-- The loop of `emit` over its copy of the list. -/
  | emitting (event : String) (atStart : List Listener) (called rest : List Fn)
  /-- `on` or `prependListener` behind its 'newListener' event. -/
  | registering (prepend : Bool) (event : String) (listener : Listener)

structure State where
  handlers : Handlers
  nextId : Nat
  /-- What runs, innermost first. -/
  stack : List Frame
  /-- What the program registered and has not removed, by the meaning of the operations. -/
  registered : String → List Listener
  /-- The once wrappers that were called. -/
  fired : List Fn
  emits : List Emit
  /-- For every finished registration, whether it returned. -/
  ons : List Bool

def initial : State where
  handlers _ := none
  nextId := 0
  stack := [.code]
  registered _ := []
  fired := []
  emits := []
  ons := []

/-! ### Operations -/

inductive Op where
  | on (event : String) (fn : Fn)
  | prependListener (event : String) (fn : Fn)
  | once (event : String) (fn : Fn)
  | prependOnceListener (event : String) (fn : Fn)
  | off (event : String) (fn : Fn)
  | emit (event : String)
  | removeAllListeners (event : Option String)

namespace State

/-- `process.emit` up to its first listener. -/
def emit (s : State) (event : String) : State :=
  match s.handlers.get event with
  | .absent => { s with emits := ⟨event, s.registered event, [], some false⟩ :: s.emits }
  | .inherited => { s with emits := ⟨event, s.registered event, [], none⟩ :: s.emits }
  | .list l => { s with stack := .emitting event (s.registered event) [] l :: s.stack }

/-- `on` and `prependListener` up to the point where the list is changed. -/
def register (s : State) (prepend : Bool) (event : String) (listener : Listener) : State :=
  let s := { s with
    handlers := s.handlers.ensure event
    stack := .registering prepend event listener :: s.stack }
  if event ≠ "newListener" then s.emit "newListener" else s

def on (s : State) (event : String) (fn : Fn) : State :=
  s.register false event ⟨none, fn⟩

def prependListener (s : State) (event : String) (fn : Fn) : State :=
  s.register true event ⟨none, fn⟩

def once (s : State) (event : String) (fn : Fn) : State :=
  { s with nextId := s.nextId + 1 }.register false event ⟨some s.nextId, fn⟩

def prependOnceListener (s : State) (event : String) (fn : Fn) : State :=
  { s with nextId := s.nextId + 1 }.register true event ⟨some s.nextId, fn⟩

/-- One registration of `fn` less, whether it was made with `on` or with `once`. -/
def forget (fn : Fn) (listeners : List Listener) : List Listener :=
  if ⟨none, fn⟩ ∈ listeners then listeners.erase ⟨none, fn⟩
  else listeners.eraseP fun l => l.fn = fn

def off (s : State) (event : String) (fn : Fn) : State :=
  { s with
    handlers := (s.handlers.off event fn).getD s.handlers
    registered := Function.update s.registered event (forget fn (s.registered event)) }

def removeAllListeners (s : State) : Option String → State
  | some event =>
      { s with
        handlers := Function.update s.handlers event none
        registered := Function.update s.registered event [] }
  | none => { s with handlers := fun _ => none, registered := fun _ => [] }

def call (s : State) : Op → State
  | .on event fn => s.on event fn
  | .prependListener event fn => s.prependListener event fn
  | .once event fn => s.once event fn
  | .prependOnceListener event fn => s.prependOnceListener event fn
  | .off event fn => s.off event fn
  | .emit event => s.emit event
  | .removeAllListeners event => s.removeAllListeners event

/-! ### Steps -/

/-- An exception leaves an `emit`, and with it the `on` whose 'newListener' event it was. -/
def unwind (s : State) : State :=
  match s.stack with
  | .emitting event atStart called _ :: .registering .. :: below =>
      { s with
        stack := below
        emits := ⟨event, atStart, called, none⟩ :: s.emits
        ons := false :: s.ons }
  | .emitting event atStart called _ :: below =>
      { s with stack := below, emits := ⟨event, atStart, called, none⟩ :: s.emits }
  | _ => s

/-- A function is called; a wrapper takes itself off the list before it calls what it wraps. -/
def invoke (s : State) : Fn → State
  | .user _ => { s with stack := .code :: s.stack }
  | .wrapper id event fn =>
      match s.handlers.off event (.wrapper id event fn) with
      | none => s.unwind
      | some handlers =>
          invoke { s with
            handlers
            registered :=
              Function.update s.registered event ((s.registered event).erase ⟨some id, fn⟩)
            fired := .wrapper id event fn :: s.fired } fn

/-- The next thing `emit` or `on` does by itself. -/
def advance (s : State) : Option State :=
  match s.stack with
  | .emitting event atStart called (f :: rest) :: below =>
      some (invoke { s with stack := .emitting event atStart (called ++ [f]) rest :: below } f)
  | .emitting event atStart called [] :: below =>
      some { s with stack := below, emits := ⟨event, atStart, called, some true⟩ :: s.emits }
  | .registering prepend event listener :: below =>
      match s.handlers.add prepend event (listener.code event) with
      | none => some { s with stack := below, ons := false :: s.ons }
      | some handlers =>
          some { s with
            handlers
            stack := below
            registered := Function.update s.registered event
              (if prepend then listener :: s.registered event
                else s.registered event ++ [listener])
            ons := true :: s.ons }
  | _ => none

end State

inductive Event where
  /-- The code on top of the stack calls an operation. -/
  | call (op : Op)
  /-- The listener on top of the stack returns. -/
  | returns
  /-- An exception leaves the listener on top of the stack. -/
  | throws
  | advance

def step (s : State) : Event → Option State
  | .call op =>
      match s.stack with
      | .code :: _ => some (s.call op)
      | _ => none
  | .returns =>
      match s.stack with
      | .code :: frame :: below => some { s with stack := frame :: below }
      | _ => none
  | .throws =>
      match s.stack with
      | .code :: frame :: below => some { s with stack := frame :: below }.unwind
      | _ => none
  | .advance => s.advance

/-! ### What a program may expect -/

/-- The list `handlers` holds for an event. -/
def State.listeners (s : State) (event : String) : List Fn := (s.handlers event).getD []

/-- It called what was registered when it started, in order, and said whether there was anything. -/
def Emit.Lawful (e : Emit) : Prop :=
  e.called = e.atStart.map (Listener.code e.event) ∧ e.result = some (!e.atStart.isEmpty)

structure Lawful (s : State) : Prop where
  /-- The table holds what is registered: nothing was lost, and `off` removed what it should. -/
  table : ∀ event, s.listeners event = (s.registered event).map (Listener.code event)
  emits : ∀ e ∈ s.emits, e.Lawful
  /-- No once listener was called twice. -/
  onces : s.fired.Nodup
  /-- Every `on` returned. -/
  ons : ∀ returned ∈ s.ons, returned = true

/-! ### Where the code goes its own way -/

/-- The functions that running `emit`s have still to call. -/
def State.pending (s : State) : List Fn :=
  s.stack.flatMap fun
    | .emitting _ _ _ rest => rest
    | _ => []

/-- The list is not an emptied one, and no running `emit` has still to call one of its once
listeners. -/
def EmitSafe (s : State) (event : String) : Prop :=
  s.handlers event ≠ some [] ∧
    ∀ f ∈ s.listeners event, f.isWrapper = true → f ∉ s.pending

instance (s : State) (event : String) : Decidable (EmitSafe s event) :=
  inferInstanceAs (Decidable (_ ∧ _))

/-- The name is not inherited, the function is the program's own, and the 'newListener' event is
safe. -/
def RegisterSafe (s : State) (event : String) (fn : Fn) : Prop :=
  event ∉ inheritedKeys ∧ fn.isWrapper = false ∧
    (event ≠ "newListener" → EmitSafe s "newListener")

instance (s : State) (event : String) (fn : Fn) : Decidable (RegisterSafe s event fn) :=
  inferInstanceAs (Decidable (_ ∧ _ ∧ _))

/-- The function was registered with `on`, or it was not registered at all. -/
def OffSafe (s : State) (event : String) (fn : Fn) : Prop :=
  fn.isWrapper = false ∧
    (⟨none, fn⟩ ∈ s.registered event ∨ ∀ l ∈ s.registered event, l.fn ≠ fn)

instance (s : State) (event : String) (fn : Fn) : Decidable (OffSafe s event fn) :=
  inferInstanceAs (Decidable (_ ∧ _))

/-- The list is still there for the registration on top of the stack. -/
def State.addSafe (s : State) : Bool :=
  match s.stack with
  | .registering _ event _ :: _ => (s.handlers event).isSome
  | _ => true

def Careful (s : State) : Event → Prop
  | .call (.on event fn) | .call (.prependListener event fn) | .call (.once event fn)
  | .call (.prependOnceListener event fn) => RegisterSafe s event fn
  | .call (.off event fn) => OffSafe s event fn
  | .call (.emit event) => event ∉ inheritedKeys ∧ EmitSafe s event
  | .call (.removeAllListeners _) => True
  | .returns => True
  | .throws => False
  | .advance => s.addSafe = true

instance (s : State) : (e : Event) → Decidable (Careful s e)
  | .call (.on event fn) | .call (.prependListener event fn) | .call (.once event fn)
  | .call (.prependOnceListener event fn) => inferInstanceAs (Decidable (RegisterSafe s event fn))
  | .call (.off event fn) => inferInstanceAs (Decidable (OffSafe s event fn))
  | .call (.emit event) => inferInstanceAs (Decidable (event ∉ inheritedKeys ∧ EmitSafe s event))
  | .call (.removeAllListeners _) => .isTrue trivial
  | .returns => .isTrue trivial
  | .throws => .isFalse id
  | .advance => inferInstanceAs (Decidable (s.addSafe = true))

end HermesNode.Process
