/-
Module: HermesNode.Loader.ModuleCache
Purpose: `loadIdentity` of `bundle-loader.js` and the state it keeps: the module records, the shared
  `Module._cache` keyed by filename, the children arrays and the stack of loads in progress. A load
  suspends while its body runs, so a run is a sequence of events: some code calls a module's
  `require`, the innermost body returns or throws, a program assigns `module.exports`. The log is
  what happened, newest first.
Trusted boundary: human-reviewed spec (transcribed from `libjs/bundle-loader.js`)
Main exports: ModuleRecord, State, Event, loadIdentity
-/
import HermesNode.Bundle.Reader
import HermesNode.Lib.Machine
import HermesNode.Lib.Path

namespace HermesNode.Loader

abbrev RecordId := Nat

/-- The record `loadIdentity` builds for a bundled module, or the `Module` behind a `require` of
`Module.createRequire()`, which has no `__bundleIdentity`. `exports` names an object. -/
structure ModuleRecord where
  bundleIdentity : Option Bytes
  id : Bytes
  filename : Bytes
  exports : Nat
  loaded : Bool
  parent : Option RecordId
  children : List RecordId
deriving Repr, DecidableEq

/-- A load whose body is running. -/
structure Frame where
  target : Bytes
  record : RecordId
  parent : Option RecordId
deriving Repr, DecidableEq

inductive LogEntry where
  | started (target : Bytes) (record : RecordId)
  | completed (target : Bytes) (record : RecordId)
  | threw (target : Bytes) (record : RecordId) (parent : Option RecordId)
  /-- A `require` of `target` returned the `exports` of `record`. -/
  | answered (target : Bytes) (record : RecordId) (exports : Nat)
  /-- `module.exports = value`, by a program, by `JSON.parse` of a payload or by an addon. -/
  | assigned (record : RecordId) (value : Nat)
deriving Repr, DecidableEq

structure State where
  records : List ModuleRecord
  cache : Bytes → Option RecordId
  stack : List Frame
  /-- Objects made so far. -/
  objects : Nat
  log : List LogEntry

/-- A container as the loader sees it: where its modules' filenames start, and their identities. -/
structure Container where
  root : Bytes
  modules : List Bytes
deriving Repr, DecidableEq

/-- `path.join(root, identity)`: the key of a module in `Module._cache`. -/
def Container.filename (c : Container) (identity : Bytes) : Bytes := posixJoin c.root identity

def init : State :=
  { records := [], cache := fun _ => none, stack := [], objects := 0, log := [] }

/-- How `loadIdentity` was reached. -/
inductive Route where
  | edge
  | resolver
  /-- A preload or the entry, by the returned `run()`. -/
  | run
deriving Repr, DecidableEq

inductive Event where
  /-- `Module.createRequire(filename)`. -/
  | createRequire (filename : Bytes)
  /-- `loadIdentity(target, parent, isMain)`. -/
  | require (route : Route) (parent : Option RecordId) (target : Bytes) (isMain : Bool)
  | setExports (record : RecordId) (value : Nat)
  /-- The innermost body (or JSON text, or addon) finished without throwing. -/
  | bodyReturns
  | bodyThrows
deriving Repr, DecidableEq

def updateChildren (records : List ModuleRecord) (parent : Option RecordId) (child : RecordId)
    (scan : Bool) : List ModuleRecord :=
  match parent with
  | none => records
  | some p => records.modify p fun m =>
      if scan && m.children.contains child then m
      else { m with children := m.children ++ [child] }

def removeChild (records : List ModuleRecord) (parent : Option RecordId) (child : RecordId) :
    List ModuleRecord :=
  match parent with
  | none => records
  | some p => records.modify p fun m => { m with children := m.children.erase child }

/-- The `exports` property of a record. -/
def exportsAt (records : List ModuleRecord) (record : RecordId) : Nat :=
  (records[record]?.map (·.exports)).getD 0

/-- `loadIdentity` up to the point where a body starts to run. -/
def loadIdentity (c : Container) (s : State) (target : Bytes) (parent : Option RecordId)
    (isMain : Bool) : State :=
  let filename := c.filename target
  match s.cache filename with
  | some cached =>
      { s with
        records := updateChildren s.records parent cached true
        log := .answered target cached (exportsAt s.records cached) :: s.log }
  | none =>
      let mod : ModuleRecord :=
        { bundleIdentity := some target, id := if isMain then ascii "." else filename, filename
          exports := s.objects, loaded := false, parent, children := [] }
      let record := s.records.length
      { records := updateChildren s.records parent record false ++ [mod]
        cache := Function.update s.cache filename (some record)
        stack := { target, record, parent } :: s.stack
        objects := s.objects + 1
        log := .started target record :: s.log }

def step (c : Container) (s : State) : Event → Option State
  | .createRequire filename =>
      let mod : ModuleRecord :=
        { bundleIdentity := none, id := filename, filename, exports := s.objects, loaded := false
          parent := none, children := [] }
      some { s with records := s.records ++ [mod], objects := s.objects + 1 }
  | .require _ parent target isMain =>
      if target ∈ c.modules ∧ ∀ p ∈ parent, p < s.records.length then
        some (loadIdentity c s target parent isMain)
      else none
  | .setExports record value =>
      some { s with
        records := s.records.modify record fun m => { m with exports := value }
        log := .assigned record value :: s.log }
  | .bodyReturns =>
      match s.stack with
      | [] => none
      | frame :: rest =>
          some { s with
            records := s.records.modify frame.record fun m => { m with loaded := true }
            stack := rest
            log := .answered frame.target frame.record (exportsAt s.records frame.record) ::
              .completed frame.target frame.record :: s.log }
  | .bodyThrows =>
      match s.stack with
      | [] => none
      | frame :: rest =>
          some { s with
            records := removeChild s.records frame.parent frame.record
            cache := Function.update s.cache (c.filename frame.target) none
            stack := rest
            log := .threw frame.target frame.record frame.parent :: s.log }

end HermesNode.Loader
