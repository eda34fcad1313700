/-
Module: HermesNode.Bootstrap.Loader
Purpose: `loader.js`, the loader of the modules compiled into the binary, with the registry lookup
  behind it and `compileForPublicLoader` in front of it. A module's function runs between the start
  and the end of `loadModule`, so a run is a sequence of events: some code calls `requireModule` or
  the `require` of a module, the public loader compiles a builtin or falls back, the innermost
  function returns or throws, a program assigns `module.exports`. The log is what happened, newest
  first.
Trusted boundary: human-reviewed spec (transcribed from `libjs/loader.js`,
  `libjs/shims/internal/bootstrap/realm.js`, `lib/embedded-modules/embedded_modules.cpp` and what
  `lib/embedded-modules/CMakeLists.txt` generates); the buffer that
  `napi_get_value_string_utf8` fills, what `compileAndRun` accepts and the disk are parameters
Main exports: Host, State, Event, loadModule
-/
import HermesNode.Lib.Machine
import HermesNode.Loader.Requests

namespace HermesNode.Bootstrap

open Loader (allRequirableIds)
open Resolve (stripNodeScheme)

abbrev JsString := Loader.JsString

abbrev RecordId := Nat

/-! ### What the binary holds -/

/-- A directory under `vendored/`. -/
structure VendoredPackage where
  name : Bytes
  mainStem : Bytes
  /-- The name is one path component. -/
  component : slash ∉ name

theorem ws_component : slash ∉ ascii "ws" := by decide

/-- `PKG_ENTRY_ID`. -/
def VendoredPackage.entryId (p : VendoredPackage) : Bytes :=
  ascii "vendored/" ++ p.name ++ slash :: p.mainStem

structure Host where
  /-- The ids of `kModules` whose bytecode evaluates to a module function. -/
  moduleIds : List Bytes
  packages : List VendoredPackage
  /-- `vendoredData.moduleIds`. -/
  vendoredModuleIds : List Bytes
  /-- What `napi_get_value_string_utf8` leaves in a buffer of 256 bytes. -/
  idBuf : JsString → Bytes
  /-- Does `compileAndRun(source, sourceUrl, enableTS)` give a function? -/
  compileAndRun : JsString → JsString → Bool → Bool

/-- What a module function comes from. -/
inductive Source where
  | embedded (id : Bytes)
  | file (path : JsString)
deriving Repr, DecidableEq

/-- The properties every object inherits: `vendoredPackages[name]` finds these too, and they are no
module ids. -/
def objectPrototype : List JsString :=
  ["constructor", "hasOwnProperty", "isPrototypeOf", "propertyIsEnumerable", "toLocaleString",
    "toString", "valueOf", "__proto__", "__defineGetter__", "__defineSetter__",
    "__lookupGetter__", "__lookupSetter__"].map ascii

namespace Host

variable (h : Host)

/-- `findEmbeddedModule`: the registry compares C strings. -/
def findEmbeddedModule (id : Bytes) : Option Bytes :=
  h.moduleIds.find? fun m => m == id.takeWhile (· != 0)

/-- `loadBytecodeModule`. -/
def loadBytecodeModule (id : JsString) : Option Bytes := h.findEmbeddedModule (h.idBuf id)

/-- `vendoredPackages[name]`, an own property. -/
def vendoredPackage (name : JsString) : Option JsString :=
  (h.packages.find? fun p => p.name == name).map (·.entryId)

/-- The module `loadModule(id, id)` is about. -/
def sourceOf (id : JsString) : Source :=
  match h.loadBytecodeModule id with
  | some m => .embedded m
  | none => .file id

/-- The id `requireModule` loads for a name without its scheme. -/
def target (name : JsString) : JsString := (h.vendoredPackage name).getD name

/-- The module such a name stands for. -/
def named (name : JsString) : Source := h.sourceOf (h.target name)

end Host

/-! ### State -/

/-- The module object of `loadModule`. `exports` names an object. -/
structure ModuleRecord where
  id : JsString
  exports : Nat
  loaded : Bool
  filename : JsString
deriving Repr, DecidableEq

structure BuiltinModule where
  loaded : Bool
  exports : Nat
deriving Repr, DecidableEq

/-- A load whose function is running. -/
structure Frame where
  source : Source
  record : RecordId
  /-- The package name that the caller caches the module under when the load returns. -/
  bareName : Option JsString
  /-- The builtin whose `compileForPublicLoader` waits for the load. -/
  compiling : Option JsString
deriving Repr, DecidableEq

inductive LoadError where
  /-- The `MODULE_NOT_FOUND` error of a closed world. -/
  | closed (message : JsString)
  /-- `readFileSync` threw. -/
  | unreadable (path : JsString)
  /-- `compileAndRun` threw. -/
  | malformed (path : JsString)
  /-- The id is an inherited property of the package table. -/
  | notAString
  /-- The error of Node's `Module._load`, thrown on. -/
  | notFound (request : JsString)
deriving Repr, DecidableEq

inductive LogEntry where
  /-- A module function was entered, with a new module object. -/
  | started (source : Source) (record : RecordId) (exports : Nat)
  | completed (record : RecordId)
  | threw (record : RecordId)
  /-- A request that stands for `source` returned this object. -/
  | answered (source : Source) (exports : Nat)
  | failed (error : LoadError)
  /-- `module.exports = value`. -/
  | assigned (record : RecordId) (value : Nat)
deriving Repr, DecidableEq

structure State where
  records : List ModuleRecord
  cache : JsString → Option RecordId
  /-- `BuiltinModule.map`. -/
  builtins : JsString → BuiltinModule
  stack : List Frame
  diskLoadingClosed : Bool
  /-- What `readFileSync` returns. -/
  disk : JsString → Option JsString
  /-- Objects made so far. -/
  objects : Nat
  log : List LogEntry

def init : State :=
  { records := [], cache := fun _ => none, builtins := fun _ => { loaded := false, exports := 0 }
    stack := [], diskLoadingClosed := false, disk := fun _ => none, objects := 0, log := [] }

/-- The `exports` property of a module object. -/
def exportsAt (records : List ModuleRecord) (record : RecordId) : Nat :=
  (records[record]?.map (·.exports)).getD 0

/-! ### Loading -/

def stripShebang (source : JsString) : JsString :=
  if source.take 2 == ascii "#!" then source.dropWhile (· != 10) else source

def wrap (source filepath : JsString) : JsString :=
  ascii "(function(exports, require, module, __filename, __dirname) \x7b" ++ source ++
    ascii "\n\x7d);\n//# sourceURL=" ++ filepath ++ ascii "\n"

def endsWith (p suffix : JsString) : Bool := p.drop (p.length - suffix.length) == suffix

def isTS (filepath : JsString) : Bool := filepath.length > 3 && endsWith filepath (ascii ".ts")

def closedMessage (id : JsString) : JsString :=
  ascii "Cannot find module '" ++ id ++ ascii "'\n" ++
    ascii "  A bundle is running, so the container is the only source of module code.\n" ++
    ascii "  This fallback does not read the filesystem."

/-- The `compiledFn` of `loadModule`. -/
def compiledFn (h : Host) (s : State) (id filepath : JsString) : Except LoadError Source :=
  match h.loadBytecodeModule id with
  | some m => .ok (.embedded m)
  | none =>
      if s.diskLoadingClosed then .error (.closed (closedMessage id))
      else
        match s.disk filepath with
        | none => .error (.unreadable filepath)
        | some source =>
            if h.compileAndRun (wrap (stripShebang source) filepath) filepath (isTS filepath) then
              .ok (.file filepath)
            else .error (.malformed filepath)

def State.fail (s : State) (error : LoadError) : State := { s with log := .failed error :: s.log }

/-- `loadModule` from the new module object to the call of the function. -/
def State.enter (s : State) (id : JsString) (source : Source)
    (bareName compiling : Option JsString) : State :=
  let mod : ModuleRecord := { id, exports := s.objects, loaded := false, filename := id }
  let record := s.records.length
  { s with
    records := s.records ++ [mod]
    cache := Function.update s.cache id (some record)
    stack := { source, record, bareName, compiling } :: s.stack
    objects := s.objects + 1
    log := .started source record s.objects :: s.log }

/-- `loadModule(id, id)` up to the point where the function runs. -/
def loadModule (h : Host) (s : State) (id : JsString) (bareName compiling : Option JsString) :
    State :=
  match compiledFn h s id id with
  | .error error => s.fail error
  | .ok source => s.enter id source bareName compiling

/-- `mod.loaded = true`, and the second key of a package. -/
def State.leave (s : State) (frame : Frame) (rest : List Frame) : State :=
  { s with
    records := s.records.modify frame.record fun m => { m with loaded := true }
    cache := match frame.bareName with
      | some bareName => Function.update s.cache bareName (some frame.record)
      | none => s.cache
    stack := rest
    log := .completed frame.record :: s.log }

/-- `this.exports = …; this.loaded = true` of a waiting `compileForPublicLoader`. -/
def capture (builtins : JsString → BuiltinModule) (compiling : Option JsString) (exports : Nat) :
    JsString → BuiltinModule :=
  match compiling with
  | none => builtins
  | some id => Function.update builtins id { loaded := true, exports }

/-- A request for `source` returns `exports`. -/
def State.serve (s : State) (source : Source) (exports : Nat) (compiling : Option JsString) :
    State :=
  { s with
    builtins := capture s.builtins compiling exports
    log := .answered source exports :: s.log }

def requireModule (h : Host) (s : State) (name : JsString) (compiling : Option JsString) : State :=
  let bareName := stripNodeScheme name
  match s.cache bareName with
  | some record => s.serve (h.named bareName) (exportsAt s.records record) compiling
  | none =>
      match h.vendoredPackage bareName with
      | some vendoredId => loadModule h s vendoredId (some bareName) compiling
      | none =>
          if objectPrototype.contains bareName then s.fail .notAString
          else loadModule h s bareName none compiling

/-! ### Relative requests -/

def dirOf (filepath : JsString) : JsString :=
  if slash ∈ filepath then joinSlash (splitSlash filepath).dropLast else ascii "."

def resolvePath (base relative : JsString) : JsString :=
  joinSlash <| (splitSlash relative).foldl (fun parts part =>
    if part == dotDot then parts.dropLast
    else if part != dot && part != [] then parts ++ [part]
    else parts) (splitSlash base)

def resolveVendoredRelative (h : Host) (fromDir name : JsString) : JsString :=
  let base := resolvePath fromDir name
  if h.vendoredModuleIds.contains base then base
  else
    let indexId := base ++ ascii "/index"
    if h.vendoredModuleIds.contains indexId then indexId else base

def probeFile (s : State) (p : JsString) : Bool := !s.diskLoadingClosed && (s.disk p).isSome

def resolveRelative (s : State) (fromDir name : JsString) : JsString :=
  let base := resolvePath fromDir name
  if base.length > 3 && (endsWith base (ascii ".js") || endsWith base (ascii ".ts")) then base
  else
    let candidates := [".js", ".ts", "/index.js", "/index.ts"].map fun ext => base ++ ascii ext
    (candidates.find? (probeFile s)).getD (base ++ ascii ".js")

/-- The `require` of the module at `fromFilepath`, on a name that starts with a dot: what it looks
up in the cache and loads. -/
def resolvedPath (h : Host) (s : State) (fromFilepath name : JsString) : JsString :=
  let fromDir := dirOf fromFilepath
  if fromDir.take 9 == ascii "vendored/" then resolveVendoredRelative h fromDir name
  else resolveRelative s fromDir name

def isDotted (name : JsString) : Bool := name.head? == some 46

def makeRequire (h : Host) (s : State) (fromFilepath name : JsString) : State :=
  if isDotted name then
    let path := resolvedPath h s fromFilepath name
    match s.cache path with
    | some record => s.serve (h.sourceOf path) (exportsAt s.records record) none
    | none => loadModule h s path none none
  else requireModule h s name none

/-! ### The public loader -/

def compileForPublicLoader (h : Host) (s : State) (id : JsString) : State :=
  if (s.builtins id).loaded then s.serve (h.named id) (s.builtins id).exports none
  else requireModule h s id (some id)

/-- The `_load` of `__initCJS`, when Node's own did not find the module. -/
def loadFallback (h : Host) (s : State) (request : JsString) : State :=
  match s.cache request with
  | some record => s.serve (h.named request) (exportsAt s.records record) none
  | none =>
      if (h.loadBytecodeModule request).isSome || (h.vendoredPackage request).isSome ||
          objectPrototype.contains request then
        requireModule h s request none
      else s.fail (.notFound request)

/-! ### Runs -/

inductive Event where
  | requireModule (name : JsString)
  /-- The `require` of a module, which may be called whenever the program likes. -/
  | require (record : RecordId) (name : JsString)
  | compileForPublicLoader (id : JsString)
  | loadFallback (request : JsString)
  | setExports (record : RecordId) (value : Nat)
  /-- The innermost module function returned. -/
  | bodyReturns
  | bodyThrows
  | closeDiskModuleLoading
  | writeFile (path : JsString) (content : Option JsString)
deriving Repr, DecidableEq

def step (h : Host) (s : State) : Event → Option State
  | .requireModule name => some (requireModule h s name none)
  | .require record name => s.records[record]?.map fun mod => makeRequire h s mod.filename name
  | .compileForPublicLoader id =>
      if id ∈ allRequirableIds then some (compileForPublicLoader h s id) else none
  | .loadFallback request => some (loadFallback h s request)
  | .setExports record value =>
      some { s with
        records := s.records.modify record fun m => { m with exports := value }
        log := .assigned record value :: s.log }
  | .bodyReturns =>
      match s.stack with
      | [] => none
      | frame :: rest =>
          some ((s.leave frame rest).serve frame.source (exportsAt s.records frame.record)
            frame.compiling)
  | .bodyThrows =>
      match s.stack with
      | [] => none
      | frame :: rest => some { s with stack := rest, log := .threw frame.record :: s.log }
  | .closeDiskModuleLoading => some { s with diskLoadingClosed := true }
  | .writeFile path content => some { s with disk := Function.update s.disk path content }

end HermesNode.Bootstrap
