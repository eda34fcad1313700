/-
Module: HermesNode.Loader.Requests
Purpose: The three ways a program asks the bundle loader for a module: the `Module._load` wrapper, the
  `Module._resolveFilename` wrapper and the `resolve` of a bundled module's `require`, together with
  what they forward to: Node's own `_load` and `_resolveFilename` up to the point where these ask
  the disk. A run is what was looked up on the disk and the reply.
  Arguments are arbitrary JavaScript values, seen through what the code does with them. A conversion
  to a string and a read of `options.paths` may run program code, so each of them is a sequence: the
  answer to the first, the second and every later time. `Calls` counts them.
Trusted boundary: human-reviewed spec (transcribed from `libjs/bundle-loader.js`,
  `libjs/shims/internal/bootstrap/realm.js`, `libjs/shims/internal/modules/helpers.js`,
  `libjs-node/internal/modules/cjs/loader.js` and `package_json_reader.js`); the answers of the disk,
  the working directory and `path.relative` are parameters
Main exports: Value, Options, Parent, Host
-/
import HermesNode.Loader.Callbacks

namespace HermesNode.Loader

open Resolve

/-! ### Builtins -/

/-- The names `require` accepts: the builtins and the vendored packages. -/
def allRequirableIds : List JsString := builtinIds ++ vendoredIds

def startsWithNode (s : JsString) : Bool := s.take 5 == ascii "node:"

/-- `BuiltinModule.normalizeRequirableId` of a string. -/
def normalizeRequirableId (id : JsString) : Option JsString :=
  if startsWithNode id then
    if allRequirableIds.contains (id.drop 5) then some (id.drop 5) else none
  else if builtinIds.contains id then some id else none

/-- `Module.isBuiltin`. -/
def isEmbedded (request : JsString) : Bool :=
  allRequirableIds.contains request ||
    (startsWithNode request && allRequirableIds.contains (request.drop 5))

def embeddedRequest (request : JsString) : JsString :=
  if startsWithNode request then request else ascii "node:" ++ request

/-! ### JavaScript values -/

/-- A value that is neither `undefined` nor `null` nor a string. -/
structure Exotic where
  truthy : Bool
  /-- Conversions to a string, in turn; nothing where the conversion throws, as a symbol's does. -/
  text : Nat → Option JsString
  /-- `value.length`, where that is a number. -/
  length : Nat
  /-- `value[0] === '#'`. -/
  hash : Bool

inductive Value where
  | undefined
  | null
  | string (s : JsString)
  | exotic (e : Exotic)

namespace Value

def isString : Value → Bool
  | .string _ => true
  | _ => false

/-- A string argument of a native: `stringArg`. -/
def asString : Value → Option JsString
  | .string s => some s
  | _ => none

def truthy : Value → Bool
  | .undefined | .null => false
  | .string s => !s.isEmpty
  | .exotic e => e.truthy

def length : Value → Nat
  | .string s => s.length
  | .exotic e => e.length
  | _ => 0

def startsWithHash : Value → Bool
  | .string s => s.head? == some 35
  | .exotic e => e.hash
  | _ => false

/-- `value === text`. -/
def equals (v : Value) (text : JsString) : Bool := v.asString == some text

end Value

/-- What `options.paths` can be. Anything with a `length` and elements counts as a list. -/
inductive PathsValue where
  | undefined
  | null
  | list (isArray : Bool) (elements : List Value)

/-- A read of `options.paths`, which may throw. -/
inductive PathsRead where
  | threw
  | value (v : PathsValue)

inductive Options where
  | undefined
  | null
  /-- A boolean, number, bigint, string or symbol: it has no `paths`. -/
  | primitive
  /-- An object or, when `callable`, a function. -/
  | object (callable conditionsThrow : Bool) (paths : Nat → PathsRead)

/-- The fields the loaders read off a parent module. -/
structure Parent where
  bundleIdentity : Value
  filename : Value
  id : Value
  path : Value

/-! ### Errors and calls into program code -/

inductive Failure where
  /-- `MODULE_NOT_FOUND`, from `notInBundle`. -/
  | moduleNotFound
  | invalidArgument
  | unknownBuiltin
  | typeError
  /-- An accessor threw. -/
  | thrown
deriving Repr, DecidableEq

/-- How often program code has run. -/
structure Calls where
  reads : Nat := 0
  conversions : Nat := 0
deriving Repr, DecidableEq

abbrev Js := StateT Calls (Except Failure)

/-- Conversion to a string by a `String.prototype` method: `undefined` and `null` have none. -/
def Value.coerce (v : Value) : Js JsString := fun calls =>
  match v with
  | .undefined | .null => .error .typeError
  | .string s => .ok (s, calls)
  | .exotic e =>
      match e.text calls.conversions with
      | none => .error .typeError
      | some s => .ok (s, { calls with conversions := calls.conversions + 1 })

/-- Conversion to a string by a template literal. -/
def Value.template (v : Value) : Js JsString :=
  match v with
  | .undefined => pure (ascii "undefined")
  | .null => pure (ascii "null")
  | _ => v.coerce

/-- One read of `options.paths` of an `options` that is neither `undefined` nor `null`. -/
def Options.readPaths (options : Options) : Js PathsValue := fun calls =>
  match options with
  | .object _ _ paths =>
      match paths calls.reads with
      | .threw => .error .thrown
      | .value v => .ok (v, { calls with reads := calls.reads + 1 })
  | _ => .ok (.undefined, calls)

/-- `options !== undefined && options !== null && options.paths !== undefined`. -/
def Options.hasPaths (options : Options) : Js Bool :=
  match options with
  | .undefined | .null => pure false
  | _ => do
      match ← options.readPaths with
      | .undefined => pure false
      | _ => pure true

/-- `Array.isArray(options.paths)`. -/
def Options.pathsIsArray (options : Options) : Js Bool := do
  match ← options.readPaths with
  | .list isArray _ => pure isArray
  | _ => pure false

/-- `options.paths` as the elements it has; reading `length` or an element of `undefined` or `null`
throws. -/
def Options.readElements (options : Options) : Js (List Value) := do
  match ← options.readPaths with
  | .list _ elements => pure elements
  | _ => throw .typeError

/-! ### Runs -/

inductive Lookup where
  /-- `_resolveLookupPaths` or `_findPath` was reached with this string. -/
  | walk (request : JsString)
  /-- A `package.json` was looked for. -/
  | file (path : JsString)
deriving Repr, DecidableEq

inductive Reply where
  /-- `_load` loads this module of the container, the other two answer its path under the root. -/
  | container (identity : JsString)
  /-- The original loader serves this request out of the binary. -/
  | binary (request : JsString)
  | disk (filename : JsString)
  | threw (failure : Failure)
deriving Repr, DecidableEq

structure Run where
  lookups : List Lookup := []
  reply : Reply
deriving Repr, DecidableEq

def Run.threw (failure : Failure) : Run := { reply := .threw failure }

/-- The run after some files were looked for. -/
def Run.afterFiles (files : List JsString) (run : Run) : Run :=
  { run with lookups := files.map Lookup.file ++ run.lookups }

/-- A computation in program code followed by the rest of the run. -/
def Js.andThen {α : Type} (x : Js α) (calls : Calls) (next : α → Calls → Run) : Run :=
  match x.run calls with
  | .error failure => Run.threw failure
  | .ok (a, calls') => next a calls'

/-- What the machine answers once the original loader asks it. -/
structure Disk where
  isFile : JsString → Bool
  /-- Where a `#` request ends in the package whose `package.json` was found. -/
  imports : JsString → Value → Option Reply
  /-- Where self-resolution in that package ends. -/
  self : JsString → Value → Option Reply
  walk : JsString → Reply

structure Host where
  napi : Napi
  disk : Disk
  cwd : JsString
  /-- `path.relative`. -/
  relative : JsString → JsString → JsString

/-! ### The original resolver -/

/-- `lastIndexOf('/')`. -/
def lastSlash (p : JsString) : Option Nat :=
  if p.contains slash then some (p.length - 1 - p.reverse.idxOf slash) else none

/-- `indexOf('/')`. -/
def firstSlash (p : JsString) : Option Nat :=
  if p.contains slash then some (p.idxOf slash) else none

/-- `slice(0, index)`; the index of a missing separator is `-1` and cuts the last unit. -/
def sliceTo (p : JsString) : Option Nat → JsString
  | some k => p.take k
  | none => p.dropLast

/-- `root < sep`, a missing separator being `-1`. -/
def separatorBehind : Option Nat → Option Nat → Bool
  | some root, some sep => root < sep
  | none, some _ => true
  | _, none => false

def endsInNodeModules (dir : JsString) : Bool := (ascii "/node_modules").isSuffixOf dir

/-- The loop of `findParentPackageJSON` from the directory `dir`, cut at `sep`: the paths it looks
for and the one it finds. -/
def climb (isFile : JsString → Bool) (root : Option Nat) :
    Nat → Option Nat → JsString → List JsString × Option JsString
  | 0, _, _ => ([], none)
  | fuel + 1, sep, dir =>
      if endsInNodeModules dir then ([], none)
      else
        let package := dir ++ ascii "/package.json"
        if isFile package then ([package], some package)
        else if separatorBehind root sep then
          let (files, found) := climb isFile root fuel (lastSlash dir) (sliceTo dir (lastSlash dir))
          (package :: files, found)
        else ([package], none)

/-- The directory `findParentPackageJSON` starts in, with the separator it cut at and the first one.
Each of its three string methods converts its argument. -/
def firstDirectory (path : Value) : Js (Option Nat × Option Nat × JsString) := do
  let root := firstSlash (← path.coerce)
  let sep := lastSlash (← path.coerce)
  let text ← path.coerce
  pure (root, sep, sliceTo text sep)

/-- `findParentPackageJSON`. -/
def findParentPackageJSON (disk : Disk) (path : Value) : Js (List JsString × Option JsString) := do
  let (root, sep, dir) ← firstDirectory path
  pure (climb disk.isFile root (dir.length + 1) sep dir)

/-- `trySelfParentPath`. -/
def trySelfParentPath (host : Host) : Option Parent → Option Value
  | none => none
  | some parent =>
      if parent.filename.truthy then some parent.filename
      else if parent.id.equals (ascii "<repl>") || parent.id.equals (ascii "internal/preload") then
        some (.string (host.cwd ++ [slash]))
      else none

/-- The path whose package a `#` request is looked up in. -/
def importsPath (host : Host) (request : Value) : Option Parent → Option Value
  | none => none
  | some parent =>
      if request.startsWithHash && (parent.filename.truthy || parent.id.equals (ascii "<repl>")) then
        match parent.filename with
        | .undefined | .null => some (.string (host.cwd ++ [slash]))
        | filename => some filename
      else none

/-- Look for the package of `path`; `found` says where the request ends when there is one, and the
run goes on with `next` when it does not end there. -/
def searchPackage (host : Host) (path : Option Value) (found : JsString → Option Reply)
    (next : Calls → Run) (calls : Calls) : Run :=
  match path with
  | none => next calls
  | some path =>
      (findParentPackageJSON host.disk path).andThen calls fun (files, package) calls =>
        match package.bind found with
        | some reply => { lookups := files.map Lookup.file, reply }
        | none => (next calls).afterFiles files

/-- The part of `_resolveFilename` behind the computation of `paths`. -/
def resolveWithPaths (host : Host) (request : Value) (parent : Option Parent) (calls : Calls) :
    Run :=
  searchPackage host (importsPath host request parent)
    (fun package => host.disk.imports package request)
    (searchPackage host (trySelfParentPath host parent)
      (fun package => host.disk.self package request)
      (fun _ =>
        -- `_findPath` opens with `path.isAbsolute`, which rejects everything but a string
        match request with
        | .string s => { lookups := [.walk s], reply := host.disk.walk s }
        | _ => Run.threw .invalidArgument))
    calls

/-- Node's `isRelative`. -/
def nodeIsRelative (request : Value) : Js Bool := do
  if (← request.coerce).head? != some 46 then return false
  if request.length == 1 || request.equals (ascii "..") then return true
  if (← request.coerce).take 2 == ascii "./" then return true
  if (← request.coerce).take 3 == ascii "../" then return true
  return (← request.coerce).take 3 == ascii "..\\"

/-- The first test of `_resolveLookupPaths`: the request is not a dot, or a dot followed by a dot or
a separator. -/
def requestsModules (request : Value) : Js Bool := do
  if (← request.coerce).head? != some 46 then return true
  if request.length ≤ 1 then return false
  if (← request.coerce)[1]? == some 46 then return false
  return (← request.coerce)[1]? != some slash

/-- `_resolveLookupPaths` of a request that is no builtin. The list it returns matters only to the
walk; what matters here is that it returns. -/
def resolveLookupPaths (request : Value) (parent : Option Parent) : Js Unit := do
  if ← requestsModules request then return ()
  match parent with
  | none => return ()
  | some parent =>
      if parent.id.truthy && parent.filename.truthy && !parent.filename.isString then
        throw .invalidArgument
      else return ()

/-- Where the computation of `paths` for a string ends. -/
inductive Reached where
  | lookupPaths
  | paths
deriving Repr, DecidableEq

/-- The computation of `paths` for a string that is no builtin, up to the first
`_resolveLookupPaths`. -/
def reachPaths (request : JsString) (options : Options) : Js Reached := do
  match options with
  | .object _ true _ => throw .thrown
  | .object false false _ =>
      if ← options.pathsIsArray then
        if ← nodeIsRelative (.string request) then
          let _ ← options.readPaths
          return .paths
        if (← options.readElements).isEmpty then return .paths
        match (← options.readElements).head? with
        | some (.string _) => return .lookupPaths
        | _ => throw .invalidArgument
      match ← options.readPaths with
      | .undefined => return .lookupPaths
      | _ => throw .invalidArgument
  | _ => return .lookupPaths

/-- The loop over `options.paths`: every turn reads `length` and an element off it. A loop that is
never left makes no file lookup. -/
def pathsLoop (request : Value) (options : Options) : Nat → Nat → Js Unit
  | 0, _ => throw .thrown
  | fuel + 1, i => do
      let length := (← options.readElements).length
      if i < length then
        match (← options.readElements)[i]? with
        | some (.string _) => do
            -- the stand-in parent has neither a filename nor an id
            resolveLookupPaths request none
            pathsLoop request options fuel (i + 1)
        | _ => throw .invalidArgument
      else return ()

/-- The computation of `paths` for a request that is no string. -/
def computePaths (request : Value) (parent : Option Parent) (options : Options) (turns : Nat) :
    Js Unit := do
  match options with
  | .object _ true _ => throw .thrown
  | .object false false _ =>
      if ← options.pathsIsArray then
        if ← nodeIsRelative request then
          let _ ← options.readPaths
          return ()
        pathsLoop request options turns 0
      else
        match ← options.readPaths with
        | .undefined => resolveLookupPaths request parent
        | _ => throw .invalidArgument
  | _ => resolveLookupPaths request parent

/-- Node's `Module._resolveFilename`. `turns` is how many turns of the loop over `options.paths` the
run is followed for. -/
def originalResolveFilename (host : Host) (request : Value) (parent : Option Parent)
    (options : Options) (turns : Nat) (calls : Calls) : Run :=
  match request with
  | .string s =>
      if (normalizeRequirableId s).isSome then { reply := .binary s }
      else (reachPaths s options).andThen calls fun reached calls =>
        match reached with
        | .lookupPaths => { lookups := [.walk s], reply := host.disk.walk s }
        | .paths => resolveWithPaths host request parent calls
  | _ => (computePaths request parent options turns).andThen calls fun _ calls =>
      resolveWithPaths host request parent calls

/-! ### The loader's entry points -/

/-- The identity of an importer: the one it carries, or the one its filename has under the root. -/
def identityOf (host : Host) (b : OpenBundle) : Option Parent → Option Value
  | none => none
  | some parent =>
      match parent.bundleIdentity with
      | .undefined =>
          match parent.filename with
          | .string filename =>
              let rel := host.relative (host.napi.ofUtf8 b.root) filename
              if rel == [] || rel == dotDot || rel.take 3 == ascii "../" || rel.head? == some slash
              then none
              else some (.string rel)
          | _ => none
      | identity => some identity

/-- `bundle.lookup` of arbitrary arguments. -/
def lookupValue (host : Host) (b : OpenBundle) (importer : Value) (request : JsString) :
    Option JsString :=
  importer.asString.bind fun importer => b.bundleLookup host.napi importer request

/-- `bundle.resolve` of arbitrary arguments; a third argument that is no array is passed over. -/
def resolveValue (host : Host) (b : OpenBundle) (importer : Value) (request : JsString)
    (paths : PathsValue) : Option JsString :=
  importer.asString.bind fun importer =>
    b.bundleResolve host.napi importer request <|
      match paths with
      | .list true elements => some (elements.map Value.asString)
      | _ => none

/-- `hasPaths && !Array.isArray(options.paths)`, with `hasPaths`. -/
def malformedPaths (options : Options) : Js (Bool × Bool) := do
  let hasPaths ← options.hasPaths
  if hasPaths then
    let isArray ← options.pathsIsArray
    pure (true, !isArray)
  else pure (false, false)

/-- The third argument of `bundle.resolve`. -/
def pathsArgument (options : Options) (hasPaths : Bool) : Js PathsValue :=
  if hasPaths then options.readPaths else pure .undefined

/-- The `Module._resolveFilename` wrapper. -/
def moduleResolveFilename (host : Host) (b : OpenBundle) (request : Value)
    (parent : Option Parent) (options : Options) (turns : Nat) (calls : Calls) : Run :=
  match request with
  | .string s =>
      (malformedPaths options).andThen calls fun (hasPaths, malformed) calls =>
        if malformed || (normalizeRequirableId s).isSome then
          originalResolveFilename host request parent options turns calls
        else
          let embedded (calls : Calls) : Run :=
            if isEmbedded s then
              originalResolveFilename host (.string (embeddedRequest s)) parent options turns calls
            else Run.threw .moduleNotFound
          let importer := identityOf host b parent
          if !hasPaths && importer.isNone then embedded calls
          else
            match if hasPaths then none else importer.bind (lookupValue host b · s) with
            | some target => { reply := .container target }
            | none =>
                (pathsArgument options hasPaths).andThen calls fun paths calls =>
                  match resolveValue host b (importer.getD (.string [])) s paths with
                  | some resolved => { reply := .container resolved }
                  | none => embedded calls
  | _ =>
      -- only `hasPaths` has been evaluated
      options.hasPaths.andThen calls fun _ calls =>
        originalResolveFilename host request parent options turns calls

/-- The key `Module._load` looks up in its `relativeResolveCache`. -/
def cacheKey (request : Value) (parent : Option Parent) : Js Unit := do
  match parent with
  | none => return ()
  | some parent =>
      let _ ← parent.path.template
      let _ ← request.template
      return ()

/-- Node's `Module._load` behind the bootstrap loader's wrapper. The `relativeResolveCache` has no
entry: only a file that was loaded off the disk makes one. -/
def originalLoad (host : Host) (b : OpenBundle) (request : Value) (parent : Option Parent)
    (turns : Nat) : Run :=
  (cacheKey request parent).andThen {} fun _ calls =>
    request.coerce.andThen calls fun text calls =>
      if startsWithNode text then
        match request with
        | .string s =>
            if (normalizeRequirableId s).isSome then { reply := .binary s }
            else Run.threw .unknownBuiltin
        | _ => Run.threw .unknownBuiltin
      else moduleResolveFilename host b request parent .undefined turns calls

/-- The `Module._load` wrapper. -/
def moduleLoad (host : Host) (b : OpenBundle) (request : Value) (parent : Option Parent)
    (turns : Nat) : Run :=
  match request with
  | .string s =>
      if (normalizeRequirableId s).isSome then originalLoad host b request parent turns
      else
        let embedded : Run :=
          if isEmbedded s then
            originalLoad host b (.string (embeddedRequest s)) parent turns
          else Run.threw .moduleNotFound
        match identityOf host b parent with
        | none => embedded
        | some importer =>
            match lookupValue host b importer s with
            | some target => { reply := .container target }
            | none =>
                match resolveValue host b importer s .undefined with
                | some resolved => { reply := .container resolved }
                | none => embedded
  | _ => originalLoad host b request parent turns

/-- `makeRequireFunction`'s `resolve`. -/
def baseResolve (host : Host) (b : OpenBundle) (mod : Parent) (request : Value)
    (options : Options) (turns : Nat) (calls : Calls) : Run :=
  match request with
  | .string _ => moduleResolveFilename host b request (some mod) options turns calls
  | _ => Run.threw .invalidArgument

/-- `resolve` of the `require` a bundled module `identity` is given. -/
def requireResolve (host : Host) (b : OpenBundle) (identity : JsString) (mod : Parent)
    (request : Value) (options : Options) (turns : Nat) : Run :=
  (malformedPaths options).andThen {} fun (hasPaths, malformed) calls =>
    match request with
    | .string s =>
        if malformed || (normalizeRequirableId s).isSome then
          baseResolve host b mod request options turns calls
        else
          match if hasPaths then none else b.bundleLookup host.napi identity s with
          | some target => { reply := .container target }
          | none =>
              (pathsArgument options hasPaths).andThen calls fun paths calls =>
                match resolveValue host b (.string identity) s paths with
                | some resolved => { reply := .container resolved }
                | none =>
                    if isEmbedded s then
                      baseResolve host b mod (.string (embeddedRequest s)) options turns calls
                    else Run.threw .moduleNotFound
    | _ => baseResolve host b mod request options turns calls

end HermesNode.Loader
