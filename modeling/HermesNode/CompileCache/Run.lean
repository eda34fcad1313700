/-
Module: HermesNode.CompileCache.Run
Purpose: The calls that compile through the cache. A runtime resolves its cache and its optimize
  setting from its configuration; `compileFunctionForCJSLoader` and the loader's `compileAndRun` hand
  a source with its wrapper to `compileCacheRun`, which looks the source up, runs what it finds, and
  else compiles, saves and runs. The calls of any number of runtimes go on at once, over the system
  calls of the cache.
Trusted boundary: assumed contract (the Hermes engine and zlib's `crc32` are parameters)
Main exports: HermesNodeConfig, resolveOptimize, createCompileCache, Call
-/
import HermesNode.CompileCache.Cache

namespace HermesNode.CompileCache

/-! ### The configuration of a runtime -/

inductive OptimizeMode where
  /-- On when the compile cache is active, off when it is not. -/
  | kDefault
  | kOn
  | kOff
deriving Repr, DecidableEq

/-- What of the configuration and of the environment decides about the cache. -/
structure HermesNodeConfig where
  optimize : OptimizeMode
  /-- `inspectorBridgeContext != nullptr`. -/
  inspectorBridge : Bool
  disableCompileCache : Bool
  inspect : Bool
  inspectBrk : Bool
  compileCacheDir : Bytes
  /-- `HERMES_NODE_DISABLE_COMPILE_CACHE`. -/
  envDisableCompileCache : Option Bytes
  /-- `HERMES_NODE_COMPILE_CACHE`. -/
  envCompileCache : Option Bytes
  /-- `XDG_CACHE_HOME`. -/
  xdgCacheHome : Option Bytes
  /-- `HOME`. -/
  home : Option Bytes
deriving Repr, DecidableEq

def resolveOptimize (config : HermesNodeConfig) (cacheActive : Bool) : Bool :=
  match config.optimize with
  | .kOff => false
  | .kOn => true
  | .kDefault => cacheActive

def compileCacheDefaultRoot (config : HermesNodeConfig) : Bytes :=
  match config.xdgCacheHome.filter (!·.isEmpty) with
  | some xdg => xdg ++ ascii "/hermes-node/compile-cache"
  | none =>
      match config.home.filter (!·.isEmpty) with
      | some home => home ++ ascii "/.cache/hermes-node/compile-cache"
      | none => []

/-- The root of the cache, empty if there is none. -/
def compileCacheRoot (config : HermesNodeConfig) : Bytes :=
  let root :=
    if config.compileCacheDir.isEmpty then config.envCompileCache.getD []
    else config.compileCacheDir
  if root.isEmpty then compileCacheDefaultRoot config else root

def kCJSWrapperPrefix : Bytes :=
  ascii "(function(exports, require, module, __filename, __dirname) \x7b"

/-- What a build of the program fixes. -/
structure Build where
  /-- `HERMES_NODE_VERSION_STRING`. -/
  version : Bytes
  /-- `HERMES_NODE_CACHE_ARCH`. -/
  arch : Bytes
  /-- `BYTECODE_VERSION`. -/
  bytecodeVersion : UInt32
  wrapperPrefix : Bytes := kCJSWrapperPrefix
deriving Repr, DecidableEq

/-- A runtime of a process, with whether it could make the directories of its cache. -/
structure Runtime where
  pid : Nat
  build : Build
  config : HermesNodeConfig
  dirsMade : Bool
deriving Repr, DecidableEq

def compileCacheGenerationName (version arch : Bytes) (bytecodeVersion configCrc : UInt32) :
    Bytes :=
  version ++ ascii "-" ++ arch ++ (ascii "-bc" ++ decimal bytecodeVersion.toNat ++ ascii "-" ++
    hexPadded 8 configCrc.toNat)

section Caches

variable (crc32 : UInt32 → Bytes → UInt32)

/-- The fingerprint of the wrapper and of the optimize setting. -/
def configCrc (rt : Runtime) : UInt32 :=
  compileCacheCrc32 crc32 (ascii (if resolveOptimize rt.config true then "O" else "o")) ^^^
    compileCacheCrc32 crc32 rt.build.wrapperPrefix

/-- `generationDir_` of the cache a runtime gets, if it gets one. -/
def createCompileCache (rt : Runtime) : Option Bytes :=
  if rt.config.inspectorBridge then none
  else if rt.config.disableCompileCache || rt.config.inspect || rt.config.inspectBrk then none
  else if rt.config.envDisableCompileCache.any fun off => !off.isEmpty && off != ascii "0" then none
  else
    let root := compileCacheRoot rt.config
    if root.isEmpty then none
    else if !rt.dirsMade then none
    else
      some (root ++ ascii "/v1" ++ ascii "/" ++
        compileCacheGenerationName rt.build.version rt.build.arch rt.build.bytecodeVersion
          (configCrc crc32 rt))

/-- `RuntimeState::optimizeCompiles`. -/
def optimizeCompiles (rt : Runtime) : Bool :=
  resolveOptimize rt.config (createCompileCache crc32 rt).isSome

end Caches

/-! ### What is compiled -/

/-- What a C string shows of a text. -/
def cString (text : Bytes) : Bytes := text.takeWhile (· != 0)

/-- Hermes does not take a `#!` line; its newline stays, for the line numbers. -/
def stripShebang (content : Bytes) : Bytes :=
  if content.take 2 == ascii "#!" then content.dropWhile (· != 10) else content

/-- A call of one of the two entry points. -/
inductive Call where
  | compileFunctionForCJSLoader (content filename : Bytes)
  | compileAndRun (source url : Bytes) (enableTS : Bool)
deriving Repr, DecidableEq

/-- The arguments of `compileCacheRun` that a call decides. -/
structure RunArgs where
  kind : CompileCacheKind
  source : Bytes
  wrapPrefix : Bytes
  wrapSuffix : Bytes
  sourceUrl : Option Bytes
deriving Repr, DecidableEq

def Call.runArgs (build : Build) : Call → RunArgs
  | .compileFunctionForCJSLoader content filename =>
      { kind := .kCommonJS
        source := stripShebang content
        wrapPrefix := build.wrapperPrefix
        wrapSuffix := ascii "\n\x7d)" ++
          (if filename.isEmpty then []
          else ascii "\n//# sourceURL=" ++ filename ++ ascii "\n")
        sourceUrl := if filename.isEmpty then none else some (cString filename) }
  | .compileAndRun source url enableTS =>
      { kind := if enableTS then .kLoaderWrappedTS else .kLoaderWrapped
        source := source
        wrapPrefix := []
        wrapSuffix := []
        sourceUrl := some (cString url) }

namespace RunArgs

/-- The name that is hashed into the key. -/
def filename (args : RunArgs) : Bytes := args.sourceUrl.getD []

/-- The identity under which the call is looked up and saved. -/
def entry (crc32 : UInt32 → Bytes → UInt32) (generationDir : Bytes) (args : RunArgs) : Entry :=
  Entry.ofSource crc32 generationDir args.source args.filename args.kind

/-- The text that reaches the compiler. -/
def toCompile (args : RunArgs) : Bytes :=
  if args.wrapPrefix.isEmpty && args.wrapSuffix.isEmpty then args.source
  else args.wrapPrefix ++ args.source ++ args.wrapSuffix

end RunArgs

structure KindFlags where
  enableTS : Bool
  persistent : Bool
deriving Repr, DecidableEq

def flagsFor : CompileCacheKind → KindFlags
  | .kCommonJS => ⟨false, false⟩
  | .kLoaderWrapped => ⟨false, true⟩
  | .kLoaderWrappedTS => ⟨true, true⟩

/-- The Hermes engine; a call of it gives a value, or leaves an exception pending. -/
structure Engine (Value : Type) where
  /-- `hermes_compile_to_bytecode`. -/
  compileToBytecode (source : Bytes) (sourceUrl : Option Bytes) (enableTS optimize : Bool) :
    Except Value Bytes
  /-- `hermes_run_bytecode`. -/
  runBytecode (bytecode : Bytes) (sourceUrl : Option Bytes) (persistent : Bool) :
    Except Value Value
  /-- `napi_run_script`. -/
  napiRunScript (source : Bytes) : Except Value Value
  /-- `hermes_run_script`. -/
  hermesRunScript (source sourceUrl : Bytes) (enableTS persistent : Bool) : Except Value Value

variable {Value : Type}

namespace Engine

/-- The compile of `compileCacheRun`. -/
def compile (engine : Engine Value) (args : RunArgs) (optimize : Bool) : Except Value Bytes :=
  engine.compileToBytecode args.toCompile args.sourceUrl (flagsFor args.kind).enableTS optimize

/-- The run of `compileCacheRun`. -/
def run (engine : Engine Value) (args : RunArgs) (bytecode : Bytes) : Except Value Value :=
  engine.runBytecode bytecode args.sourceUrl (flagsFor args.kind).persistent

/-- `compileCacheRun` without a cache. -/
def compileAndRun (engine : Engine Value) (args : RunArgs) (optimize : Bool) :
    Except Value Value := do
  let bytecode ← engine.compile args optimize
  engine.run args bytecode

end Engine

/-- The entry points with neither a cache nor optimization. -/
def runScript (engine : Engine Value) (build : Build) (call : Call) : Except Value Value :=
  match call with
  | .compileFunctionForCJSLoader _ _ =>
      let args := call.runArgs build
      engine.napiRunScript (args.wrapPrefix ++ args.source ++ args.wrapSuffix)
  | .compileAndRun source url enableTS => engine.hermesRunScript source (cString url) enableTS true

/-! ### Calls in progress -/

/-- A call with the runtime that makes it. -/
structure Issued where
  runtime : Runtime
  call : Call
deriving Repr, DecidableEq

namespace Issued

def args (c : Issued) : RunArgs := c.call.runArgs c.runtime.build

/-- What a call gives when it is compiled from its own source. -/
def fromScratch (crc32 : UInt32 → Bytes → UInt32) (engine : Engine Value) (c : Issued) :
    Except Value Value :=
  if (createCompileCache crc32 c.runtime).isSome || optimizeCompiles crc32 c.runtime then
    engine.compileAndRun c.args (optimizeCompiles crc32 c.runtime)
  else runScript engine c.runtime.build c.call

end Issued

/-- Where a call stands; an operation on the cache is named by its number. -/
inductive CallPc (Value : Type) where
  | lookup (op : Nat)
  | invalidate (op : Nat)
  | save (op : Nat) (bytecode : Bytes)
  | returned (result : Except Value Value)

structure Pending (Value : Type) where
  issued : Issued
  pc : CallPc Value

structure RunState (Value : Type) where
  cache : State
  calls : List (Pending Value)

def RunState.init : RunState Value := { cache := CompileCache.init, calls := [] }

inductive RunEvent where
  | call (issued : Issued)
  /-- Call `i` goes on after its operation on the cache; the engine may refuse what was found. -/
  | advance (i : Nat) (refused : Bool)
  /-- A prune starts, or an operation on the cache goes on or ends. -/
  | disk (event : Event)

/-- The operations that only a call starts. -/
def Event.startsForCall : Event → Bool
  | .startSave _ _ | .startLookup _ | .startInvalidate _ => true
  | _ => false

def RunState.setPc (s : RunState Value) (i : Nat) (p : Pending Value) (pc : CallPc Value) :
    RunState Value :=
  { s with calls := s.calls.set i { p with pc } }

section Step

variable (crc32 : UInt32 → Bytes → UInt32) (engine : Engine Value)

/-- Behind a miss: compile, and save what was compiled. -/
def compileMiss (s : RunState Value) (i : Nat) (p : Pending Value) (generationDir : Bytes) :
    Option (RunState Value) :=
  let args := p.issued.args
  match engine.compile args (optimizeCompiles crc32 p.issued.runtime) with
  | .error exception => some (s.setPc i p (.returned (.error exception)))
  | .ok bytecode =>
      let record : Record := { entry := args.entry crc32 generationDir, bytecode }
      match step s.cache (.startSave p.issued.runtime.pid record) with
      | some cache => some ({ s with cache }.setPc i p (.save s.cache.ops.length bytecode))
      -- nothing that can be saved
      | none => some (s.setPc i p (.returned (engine.run args bytecode)))

def advanceCall (s : RunState Value) (i : Nat) (p : Pending Value) (generationDir : Bytes)
    (refused : Bool) : Option (RunState Value) :=
  let args := p.issued.args
  match p.pc with
  | .lookup op =>
      match s.cache.ops[op]? with
      | some (.lookup lk) =>
          match lk.pc with
          | .hit inode bytecodeSize =>
              match refused, engine.run args (mappedBytecode s.cache.fs inode bytecodeSize) with
              | false, .ok value => some (s.setPc i p (.returned (.ok value)))
              | _, _ =>
                  (step s.cache (.startInvalidate (args.entry crc32 generationDir))).map
                    fun cache => { s with cache }.setPc i p (.invalidate s.cache.ops.length)
          | .miss => compileMiss crc32 engine s i p generationDir
          | _ => none
      | _ => none
  | .invalidate op =>
      match s.cache.ops[op]? with
      | some (.invalidate _ false) => compileMiss crc32 engine s i p generationDir
      | _ => none
  | .save op bytecode =>
      match s.cache.ops[op]? with
      | some (.save sv) =>
          match sv.pc with
          | .renamed | .failed | .abandoned _ _ =>
              some (s.setPc i p (.returned (engine.run args bytecode)))
          | _ => none
      | _ => none
  | .returned _ => none

def runStep (s : RunState Value) : RunEvent → Option (RunState Value)
  | .call issued =>
      match createCompileCache crc32 issued.runtime with
      | some generationDir =>
          (step s.cache (.startLookup (issued.args.entry crc32 generationDir))).map fun cache =>
            { cache, calls := s.calls ++ [{ issued, pc := .lookup s.cache.ops.length }] }
      | none =>
          let result :=
            if optimizeCompiles crc32 issued.runtime then engine.compileAndRun issued.args true
            else runScript engine issued.runtime.build issued.call
          some { s with calls := s.calls ++ [{ issued, pc := .returned result }] }
  | .advance i refused =>
      match s.calls[i]? with
      | some p =>
          match createCompileCache crc32 p.issued.runtime with
          | some generationDir => advanceCall crc32 engine s i p generationDir refused
          | none => none
      | none => none
  | .disk event =>
      if event.startsForCall then none
      else (step s.cache event).map fun cache => { s with cache }

end Step

end HermesNode.CompileCache
