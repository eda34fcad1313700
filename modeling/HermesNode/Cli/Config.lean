/-
Module: HermesNode.Cli.Config
Purpose: What the command line of `hermes-node` sets: the configuration of the run, and the options of
  the verbs that describe a file instead of running one.
Trusted boundary: human-reviewed spec (transcribed from `hermes_node_runtime.h` and
  `tools/hermes-node/hermes-node.cpp`)
Main exports: OptimizeMode, HermesNodeProcessConfig, HermesNodeConfig, ToolOptions
-/
import HermesNode.Lib.Buffer

namespace HermesNode.Cli

inductive OptimizeMode where
  | kDefault
  | kOn
  | kOff
deriving Repr, DecidableEq

structure HermesNodeProcessConfig where
  nodeVersion : Bytes := []
  compileCacheDir : Bytes := []
  disableCompileCache : Bool := false
  optimize : OptimizeMode := .kDefault
  vmOptions : List Bytes := []
deriving Repr, DecidableEq

structure HermesNodeConfig where
  process : HermesNodeProcessConfig := {}
  scriptPath : Bytes := []
  buildBundlePath : Bytes := []
  verbose : Bool := false
  includeModules : List Bytes := []
  preloadModules : List Bytes := []
  allowVmOptionsOverride : Bool := false
  bundlePath : Bytes := []
  evalCode : Bytes := []
  argv : List Bytes := []
  requireModules : List Bytes := []
  enableRepl : Bool := false
  inspect : Bool := false
  inspectBrk : Bool := false
  inspectHost : Bytes := ascii "127.0.0.1"
  inspectPort : Int := 9229
  inspectOpen : Bool := false
deriving Repr, DecidableEq

/-- The read-only verbs and the flags that serve them. A verb without a value is not the verb with an
empty one. -/
structure ToolOptions where
  dump : Bool := false
  extractModule : Option Bytes := none
  dumpBytecode : Option Bytes := none
  out : Option Bytes := none
  verifyNatives : Bool := false
  buildExe : Option Bytes := none
  kitDir : Option Bytes := none
  cc : Option Bytes := none
deriving Repr, DecidableEq

end HermesNode.Cli
