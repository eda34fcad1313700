/-
Module: HermesNode.VmOptions.Options
Purpose: The VM options of a run: how an option is named and classified, how repeated ones are
  deduplicated, how the configuration of the runtime is built from them over the process-global
  option registry, and how the two main programs merge a container's options with the environment's
  and the command line's.
Trusted boundary: assumed contract (llvh::cl, a parameter: what it makes of arguments with distinct
  registered names)
Main exports: vmOptionFlagName, classifyVmOption, dedupe, CommandLine
-/
import HermesNode.Bundle.Reader

namespace HermesNode.VmOptions

open HermesNode.Bundle

/-! ### Names of options -/

def kHonoured : List Bytes :=
  [ -- GCConfig.
    ascii "gc-init-heap", ascii "gc-max-heap", ascii "occupancy-target",
    ascii "gc-sanitize-handles", ascii "gc-sanitize-handles-random-seed", ascii "gc-alloc-young",
    ascii "gc-revert-to-yg-at-tti",
    -- RuntimeConfig.
    ascii "max-register-stack", ascii "Xjit", ascii "Xjit-threshold", ascii "Xjit-memory-limit",
    ascii "Xes6-proxy", ascii "Xes6-block-scoping", ascii "Xasync-generators", ascii "Xintl",
    ascii "Xmicrotask-queue", ascii "Xvm-experiment-flags", ascii "Xrandomize-memory-layout",
    ascii "enable-hermes-internal", ascii "Xhermes-internal-test-methods", ascii "enable-eval",
    ascii "verify-ir", ascii "optimized-eval", ascii "emit-async-break-check", ascii "test262"]

def kConsoleHostOnly : List Bytes :=
  [ascii "sample-profiling", ascii "sample-profiling-freq", ascii "gc-print-stats",
    ascii "track-io", ascii "stop-after-module-init", ascii "Xheap-timeline",
    ascii "Xdump-jitcode", ascii "Xperf-prof", ascii "Xperf-prof-dir",
    ascii "Xjit-crash-on-error", ascii "Xjit-emit-asserts", ascii "Xjit-emit-counters",
    ascii "Xjit-hc-id-limit"]

/-- Leading dashes and a `=value` are no part of the name. -/
def vmOptionFlagName (arg : Bytes) : Bytes := (arg.dropWhile (· == 45)).takeWhile (· != 61)

inductive VmOptionStatus where
  | honoured
  | consoleHost
  | unknown
  deriving DecidableEq, Repr

def classifyVmOption (flagName : Bytes) : VmOptionStatus :=
  if kHonoured.contains flagName then .honoured
  else if kConsoleHostOnly.contains flagName then .consoleHost
  else .unknown

/-- The first option that is not honoured is refused. -/
def classifyAll : List Bytes → Except Bytes Unit
  | [] => .ok ()
  | opt :: options =>
      match classifyVmOption (vmOptionFlagName opt) with
      | .honoured => classifyAll options
      | .consoleHost =>
          .error (ascii "'-" ++ vmOptionFlagName opt ++ ascii "' is not supported by hermes-node.\n"
            ++ ascii "       It is implemented by Hermes's ConsoleHost, which this "
            ++ ascii "runtime does not use.\n"
            ++ ascii "       Run --vm-help for the flags that are supported.")
      | .unknown =>
          .error (ascii "unknown VM option '" ++ opt
            ++ ascii "'.\n       Run --vm-help for the flags that are supported.")

/-- `deduped` and `indexOfName`. -/
structure Deduped where
  options : List Bytes
  indexOfName : List (Bytes × Nat)

/-- A repeated flag overwrites the option at its first place. -/
def dedupeStep (d : Deduped) (opt : Bytes) : Deduped :=
  match d.indexOfName.lookup (vmOptionFlagName opt) with
  | some i => { d with options := d.options.set i opt }
  | none =>
      { options := d.options ++ [opt]
        indexOfName := d.indexOfName ++ [(vmOptionFlagName opt, d.options.length)] }

def dedupe (options : List Bytes) : List Bytes :=
  (options.foldl dedupeStep ⟨[], []⟩).options

/-! ### The option registry -/

/-- The state of a registered option. -/
structure Registered (V : Type) where
  value : V
  occurrences : Nat

/-- The registry of llvh::cl, by the names of the options. -/
abbrev Registry (V : Type) := Bytes → Registered V

/-- llvh::cl, with the values its options hold. -/
structure CommandLine (V : Type) where
  /-- `cl::init(...)`. -/
  init : Bytes → V
  /-- Whether an argument is one its option takes, and the value it then gives. -/
  accepts : Bytes → Bool
  valueOf : Bytes → V
  /-- The modes of the one option that sets two fields. -/
  jitOff : V → Bool
  jitForce : V → Bool
  /-- `ParseCommandLineOptions`: the registry, and the error if there is one. -/
  parse : Registry V → List Bytes → Registry V × Option Bytes

variable {V : Type}

/-- An argument is recorded by its option. -/
def record (cl : CommandLine V) (r : Registry V) (arg : Bytes) : Registry V := fun name =>
  if name = vmOptionFlagName arg then ⟨cl.valueOf arg, (r name).occurrences + 1⟩ else r name

/-- What llvh::cl makes of arguments that name registered options, each at most once: it fails if one
of them is not taken, and else every option records its own argument. -/
def CommandLine.ParsesDistinct (cl : CommandLine V) : Prop :=
  ∀ (r : Registry V) (args : List Bytes), (args.map vmOptionFlagName).Nodup →
    (∀ arg ∈ args, classifyVmOption (vmOptionFlagName arg) = .honoured) →
    (∀ arg ∈ args, (r (vmOptionFlagName arg)).occurrences = 0) →
    if args.all cl.accepts then cl.parse r args = (args.foldl (record cl) r, none)
    else (cl.parse r args).2.isSome = true

/-- `setDefault` for every option and `ResetAllOptionOccurrences`; the two options that hold a
`MemorySize` keep their values. -/
def resetRegistry (cl : CommandLine V) (r : Registry V) : Registry V := fun name =>
  ⟨if name = ascii "gc-init-heap" ∨ name = ascii "gc-max-heap" then (r name).value
    else cl.init name, 0⟩

/-! ### The configuration -/

/-- The calls on `GCConfig::Builder`: a field is set, or keeps the builder's default. -/
structure GCConfig (V : Type) where
  initHeapSize : Option V
  maxHeapSize : Option V
  occupancyTarget : Option V
  /-- The rate and the seed. -/
  sanitizeConfig : Option (V × V)
  allocInYoung : Option V
  revertToYGAtTTI : Option V

/-- A field that hermes-node sets whether its flag was named or not. -/
inductive Forced (V : Type) where
  | byDefault (value : Bool)
  | given (value : V)

/-- The calls on `RuntimeConfig::Builder`. -/
structure RuntimeConfig (V : Type) where
  gcConfig : GCConfig V
  maxNumRegisters : Option V
  enableJIT : Option Bool
  forceJIT : Option Bool
  jitThreshold : Option V
  jitMemoryLimit : Option V
  enableEval : Option V
  verifyEvalIR : Option V
  optimizedEval : Option V
  asyncBreakCheckInEval : Option V
  vmExperimentFlags : Option V
  es6Proxy : Option V
  intl : Option V
  randomizeMemoryLayout : Option V
  enableHermesInternal : Option V
  enableHermesInternalTestMethods : Option V
  test262 : Option V
  es6BlockScoping : Forced V
  enableAsyncGenerators : Forced V
  microtaskQueue : Forced V

/-- `wasGiven`. -/
def wasGiven (r : Registry V) (name : Bytes) : Bool := 0 < (r name).occurrences

/-- The value of an option that was named. -/
def given (r : Registry V) (name : String) : Option V :=
  if wasGiven r (ascii name) then some (r (ascii name)).value else none

def forced (r : Registry V) (name : String) (fallback : Bool) : Forced V :=
  if wasGiven r (ascii name) then .given (r (ascii name)).value else .byDefault fallback

def kDefaultES6BlockScoping : Bool := true

def kDefaultAsyncGenerators : Bool := true

def kDefaultMicrotaskQueue : Bool := true

/-- The mapping from the registry to the configuration. -/
def configOf (cl : CommandLine V) (r : Registry V) : RuntimeConfig V where
  gcConfig :=
    { initHeapSize := given r "gc-init-heap"
      maxHeapSize := given r "gc-max-heap"
      occupancyTarget := given r "occupancy-target"
      sanitizeConfig :=
        if wasGiven r (ascii "gc-sanitize-handles") ||
            wasGiven r (ascii "gc-sanitize-handles-random-seed") then
          some ((r (ascii "gc-sanitize-handles")).value,
            (r (ascii "gc-sanitize-handles-random-seed")).value)
        else none
      allocInYoung := given r "gc-alloc-young"
      revertToYGAtTTI := given r "gc-revert-to-yg-at-tti" }
  maxNumRegisters := given r "max-register-stack"
  enableJIT := (given r "Xjit").map fun mode => !cl.jitOff mode
  forceJIT := (given r "Xjit").map cl.jitForce
  jitThreshold := given r "Xjit-threshold"
  jitMemoryLimit := given r "Xjit-memory-limit"
  enableEval := given r "enable-eval"
  verifyEvalIR := given r "verify-ir"
  optimizedEval := given r "optimized-eval"
  asyncBreakCheckInEval := given r "emit-async-break-check"
  vmExperimentFlags := given r "Xvm-experiment-flags"
  es6Proxy := given r "Xes6-proxy"
  intl := given r "Xintl"
  randomizeMemoryLayout := given r "Xrandomize-memory-layout"
  enableHermesInternal := given r "enable-hermes-internal"
  enableHermesInternalTestMethods := given r "Xhermes-internal-test-methods"
  test262 := given r "test262"
  es6BlockScoping := forced r "Xes6-block-scoping" kDefaultES6BlockScoping
  enableAsyncGenerators := forced r "Xasync-generators" kDefaultAsyncGenerators
  microtaskQueue := forced r "Xmicrotask-queue" kDefaultMicrotaskQueue

/-- The configuration of some options, over the registry that earlier calls left; and the registry
this call leaves. -/
def buildVmRuntimeConfig (cl : CommandLine V) (r : Registry V) (options : List Bytes) :
    Registry V × Except Bytes (RuntimeConfig V) :=
  match classifyAll options with
  | .error e => (resetRegistry cl r, .error e)
  | .ok () =>
      match cl.parse (resetRegistry cl r) (dedupe options) with
      | (parsed, some errText) =>
          (parsed, .error
            (if errText.isEmpty then
              ascii "invalid value for one or more --vm options; see stderr for " ++ ascii "details"
            else errText))
      | (parsed, none) => (parsed, .ok (configOf cl parsed))

/-! ### The main programs -/

/-- The white space of the C locale. -/
def isSpace (b : UInt8) : Bool := b == 32 || (9 ≤ b && b ≤ 13)

/-- The words of a text, split by `>>` of a stream. -/
def splitWords : Bytes → Bytes → List Bytes
  | word, [] => if word.isEmpty then [] else [word]
  | word, b :: bs =>
      if isSpace b then (if word.isEmpty then [] else [word]) ++ splitWords [] bs
      else splitWords (word ++ [b]) bs

def splitVmOptionsEnv : Option Bytes → List Bytes
  | none => []
  | some value => splitWords [] value

structure BundleVmOptions where
  options : List Bytes
  allowOverride : Bool
  deriving DecidableEq, Repr

/-- `copyVmOptions`. -/
def copyVmOptions (reader : BundleReader) : Check BundleVmOptions := do
  let options ← (List.range reader.vmOptionCount).mapM fun i => Check.load (reader.vmOption i)
  pure ⟨options, reader.allowsVmOptionsOverride⟩

/-- `readBundleVmOptions` of the bytes of a mapped file and `readEmbeddedBundleVmOptions`. -/
def readVmOptions (data : Bytes) : Check BundleVmOptions := do
  let reader ← BundleReader.openForInspection data
  copyVmOptions reader

/-- How a run starts: refused with a message, or with a runtime of some configuration. -/
inductive Start (V : Type) where
  | refused (message : Bytes)
  | started (config : RuntimeConfig V)

/-- The runtime of the run is configured from its options. -/
def runHermesNode (cl : CommandLine V) (r : Registry V) (vmOptions : List Bytes) : Start V :=
  match (buildVmRuntimeConfig cl r vmOptions).2 with
  | .error e => .refused (ascii "Error: VM options: " ++ e)
  | .ok config => .started config

/-- The container that could not be read, or whose bytes were read outside of. -/
def refuseRead : Check BundleVmOptions → Bytes
  | .rejected message => ascii "error: " ++ ascii message
  | _ => ascii "error: "

/-- `main` of `hermes-node` when it runs a program: the mapped `--bundle` container if there is one,
`HERMES_NODE_VM_OPTIONS`, and the `--vm` arguments. -/
def hermesNodeMain (cl : CommandLine V) (r : Registry V) (bundle : Option Bytes)
    (env : Option Bytes) (cliVm : List Bytes) : Start V :=
  -- `checkToolOptions`
  if cliVm.any List.isEmpty then .refused (ascii "Error: --vm requires a value\n")
  else
    match bundle with
    | none =>
        let merged := splitVmOptionsEnv env
        runHermesNode cl r (if merged.isEmpty then cliVm else merged ++ cliVm)
    | some data =>
        match readVmOptions data with
        | .accepted bundleVm =>
            let runtimeVm := splitVmOptionsEnv env
            let hasCliVm := !cliVm.isEmpty
            if !bundleVm.allowOverride && (hasCliVm || !runtimeVm.isEmpty) then
              .refused (ascii "Error: this bundle's VM options are locked and cannot be "
                ++ ascii "overridden.\n       "
                ++ (if hasCliVm then ascii "--vm was given on the command line."
                  else ascii "HERMES_NODE_VM_OPTIONS is set in the environment.")
                ++ ascii "\n       Rebuild with: --build-bundle --allow-vm-options-override\n")
            else runHermesNode cl r (bundleVm.options ++ runtimeVm ++ cliVm)
        | failed => .refused (refuseRead failed)

/-- `main` of a linked executable: its container and `HERMES_NODE_VM_OPTIONS`. -/
def bundleMain (cl : CommandLine V) (r : Registry V) (data : Bytes) (env : Option Bytes) :
    Start V :=
  match readVmOptions data with
  | .accepted bundleVm =>
      let envVm := splitVmOptionsEnv env
      if !bundleVm.allowOverride && !envVm.isEmpty then
        .refused (ascii "Error: this executable's VM options are locked and cannot be "
          ++ ascii "overridden.\n       HERMES_NODE_VM_OPTIONS is set in the environment.\n"
          ++ ascii "       Rebuild the container with: --build-bundle "
          ++ ascii "--allow-vm-options-override\n       then link it again with: --build-exe\n")
      else runHermesNode cl r (bundleVm.options ++ envVm)
  | failed => .refused (refuseRead failed)

end HermesNode.VmOptions
