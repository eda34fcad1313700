/-
Module: HermesNode.Cli.Main
Purpose: `main` of `hermes-node` from its arguments to the verb or the run it starts. The rules about
  which flags go together are checked behind the loop, so they look at what was said and not at where.
Trusted boundary: human-reviewed spec (transcribed from `tools/hermes-node/hermes-node.cpp`)
Main exports: Verb, checkToolOptions, flag_order
-/
import HermesNode.Cli.FlagOrder
import HermesNode.VmOptions.Options

namespace HermesNode.Cli

/-! ### The verbs -/

/-- The verbs that describe a file. -/
inductive Verb where
  | dump
  | extractModule
  | dumpBytecode
  | verifyNatives
  | buildExe
deriving Repr, DecidableEq

def Verb.text : Verb → Bytes
  | dump => ascii "--dump"
  | extractModule => ascii "--extract-module"
  | dumpBytecode => ascii "--dump-bytecode"
  | verifyNatives => ascii "--verify-natives"
  | buildExe => ascii "--build-exe"

/-- The options ask for the verb. -/
def ToolOptions.selects (tools : ToolOptions) : Verb → Bool
  | .dump => tools.dump
  | .extractModule => tools.extractModule.isSome
  | .dumpBytecode => tools.dumpBytecode.isSome
  | .verifyNatives => tools.verifyNatives
  | .buildExe => tools.buildExe.isSome

/-- The verb in play, once it is known that there is at most one. -/
def ToolOptions.verb (tools : ToolOptions) : Option Verb :=
  [Verb.dump, .extractModule, .dumpBytecode, .verifyNatives, .buildExe].find? tools.selects

/-- The pairs of verbs, in the order in which they are refused. -/
def clashes : List (Verb × Verb) :=
  [(.dump, .extractModule), (.dumpBytecode, .dump), (.dumpBytecode, .extractModule),
    (.verifyNatives, .dump), (.verifyNatives, .extractModule), (.verifyNatives, .dumpBytecode),
    (.buildExe, .dump), (.buildExe, .extractModule), (.buildExe, .dumpBytecode),
    (.buildExe, .verifyNatives)]

/-- When it applies, and what it then prints. -/
structure Refusal where
  applies : Bool
  message : Bytes
deriving Repr, DecidableEq

/-- The first refusal that applies. -/
def firstRefusal (refusals : List Refusal) : Option Bytes :=
  (refusals.find? (·.applies)).map (·.message)

def clashRefusals (tools : ToolOptions) : List Refusal :=
  clashes.map fun (verb, other) =>
    { applies := tools.selects verb && tools.selects other
      message := ascii "Error: " ++ verb.text ++ ascii " cannot be combined with " ++ other.text
        ++ ascii ".\n" }

/-- The refusals behind the pairs of verbs. -/
def toolRefusals (config : HermesNodeConfig) (tools : ToolOptions) (hasEvalCode : Bool)
    (containerPath : Bytes) : List Refusal :=
  let inspecting := config.inspect || config.inspectBrk
  let verb := (tools.verb.map Verb.text).getD []
  [⟨!config.process.vmOptions.isEmpty && tools.verb.isSome,
      ascii "Error: --vm cannot be combined with " ++ verb ++ ascii ".\n"⟩,
    ⟨config.allowVmOptionsOverride && config.buildBundlePath.isEmpty,
      ascii "Error: --allow-vm-options-override requires --build-bundle.\n"
        ++ ascii "It records a bit in a container; this run is not building one.\n"⟩,
    ⟨tools.dumpBytecode.isSome && !config.bundlePath.isEmpty,
      ascii "Error: --dump-bytecode cannot be combined with --bundle.\n"
        ++ ascii "--dump-bytecode reads a file of bytecode; use --bundle=<file> --dump "
        ++ ascii "to describe a container.\n"⟩,
    ⟨tools.dumpBytecode.isSome && !config.buildBundlePath.isEmpty,
      ascii "Error: --dump-bytecode cannot be combined with --build-bundle.\n"⟩,
    ⟨tools.dump && config.bundlePath.isEmpty, ascii "Error: --dump requires --bundle=<file>.\n"⟩,
    ⟨tools.extractModule.isSome && config.bundlePath.isEmpty,
      ascii "Error: --extract-module requires --bundle=<file>.\n"⟩,
    ⟨tools.verifyNatives && config.bundlePath.isEmpty,
      ascii "Error: --verify-natives requires --bundle=<file>.\n"⟩,
    ⟨tools.buildExe.isSome && !config.bundlePath.isEmpty,
      ascii "Error: --build-exe cannot be combined with --bundle.\n"⟩,
    ⟨tools.buildExe.isSome && !config.buildBundlePath.isEmpty,
      ascii "Error: --build-exe cannot be combined with --build-bundle.\n"⟩,
    ⟨tools.buildExe.isSome && hasEvalCode,
      ascii "Error: --build-exe cannot be combined with -e or --eval.\n"⟩,
    ⟨tools.buildExe.isSome && containerPath.isEmpty,
      ascii "Error: --build-exe requires a bundle file argument, e.g. "
        ++ ascii "hermes-node --build-exe=<output> <bundle.hbb>.\n"⟩,
    ⟨tools.kitDir.isSome && tools.buildExe.isNone, ascii "Error: --kit requires --build-exe.\n"⟩,
    ⟨tools.cc.isSome && tools.buildExe.isNone, ascii "Error: --cc requires --build-exe.\n"⟩,
    ⟨tools.extractModule.isSome && tools.out.isNone,
      ascii "Error: --extract-module requires --out=<file>.\n"⟩,
    ⟨tools.out.isSome && tools.extractModule.isNone,
      ascii "Error: --out requires --extract-module.\n"
        ++ ascii "Nothing else writes a file, so there would be nothing to put in it.\n"⟩,
    ⟨config.verbose && config.buildBundlePath.isEmpty && !tools.dump && !tools.verifyNatives
        && tools.dumpBytecode.isNone && tools.buildExe.isNone,
      ascii "Error: --verbose requires --build-bundle, --dump, --verify-natives, "
        ++ ascii "--dump-bytecode or --build-exe.\n"⟩,
    ⟨!config.includeModules.isEmpty && config.buildBundlePath.isEmpty,
      ascii "Error: --include requires --build-bundle.\n"⟩,
    ⟨!config.preloadModules.isEmpty && config.buildBundlePath.isEmpty,
      ascii "Error: --preload requires --build-bundle.\n"⟩,
    ⟨!config.bundlePath.isEmpty && !config.requireModules.isEmpty,
      ascii "Error: --bundle cannot be combined with -r or --require.\n"⟩,
    ⟨tools.verb.isSome && inspecting,
      ascii "Error: " ++ verb ++ ascii " cannot be combined with --inspect or --inspect-brk.\n"
        ++ verb ++ ascii " describes a file, it does not run one, so there would be nothing "
        ++ ascii "to inspect.\n"⟩,
    ⟨tools.dumpBytecode = some [], ascii "Error: --dump-bytecode requires a file path.\n"⟩,
    ⟨tools.out = some [], ascii "Error: --out requires a file path.\n"⟩,
    ⟨tools.buildExe = some [], ascii "Error: --build-exe requires a file path.\n"⟩,
    ⟨tools.kitDir = some [], ascii "Error: --kit requires a directory path.\n"⟩,
    ⟨tools.cc = some [], ascii "Error: --cc requires a compiler name or path.\n"⟩,
    ⟨config.process.vmOptions.any List.isEmpty, ascii "Error: --vm requires a value\n"⟩]

/-- The first problem with the verbs and the flags that serve them. -/
def checkToolOptions (config : HermesNodeConfig) (tools : ToolOptions) (hasEvalCode : Bool)
    (containerPath : Bytes) : Option Bytes :=
  firstRefusal (clashRefusals tools ++ toolRefusals config tools hasEvalCode containerPath)

/-- A verb with the arguments it is run on. -/
inductive ToolCall where
  | dumpBundle (bundlePath : Bytes) (verbose : Bool)
  | extractModule (bundlePath identity out : Bytes)
  | dumpBytecodeFile (path : Bytes) (verbose : Bool)
  | verifyNatives (bundlePath : Bytes) (verbose : Bool)
  | buildExecutable (containerPath output kitDir cc : Bytes) (verbose : Bool)
deriving Repr, DecidableEq

/-- What `main` asks of the system it runs on. -/
structure System where
  /-- `uv_exepath`. -/
  exepath : Option Bytes
  realpath : Bytes → Option Bytes
  /-- `MappedFile::open`: the bytes of a file, or an error. -/
  openMapped : Bytes → Except Bytes Bytes
  /-- `HERMES_NODE_VM_OPTIONS`. -/
  vmOptionsEnv : Option Bytes

def resolveKitDir (system : System) : Option Bytes → Bytes
  | some kitDir => kitDir
  | none =>
      match system.exepath with
      | none => ascii "kit"
      | some exePath =>
          let exePath := (system.realpath exePath).getD exePath
          match CString.strrchr 47 exePath with
          | none => ascii "./kit"
          | some (dir, _) => dir ++ ascii "/kit"

def runToolVerb (system : System) (config : HermesNodeConfig) (tools : ToolOptions)
    (containerPath : Bytes) : Option ToolCall :=
  if tools.dump then some (.dumpBundle config.bundlePath config.verbose)
  else
    match tools.extractModule, tools.dumpBytecode with
    -- `checkToolOptions` lets the verb through with `--out` only.
    | some identity, _ => some (.extractModule config.bundlePath identity (tools.out.getD []))
    | none, some path => some (.dumpBytecodeFile path config.verbose)
    | none, none =>
        if tools.verifyNatives then some (.verifyNatives config.bundlePath config.verbose)
        else
          tools.buildExe.map fun output =>
            .buildExecutable containerPath output (resolveKitDir system tools.kitDir)
              (tools.cc.getD []) config.verbose

/-! ### The main program -/

/-- How `main` goes on. -/
inductive Outcome where
  | printed (flag : Flag)
  | refused (message : Bytes)
  | tool (call : ToolCall)
  | run (config : HermesNodeConfig)
deriving Repr, DecidableEq

/-- An option behind the bundle file that `--build-exe` links. -/
def lateOption (tools : ToolOptions) : List Bytes → Option Bytes
  | [] => none
  | bundleFile :: rest =>
      if tools.buildExe.isSome then
        (rest.find? fun arg => arg.head? = some 45).map fun arg =>
          ascii "Error: '" ++ arg ++ ascii "' appears after the bundle file '" ++ bundleFile
            ++ ascii "'; options must come before it.\n"
      else none

/-- The refusals that belong to running a program. -/
def runRefusals (config : HermesNodeConfig) (hasEvalCode : Bool) : List Refusal :=
  [⟨!config.bundlePath.isEmpty && (config.inspect || config.inspectBrk),
      ascii "Error: --bundle cannot be combined with --inspect or --inspect-brk.\n"
        ++ ascii "Bundled code is compiled without the full debug info the debugger "
        ++ ascii "needs to set breakpoints.\n"⟩,
    ⟨!config.bundlePath.isEmpty && !config.buildBundlePath.isEmpty,
      ascii "Error: --bundle cannot be combined with --build-bundle.\n"⟩,
    ⟨!config.bundlePath.isEmpty && hasEvalCode,
      ascii "Error: --bundle cannot be combined with -e or --eval.\n"⟩]

/-- The check of `--optimize=on` against the inspector. -/
def optimizeRefusal (config : HermesNodeConfig) : Refusal :=
  ⟨config.process.optimize = .kOn && (config.inspect || config.inspectBrk),
    ascii "Error: --optimize=on cannot be combined with --inspect or --inspect-brk.\n"
      ++ ascii "Optimized code is compiled without the full debug info the debugger "
      ++ ascii "needs to set breakpoints.\n"⟩

/-- The container's options, the environment's and those of the command line, in this order. -/
def mergeVmOptions (system : System) (config : HermesNodeConfig) : Except Bytes (List Bytes) :=
  let cliVm := config.process.vmOptions
  let runtimeVm := VmOptions.splitVmOptionsEnv system.vmOptionsEnv
  if config.bundlePath.isEmpty then
    .ok (if config.buildBundlePath.isEmpty then runtimeVm ++ cliVm else cliVm)
  else
    match system.openMapped config.bundlePath with
    | .error error => .error (ascii "error: " ++ error ++ ascii "\n")
    | .ok data =>
        match VmOptions.readVmOptions data with
        | .accepted bundleVm =>
            let hasCliVm := !cliVm.isEmpty
            if !bundleVm.allowOverride && (hasCliVm || !runtimeVm.isEmpty) then
              .error (ascii "Error: this bundle's VM options are locked and cannot be "
                ++ ascii "overridden.\n       "
                ++ (if hasCliVm then ascii "--vm was given on the command line."
                  else ascii "HERMES_NODE_VM_OPTIONS is set in the environment.")
                ++ ascii "\n       Rebuild with: --build-bundle --allow-vm-options-override\n")
            else .ok (bundleVm.options ++ runtimeVm ++ cliVm)
        | failed => .error (VmOptions.refuseRead failed ++ ascii "\n")

/-- The run that the configuration is completed to. -/
def startRun (system : System) (argv0 : Bytes) (s : ParseState)
    (scriptArgs programArgs : List Bytes) : Outcome :=
  match mergeVmOptions system s.config with
  | .error message => .refused message
  | .ok vmOptions =>
      let config := { s.config with process := { s.config.process with vmOptions } }
      if config.bundlePath.isEmpty then
        let config := { config with argv := argv0 :: programArgs }
        if s.hasEvalCode then .run config
        else
          match scriptArgs with
          | script :: _ => .run { config with scriptPath := script }
          | [] => .run { config with enableRepl := true }
      else .run { config with argv := argv0 :: config.bundlePath :: programArgs }

/-- What comes behind the loop. -/
def afterLoop (system : System) (argv0 : Bytes) (s : ParseState)
    (scriptArgs programArgs : List Bytes) : Outcome :=
  match firstRefusal [optimizeRefusal s.config] with
  | some message => .refused message
  | none =>
      let containerPath := if s.hasEvalCode then [] else scriptArgs.headD []
      match checkToolOptions s.config s.tools s.hasEvalCode containerPath with
      | some message => .refused message
      | none =>
          match lateOption s.tools scriptArgs with
          | some message => .refused message
          | none =>
              match firstRefusal (runRefusals s.config s.hasEvalCode) with
              | some message => .refused message
              | none =>
                  match runToolVerb system s.config s.tools containerPath with
                  | some call => .tool call
                  | none => startRun system argv0 s scriptArgs programArgs

def main (system : System) (argv0 : Bytes) (args : List Bytes) : Outcome :=
  match parseLoop args {} with
  | .printed flag => .printed flag
  | .refused message => .refused message
  | .parsed s scriptArgs programArgs => afterLoop system argv0 s scriptArgs programArgs

/-! ### Neither the order of the flags nor that of the verbs counts -/

theorem firstRefusal_eq_none {refusals : List Refusal} (h : firstRefusal refusals = none) :
    ∀ refusal ∈ refusals, refusal.applies = false := by
  intro refusal hin
  have hnone := List.find?_eq_none.mp (Option.map_eq_none_iff.mp h) refusal hin
  exact Bool.eq_false_iff.mpr hnone

/-- Every two verbs are refused together, in one order or the other. -/
theorem clashes_cover {verb other : Verb} (h : verb ≠ other) :
    (verb, other) ∈ clashes ∨ (other, verb) ∈ clashes := by
  cases verb <;> cases other <;> first | contradiction | decide

/-- Verbs that are refused together are not both asked for once the options are accepted. -/
theorem not_both_selected {config : HermesNodeConfig} {tools : ToolOptions} {hasEvalCode : Bool}
    {containerPath : Bytes} (h : checkToolOptions config tools hasEvalCode containerPath = none)
    {verb other : Verb} (hclash : (verb, other) ∈ clashes) (hverb : tools.selects verb = true)
    (hother : tools.selects other = true) : False := by
  have hrefusal := firstRefusal_eq_none h _
    (List.mem_append_left _ (List.mem_map_of_mem hclash))
  dsimp only at hrefusal
  rw [hverb, hother] at hrefusal
  cases hrefusal

theorem selected_unique {config : HermesNodeConfig} {tools : ToolOptions} {hasEvalCode : Bool}
    {containerPath : Bytes} (h : checkToolOptions config tools hasEvalCode containerPath = none)
    {verb other : Verb} (hverb : tools.selects verb = true) (hother : tools.selects other = true) :
    verb = other := by
  by_contra hne
  rcases clashes_cover hne with hclash | hclash
  · exact not_both_selected h hclash hverb hother
  · exact not_both_selected h hclash hother hverb

/-- Units that the loop accepts, none of which prints a page and ends the program, can be shuffled
within the order of each family: the loop ends the same, with the same configuration and the same
options, and so does the program, whatever follows them. And options that are accepted ask for one verb
at most. -/
theorem flag_order {units shuffled : List OptionUnit} (hstop : ∀ u ∈ units, u.flag.form ≠ .stop)
    (haccepted : (parseLoop (unitArgs units) {}).Accepted)
    (hshuffled : Shuffled OptionUnit.family units shuffled) :
    (∀ tail,
      parseLoop (unitArgs shuffled ++ tail) {} = parseLoop (unitArgs units ++ tail) {} ∧
      ∀ system argv0,
        main system argv0 (unitArgs shuffled ++ tail) = main system argv0 (unitArgs units ++ tail)) ∧
    ∀ config tools hasEvalCode containerPath,
      checkToolOptions config tools hasEvalCode containerPath = none →
        ∀ verb other, tools.selects verb = true → tools.selects other = true → verb = other := by
  refine ⟨fun tail => ?_, fun config tools hasEvalCode containerPath h verb other =>
    selected_unique h⟩
  have hsame := parseLoop_shuffled hstop haccepted hshuffled tail
  refine ⟨hsame.symm, fun system argv0 => ?_⟩
  unfold main
  rw [hsame]

/-- `-e 1 --dump --eval=2`, and the same with `--dump` first. -/
theorem flag_order_eval_dump :
    (∀ tail,
      parseLoop (unitArgs [⟨.dump, []⟩, ⟨.e, [49]⟩, ⟨.evalEq, [50]⟩] ++ tail) {} =
        parseLoop (unitArgs [⟨.e, [49]⟩, ⟨.dump, []⟩, ⟨.evalEq, [50]⟩] ++ tail) {} ∧
      ∀ system argv0,
        main system argv0 (unitArgs [⟨.dump, []⟩, ⟨.e, [49]⟩, ⟨.evalEq, [50]⟩] ++ tail) =
          main system argv0 (unitArgs [⟨.e, [49]⟩, ⟨.dump, []⟩, ⟨.evalEq, [50]⟩] ++ tail)) ∧
    ∀ config tools hasEvalCode containerPath,
      checkToolOptions config tools hasEvalCode containerPath = none →
        ∀ verb other, tools.selects verb = true → tools.selects other = true → verb = other :=
  flag_order (by decide) ⟨_, _, _, rfl⟩ fun family => by cases family <;> rfl

end HermesNode.Cli
