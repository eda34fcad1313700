/-
Module: HermesNode.Build.Walk
Purpose: The first half of `buildBundle`: the entry and the two kinds of seeds, and the work list
  over the `require` graph. The work list is the one of `Lib.WorkList`; visiting a file reads it,
  scans it and resolves its specifiers over the disk.
Trusted boundary: human-reviewed spec (transcribed from `lib/bundle/bundle_build.cpp`)
Main exports: Options, BuildError, FileInfo, startOf
-/
import HermesNode.Build.Disk

namespace HermesNode.Build

open HermesNode.Bundle Resolve WorkList

/-- The arguments of `buildBundle`. -/
structure Options where
  entryPath : Bytes
  outPath : Bytes
  includes : List Bytes := []
  preloads : List Bytes := []
  vmOptions : List Bytes := []
  allowVmOptionsOverride : Bool := true
  /-- The entry is an argument of the command line, a C string. -/
  entry_nul : 0 ∉ entryPath

/-- Which of the two certain loads a file is. -/
inductive Role where
  | entry
  | preload
deriving Repr, DecidableEq

def Role.text : Role → Bytes
  | .entry => ascii "entry"
  | .preload => ascii "preload"

/-- The options that add seeds. -/
inductive SeedOption where
  | includes
  | preload
deriving Repr, DecidableEq

def SeedOption.text : SeedOption → Bytes
  | .includes => ascii "--include="
  | .preload => ascii "--preload="

/-- Why `buildBundle` returned 1. -/
inductive BuildError where
  | entryPath (entry reason : Bytes)
  | entryNotRegular (absEntry : Bytes)
  | entryNotJavaScript (absEntry : Bytes)
  | seedUnresolved (option : SeedOption) (spec : Bytes)
  | seedNotPackageable (option : SeedOption) (spec resolved : Bytes)
  | noDigest (reason : Bytes)
  | cannotRead (path : Bytes)
  | doesNotParse (role : Role) (path error : Bytes)
  | sidecarTaken (owner identity name : Bytes)
  | sidecarIsBundle (path outPath : Bytes)
  | sidecarIsSource (identity dst other : Bytes)
  | doesNotCompile (role : Role) (path error : Bytes)
  | stubDoesNotCompile (path error : Bytes)
  | cannotWrite (report : Bytes)
deriving Repr, DecidableEq

/-- The text printed for it. -/
def BuildError.message : BuildError → Bytes
  | .entryPath entry reason =>
      ascii "error: cannot resolve entry path " ++ cstr entry ++ ascii ": " ++ reason ++ ascii "\n"
  | .entryNotRegular absEntry =>
      ascii "error: entry is not a regular file: " ++ cstr absEntry ++ ascii "\n"
  | .entryNotJavaScript absEntry =>
      ascii "error: entry must be a CommonJS JavaScript or TypeScript file: " ++ cstr absEntry ++
        ascii "\n"
  | .seedUnresolved option spec =>
      ascii "error: " ++ option.text ++ cstr spec ++ ascii " cannot be resolved\n"
  | .seedNotPackageable option spec resolved =>
      ascii "error: " ++ option.text ++ cstr spec ++ ascii " resolves to " ++ cstr resolved ++
        ascii ", which is not packageable (" ++ cstr (formatSkipReason resolved) ++ ascii ")\n"
  | .noDigest reason => ascii "error: " ++ cstr reason ++ ascii "\n"
  | .cannotRead path => ascii "error: cannot read " ++ cstr path ++ ascii "\n"
  | .doesNotParse role path error =>
      ascii "error: failed to parse " ++ role.text ++ ascii " " ++ cstr path ++ ascii ": " ++
        cstr error ++ ascii "\n"
  | .sidecarTaken owner identity name =>
      ascii "error: native addons " ++ cstr owner ++ ascii " and " ++ cstr identity ++
        ascii " both want the sidecar file " ++ cstr name ++ ascii "\n"
  | .sidecarIsBundle path outPath =>
      ascii "error: native addon " ++ cstr path ++ ascii " would be written over the bundle " ++
        cstr outPath ++ ascii "\n"
  | .sidecarIsSource identity dst other =>
      ascii "error: the sidecar for native addon " ++ cstr identity ++ ascii " (" ++ cstr dst ++
        ascii ") is the source file of native addon " ++ cstr other ++ ascii "\n"
  | .doesNotCompile role path error =>
      ascii "error: failed to compile " ++ role.text ++ ascii " " ++ cstr path ++ ascii ": " ++
        cstr error ++ ascii "\n"
  | .stubDoesNotCompile path error =>
      ascii "error: internal: the stub for " ++ cstr path ++ ascii " does not compile: " ++
        cstr error ++ ascii "\n"
  | .cannotWrite report => report

/-- Data collected for one visited file. -/
structure FileInfo where
  kind : ModuleKind
  /-- The text of a JSON module; the source of a JavaScript module until it is compiled; empty for
  a native addon. -/
  payload : Bytes := []
  /-- The specifier as written and the path it resolved to. -/
  edges : List (Bytes × Bytes) := []
  flags : UInt32 := kRequirable
  digest : Option NativeDigest := none

/-- A visited file, with the directories whose `package.json` its resolutions consulted. -/
structure Visited where
  info : FileInfo
  consulted : List Bytes := []

/-! ### The entry and the seeds -/

/-- `fs::absolute`: the working directory is put in front of a relative path. -/
def absolute (disk : Disk) (p : Bytes) : Except Bytes Bytes :=
  if p = [] then .error (ascii "Invalid argument")
  else if isAbsolute p then .ok p
  else disk.currentPath.map fun cwd => pathAppend cwd p

/-- Step 1: the entry, absolute and in normal form. -/
def absEntryOf (disk : Disk) (opts : Options) : Except BuildError Bytes :=
  match absolute disk opts.entryPath with
  | .error reason => .error (.entryPath opts.entryPath reason)
  | .ok path =>
      let absEntry := lexicallyNormal path
      if !disk.isRegularFile (cstr absEntry) then .error (.entryNotRegular absEntry)
      else if classifyFile absEntry ≠ .kJavaScript then .error (.entryNotJavaScript absEntry)
      else .ok absEntry

/-- A seed of an option is resolved as if the entry required it. -/
def seedOf (disk : Disk) (absEntry : Bytes) (option : SeedOption) (spec : Bytes) :
    Except BuildError Bytes :=
  match (resolveSpecifier disk.source absEntry spec).target with
  | none => .error (.seedUnresolved option spec)
  | some resolved =>
      if classifyFile resolved = .kSkip then .error (.seedNotPackageable option spec resolved)
      else .ok resolved

/-- What the walk starts from. -/
structure Start where
  absEntry : Bytes
  includes : List Bytes
  preloads : List Bytes
  /-- The directories the seeds' resolutions consulted. -/
  consulted : List Bytes

/-- The first paths of the work list. -/
def Start.paths (start : Start) : List Bytes :=
  discover [start.absEntry] (start.includes ++ start.preloads)

/-- The preloads in the order they were given, each once. -/
def Start.preloadPaths (start : Start) : List Bytes := discover [] start.preloads

def startOf (disk : Disk) (opts : Options) : Except BuildError Start := do
  let absEntry ← absEntryOf disk opts
  let includes ← opts.includes.mapM (seedOf disk absEntry .includes)
  let preloads ← opts.preloads.mapM (seedOf disk absEntry .preload)
  pure
    { absEntry, includes, preloads
      consulted := (opts.includes ++ opts.preloads).flatMap fun spec =>
        (resolveSpecifier disk.source absEntry spec).consulted }

/-! ### Visiting one file -/

/-- How the walk resolves one specifier of `path`. A builtin is never looked up. -/
def resolveLiteral (disk : Disk) (path specifier : Bytes) : Resolution :=
  if isBuiltinSpecifier specifier then Resolution.nothing
  else resolveSpecifier disk.source path specifier

/-- The packageable file a specifier of `path` resolves to. A specifier that resolves to nothing,
vendored or not, is left to the run-time loader with a warning. -/
def targetOf (disk : Disk) (path specifier : Bytes) : Option Bytes :=
  (resolveLiteral disk path specifier).target.filter fun target => classifyFile target != .kSkip

/-- `keep`: the specifiers that survive, with their targets. -/
def keepOf (disk : Disk) (path : Bytes) (specifiers : List Bytes) : List (Bytes × Bytes) :=
  specifiers.filterMap fun specifier => (targetOf disk path specifier).map (specifier, ·)

section

variable (disk : Disk) (tools : Toolchain) (preloadPaths : List Bytes)

/-- The specifiers of a JavaScript file, or why it does not parse. -/
def specifiersOf (path text : Bytes) : Except Bytes (List Bytes) :=
  scanRequires tools (stripShebang text) (hasExtension path (ascii ".ts"))

/-- One round of the walk. Only the entry and the preloads must parse; any other file that does
not is packaged as a module that throws. -/
def visit (isFirst : Bool) (path : Bytes) : Except BuildError (Visited × List Bytes) :=
  match classifyFile path with
  | .kNative =>
      match disk.digest (cstr path) with
      | .error reason => .error (.noDigest reason)
      | .ok digest => .ok ({ info := { kind := .kNative, digest := some digest } }, [])
  | packageability =>
      match disk.readFile path with
      | none => .error (.cannotRead path)
      | some text =>
          if packageability = .kJSON then .ok ({ info := { kind := .kJSON, payload := text } }, [])
          else
            match specifiersOf tools path text with
            | .error parseError =>
                if isFirst then .error (.doesNotParse .entry path parseError)
                else if path ∈ preloadPaths then .error (.doesNotParse .preload path parseError)
                else
                  .ok ({ info := { kind := .kJavaScript
                                   payload := makeThrowingStub path parseError } }, [])
            | .ok specifiers =>
                let keep := keepOf disk path specifiers
                .ok ({ info := { kind := .kJavaScript, payload := stripShebang text, edges := keep }
                       consulted := specifiers.flatMap fun specifier =>
                         (resolveLiteral disk path specifier).consulted },
                  keep.map Prod.snd)

end

/-- The work list over the require graph, for `fuel` rounds. -/
def walk (disk : Disk) (tools : Toolchain) (start : Start) (fuel : Nat) :
    Outcome BuildError (State Bytes Visited) :=
  run (visit disk tools start.preloadPaths) fuel { items := start.paths }

end HermesNode.Build
