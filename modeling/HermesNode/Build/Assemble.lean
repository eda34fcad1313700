/-
Module: HermesNode.Build.Assemble
Purpose: The second half of `buildBundle`: the `package.json` files kept for the resolver, the build
  root, the sidecar names of native addons, compilation, and the calls on the writer. `assemble` is
  what happens once the walk is over; `buildBundle` is both halves.
Trusted boundary: human-reviewed spec (transcribed from `lib/bundle/bundle_build.cpp`,
  `commonAncestor` of `bundle_resolve.cpp` and zlib's `crc32`)
Main exports: packageInputs, commonAncestor, identityOf, sidecarNames
-/
import HermesNode.Build.Walk
import HermesNode.Bundle.Writer

namespace HermesNode.Build

open HermesNode.Bundle Resolve WorkList

/-- A packaged file: its path on the build machine and what is known about it. -/
structure PackagedFile where
  path : Bytes
  info : FileInfo

/-! ### Resolution inputs and the root -/

/-- The `package.json` files that resolution read, that no module is, and whose directory is above
the directory of some module. -/
def packageInputs (disk : Disk) (modules consulted : List Bytes) : List PackagedFile :=
  (disk.readPackageJsonPaths consulted).filterMap fun pkgPath =>
    if pkgPath ∈ modules then none
    else if (modules.map parentPath).any (isAbove (parentPath pkgPath)) then
      (disk.readFile pkgPath).map fun text =>
        { path := pkgPath, info := { kind := .kJSON, flags := kResolveOnly, payload := text } }
    else none

/-- The names of an absolute path. -/
def splitAbsPath (path : Bytes) : List Bytes := (splitSlash path).filter (· != [])

/-- The longest directory all the paths lie in. -/
def commonAncestor (absPaths : List Bytes) : Bytes :=
  match absPaths.map fun p => splitAbsPath (parentPath p) with
  | [] => [slash]
  | first :: rest =>
      let common := rest.foldl commonFront first
      if common = [] then [slash] else common.flatMap (slash :: ·)

def identityOf (root path : Bytes) : Bytes := lexicallyRelative path root

/-! ### Native addons -/

/-- One bit of the reflected CRC-32. -/
def crcBit (crc : UInt32) : UInt32 :=
  if crc &&& 1 = 1 then (crc >>> 1) ^^^ 0xEDB88320 else crc >>> 1

/-- `crc32(0, data)` of zlib. -/
def crc32 (data : Bytes) : UInt32 :=
  (data.foldl (fun crc b => (List.range 8).foldl (fun c _ => crcBit c) (crc ^^^ b.toUInt32))
    0xFFFFFFFF) ^^^ 0xFFFFFFFF

example : crc32 (ascii "123456789") = 0xCBF43926 := by decide +kernel

/-- The names given out so far: who owns a sidecar name, and which name an addon got. -/
structure SidecarNames where
  owner : List (Bytes × Bytes) := []
  name : List (Bytes × Bytes) := []

def SidecarNames.give (names : SidecarNames) (path name identity : Bytes) : SidecarNames :=
  { owner := names.owner ++ [(name, identity)], name := names.name ++ [(path, name)] }

section

variable (disk : Disk) (opts : Options) (root : Bytes)

/-- The directory of the bundle. -/
def sidecarDir : Bytes := parentPath opts.outPath

/-- Pass 1: an addon that already is the file it would be copied to keeps its name. -/
def claimInPlace (names : SidecarNames) (path : Bytes) : SidecarNames :=
  let base := filename path
  if (names.owner.lookup base).isNone &&
      disk.isSameFile (cstr path) (cstr (pathAppend (sidecarDir opts) base)) then
    names.give path base (identityOf root path)
  else names

/-- A name made different by a hash of the identity. -/
def disambiguated (base identity : Bytes) : Bytes :=
  stem base ++ ascii "-" ++ hexPadded 8 (crc32 identity).toNat ++ extension base

/-- Pass 2: everyone else, in discovery order. -/
def claimName (names : SidecarNames) (path : Bytes) : Except BuildError SidecarNames :=
  if (names.name.lookup path).isSome then .ok names
  else
    let identity := identityOf root path
    let base := filename path
    match names.owner.lookup base with
    | none => .ok (names.give path base identity)
    | some _ =>
        let name := disambiguated base identity
        match names.owner.lookup name with
        | some second => .error (.sidecarTaken second identity name)
        | none => .ok (names.give path name identity)

/-- Passes 1 and 2 over the addons. -/
def sidecarNames (natives : List Bytes) : Except BuildError SidecarNames :=
  natives.foldlM (claimName root) (natives.foldl (claimInPlace disk opts root) {})

/-- Where an addon goes. -/
structure NativePlacement where
  index : Nat
  path : Bytes
  sidecarName : Bytes
  dst : Bytes
  inPlace : Bool

/-- Pass 3: the destination of one addon. -/
def placeNative (names : SidecarNames) (index : Nat) (path : Bytes) :
    Except BuildError NativePlacement :=
  let sidecarName := (names.name.lookup path).getD []
  let dst := pathAppend (sidecarDir opts) sidecarName
  if disk.isSameFile (cstr dst) (cstr opts.outPath) ||
      lexicallyNormal dst == lexicallyNormal opts.outPath then
    .error (.sidecarIsBundle path opts.outPath)
  else
    .ok { index, path, sidecarName, dst
          inPlace := !disk.isSymlink (cstr dst) && disk.isSameFile (cstr path) (cstr dst) }

/-- No addon may be copied over the source of another one. -/
def checkPlacements (placements : List NativePlacement) : Except BuildError Unit :=
  let clash := (placements.filter (!·.inPlace)).findSome? fun copy =>
    (placements.find? fun other =>
      other.index != copy.index && disk.isSameFile (cstr copy.dst) (cstr other.path)).map
      (copy, ·)
  match clash with
  | none => .ok ()
  | some (copy, other) =>
      .error (.sidecarIsSource (identityOf root copy.path) copy.dst (identityOf root other.path))

/-- The natives of a list of packaged files with their module indices. -/
def nativesOf (files : List PackagedFile) : List (Nat × Bytes) :=
  (files.zipIdx.filter fun (file, _) => file.info.kind = .kNative).map fun (file, i) =>
    (i, file.path)

/-- Step 3b: the sidecars of all addons. -/
def placeNatives (files : List PackagedFile) : Except BuildError (List NativePlacement) := do
  let natives := nativesOf files
  let names ← sidecarNames disk opts root (natives.map Prod.snd)
  let placements ← natives.mapM fun (i, path) => placeNative disk opts names i path
  checkPlacements disk root placements
  pure placements

/-- Step 5b for one addon: what is written beside the bundle, unless it is there already. -/
def copyNative (placement : NativePlacement) : Except BuildError (Option (Bytes × Bytes)) :=
  if placement.inPlace then .ok none
  else
    match disk.readFile placement.path with
    | none => .error (.cannotRead placement.path)
    | some contents =>
        match disk.writeError (cstr placement.dst) with
        | some report => .error (.cannotWrite report)
        | none => .ok (some (placement.dst, contents))

end

/-! ### Compilation -/

section

variable (tools : Toolchain) (preloadPaths : List Bytes)

/-- Step 4 for one file. A file that does not compile gets the same treatment as one that does not
parse. -/
def compileFile (index : Nat) (file : PackagedFile) : Except BuildError PackagedFile :=
  if file.info.kind ≠ .kJavaScript then .ok file
  else
    let enableTS := hasExtension file.path (ascii ".ts")
    match tools.compile enableTS (wrapCJS file.info.payload) (cstr file.path) with
    | .ok bytecode => .ok { file with info := { file.info with payload := bytecode } }
    | .error error =>
        if index = 0 then .error (.doesNotCompile .entry file.path error)
        else if file.path ∈ preloadPaths then .error (.doesNotCompile .preload file.path error)
        else
          match tools.compile false (wrapCJS (makeThrowingStub file.path error))
              (cstr file.path) with
          | .ok bytecode => .ok { file with info := { file.info with payload := bytecode } }
          | .error stubError => .error (.stubDoesNotCompile file.path stubError)

/-- Step 4. -/
def compileFiles (files : List PackagedFile) : Except BuildError (List PackagedFile) :=
  files.zipIdx.mapM fun (file, i) => compileFile tools preloadPaths i file

end

/-! ### Emission -/

/-- `moduleIndex.at(path)`. -/
def moduleIndex (paths : List Bytes) (path : Bytes) : UInt32 := UInt32.ofNat (paths.idxOf path)

/-- Step 5: the calls on the writer, in order. -/
def callsOf (opts : Options) (start : Start) (root : Bytes) (files : List PackagedFile)
    (placements : List NativePlacement) : List Call :=
  let paths := files.map (·.path)
  files.map (fun file =>
    Call.addModule (identityOf root file.path) file.info.kind file.info.flags file.info.payload) ++
  start.preloadPaths.map (fun path => Call.addPreload (moduleIndex paths path)) ++
  opts.vmOptions.map Call.addVmOption ++
  [Call.setAllowVmOptionsOverride opts.allowVmOptionsOverride] ++
  placements.filterMap (fun placement =>
    (files[placement.index]?.bind (·.info.digest)).map fun digest =>
      Call.addNative (moduleIndex paths placement.path) placement.sidecarName digest.byteLength
        digest.raw) ++
  files.flatMap (fun file => file.info.edges.map fun (specifier, target) =>
    Call.addEdge (moduleIndex paths file.path) specifier (moduleIndex paths target)) ++
  [Call.setEntry (moduleIndex paths start.absEntry)]

/-- What a successful build leaves. -/
structure Built where
  root : Bytes
  files : List PackagedFile
  calls : List Call
  sidecars : List (Bytes × Bytes)
  container : Bytes

/-- Everything after the walk. -/
def assemble (disk : Disk) (tools : Toolchain) (opts : Options) (generation : UInt32)
    (start : Start) (walked : State Bytes Visited) : Except BuildError Built := do
  let modules := List.zipWith (fun path visited => PackagedFile.mk path visited.info)
    walked.items walked.visited
  let consulted := start.consulted ++ walked.visited.flatMap (·.consulted)
  let files := modules ++ packageInputs disk walked.items consulted
  let root := commonAncestor (files.map (·.path))
  let placements ← placeNatives disk opts root files
  let compiled ← compileFiles tools start.preloadPaths files
  let calls := callsOf opts start root compiled placements
  let sidecars ← placements.mapM (copyNative disk)
  let container := ((BundleWriter.run calls).serialize generation).1
  match disk.writeError (cstr opts.outPath) with
  | some report => .error (.cannotWrite report)
  | none => pure { root, files := compiled, calls, sidecars := sidecars.filterMap id, container }

/-- `buildBundle`, giving the walk `fuel` rounds; `none` when the walk is not over by then. -/
def buildBundle (disk : Disk) (tools : Toolchain) (opts : Options) (generation : UInt32)
    (fuel : Nat) : Option (Except BuildError Built) :=
  match startOf disk opts with
  | .error e => some (.error e)
  | .ok start =>
      match walk disk tools start fuel with
      | .running _ => none
      | .failed e => some (.error e)
      | .finished walked => some (assemble disk tools opts generation start walked)

end HermesNode.Build
