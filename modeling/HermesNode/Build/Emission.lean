/-
Module: HermesNode.Build.Emission
Purpose: What a build that succeeds has written: the abstract container of its calls. Compilation
  changes payloads only, so the modules, edges and native rows of the container are those of the
  files that were packaged.
Trusted boundary: none
Main exports: Assembled, assemble_ok, contents_callsOf
-/
import HermesNode.Build.Assemble
import HermesNode.Bundle.Contents

namespace HermesNode.Build

open HermesNode.Bundle Resolve WorkList

/-! ### Compilation -/

/-- Compiling a file leaves everything but its payload, and that too unless it is JavaScript. -/
structure CompiledFrom (file compiled : PackagedFile) : Prop where
  path : compiled.path = file.path
  kind : compiled.info.kind = file.info.kind
  edges : compiled.info.edges = file.info.edges
  flags : compiled.info.flags = file.info.flags
  digest : compiled.info.digest = file.info.digest
  payload : file.info.kind ≠ .kJavaScript → compiled.info.payload = file.info.payload

theorem compileFile_ok {tools : Toolchain} {preloadPaths : List Bytes} {index : Nat}
    {file compiled : PackagedFile} (h : compileFile tools preloadPaths index file = .ok compiled) :
    CompiledFrom file compiled := by
  unfold compileFile at h
  split at h
  · cases h
    exact ⟨rfl, rfl, rfl, rfl, rfl, fun _ => rfl⟩
  · rename_i hkind
    have hpayload : ∀ bytecode : Bytes, CompiledFrom file
        { file with info := { file.info with payload := bytecode } } := by
      intro bytecode
      exact ⟨rfl, rfl, rfl, rfl, rfl, fun hne => absurd hne hkind⟩
    dsimp only at h
    split at h
    · cases h
      exact hpayload _
    · split at h
      · cases h
      · split at h
        · cases h
        · split at h
          · cases h
            exact hpayload _
          · cases h

theorem compileFiles_ok {tools : Toolchain} {preloadPaths : List Bytes}
    {files compiled : List PackagedFile} (h : compileFiles tools preloadPaths files = .ok compiled) :
    List.Forall₂ CompiledFrom files compiled := by
  have hzip := mapM_ok_forall₂ h
  have hmap : List.Forall₂ CompiledFrom (files.zipIdx.map Prod.fst) compiled := by
    rw [List.forall₂_map_left_iff]
    exact hzip.imp fun x y hxy => compileFile_ok hxy
  rwa [List.zipIdx_map_fst] at hmap

/-! ### The container -/

/-- The module of a packaged file. -/
def moduleOf (root : Bytes) (file : PackagedFile) : AddedModule where
  identity := identityOf root file.path
  kind := file.info.kind
  flags := file.info.flags
  payload := file.info.payload

/-- The edges of a packaged file. -/
def edgeRows (paths : List Bytes) (file : PackagedFile) : List PendingEdge :=
  file.info.edges.map fun edge =>
    { importer := moduleIndex paths file.path, specifier := edge.1
      target := moduleIndex paths edge.2 }

/-- The native row of a placement, if its file has a digest. -/
def nativeRow (files : List PackagedFile) (placement : NativePlacement) : Option PendingNative :=
  (files[placement.index]?.bind (·.info.digest)).map fun digest =>
    { moduleIndex := moduleIndex (files.map (·.path)) placement.path
      sidecar := placement.sidecarName, byteLength := digest.byteLength, digest := digest.raw }

theorem flatMap_addEdge (paths : List Bytes) (files : List PackagedFile) :
    (files.flatMap fun file => file.info.edges.map fun (specifier, target) =>
      Call.addEdge (moduleIndex paths file.path) specifier (moduleIndex paths target)) =
      (files.flatMap (edgeRows paths)).map fun e =>
        Call.addEdge e.importer e.specifier e.target := by
  simp only [List.map_flatMap, edgeRows, List.map_map]
  rfl

theorem filterMap_addNative (files : List PackagedFile) (placements : List NativePlacement) :
    (placements.filterMap fun placement =>
      (files[placement.index]?.bind (·.info.digest)).map fun digest =>
        Call.addNative (moduleIndex (files.map (·.path)) placement.path) placement.sidecarName
          digest.byteLength digest.raw) =
      (placements.filterMap (nativeRow files)).map fun n =>
        Call.addNative n.moduleIndex n.sidecar n.byteLength n.digest := by
  rw [List.map_filterMap]
  congr 1
  funext placement
  simp [nativeRow, Function.comp_def]

theorem contents_callsOf (opts : Options) (start : Start) (root : Bytes)
    (files : List PackagedFile) (placements : List NativePlacement) :
    Contents.ofCalls (callsOf opts start root files placements) =
      { modules := files.map (moduleOf root)
        edges := files.flatMap (edgeRows (files.map (·.path)))
        preloads := start.preloadPaths.map (moduleIndex (files.map (·.path)))
        natives := placements.filterMap (nativeRow files)
        vmOptions := opts.vmOptions
        entry := some (moduleIndex (files.map (·.path)) start.absEntry)
        allowVmOptionsOverride := opts.allowVmOptionsOverride } := by
  have hmodules := Contents.foldl_addModule {} files (moduleOf root)
  simp only [moduleOf] at hmodules
  have hedges : ∀ (c : Contents) (rows : List PendingEdge),
      (rows.map fun e => Call.addEdge e.importer e.specifier e.target).foldl Contents.record c =
        { c with edges := c.edges ++ rows } := by
    intro c rows
    simpa using Contents.foldl_addEdge c rows id
  have hnatives : ∀ (c : Contents) (rows : List PendingNative),
      (rows.map fun n => Call.addNative n.moduleIndex n.sidecar n.byteLength n.digest).foldl
        Contents.record c = { c with natives := c.natives ++ rows } := by
    intro c rows
    simpa using Contents.foldl_addNative c rows id
  unfold Contents.ofCalls callsOf
  simp only [List.foldl_append, flatMap_addEdge, filterMap_addNative, hmodules, hedges, hnatives,
    Contents.foldl_addPreload, Contents.foldl_addVmOption]
  simp [Contents.record]

/-- The files of a finished walk, before compilation: the modules and the resolution inputs. -/
def walkedFiles (walked : State Bytes Visited) : List PackagedFile :=
  List.zipWith (fun path visited => PackagedFile.mk path visited.info) walked.items walked.visited

def consultedOf (start : Start) (walked : State Bytes Visited) : List Bytes :=
  start.consulted ++ walked.visited.flatMap (·.consulted)

def allFiles (disk : Disk) (start : Start) (walked : State Bytes Visited) : List PackagedFile :=
  walkedFiles walked ++ packageInputs disk walked.items (consultedOf start walked)

/-- What is known about a build that succeeded. -/
structure Assembled (disk : Disk) (opts : Options) (generation : UInt32) (start : Start)
    (walked : State Bytes Visited) (built : Built) (placements : List NativePlacement) : Prop where
  root : built.root = commonAncestor ((allFiles disk start walked).map (·.path))
  placed : placeNatives disk opts built.root (allFiles disk start walked) = .ok placements
  files : List.Forall₂ CompiledFrom (allFiles disk start walked) built.files
  calls : built.calls = callsOf opts start built.root built.files placements
  container : built.container = ((BundleWriter.run built.calls).serialize generation).1

theorem assemble_ok {disk : Disk} {tools : Toolchain} {opts : Options} {generation : UInt32}
    {start : Start} {walked : State Bytes Visited} {built : Built}
    (h : assemble disk tools opts generation start walked = .ok built) :
    ∃ placements, Assembled disk opts generation start walked built placements := by
  unfold assemble at h
  obtain ⟨placements, hplaced, h⟩ := bind_eq_ok.mp h
  obtain ⟨compiled, hcompiled, h⟩ := bind_eq_ok.mp h
  obtain ⟨sidecars, -, h⟩ := bind_eq_ok.mp h
  dsimp only at h
  split at h
  · cases h
  · cases h
    exact ⟨placements, rfl, hplaced, compileFiles_ok hcompiled, rfl, rfl⟩

section

variable {disk : Disk} {opts : Options} {generation : UInt32} {start : Start}
  {walked : State Bytes Visited} {built : Built} {placements : List NativePlacement}

theorem walkedFiles_paths (h : walked.items.length = walked.visited.length) :
    (walkedFiles walked).map (·.path) = walked.items := by
  unfold walkedFiles
  rw [List.map_zipWith]
  generalize walked.items = xs at h
  generalize walked.visited = ys at h
  induction xs generalizing ys with
  | nil => rfl
  | cons x xs ih =>
      cases ys with
      | nil => simp at h
      | cons y ys => simpa using ih ys (by simpa using h)

theorem packageInputs_spec {modules consulted : List Bytes} {file : PackagedFile}
    (h : file ∈ packageInputs disk modules consulted) :
    file.path ∈ disk.readPackageJsonPaths consulted ∧ file.path ∉ modules ∧
      (∃ m ∈ modules, isAbove (parentPath file.path) (parentPath m) = true) ∧
      ∃ text, disk.readFile file.path = some text ∧
        file.info = { kind := .kJSON, flags := kResolveOnly, payload := text } := by
  unfold packageInputs at h
  rcases List.mem_filterMap.mp h with ⟨pkgPath, hpkg, hfile⟩
  split at hfile
  · cases hfile
  · rename_i hnew
    split at hfile
    · rename_i habove
      rcases Option.map_eq_some_iff.mp hfile with ⟨text, htext, rfl⟩
      rcases List.any_eq_true.mp habove with ⟨dir, hdir, hisAbove⟩
      rcases List.mem_map.mp hdir with ⟨m, hm, rfl⟩
      exact ⟨hpkg, hnew, ⟨m, hm, hisAbove⟩, text, htext, rfl⟩
    · cases hfile

theorem Assembled.paths (h : Assembled disk opts generation start walked built placements)
    (hlength : walked.items.length = walked.visited.length) :
    built.files.map (·.path) = walked.items ++
      (packageInputs disk walked.items (consultedOf start walked)).map (·.path) := by
  rw [forall₂_map_eq h.files fun x y hxy => hxy.path, allFiles, List.map_append,
    walkedFiles_paths hlength]

end

end HermesNode.Build
