/-
Module: HermesNode.Build.Routes
Purpose: The two ways from a specifier to a module of a container: the edge the build recorded, and
  `resolveSpecifier` over the container, which a computed `require` takes. The container shows less
  than the disk did, so the second way is the disk's search less what stands behind a directory with
  nothing packaged in it. The two ways agree exactly on the edges for which this does not divert it.
Trusted boundary: none
Main exports: EdgeAgrees, Stages.within, routes_agree_iff
-/
import HermesNode.Build.Readable
import HermesNode.Resolve.Search

namespace HermesNode.Build

open HermesNode.Bundle Resolve WorkList
open Check (Accepts)

/-! ### Directories of the build machine -/

theorem Disk.directory_above (disk : Disk) {segs below : List Bytes} (hnames : Names (segs ++ below))
    (hbelow : below ≠ [])
    (h : disk.isRegularFile (absPath (segs ++ below)) = true ∨
      disk.isDirectory (absPath (segs ++ below)) = true) :
    disk.isDirectory (absPath segs) = true := by
  induction below using List.reverseRecOn with
  | nil => exact absurd rfl hbelow
  | append_singleton front name ih =>
      by_cases hnil : segs ++ front = []
      · rw [List.append_eq_nil_iff] at hnil
        rw [hnil.1]
        exact disk.root_dir
      · rw [← List.append_assoc] at hnames h
        rw [absPath_snoc hnil] at h
        have hname := hnames.right
        have hdir := disk.dir_above (absPath (segs ++ front)) name (by simp [absPath])
          (hname.plain name (by simp)).1 (hname.free name (by simp)) h
        by_cases hfront : front = []
        · simpa [hfront] using hdir
        · exact ih hnames.left hfront (Or.inr hdir)

variable {segs : List Bytes}

theorem nul_free_absPath (h : ∀ seg ∈ segs, 0 ∉ seg) : 0 ∉ absPath segs := by
  intro hmem
  rcases List.mem_cons.mp hmem with hslash | hjoin
  · exact absurd hslash (by decide)
  · rcases mem_joinSlash hjoin with hsep | ⟨seg, hseg, hin⟩
    · exact absurd hsep (by decide)
    · exact h seg hseg hin

/-! ### The records of a built container -/

namespace Stages

variable {disk : Disk} {tools : Toolchain} {opts : Options} {generation : UInt32} {start : Start}
  {built : Built} {w : State Bytes Visited} {placements : List NativePlacement} {r : List Bytes}
  {reader : BundleReader}

variable (h : Stages disk tools opts generation start built w placements r)

include h

/-- The directory a resolution input lies in was consulted, so it is one on the disk. -/
theorem input_directory (hnames : Names (segs ++ [packageName]))
    (hfree : ∀ seg ∈ segs, 0 ∉ seg)
    (hinput : absPath (segs ++ [packageName]) ∈
      (packageInputs disk w.items (consultedOf start w)).map (·.path)) :
    disk.isDirectory (absPath segs) = true := by
  obtain ⟨dir, hdir, hpath, _⟩ := mem_readPackageJsonPaths.mp (mem_packageInputs.mp hinput).1
  have hconsults := ((mem_consultedOf h.started h.walked).mp hdir).normal h.started
  rcases recordedPath_cases hconsults.1 with ⟨_, hroot⟩ | ⟨segs', hsegs', hne, hspelled, hrecorded⟩
  · rw [hroot] at hpath
    exact absurd hpath (names_ne_rootPackagePath hnames)
  · rw [hrecorded] at hpath
    have hsame := absPath_inj hnames (hsegs'.append names_packageName) hpath
    rw [List.append_left_inj] at hsame
    subst hsame
    have hnul := nul_free_absPath hfree
    rcases hspelled with rfl | rfl
    · rw [cstr_of_no_nul hnul] at hconsults
      exact hconsults.2
    · rw [cstr_of_no_nul (by simpa [slash] using hnul),
        disk.trailing_dir _ (by simp [absPath])] at hconsults
      exact hconsults.2

variable (hshows : Shows reader (Contents.ofCalls built.calls))

include hshows

theorem mem_records_iff {e : Entry} : e ∈ (sourceAt reader r).records ↔
    ∃ path, (containerPaths disk start w)[e.moduleIndex]? = some path ∧
      e.identity = identityOf (absPath r) path := by
  have hcount : reader.moduleCount = (containerPaths disk start w).length := by
    rw [hshows.moduleCount, modules_length h.walked h.assembled]
  have hread : ∀ (i : Nat) (path : Bytes), (containerPaths disk start w)[i]? = some path →
      reader.identity i = some (identityOf (absPath r) path) := by
    intro i path hpath
    have hids := congrArg (·[i]?) h.identities
    simp only [List.getElem?_map, hpath, Option.map_some] at hids
    obtain ⟨m, hm, hidentity⟩ := Option.map_eq_some_iff.mp hids
    rw [(hshows.modules i m hm).1, hidentity]
  rw [mem_records]
  constructor
  · rintro ⟨hlt, hidentity⟩
    have hlt' : e.moduleIndex < (containerPaths disk start w).length := hcount ▸ hlt
    refine ⟨_, List.getElem?_eq_getElem hlt', ?_⟩
    rw [hidentity]
    simp [sourceAt, hread _ _ (List.getElem?_eq_getElem hlt')]
  · rintro ⟨path, hpath, hidentity⟩
    refine ⟨?_, ?_⟩
    · have hlt := (List.getElem?_eq_some_iff.mp hpath).1
      simpa [sourceAt, hcount] using hlt
    · simp [sourceAt, hread _ _ hpath, hidentity]

/-- The path of a record is the path that was packaged, but for the `package.json` of the root
directory. -/
theorem record_cases (hnul : ∀ path, Packaged disk tools start path → 0 ∉ path) {e : Entry}
    (he : e ∈ (sourceAt reader r).records) :
    ∃ path, (containerPaths disk start w)[e.moduleIndex]? = some path ∧
      ((Names (r ++ splitSlash e.identity) ∧ path = absPath (r ++ splitSlash e.identity) ∧
        ∀ seg ∈ r ++ splitSlash e.identity, 0 ∉ seg) ∨
      (path = rootPackagePath ∧ r = [] ∧ e.identity = packageName)) := by
  obtain ⟨path, hpath, hidentity⟩ := (h.mem_records_iff hshows).mp he
  refine ⟨path, hpath, ?_⟩
  rcases containerPath_cases h.started h.walked h.rootNames hnul (List.mem_of_getElem? hpath) with
    ⟨rest, name, hnames, rfl, hfree⟩ | ⟨rfl, rfl, _⟩
  · have hsplit : splitSlash e.identity = rest ++ [name] := by
      rw [hidentity, identityOf_name hnames]
      rw [List.append_assoc] at hnames
      exact splitSlash_joinSlash (by simp) hnames.right.free
    rw [hsplit, ← List.append_assoc]
    refine Or.inl ⟨hnames, rfl, ?_⟩
    intro seg hseg
    rw [List.append_assoc] at hseg
    rcases List.mem_append.mp hseg with hin | hin
    · exact h.rootNames.nul seg hin
    · exact hfree seg hin
  · exact Or.inr ⟨rfl, rfl, hidentity.trans rootPackage_identity⟩

/-- A walked path is a file of the container. -/
theorem item_record (hnul : ∀ path, Packaged disk tools start path → 0 ∉ path) {path : Bytes}
    (hpath : path ∈ w.items) :
    ∃ e ∈ (sourceAt reader r).records, e.moduleIndex = w.items.idxOf path ∧
      path = absPath (r ++ splitSlash e.identity) := by
  have hat : (containerPaths disk start w)[w.items.idxOf path]? = some path := by
    have hlt := List.idxOf_lt_length_of_mem hpath
    rw [containerPaths, List.getElem?_append_left hlt, List.getElem?_eq_getElem hlt,
      List.getElem_idxOf]
  have hmem : (⟨identityOf (absPath r) path, w.items.idxOf path⟩ : Entry) ∈
      (sourceAt reader r).records :=
    (h.mem_records_iff hshows).mpr ⟨path, hat, rfl⟩
  refine ⟨_, hmem, rfl, ?_⟩
  obtain ⟨path', hat', hcases⟩ := h.record_cases hshows hnul hmem
  rw [hat, Option.some.injEq] at hat'
  subst hat'
  rcases hcases with ⟨_, heq, _⟩ | ⟨rfl, _⟩
  · exact heq
  · exact absurd ((h.walked.members _).mp hpath) (packaged_ne_rootPackagePath h.started)

theorem record_directory (hnul : ∀ path, Packaged disk tools start path → 0 ∉ path) {e : Entry}
    (he : e ∈ (sourceAt reader r).records) {segs below : List Bytes} (hbelow : below ≠ [])
    (heq : r ++ splitSlash e.identity = segs ++ below) :
    0 ∉ absPath segs ∧ disk.isDirectory (absPath segs) = true := by
  obtain ⟨path, hat, ⟨hnames, rfl, hfree⟩ | ⟨_, rfl, hidentity⟩⟩ := h.record_cases hshows hnul he
  · rw [heq] at hnames hat hfree
    have hnul' : 0 ∉ absPath (segs ++ below) := nul_free_absPath hfree
    refine ⟨nul_free_absPath fun seg hseg => hfree seg (List.mem_append_left _ hseg), ?_⟩
    rcases List.mem_append.mp (List.mem_of_getElem? hat) with hitem | hinput
    · have hfile := ((h.walked.members _).mp hitem).file h.started
      rw [cstr_of_no_nul hnul'] at hfile
      exact disk.directory_above hnames hbelow (Or.inl hfile.2.1)
    · -- the input's own directory was consulted, and everything else is above it
      rcases input_cases h.started h.walked hinput with
        ⟨hroot, _⟩ | ⟨front, hfront, _, hpath, _⟩
      · exact absurd hroot (names_ne_rootPackagePath hnames)
      · have hsame := absPath_inj hnames (hfront.append names_packageName) hpath
        rw [hsame] at hinput hfree
        have hdir := h.input_directory (hfront.append names_packageName)
          (fun seg hseg => hfree seg (List.mem_append_left _ hseg)) hinput
        obtain ⟨front', name, rfl⟩ : ∃ front' name, below = front' ++ [name] := by
          rcases List.eq_nil_or_concat below with hnil | ⟨front', name, hconcat⟩
          · exact absurd hnil hbelow
          · exact ⟨front', name, by rw [hconcat, List.concat_eq_append]⟩
        rw [← List.append_assoc] at hsame
        have hinit := List.append_inj_left' hsame rfl
        subst hinit
        by_cases hfront' : front' = []
        · simpa [hfront'] using hdir
        · exact disk.directory_above hfront hfront' (Or.inr hdir)
  · rw [List.nil_append, hidentity] at heq
    have hsegs : segs = [] := by
      have hsingle : splitSlash packageName = [packageName] := by decide
      rw [hsingle] at heq
      cases segs with
      | nil => rfl
      | cons seg segs =>
          have hlength := congrArg List.length heq
          simp only [List.length_append, List.length_cons, List.length_nil] at hlength
          have hpos := List.length_pos_iff.mpr hbelow
          omega
    subst hsegs
    exact ⟨by decide, disk.root_dir⟩

/-- The payload of a record that is a `package.json` is the text on the disk. -/
theorem package_payload (hnames : Names (segs ++ [packageName])) {i : Nat}
    (hat : (containerPaths disk start w)[i]? = some (absPath (segs ++ [packageName]))) :
    disk.readFile (absPath (segs ++ [packageName])) = some ((reader.payload i).getD []) := by
  have hlt : i < built.files.length := by
    have hpaths := congrArg List.length (h.assembled.paths h.walked.length)
    simp only [List.length_map, containerPaths] at hpaths hat
    rw [hpaths]
    exact (List.getElem?_eq_some_iff.mp hat).1
  obtain ⟨file, hfile⟩ : ∃ file, built.files[i]? = some file := ⟨_, List.getElem?_eq_getElem hlt⟩
  have hpath : absPath (segs ++ [packageName]) = file.path := by
    rw [file_path h.walked h.assembled hfile, Option.some.injEq] at hat
    exact hat.symm
  have hjson : classifyFile (absPath (segs ++ [packageName])) = .kJSON := by
    simp only [classifyFile, extension, filename_absPath hnames]
    decide
  have hmodule : (Contents.ofCalls built.calls).modules[i]? = some (moduleOf built.root file) := by
    rw [contents_built h.walked h.assembled]
    simp [hfile]
  rw [(hshows.modules i _ hmodule).2.2.2]
  simp only [moduleOf, Option.getD_some]
  obtain ⟨source, hsource, hfrom, hcases⟩ := file_cases h.walked h.assembled hfile
  rw [hpath] at hjson ⊢
  rcases hcases with ⟨path, v, _, rfl, hvisited⟩ | hinput
  · rw [hfrom.path] at hjson ⊢
    obtain ⟨hkind, hread⟩ := hvisited.json hjson
    rw [hread, hfrom.payload (by simp [hkind])]
  · obtain ⟨_, _, _, text, hread, hinfo⟩ := packageInputs_spec hinput
    rw [hfrom.path, hread, hfrom.payload (by simp [hinfo]), hinfo]

/-- The container shows a part of the disk. -/
theorem within (hs : (sourceAt reader r).Sound)
    (hnul : ∀ path, Packaged disk tools start path → 0 ∉ path) :
    (sourceAt reader r).toFileSource.Within disk.source := by
  have hr := h.rootNames.names
  constructor
  · intro dir hdir hshown
    have hon : ∀ {segs : List Bytes}, Names segs → (dir = absPath segs ∨ dir = absPath segs ++ [slash]) →
        0 ∉ absPath segs ∧ disk.isDirectory (absPath segs) = true := by
      intro segs hsegs hspelled
      obtain ⟨_, e, he, below, hbelow, heq⟩ :=
        (isDirectory_iff_above hs hr hsegs hspelled).mp hshown
      exact h.record_directory hshows hnul he hbelow heq
    cases hdir with
    | @file segs hsegs =>
        obtain ⟨hfree, hdisk⟩ := hon hsegs (Or.inl rfl)
        simpa [Disk.source, cstr_of_no_nul hfree] using hdisk
    | @trailing segs hsegs hne =>
        obtain ⟨hfree, hdisk⟩ := hon hsegs (Or.inr rfl)
        have hfree' : 0 ∉ absPath segs ++ [slash] := by simpa [slash] using hfree
        simp only [Disk.source, cstr_of_no_nul hfree']
        rw [disk.trailing_dir _ (by simp [absPath]), hdisk]
  · intro dir text hdir hread
    simp only [BundleFileSource.toFileSource, BundleFileSource.readPackageJson] at hread
    split at hread
    · cases hread
    · rename_i rel hrel
      split at hread
      · cases hread
      · obtain ⟨e, hfind, rfl⟩ := Option.map_eq_some_iff.mp hread
        obtain ⟨he, rfl⟩ := (BundleFileSource.find_eq_some_iff hs.distinct).mp hfind
        have hpath := path_of_identityFor hs hr he hrel
        have hnames := record_names hs hr he
        rcases recordedPath_cases hdir with ⟨_, hroot⟩ | ⟨segs, hsegs, hne, _, hrecorded⟩
        · exact absurd (hpath.symm.trans hroot) (names_ne_rootPackagePath hnames)
        · have hsame := absPath_inj hnames (hsegs.append names_packageName)
            (hpath.symm.trans hrecorded)
          have hat : (containerPaths disk start w)[e.moduleIndex]? =
              some (absPath (segs ++ [packageName])) := by
            obtain ⟨path, hat, ⟨_, rfl, _⟩ | ⟨_, rfl, hidentity⟩⟩ := h.record_cases hshows hnul he
            · rw [hat, hsame]
            · rw [List.nil_append, hidentity] at hsame
              have hlength := congrArg List.length hsame
              have hsingle : splitSlash packageName = [packageName] := by decide
              have hpos := List.length_pos_iff.mpr hne
              simp only [hsingle, List.length_append, List.length_cons, List.length_nil] at hlength
              omega
          have hpayload := h.package_payload hshows (hsegs.append names_packageName) hat
          simp only [Disk.source, hrecorded]
          exact hpayload

end Stages

/-! ### The importer as the run-time route spells it -/

theorem filename_doubled (p : Bytes) : filename (slash :: p) = filename p := by
  have hsplit : splitSlash (slash :: p) = [] :: splitSlash p := by simp [splitSlash]
  rw [filename, hsplit, filename, List.getLast?_cons_of_ne_nil (splitSlash_ne_nil p)]

theorem lexicallyNormal_doubled {p : Bytes} (h : isAbsolute p = true) :
    lexicallyNormal (slash :: p) = lexicallyNormal p := by
  have hne : p ≠ [] := by
    rintro rfl
    cases h
  have hsplit : splitSlash (slash :: p) = [] :: splitSlash p := by simp [splitSlash]
  have habs : isAbsolute (slash :: p) = true := rfl
  have hsegments : normalSegments (slash :: p) = normalSegments p := by
    simp [normalSegments, hsplit, habs, h, normalStep]
  simp [lexicallyNormal, hsegments, endsInDirectory, filename_doubled, habs, h, hne]

theorem pathAppend_doubled {p : Bytes} (h : isAbsolute p = true) (rel : Bytes) :
    pathAppend (slash :: p) rel = if isAbsolute rel then rel else slash :: pathAppend p rel := by
  have hne : p ≠ [] := by
    rintro rfl
    cases h
  have hend : endsInSlash (slash :: p) = endsInSlash p := by
    rw [endsInSlash, endsInSlash, List.getLast?_cons_of_ne_nil hne]
  unfold pathAppend
  split
  · rfl
  · simp [hend, hne]
    split <;> rfl

theorem joinNormalized_doubled {p : Bytes} (h : isAbsolute p = true) (rel : Bytes) :
    joinNormalized (slash :: p) rel = joinNormalized p rel := by
  rw [joinNormalized, joinNormalized, pathAppend_doubled h]
  split
  · rename_i hrel
    simp [pathAppend, hrel]
  · exact lexicallyNormal_doubled (isAbsolute_pathAppend h)

theorem parentPath_doubled {name : Bytes} (h : Names (segs ++ [name])) :
    parentPath (slash :: absPath (segs ++ [name])) =
      if segs = [] then [slash] else slash :: absPath segs := by
  have hfree := h.free name (by simp)
  have hname := (h.plain name (by simp)).1
  by_cases hne : segs = []
  · subst hne
    exact parentPath_behind [slash] hfree hname
  · rw [if_neg hne, absPath_snoc hne, ← List.cons_append,
      parentPath_append hfree hname ?_ rfl, if_neg (by simp)]
    have hend := absPath_not_endsInSlash h.left hne
    rw [endsInSlash, List.getLast?_cons_of_ne_nil (by simp [absPath])]
    exact hend

theorem parentPath_doubled_ne {name : Bytes} (h : Names (segs ++ [name])) :
    parentPath (slash :: absPath (segs ++ [name])) ≠ slash :: absPath (segs ++ [name]) := by
  rw [parentPath_doubled h]
  split
  · simp [absPath]
  · intro heq
    have hsame := absPath_inj h.left h (List.cons.inj heq).2
    simp at hsame

theorem nodeModules_doubled {dir specifier : Bytes} (h : isAbsolute dir = true) :
    joinNormalized (pathAppend (slash :: dir) (ascii "node_modules")) specifier =
      joinNormalized (pathAppend dir (ascii "node_modules")) specifier := by
  rw [pathAppend_doubled h, if_neg (by decide), joinNormalized_doubled (isAbsolute_pathAppend h)]

theorem nodeModulesWalk_root (src : FileSource) (specifier : Bytes) (fuel : Nat) :
    nodeModulesWalk src specifier (fuel + 1) [slash] = nodeModulesWalk src specifier 1 [slash] := by
  have hparent : parentPath [slash] = [slash] := by decide
  simp [nodeModulesWalk, hparent]

/-- The climb from a directory does not see a separator doubled at the front, nor fuel it does not
need. -/
theorem nodeModulesWalk_doubled (src : FileSource) (specifier : Bytes)
    (h : Names segs) (hne : segs ≠ []) {fuel fuel' : Nat} (hfuel : segs.length < fuel)
    (hfuel' : segs.length < fuel') :
    nodeModulesWalk src specifier fuel (slash :: absPath segs) =
      nodeModulesWalk src specifier fuel' (absPath segs) := by
  induction segs using List.reverseRecOn generalizing fuel fuel' with
  | nil => exact absurd rfl hne
  | append_singleton front name ih =>
      rw [List.length_append, List.length_singleton] at hfuel hfuel'
      obtain ⟨fuel, rfl⟩ : ∃ n, fuel = n + 1 := ⟨fuel - 1, by omega⟩
      obtain ⟨fuel', rfl⟩ : ∃ n, fuel' = n + 1 := ⟨fuel' - 1, by omega⟩
      have hup : nodeModulesWalk src specifier fuel
          (parentPath (slash :: absPath (front ++ [name]))) =
          nodeModulesWalk src specifier fuel' (parentPath (absPath (front ++ [name]))) := by
        rw [parentPath_doubled h, parentPath_absPath h]
        by_cases hfront : front = []
        · subst hfront
          obtain ⟨n, rfl⟩ : ∃ n, fuel = n + 1 := ⟨fuel - 1, by simp at hfuel; omega⟩
          obtain ⟨n', rfl⟩ : ∃ n', fuel' = n' + 1 := ⟨fuel' - 1, by simp at hfuel'; omega⟩
          rw [if_pos rfl]
          exact (nodeModulesWalk_root src specifier n).trans
            (nodeModulesWalk_root src specifier n').symm
        · rw [if_neg hfront]
          exact ih h.left hfront (by omega) (by omega)
      have hparent' : parentPath (absPath (front ++ [name])) ≠ absPath (front ++ [name]) := by
        rw [parentPath_absPath h]
        intro heq
        have hsame := absPath_inj h.left h heq
        simp at hsame
      have habs : isAbsolute (absPath (front ++ [name])) = true := rfl
      simp only [nodeModulesWalk, filename_doubled, nodeModules_doubled habs, hup,
        if_neg (parentPath_doubled_ne h), if_neg hparent']

theorem resolveSpecifier_doubled (src : FileSource) {name : Bytes}
    (h : Names (segs ++ [name])) (specifier : Bytes) :
    resolveSpecifier src (slash :: absPath (segs ++ [name])) specifier =
      resolveSpecifier src (absPath (segs ++ [name])) specifier := by
  unfold resolveSpecifier
  rw [parentPath_doubled h, parentPath_absPath h]
  by_cases hne : segs = []
  · subst hne
    rw [if_pos rfl]
    rfl
  · rw [if_neg hne]
    dsimp only
    rw [joinNormalized_doubled (absPath_isAbsolute segs)]
    have hlt := length_lt_absPath h.left
    rw [nodeModulesWalk_doubled src specifier h.left hne (by simp only [List.length_cons]; omega) hlt]

/-! ### The two routes -/

/-- The file the run-time route asks as: `state.root + "/" + fromIdentity`. -/
def importerFile (s : BundleFileSource) (importer : UInt32) : Bytes :=
  s.root ++ slash :: (s.reader.identity importer.toNat).getD []

/-- Resolving the specifier over the container gives the edge's target or nothing. -/
def EdgeAgrees (s : BundleFileSource) (importer : UInt32) (specifier : Bytes) (target : UInt32) :
    Prop :=
  ∀ found, (resolveSpecifier s.toFileSource (importerFile s importer) specifier).target =
    some found → s.identityFor found = s.reader.identity target.toNat

namespace Stages

variable {disk : Disk} {tools : Toolchain} {opts : Options} {generation : UInt32} {start : Start}
  {built : Built} {w : State Bytes Visited} {placements : List NativePlacement} {r : List Bytes}
  {reader : BundleReader}

variable (h : Stages disk tools opts generation start built w placements r)
  (hshows : Shows reader (Contents.ofCalls built.calls))
  (hs : (sourceAt reader r).Sound)
  (hcount : (containerPaths disk start w).length < 2 ^ 32)
  (hnul : ∀ path, Packaged disk tools start path → 0 ∉ path)

include h hshows

/-- The edges of the container are those of the walked files. -/
theorem lookup_iff {importer target : UInt32} {specifier : Bytes} :
    reader.lookup importer specifier = some (some target) ↔
      ∃ path ∈ w.items, ∃ edge ∈ edgesOf disk tools path,
        importer = moduleIndex w.items path ∧ specifier = edge.1 ∧
          target = moduleIndex w.items edge.2 := by
  rw [hshows.lookup, (emitsWalk h.walked h.assembled).edges]
  simp only [List.mem_flatMap, List.mem_map, PendingEdge.mk.injEq]
  constructor
  · rintro ⟨path, hpath, edge, hedge, himporter, hspecifier, htarget⟩
    exact ⟨path, hpath, edge, hedge, himporter.symm, hspecifier.symm, htarget.symm⟩
  · rintro ⟨path, hpath, edge, hedge, himporter, hspecifier, htarget⟩
    exact ⟨path, hpath, edge, hedge, himporter.symm, hspecifier.symm, htarget.symm⟩

include hcount hnul

theorem index_record {path : Bytes} (hpath : path ∈ w.items) :
    ∃ e ∈ (sourceAt reader r).records, path = absPath (r ++ splitSlash e.identity) ∧
      reader.identity (moduleIndex w.items path).toNat = some e.identity := by
  obtain ⟨e, he, hindex, hat⟩ := h.item_record hshows hnul hpath
  refine ⟨e, he, hat, ?_⟩
  have hle : w.items.length ≤ (containerPaths disk start w).length := by simp [containerPaths]
  rw [moduleIndex_toNat (by omega) hpath, ← hindex]
  obtain ⟨hlt, hidentity⟩ := mem_records.mp he
  have hsome : ∃ identity, reader.identity e.moduleIndex = some identity := by
    have hlt' : e.moduleIndex < (Contents.ofCalls built.calls).modules.length := by
      rw [← hshows.moduleCount]
      exact hlt
    exact ⟨_, (hshows.modules _ _ (List.getElem?_eq_getElem hlt')).1⟩
  obtain ⟨identity, hread⟩ := hsome
  rw [hidentity]
  simp [sourceAt, hread]

include hs

/-- An edge agrees with the run-time route exactly when the container does not divert the search. -/
theorem edgeAgrees_iff {path : Bytes} (hpath : path ∈ w.items) {edge : Bytes × Bytes}
    (hedge : edge ∈ edgesOf disk tools path) :
    EdgeAgrees (sourceAt reader r) (moduleIndex w.items path) edge.1
        (moduleIndex w.items edge.2) ↔
      diverted disk.source (sourceAt reader r).toFileSource (search disk.source path edge.1) =
        false := by
  have hr := h.rootNames.names
  have htarget := h.walked.target_mem hpath hedge
  obtain ⟨e, he, hat, hidentity⟩ := h.index_record hshows hcount hnul hpath
  obtain ⟨e', he', hat', hidentity'⟩ := h.index_record hshows hcount hnul htarget
  have hnames := record_names hs hr he
  have habs : isAbsolute path = true := by
    rw [hat]
    rfl
  have hresolve : (resolveSpecifier (sourceAt reader r).toFileSource
      (importerFile (sourceAt reader r) (moduleIndex w.items path)) edge.1).target =
      (resolveSpecifier (sourceAt reader r).toFileSource path edge.1).target := by
    have hfile : importerFile (sourceAt reader r) (moduleIndex w.items path) =
        if r = [] then slash :: path else path := by
      simp only [importerFile, sourceAt, hidentity, Option.getD_some]
      by_cases hne : r = []
      · subst hne
        rw [if_pos rfl, hat, List.nil_append, absPath, absPath, joinSlash_splitSlash]
        rfl
      · rw [if_neg hne, hat, absPath, absPath, joinSlash_append hne (splitSlash_ne_nil _),
          joinSlash_splitSlash]
        rfl
    rw [hfile]
    split
    · rcases List.eq_nil_or_concat (r ++ splitSlash e.identity) with hnil | ⟨front, name, hconcat⟩
      · simp [splitSlash_ne_nil] at hnil
      · rw [List.concat_eq_append] at hconcat
        rw [hconcat] at hnames hat
        rw [hat, resolveSpecifier_doubled _ hnames]
    · rfl
  have hfound : (resolveSpecifier disk.source path edge.1).target = some edge.2 :=
    resolveLiteral_target (mem_keepOf.mp hedge).2
  have hfile : (sourceAt reader r).toFileSource.isRegularFile edge.2 = true :=
    (isRegularFile_iff_record hs hr).mpr ⟨e', he', hat'⟩
  rw [← answers_agree_iff (h.within hshows hs hnul) habs hfound hfile, EdgeAgrees, hresolve]
  have hidentity'' : (sourceAt reader r).reader.identity (moduleIndex w.items edge.2).toNat =
      some e'.identity := hidentity'
  rw [hidentity'']
  constructor
  · intro hagrees found hfound'
    rw [hat']
    exact path_of_identityFor hs hr he' (hagrees found hfound')
  · intro hagrees found hfound'
    rw [hagrees found hfound', hat']
    exact identityFor_record hs hr he'

end Stages

section

variable {disk : Disk} {tools : Toolchain} {opts : Options} {generation : UInt32} {start : Start}
  {built : Built} {reader : BundleReader}

/-- Every edge of a built container agrees with the run-time route exactly when the container
diverts the search of none: none of the paths the build asked for in vain on the way to a target has
become a file, and where a directory or `package.json` that led to the target is missing, the search
goes on to no other file. -/
theorem routes_agree_iff {fuel : Nat} (hstart : startOf disk opts = .ok start)
    (hbuild : buildBundle disk tools opts generation fuel = some (.ok built))
    (hsize : built.container.length < 2 ^ 32)
    (hopen : Accepts (BundleReader.open built.container generation) reader) :
    (∀ importer specifier target, reader.lookup importer specifier = some (some target) →
      EdgeAgrees { reader, root := built.root } importer specifier target) ↔
    ∀ path, Packaged disk tools start path → ∀ edge ∈ edgesOf disk tools path,
      diverted disk.source (BundleFileSource.toFileSource { reader, root := built.root })
        (search disk.source path edge.1) = false := by
  rcases buildBundle_stages hstart hbuild with ⟨w, placements, r, h⟩
  have hnul := (h.opened hsize hopen).1
  have hcount := h.count_lt hsize
  have hshows := h.shows hsize hopen
  have hs : (sourceAt reader r).Sound := sound_of_accepts hopen (absPath r)
  have hsource : ({ reader, root := built.root } : BundleFileSource) = sourceAt reader r := by
    rw [h.root]
    rfl
  rw [hsource]
  constructor
  · intro hagrees path hpath edge hedge
    have hitem := (h.walked.members path).mpr hpath
    apply (h.edgeAgrees_iff hshows hs hcount hnul hitem hedge).mp
    exact hagrees _ _ _ ((h.lookup_iff hshows).mpr ⟨path, hitem, edge, hedge, rfl, rfl, rfl⟩)
  · intro hfollows importer specifier target hlookup
    obtain ⟨path, hitem, edge, hedge, rfl, rfl, rfl⟩ := (h.lookup_iff hshows).mp hlookup
    apply (h.edgeAgrees_iff hshows hs hcount hnul hitem hedge).mpr
    exact hfollows path ((h.walked.members path).mp hitem) edge hedge

end

/-- The identities an edge of a built container names, by the edge and by the run-time route. -/
def bothRoutes (generation : UInt32) (result : Option (Except BuildError Built))
    (importer : UInt32) (specifier : Bytes) : Option (Option Bytes × Option Bytes) :=
  match result with
  | some (.ok built) =>
      if built.container.length < 2 ^ 32 then
        match BundleReader.open built.container generation with
        | .accepted reader =>
            let s : BundleFileSource := { reader, root := built.root }
            match reader.lookup importer specifier with
            | some (some target) =>
                some (reader.identity target.toNat,
                  (resolveSpecifier s.toFileSource (importerFile s importer)
                    specifier).target.bind s.identityFor)
            | _ => none
        | _ => none
      else none
  | _ => none

/-- Two routes to different files do not agree. -/
theorem misrouted_of_bothRoutes {generation : UInt32} {result : Option (Except BuildError Built)}
    {importer : UInt32} {specifier : Bytes} {byEdge byRoute : Option Bytes}
    (h : bothRoutes generation result importer specifier = some (byEdge, byRoute))
    (hroute : byRoute.isSome = true) (hapart : byEdge ≠ byRoute) :
    ∃ built reader, result = some (.ok built) ∧ built.container.length < 2 ^ 32 ∧
      Accepts (BundleReader.open built.container generation) reader ∧
      ¬ ∀ importer specifier target, reader.lookup importer specifier = some (some target) →
        EdgeAgrees { reader, root := built.root } importer specifier target := by
  unfold bothRoutes at h
  split at h
  · rename_i built
    split at h
    · rename_i hsize
      split at h
      · rename_i reader hopen
        dsimp only at h
        split at h
        · rename_i target hlookup
          rw [Option.some.injEq, Prod.mk.injEq] at h
          rcases Option.isSome_iff_exists.mp hroute with ⟨identity, hidentity⟩
          obtain ⟨found, hfound, hserved⟩ :=
            Option.bind_eq_some_iff.mp (h.2.trans hidentity)
          refine ⟨built, reader, rfl, hsize, hopen, fun hagrees => hapart ?_⟩
          have hsame := hagrees importer specifier target hlookup found hfound
          rw [hserved, h.1] at hsame
          exact hsame.symm.trans hidentity.symm
        · cases h
      · cases h
    · cases h
  · cases h

/-- A package whose `main` leaves its directory, and a farther copy of the package that the program
requires by path. -/
def escapingText : Bytes := ascii "require('p'); require('../node_modules/p/index.js');"

def escapingFiles : List (Bytes × Bytes) :=
  [(ascii "/srv/app/main.js", escapingText),
    (ascii "/srv/app/node_modules/p/package.json", ascii "\x7b\"main\": \"../../x.js\"\x7d"),
    (ascii "/srv/app/x.js", []), (ascii "/srv/node_modules/p/index.js", [])]

def escapingDisk : Disk := Disk.ofFiles escapingFiles (by decide)

def escapingTools : Toolchain :=
  sampleTools escapingText [ascii "p", ascii "../node_modules/p/index.js"]

def srvOptions : Options where
  entryPath := ascii "/srv/app/main.js"
  outPath := ascii "/srv/app.hnb"
  entry_nul := by decide

theorem escaping_bothRoutes :
    bothRoutes 7 (buildBundle escapingDisk escapingTools srvOptions 7 5) 0 (ascii "p") =
      some (some (ascii "app/x.js"), some (ascii "node_modules/p/index.js")) := by
  decide +kernel

/-- The edge of `p` is the file its `main` names, and a computed `require` of `p` lands in the farther
copy. -/
theorem escaping_misrouted : ∃ built reader,
    buildBundle escapingDisk escapingTools srvOptions 7 5 = some (.ok built) ∧
      built.container.length < 2 ^ 32 ∧ Accepts (BundleReader.open built.container 7) reader ∧
      ¬ ∀ importer specifier target, reader.lookup importer specifier = some (some target) →
        EdgeAgrees { reader, root := built.root } importer specifier target :=
  misrouted_of_bothRoutes escaping_bothRoutes rfl (by decide)

/-- Whether the container of a build opens and diverts no edge of the listed files. -/
def divertsNone (generation : UInt32) (disk : Disk) (tools : Toolchain)
    (result : Option (Except BuildError Built)) (paths : List Bytes) : Bool :=
  match result with
  | some (.ok built) =>
      decide (built.container.length < 2 ^ 32) &&
        match BundleReader.open built.container generation with
        | .accepted reader =>
            let s : BundleFileSource := { reader, root := built.root }
            paths.all fun path => (edgesOf disk tools path).all fun edge =>
              !diverted disk.source s.toFileSource (search disk.source path edge.1)
        | _ => false
  | _ => false

theorem divertsNone_eq_true {generation : UInt32} {disk : Disk} {tools : Toolchain}
    {result : Option (Except BuildError Built)} {paths : List Bytes}
    (h : divertsNone generation disk tools result paths = true) :
    ∃ built reader, result = some (.ok built) ∧ built.container.length < 2 ^ 32 ∧
      Accepts (BundleReader.open built.container generation) reader ∧
      ∀ path ∈ paths, ∀ edge ∈ edgesOf disk tools path,
        diverted disk.source (BundleFileSource.toFileSource { reader, root := built.root })
          (search disk.source path edge.1) = false := by
  unfold divertsNone at h
  split at h
  · rename_i built
    rw [Bool.and_eq_true, decide_eq_true_eq] at h
    obtain ⟨hsize, h⟩ := h
    split at h
    · rename_i reader hopen
      refine ⟨built, reader, rfl, hsize, hopen, ?_⟩
      intro path hpath edge hedge
      have hedges := List.all_eq_true.mp (List.all_eq_true.mp h path hpath) edge hedge
      simpa using hedges
    · cases h
  · cases h

/-- The same tree when the `main` stays inside its package. -/
def containedFiles : List (Bytes × Bytes) :=
  [(ascii "/srv/app/main.js", escapingText),
    (ascii "/srv/app/node_modules/p/package.json", ascii "\x7b\"main\": \"lib/x.js\"\x7d"),
    (ascii "/srv/app/node_modules/p/lib/x.js", []), (ascii "/srv/node_modules/p/index.js", [])]

def containedDisk : Disk := Disk.ofFiles containedFiles (by decide)

def srvStart : Start where
  absEntry := ascii "/srv/app/main.js"
  includes := []
  preloads := []
  consulted := []

def containedPaths : List Bytes :=
  [ascii "/srv/app/main.js", ascii "/srv/app/node_modules/p/lib/x.js",
    ascii "/srv/node_modules/p/index.js"]

theorem contained_runs :
    (walk containedDisk escapingTools srvStart 5).finished?.map (·.items) = some containedPaths ∧
    divertsNone 7 containedDisk escapingTools
      (buildBundle containedDisk escapingTools srvOptions 7 5) containedPaths = true := by
  decide +kernel

/-- There every edge agrees. -/
theorem contained_agrees : ∃ built reader,
    buildBundle containedDisk escapingTools srvOptions 7 5 = some (.ok built) ∧
      Accepts (BundleReader.open built.container 7) reader ∧
      ∀ importer specifier target, reader.lookup importer specifier = some (some target) →
        EdgeAgrees { reader, root := built.root } importer specifier target := by
  obtain ⟨built, reader, hbuild, hsize, hopen, hnone⟩ := divertsNone_eq_true contained_runs.2
  have hstart : startOf containedDisk srvOptions = .ok srvStart := rfl
  refine ⟨built, reader, hbuild, hopen, ?_⟩
  apply (routes_agree_iff hstart hbuild hsize hopen).mpr
  intro path hpackaged
  apply hnone path
  rcases Option.map_eq_some_iff.mp contained_runs.1 with ⟨w, hw, hitems⟩
  have hwalked := walk_finished (startOf_started hstart) (Outcome.finished?_eq_some hw)
  rw [← hitems]
  exact (hwalked.members path).mpr hpackaged

end HermesNode.Build
