/-
Module: HermesNode.Build.Backends
Purpose: The two backends of the resolver over one tree. A disk that holds the files of a container
  under its root, and nothing else, answers the questions of the resolver as the container does at
  and below the root. Above the root the container answers no, where the disk has directories.
Trusted boundary: human-reviewed spec (`stat` and `open` on a tree without links)
Main exports: pathNames, Mirrors, backends_agree
-/
import HermesNode.Build.Root
import HermesNode.Bundle.RootPaths

namespace HermesNode.Build

open HermesNode.Bundle Resolve

/-- The names a path goes through. To the system a doubled separator is one. -/
def pathNames (p : Bytes) : List Bytes := (splitSlash p).filter (!·.isEmpty)

theorem pathNames_slash (p q : Bytes) :
    pathNames (p ++ slash :: q) = pathNames p ++ pathNames q := by
  rw [pathNames, splitSlash_append, List.filter_append]
  rfl

theorem filter_names {segs : List Bytes} (h : Names segs) : segs.filter (!·.isEmpty) = segs := by
  apply List.filter_eq_self.mpr
  intro seg hseg
  simpa using (h.plain seg hseg).1

theorem pathNames_absPath {segs : List Bytes} (h : Names segs) :
    pathNames (absPath segs) = segs := by
  by_cases hne : segs = []
  · subst hne
    rfl
  · rw [pathNames, splitSlash_absPath h hne]
    simpa using filter_names h

theorem pathNames_trailing {segs : List Bytes} (h : Names segs) :
    pathNames (absPath segs ++ [slash]) = segs := by
  rw [pathNames_slash, pathNames_absPath h]
  simp [pathNames, splitSlash]

/-! ### A disk that holds a container's files -/

/-- The disk holds the files of the container under the root, with the recorded bytes, the
directories they are in, and nothing else. -/
structure Mirrors (disk : Disk) (reader : BundleReader) (r : List Bytes) : Prop where
  regular : ∀ p, isAbsolute p = true → Names (pathNames p) →
    (disk.isRegularFile p = true ↔ endsInSlash p = false ∧
      ∃ e ∈ (sourceAt reader r).records, pathNames p = r ++ splitSlash e.identity)
  directory : ∀ p, isAbsolute p = true → Names (pathNames p) →
    (disk.isDirectory p = true ↔ ∃ e ∈ (sourceAt reader r).records, ∃ below, below ≠ [] ∧
      r ++ splitSlash e.identity = pathNames p ++ below)
  content : ∀ p, disk.isRegularFile p = true → ∀ e ∈ (sourceAt reader r).records,
    pathNames p = r ++ splitSlash e.identity →
    disk.read p = some ((reader.payload e.moduleIndex).getD [])
  /-- What can be opened is a file or a directory. -/
  absent : ∀ p, disk.isRegularFile p = false → disk.isDirectory p = false → disk.read p = none

/-- The path is a directory the root is in. -/
def AboveRoot (path : Bytes) (r : List Bytes) : Prop :=
  ∃ below, below ≠ [] ∧ r = pathNames path ++ below

/-- The container as the disk shows it, but for what is outside its root. -/
structure AgreesUnderRoot (disk : Disk) (reader : BundleReader) (r : List Bytes) : Prop where
  regular : ∀ path, NormalPath path → 0 ∉ path →
    (sourceAt reader r).isRegularFile path = disk.source.isRegularFile path
  directory : ∀ path, NormalPath path → 0 ∉ path → ¬ AboveRoot path r →
    (sourceAt reader r).isDirectory path = disk.source.isDirectory path
  above : ∀ path, NormalPath path → 0 ∉ path → AboveRoot path r →
    (sourceAt reader r).isDirectory path = false ∧ disk.source.isDirectory path = true
  /-- Said neither of the root directory of the system as a root nor of a directory that is called
  `package.json`. -/
  packageJson : ∀ dir, NormalPath dir → 0 ∉ dir → (r ≠ [] ∨ pathNames dir ≠ []) →
    disk.source.isDirectory (trimOneTrailingSlash dir ++ ascii "/package.json") = false →
    (sourceAt reader r).readPackageJson dir = disk.source.readPackageJson dir

section

variable {disk : Disk} {reader : BundleReader} {r : List Bytes}
variable (hs : (sourceAt reader r).Sound) (hr : Names r) (hm : Mirrors disk reader r)

include hs hr hm

theorem regular_agrees {path : Bytes} (hpath : NormalPath path) (hnul : 0 ∉ path) :
    (sourceAt reader r).isRegularFile path = disk.source.isRegularFile path := by
  simp only [Disk.source, cstr_of_no_nul hnul]
  apply Bool.eq_iff_iff.mpr
  rw [isRegularFile_iff_record hs hr]
  cases hpath with
  | @file segs hsegs =>
      have hnames := pathNames_absPath hsegs
      rw [hm.regular _ (absPath_isAbsolute segs) (by rwa [hnames]), hnames]
      constructor
      · rintro ⟨e, he, heq⟩
        have hsame := absPath_inj hsegs (record_names hs hr he) heq
        refine ⟨?_, e, he, hsame⟩
        rw [hsame]
        exact absPath_not_endsInSlash (record_names hs hr he) (by simp [splitSlash_ne_nil])
      · rintro ⟨_, e, he, heq⟩
        exact ⟨e, he, by rw [heq]⟩
  | @trailing segs hsegs hne =>
      have hend : endsInSlash (absPath segs ++ [slash]) = true := by simp [endsInSlash]
      have hnames := pathNames_trailing hsegs
      rw [hm.regular _ rfl (by rwa [hnames]), hend]
      simp only [Bool.true_eq_false, false_and, iff_false]
      rintro ⟨e, he, heq⟩
      have hnot := absPath_not_endsInSlash (record_names hs hr he) (by simp [splitSlash_ne_nil])
      rw [← heq, hend] at hnot
      cases hnot

/-- The directories of the container are those of the disk at and below the root. -/
theorem directory_iff {path : Bytes} (hpath : NormalPath path) (hnul : 0 ∉ path) :
    (sourceAt reader r).isDirectory path = true ↔
      r <+: pathNames path ∧ disk.source.isDirectory path = true := by
  have hspelled : ∃ segs, Names segs ∧ pathNames path = segs ∧
      (path = absPath segs ∨ path = absPath segs ++ [slash]) := by
    cases hpath with
    | @file segs hsegs => exact ⟨segs, hsegs, pathNames_absPath hsegs, Or.inl rfl⟩
    | @trailing segs hsegs _ => exact ⟨segs, hsegs, pathNames_trailing hsegs, Or.inr rfl⟩
  obtain ⟨segs, hsegs, hnames, hcases⟩ := hspelled
  simp only [Disk.source, cstr_of_no_nul hnul]
  rw [isDirectory_iff_above hs hr hsegs hcases,
    hm.directory path hpath.absolute (by rwa [hnames]), hnames]

theorem directory_agrees {path : Bytes} (hpath : NormalPath path) (hnul : 0 ∉ path)
    (hnot : ¬ AboveRoot path r) :
    (sourceAt reader r).isDirectory path = disk.source.isDirectory path := by
  apply Bool.eq_iff_iff.mpr
  rw [directory_iff hs hr hm hpath hnul]
  apply and_iff_right_of_imp
  intro hdisk
  simp only [Disk.source, cstr_of_no_nul hnul] at hdisk
  have hnames : Names (pathNames path) := by
    cases hpath with
    | @file segs hsegs => rwa [pathNames_absPath hsegs]
    | @trailing segs hsegs _ => rwa [pathNames_trailing hsegs]
  obtain ⟨e, _, below, hbelow, heq⟩ := (hm.directory path hpath.absolute hnames).mp hdisk
  -- one of the root and the path is a front of the other, as both are of the record's path
  have hroot : r <+: pathNames path ++ below := ⟨_, heq⟩
  rcases List.prefix_or_prefix_of_prefix hroot (List.prefix_append _ _) with hfront | ⟨rest, hrest⟩
  · exact hfront
  · by_cases hempty : rest = []
    · rw [← hrest, hempty, List.append_nil]
    · exact absurd ⟨rest, hempty, hrest.symm⟩ hnot

theorem directory_above {path : Bytes} (hpath : NormalPath path) (hnul : 0 ∉ path)
    (habove : AboveRoot path r) :
    (sourceAt reader r).isDirectory path = false ∧ disk.source.isDirectory path = true := by
  obtain ⟨below, hbelow, heq⟩ := habove
  have hnames : Names (pathNames path) := by
    rw [heq] at hr
    exact hr.left
  constructor
  · rw [Bool.eq_false_iff]
    intro hdir
    obtain ⟨rest, hrest⟩ := ((directory_iff hs hr hm hpath hnul).mp hdir).1
    have hlength := congrArg List.length hrest
    have hpos := List.length_pos_iff.mpr hbelow
    rw [heq] at hlength
    simp only [List.length_append] at hlength
    omega
  · simp only [Disk.source, cstr_of_no_nul hnul]
    obtain ⟨e, he⟩ := List.exists_mem_of_ne_nil _ hs.nonempty
    apply (hm.directory path hpath.absolute hnames).mpr
    refine ⟨e, he, below ++ splitSlash e.identity, by simp [hbelow], ?_⟩
    rw [heq, List.append_assoc]

/-- The text behind a path that is the path of a record, and nothing behind any other. -/
theorem packageJson_of_names {segs : List Bytes} (hsegs : Names segs) {p : Bytes}
    (habs : isAbsolute p = true) (hend : endsInSlash p = false) (hp : pathNames p = segs)
    (hdir : disk.isDirectory p = false)
    (hroot : ∀ e ∈ (sourceAt reader r).records, segs = r ++ splitSlash e.identity →
      p = absPath segs) :
    (match (sourceAt reader r).identityFor p with
      | none => none
      | some rel =>
          if rel.isEmpty then none
          else ((sourceAt reader r).find rel).map fun e => (reader.payload e.moduleIndex).getD []) =
      disk.read p := by
  have hregular := hm.regular p habs (by rwa [hp])
  rw [hp] at hregular
  by_cases hrecord : ∃ e ∈ (sourceAt reader r).records, segs = r ++ splitSlash e.identity
  · obtain ⟨e, he, heq⟩ := hrecord
    have hpath := hroot e he heq
    have hfind := (BundleFileSource.find_eq_some_iff hs.distinct).mpr ⟨he, rfl⟩
    have hne : e.identity.isEmpty = false := by
      simpa using plain_ne_nil (plain_of_isValidIdentity (hs.valid e he))
    rw [hm.content p (hregular.mpr ⟨hend, e, he, heq⟩) e he (by rw [hp, heq])]
    rw [hpath, heq, identityFor_record hs hr he]
    simp [hne, hfind]
  · have hnone : disk.read p = none := by
      apply hm.absent p _ hdir
      rw [Bool.eq_false_iff]
      intro htrue
      exact hrecord (hregular.mp htrue).2
    rw [hnone]
    cases hrel : (sourceAt reader r).identityFor p with
    | none => rfl
    | some rel =>
        cases hfind : (sourceAt reader r).find rel with
        | none => simp [hfind]
        | some e =>
            obtain ⟨he, rfl⟩ := (BundleFileSource.find_eq_some_iff hs.distinct).mp hfind
            have hpath := path_of_identityFor hs hr he hrel
            rw [hpath, pathNames_absPath (record_names hs hr he)] at hp
            exact absurd ⟨e, he, hp.symm⟩ hrecord

theorem packageJson_agrees {dir : Bytes} (hdir : NormalPath dir) (hnul : 0 ∉ dir)
    (hroot : r ≠ [] ∨ pathNames dir ≠ [])
    (hfile : disk.source.isDirectory (trimOneTrailingSlash dir ++ ascii "/package.json") = false) :
    (sourceAt reader r).readPackageJson dir = disk.source.readPackageJson dir := by
  have hfree : 0 ∉ trimOneTrailingSlash dir ++ ascii "/package.json" := by
    have htrim : 0 ∉ trimOneTrailingSlash dir := by
      unfold trimOneTrailingSlash
      split
      · exact fun hmem => hnul (List.mem_of_mem_dropLast hmem)
      · exact hnul
    simp only [List.mem_append, not_or]
    exact ⟨htrim, by decide⟩
  simp only [Disk.source, cstr_of_no_nul hfree] at hfile ⊢
  unfold BundleFileSource.readPackageJson
  rcases recordedPath_cases hdir with ⟨rfl, hpath⟩ | ⟨segs, hsegs, hne, _, hpath⟩
  · rw [hpath] at hfile ⊢
    have hnames : pathNames rootPackagePath = [packageName] := by decide
    apply packageJson_of_names hs hr hm names_packageName (by decide) (by decide) hnames hfile
    -- the one name of the path is neither the root's nor the record's
    intro e _ heq
    have hr' : r ≠ [] := by
      rcases hroot with hr' | hdir'
      · exact hr'
      · exact absurd (by decide) hdir'
    have hlength := congrArg List.length heq
    have hpos := List.length_pos_iff.mpr hr'
    have hpos' := List.length_pos_iff.mpr (splitSlash_ne_nil e.identity)
    simp only [List.length_append, List.length_cons, List.length_nil] at hlength
    omega
  · rw [hpath] at hfile ⊢
    have hnames := hsegs.append names_packageName
    exact packageJson_of_names hs hr hm hnames (absPath_isAbsolute _)
      (absPath_not_endsInSlash hnames (by simp)) (pathNames_absPath hnames) hfile
      (fun _ _ _ => rfl)

end

/-- Over every accepted container, every root and every disk that holds the container's files under
that root and nothing else. -/
theorem backends_agree (disk : Disk) (reader : BundleReader) (r : List Bytes) (data : Bytes)
    (generation : UInt32) (hopen : Check.Accepts (BundleReader.open data generation) reader)
    (hr : Names r) (hm : Mirrors disk reader r) : AgreesUnderRoot disk reader r := by
  have hs : (sourceAt reader r).Sound := sound_of_accepts hopen (absPath r)
  constructor
  · intro path hpath hnul
    exact regular_agrees hs hr hm hpath hnul
  · intro path hpath hnul hnot
    exact directory_agrees hs hr hm hpath hnul hnot
  · intro path hpath hnul habove
    exact directory_above hs hr hm hpath hnul habove
  · intro dir hdir hnul hroot hfile
    exact packageJson_agrees hs hr hm hdir hnul hroot hfile

/-! ### Such a disk -/

/-- The names are a proper front of the others. -/
def isFront (xs ys : List Bytes) : Bool := xs.isPrefixOf ys && decide (xs.length < ys.length)

theorem isFront_iff {xs ys : List Bytes} :
    isFront xs ys = true ↔ ∃ below, below ≠ [] ∧ ys = xs ++ below := by
  simp only [isFront, Bool.and_eq_true, List.isPrefixOf_iff_prefix, decide_eq_true_eq]
  constructor
  · rintro ⟨⟨below, rfl⟩, hlength⟩
    refine ⟨below, ?_, rfl⟩
    rintro rfl
    simp at hlength
  · rintro ⟨below, hbelow, rfl⟩
    have hpos := List.length_pos_iff.mpr hbelow
    exact ⟨List.prefix_append _ _, by simp only [List.length_append]; omega⟩

namespace Disk

/-- The names lead to a directory of the tree. -/
def inTree (files : List (List Bytes × Bytes)) (names : List Bytes) : Bool :=
  names.isEmpty || files.any fun file => isFront names file.1

theorem inTree_of_append {files : List (List Bytes × Bytes)} {names rest : List Bytes}
    (hrest : rest ≠ []) {file : List Bytes × Bytes} (hfile : file ∈ files)
    (hstarts : names ++ rest <+: file.1) : inTree files names = true := by
  obtain ⟨more, hmore⟩ := hstarts
  have hfront : isFront names file.1 = true :=
    isFront_iff.mpr ⟨rest ++ more, by simp [hrest], by rw [← hmore, List.append_assoc]⟩
  simp only [inTree, Bool.or_eq_true]
  exact Or.inr (List.any_eq_true.mpr ⟨file, hfile, hfront⟩)

/-- The tree that holds the listed files, given by their names, and the directories they are in:
no links, no addons, no room for outputs. -/
def ofTree (files : List (List Bytes × Bytes)) : Disk where
  isRegularFile p :=
    isAbsolute p && (!endsInDirectory p && files.any fun file => file.1 == pathNames p)
  isDirectory p := isAbsolute p && inTree files (pathNames p)
  read p :=
    if isAbsolute p then
      if !endsInDirectory p && files.any fun file => file.1 == pathNames p then
        files.lookup (pathNames p)
      else if inTree files (pathNames p) then some [] else none
    else none
  digest p := .error (ascii "cannot open " ++ p ++ ascii ": No such file or directory")
  isSameFile p q := pathNames p == pathNames q && files.any fun file => file.1 == pathNames p
  isSymlink _ := false
  writeError p := some (ascii "cannot write " ++ p)
  currentPath := .ok [slash]
  regular_end p h := by
    simp only [Bool.and_eq_true, Bool.not_eq_true'] at h
    exact h.2.1
  currentPath_abs := currentPath_root
  root_dir := rfl
  trailing_dir p hne := by
    have habs : isAbsolute (p ++ [slash]) = isAbsolute p := by
      cases p with
      | nil => exact absurd rfl hne
      | cons c cs => rfl
    have hnames : pathNames (p ++ [slash]) = pathNames p := by
      rw [pathNames_slash]
      simp [pathNames, splitSlash]
    rw [habs, hnames]
  dir_above p name hp hname hfree h := by
    have habs : isAbsolute (p ++ slash :: name) = isAbsolute p := by
      cases p with
      | nil => exact absurd rfl hp
      | cons c cs => rfl
    have hnames : pathNames (p ++ slash :: name) = pathNames p ++ [name] := by
      rw [pathNames_slash]
      simp [pathNames, splitSlash_of_not_mem hfree, hname]
    simp only [habs, hnames, Bool.and_eq_true] at h ⊢
    rcases h with ⟨hp', _, hany⟩ | ⟨hp', hdir⟩
    · obtain ⟨file, hfile, heq⟩ := List.any_eq_true.mp hany
      refine ⟨hp', inTree_of_append (List.cons_ne_nil name []) hfile ?_⟩
      rw [eq_of_beq heq]
    · refine ⟨hp', ?_⟩
      simp only [inTree, Bool.or_eq_true] at hdir
      rcases hdir with hempty | hany
      · simp at hempty
      · obtain ⟨file, hfile, hfront⟩ := List.any_eq_true.mp hany
        obtain ⟨below, _, heq⟩ := isFront_iff.mp hfront
        exact inTree_of_append (List.cons_ne_nil name []) hfile ⟨below, heq.symm⟩

end Disk

/-- The files of a container under a root. -/
def containerTree (reader : BundleReader) (r : List Bytes) : List (List Bytes × Bytes) :=
  (sourceAt reader r).records.map fun e =>
    (r ++ splitSlash e.identity, (reader.payload e.moduleIndex).getD [])

theorem containerTree_any {reader : BundleReader} {r names : List Bytes} :
    ((containerTree reader r).any fun file => file.1 == names) = true ↔
      ∃ e ∈ (sourceAt reader r).records, names = r ++ splitSlash e.identity := by
  simp only [containerTree, List.any_map, List.any_eq_true, Function.comp_apply, beq_iff_eq]
  constructor
  · rintro ⟨e, he, heq⟩
    exact ⟨e, he, heq.symm⟩
  · rintro ⟨e, he, heq⟩
    exact ⟨e, he, heq.symm⟩

/-- A name is no dot, so a path of names that does not end in a separator ends in a file's name. -/
theorem endsInDirectory_of_names {p : Bytes} (habs : isAbsolute p = true)
    (h : Names (pathNames p)) : endsInDirectory p = endsInSlash p := by
  rcases List.eq_nil_or_concat' (splitSlash p) with hnil | ⟨front, last, hsplit⟩
  · exact absurd hnil (splitSlash_ne_nil p)
  have hname : filename p = last := by
    rw [filename, hsplit, List.getLast?_concat]
    rfl
  by_cases hlast : last = []
  · subst hlast
    have hfront : front ≠ [] := by
      rintro rfl
      have hempty := joinSlash_splitSlash p
      rw [hsplit] at hempty
      rw [← hempty] at habs
      cases habs
    have hend : endsInSlash p = true := by
      rw [← joinSlash_splitSlash p, hsplit, joinSlash_snoc hfront]
      simp [endsInSlash]
    simp [endsInDirectory, hname, hend]
  · have hmem : last ∈ pathNames p := by
      rw [pathNames, hsplit]
      simp [hlast]
    have hplain := h.plain last hmem
    have hend : endsInSlash p = false := by
      rw [Bool.eq_false_iff]
      intro hend
      obtain ⟨q, rfl⟩ := List.getLast?_eq_some_iff.mp (by simpa [endsInSlash] using hend)
      have hempty : filename (q ++ [slash]) = [] := by
        rw [filename, splitSlash_append, splitSlash, List.getLast?_concat]
        rfl
      exact hlast (hname.symm.trans hempty)
    simp [endsInDirectory, hname, hend, hplain]

theorem containerTree_lookup {reader : BundleReader} {r : List Bytes}
    (hs : (sourceAt reader r).Sound) {e : Entry} (he : e ∈ (sourceAt reader r).records) :
    (containerTree reader r).lookup (r ++ splitSlash e.identity) =
      some ((reader.payload e.moduleIndex).getD []) := by
  obtain ⟨before, after, hsplit⟩ := List.append_of_mem he
  rw [List.lookup_eq_some_iff]
  refine ⟨before.map _, after.map _, by rw [containerTree, hsplit, List.map_append]; rfl, ?_⟩
  intro file hfile
  obtain ⟨e', he', rfl⟩ := List.mem_map.mp hfile
  rw [bne_iff_ne]
  intro heq
  -- two records with one path have one identity
  have hsame : e.identity = e'.identity := by
    rw [← joinSlash_splitSlash e.identity, List.append_cancel_left heq, joinSlash_splitSlash]
  have hdistinct := hs.distinct
  rw [BundleFileSource.Distinct, hsplit, List.map_append, List.nodup_append] at hdistinct
  exact hdistinct.2.2 _ (List.mem_map_of_mem he') _ (by simp) hsame.symm

theorem ofTree_mirrors {reader : BundleReader} {r : List Bytes}
    (hs : (sourceAt reader r).Sound) :
    Mirrors (Disk.ofTree (containerTree reader r)) reader r := by
  constructor
  · intro p habs hnames
    simp only [Disk.ofTree, habs, Bool.true_and, Bool.and_eq_true, containerTree_any,
      endsInDirectory_of_names habs hnames, Bool.not_eq_true']
  · intro p habs hnames
    simp only [Disk.ofTree, Disk.inTree, habs, Bool.true_and, Bool.or_eq_true, List.isEmpty_iff,
      containerTree, List.any_map, List.any_eq_true, Function.comp_apply, isFront_iff]
    constructor
    · rintro (hempty | hfront)
      · obtain ⟨e, he⟩ := List.exists_mem_of_ne_nil _ hs.nonempty
        refine ⟨e, he, r ++ splitSlash e.identity, by simp [splitSlash_ne_nil], ?_⟩
        rw [hempty, List.nil_append]
      · exact hfront
    · exact Or.inr
  · intro p hregular e he hnames
    simp only [Disk.ofTree, Bool.and_eq_true, Bool.not_eq_true'] at hregular ⊢
    rw [if_pos hregular.1, if_pos hregular.2, hnames]
    exact containerTree_lookup hs he
  · intro p hregular hdir
    simp only [Disk.ofTree] at hregular hdir ⊢
    cases habs : isAbsolute p with
    | false => simp
    | true =>
        rw [habs, Bool.true_and] at hregular hdir
        simp only [hregular, hdir, Bool.false_eq_true, if_false, ite_self]

/-- A program and its `package.json`. -/
def packageContainer : Bytes :=
  ((BundleWriter.run
    [.addModule (ascii "index.js") .kJavaScript kRequirable [],
      .addModule (ascii "package.json") .kJSON 0 (ascii "null"),
      .setEntry 0]).serialize 7).1

def packageReader : BundleReader where
  data := packageContainer
  header := (BundleHeader.read packageContainer).getD singleModuleHeader

theorem packageContainer_opens :
    Check.Accepts (BundleReader.open packageContainer 7) packageReader := by
  unfold Check.Accepts
  decide +kernel

/-- The disk with the two files under `/srv`. -/
def packageDisk : Disk := Disk.ofTree (containerTree packageReader [ascii "srv"])

theorem packageDisk_mirrors : Mirrors packageDisk packageReader [ascii "srv"] :=
  ofTree_mirrors (sound_of_accepts packageContainer_opens _)

theorem package_agrees : AgreesUnderRoot packageDisk packageReader [ascii "srv"] :=
  backends_agree packageDisk packageReader [ascii "srv"] packageContainer 7 packageContainer_opens
    (by decide) packageDisk_mirrors

/-- The same answers to everything the resolver asks about paths in normal form. -/
structure SameAnswers (disk : Disk) (reader : BundleReader) (r : List Bytes) : Prop where
  regular : ∀ path, NormalPath path →
    (sourceAt reader r).isRegularFile path = disk.source.isRegularFile path
  directory : ∀ path, NormalPath path →
    (sourceAt reader r).isDirectory path = disk.source.isDirectory path
  packageJson : ∀ dir, NormalPath dir →
    (sourceAt reader r).readPackageJson dir = disk.source.readPackageJson dir

/-- `/` is a directory of every disk and outside the root `/srv`. -/
theorem root_above_differs :
    Check.Accepts (BundleReader.open packageContainer 7) packageReader ∧
      Mirrors packageDisk packageReader [ascii "srv"] ∧
      ¬ SameAnswers packageDisk packageReader [ascii "srv"] := by
  refine ⟨packageContainer_opens, packageDisk_mirrors, ?_⟩
  intro h
  have hroot := h.directory [slash] (NormalPath.file names_nil)
  have hshown : (sourceAt packageReader [ascii "srv"]).isDirectory [slash] = false := by
    decide
  have hdisk : packageDisk.source.isDirectory [slash] = true := by
    decide
  rw [hshown, hdisk] at hroot
  cases hroot

end HermesNode.Build
