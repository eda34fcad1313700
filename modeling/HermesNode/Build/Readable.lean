/-
Module: HermesNode.Build.Readable
Purpose: When the reader accepts what the producer wrote. Flags, preloads, edges and native rows are
  always in order. Identities are not: a path with a NUL in it gives an identity the reader refuses,
  and the `package.json` of the root directory, recorded under a path with a doubled separator, gives
  the identity of a `/package.json` that the program requires as well.
Trusted boundary: none
Main exports: Consults, RootTwice, built_opens_iff
-/
import HermesNode.Build.Root
import HermesNode.Bundle.RootPaths
import HermesNode.Bundle.RoundTrip

namespace HermesNode.Build

open HermesNode.Bundle Resolve WorkList
open Check (Accepts)

/-! ### What was consulted -/

/-- Some resolution of the build asks for the `package.json` of the directory. -/
inductive Consults (disk : Disk) (tools : Toolchain) (opts : Options) (start : Start)
    (dir : Bytes) : Prop where
  | seed {spec : Bytes} (h : spec ∈ opts.includes ++ opts.preloads)
      (hdir : dir ∈ (resolveSpecifier disk.source start.absEntry spec).consulted)
  | literal {path specifier : Bytes} (h : Packaged disk tools start path)
      (hliteral : specifier ∈ literalsOf disk tools path)
      (hdir : dir ∈ (resolveLiteral disk path specifier).consulted)

section

variable {disk : Disk} {tools : Toolchain} {opts : Options} {start : Start}
  {w : State Bytes Visited}

theorem mem_consultedOf (hstart : Started disk opts start) (hwalked : Walked disk tools start w)
    {dir : Bytes} : dir ∈ consultedOf start w ↔ Consults disk tools opts start dir := by
  rw [consultedOf, List.mem_append, hstart.consulted]
  constructor
  · intro h
    rcases h with hseed | hliteral
    · rcases List.mem_flatMap.mp hseed with ⟨spec, hspec, hdir⟩
      exact Consults.seed hspec hdir
    · rcases List.mem_flatMap.mp hliteral with ⟨v, hv, hdir⟩
      rcases forall₂_mem_left hwalked.results.flip hv with ⟨path, hpath, hvisited⟩
      rw [hvisited.consulted] at hdir
      rcases List.mem_flatMap.mp hdir with ⟨specifier, hspecifier, hdir⟩
      exact Consults.literal ((hwalked.members path).mp hpath) hspecifier hdir
  · intro h
    cases h with
    | seed hspec hdir => exact Or.inl (List.mem_flatMap.mpr ⟨_, hspec, hdir⟩)
    | @literal path specifier hpath hspecifier hdir =>
        rcases forall₂_mem_left hwalked.results ((hwalked.members path).mpr hpath) with
          ⟨v, hv, hvisited⟩
        refine Or.inr (List.mem_flatMap.mpr ⟨v, hv, ?_⟩)
        rw [hvisited.consulted]
        exact List.mem_flatMap.mpr ⟨specifier, hspecifier, hdir⟩

theorem Consults.normal (hstart : Started disk opts start) {dir : Bytes}
    (h : Consults disk tools opts start dir) :
    NormalPath dir ∧ disk.isDirectory (cstr dir) = true := by
  cases h with
  | seed _ hdir =>
      exact resolveSpecifier_consulted (absEntryOf_ok hstart.entry).1.absolute hdir
  | literal hpath _ hdir =>
      unfold resolveLiteral at hdir
      split at hdir
      · cases hdir
      · exact resolveSpecifier_consulted (hpath.file hstart).1.absolute hdir

variable {path : Bytes}

theorem mem_readPackageJsonPaths {consulted : List Bytes} :
    path ∈ disk.readPackageJsonPaths consulted ↔
      ∃ dir ∈ consulted, path = trimOneTrailingSlash dir ++ ascii "/package.json" ∧
        (disk.readFile path).isSome = true := by
  rw [Disk.readPackageJsonPaths, mem_discover]
  constructor
  · intro h
    rcases h with hnil | hmem
    · cases hnil
    · rcases List.mem_map.mp hmem with ⟨dir, hdir, rfl⟩
      rcases List.mem_filter.mp hdir with ⟨hin, hread⟩
      exact ⟨dir, hin, rfl, hread⟩
  · intro h
    rcases h with ⟨dir, hdir, rfl, hread⟩
    exact Or.inr (List.mem_map.mpr ⟨dir, List.mem_filter.mpr ⟨hdir, hread⟩, rfl⟩)

/-- The resolution inputs that are kept: recorded, no module, and above some module. -/
theorem mem_packageInputs {modules consulted : List Bytes} :
    path ∈ (packageInputs disk modules consulted).map (·.path) ↔
      path ∈ disk.readPackageJsonPaths consulted ∧ path ∉ modules ∧
        ∃ m ∈ modules, isAbove (parentPath path) (parentPath m) = true := by
  constructor
  · intro h
    rcases List.mem_map.mp h with ⟨file, hfile, rfl⟩
    rcases packageInputs_spec hfile with ⟨hrecorded, hnew, habove, _⟩
    exact ⟨hrecorded, hnew, habove⟩
  · rintro ⟨hrecorded, hnew, m, hm, habove⟩
    rcases mem_readPackageJsonPaths.mp hrecorded with ⟨_, _, _, hread⟩
    rcases Option.isSome_iff_exists.mp hread with ⟨text, htext⟩
    apply List.mem_map.mpr
    refine ⟨{ path, info := { kind := .kJSON, flags := kResolveOnly, payload := text } },
      List.mem_filterMap.mpr ⟨path, hrecorded, ?_⟩, rfl⟩
    have hany : (modules.map parentPath).any (isAbove (parentPath path)) = true :=
      List.any_eq_true.mpr ⟨parentPath m, List.mem_map_of_mem hm, habove⟩
    simp only [hnew, if_false, hany, if_true, htext, Option.map_some]

theorem packageInputs_nodup (modules consulted : List Bytes) :
    ((packageInputs disk modules consulted).map (·.path)).Nodup := by
  have hsub : ((packageInputs disk modules consulted).map (·.path)).Sublist
      (disk.readPackageJsonPaths consulted) := by
    unfold packageInputs
    induction disk.readPackageJsonPaths consulted with
    | nil => exact List.Sublist.refl _
    | cons path paths ih =>
        rw [List.filterMap_cons]
        split
        · exact ih.cons path
        · rename_i file hfile
          have hpath : file.path = path := by
            split at hfile
            · cases hfile
            · split at hfile
              · rcases Option.map_eq_some_iff.mp hfile with ⟨text, _, rfl⟩
                rfl
              · cases hfile
          rw [List.map_cons, hpath]
          exact ih.cons_cons path
  exact hsub.nodup (discover_nodup List.nodup_nil _)

/-! ### The paths of a container -/

/-- All paths of the container: the walked ones and the resolution inputs. -/
def containerPaths (disk : Disk) (start : Start) (w : State Bytes Visited) : List Bytes :=
  w.items ++ (packageInputs disk w.items (consultedOf start w)).map (·.path)

theorem containerPaths_nodup (hwalked : Walked disk tools start w) :
    (containerPaths disk start w).Nodup := by
  rw [containerPaths, List.nodup_append]
  refine ⟨hwalked.nodup, packageInputs_nodup _ _, ?_⟩
  intro a ha b hb hab
  rw [hab] at ha
  exact (mem_packageInputs.mp hb).2.1 ha

/-- The names of a packaged path's directory and of the path itself have no NUL if it has none. -/
theorem nul_free_of_absPath {segs : List Bytes} (h : 0 ∉ absPath segs) :
    ∀ seg ∈ segs, 0 ∉ seg := by
  intro seg hseg hmem
  exact h (List.mem_cons_of_mem _ (mem_joinSlash_of_mem hseg hmem))

/-- A resolution input is the `package.json` of the root directory, or a name in a directory above
that of some packaged file. -/
theorem input_cases (hstart : Started disk opts start) (hwalked : Walked disk tools start w)
   
    (h : path ∈ (packageInputs disk w.items (consultedOf start w)).map (·.path)) :
    (path = rootPackagePath ∧ Consults disk tools opts start [slash] ∧
      (disk.readFile rootPackagePath).isSome = true) ∨
    ∃ segs, Names segs ∧ segs ≠ [] ∧ path = absPath (segs ++ [packageName]) ∧
      ∃ m above, Packaged disk tools start m ∧ LiesIn m above ∧ segs <+: above := by
  rcases mem_packageInputs.mp h with ⟨hrecorded, _, m, hm, habove⟩
  rcases mem_readPackageJsonPaths.mp hrecorded with ⟨dir, hdir, hpath, hread⟩
  have hconsults := (mem_consultedOf hstart hwalked).mp hdir
  rcases recordedPath_cases (hconsults.normal hstart).1 with ⟨hroot, hrootPath⟩ |
    ⟨segs, hsegs, hne, _, hname⟩
  · rw [hrootPath] at hpath
    subst hroot
    exact Or.inl ⟨hpath, hconsults, hpath ▸ hread⟩
  · rw [hname] at hpath
    subst hpath
    have hpackaged := (hwalked.members m).mp hm
    rcases packagedPath_liesIn hstart hpackaged with ⟨above, hlies⟩
    refine Or.inr ⟨segs, hsegs, hne, rfl, m, above, hpackaged, hlies, ?_⟩
    rw [parentPath_absPath (hsegs.append names_packageName), hlies.parent,
      isAbove_absPath hsegs hlies.names] at habove
    exact habove

theorem containerPaths_liesIn (hstart : Started disk opts start)
    (hwalked : Walked disk tools start w) :
    ∀ p ∈ containerPaths disk start w, ∃ segs, LiesIn p segs := by
  intro p hp
  rcases List.mem_append.mp hp with hitem | hinput
  · exact packagedPath_liesIn hstart ((hwalked.members p).mp hitem)
  · rcases input_cases hstart hwalked hinput with ⟨rfl, _⟩ | ⟨segs, hsegs, _, rfl, _⟩
    · exact ⟨[], rootPackagePath_liesIn⟩
    · exact ⟨segs, liesIn_name (hsegs.append names_packageName)⟩

theorem entry_mem (hwalked : Walked disk tools start w) : start.absEntry ∈ w.items :=
  (hwalked.members _).mpr Packaged.entry

/-- The root of the container: a front of every directory, with no NUL in it because the entry has
none. -/
structure RootNames (disk : Disk) (start : Start) (w : State Bytes Visited) (r : List Bytes) :
    Prop where
  names : Names r
  nul : ∀ seg ∈ r, 0 ∉ seg
  root : commonAncestor (containerPaths disk start w) = absPath r
  front : ∀ p ∈ containerPaths disk start w, ∀ segs, LiesIn p segs → r <+: segs

theorem exists_rootNames (hstart : Started disk opts start) (hwalked : Walked disk tools start w) :
    ∃ r, RootNames disk start w r := by
  have hentry : start.absEntry ∈ containerPaths disk start w :=
    List.mem_append_left _ (entry_mem hwalked)
  rcases commonAncestor_spec (List.ne_nil_of_mem hentry) (containerPaths_liesIn hstart hwalked) with
    ⟨r, hnames, hroot, hmeet⟩
  have hfront := (hmeet r).mp List.prefix_rfl
  refine ⟨r, hnames, ?_, hroot, hfront⟩
  have hnul := (absEntryOf_ok hstart.entry).2.2.2
  rcases @packagedPath_cases disk tools start opts _ hstart Packaged.entry with
    ⟨segs, name, hsegs, heq⟩ | ⟨hmem, _⟩
  · have hlies : LiesIn start.absEntry segs := heq ▸ liesIn_name hsegs
    rw [heq] at hnul
    intro seg hseg
    have hin := (hfront _ hentry segs hlies).subset hseg
    exact nul_free_of_absPath hnul seg (List.mem_append_left _ hin)
  · exact absurd hmem hnul

/-! ### Identities -/

/-- The program requires `/package.json`, and a resolution read it as the `package.json` of the
root directory. -/
def RootTwice (disk : Disk) (tools : Toolchain) (opts : Options) (start : Start) : Prop :=
  Packaged disk tools start (ascii "/package.json") ∧ Consults disk tools opts start [slash] ∧
    (disk.readFile rootPackagePath).isSome = true

theorem packaged_ne_rootPackagePath (hstart : Started disk opts start) :
    ¬ Packaged disk tools start rootPackagePath := by
  intro h
  rcases packagedPath_cases hstart h with ⟨segs, name, hnames, heq⟩ | ⟨hnul, _⟩
  · exact names_ne_rootPackagePath hnames heq.symm
  · exact absurd hnul (by decide)

variable {r : List Bytes}

/-- A packaged path with a NUL in it has an identity with a NUL in it. -/
theorem nul_identity (hstart : Started disk opts start) (hwalked : Walked disk tools start w)
    (hr : RootNames disk start w r) (h : Packaged disk tools start path)
    (hnul : 0 ∈ path) : 0 ∈ identityOf (absPath r) path := by
  have hmem : path ∈ containerPaths disk start w :=
    List.mem_append_left _ ((hwalked.members path).mpr h)
  -- the NUL is in a name behind the root
  have hbehind : ∀ {rest : List Bytes}, 0 ∈ absPath (r ++ rest) → 0 ∈ joinSlash rest := by
    intro rest hzero
    rcases List.mem_cons.mp hzero with hslash | hjoin
    · exact absurd hslash (by decide)
    · rcases mem_joinSlash hjoin with hslash | ⟨seg, hseg, hin⟩
      · exact absurd hslash (by decide)
      · rcases List.mem_append.mp hseg with hroot | hrest
        · exact absurd hin (hr.nul seg hroot)
        · exact mem_joinSlash_of_mem hrest hin
  rcases packagedPath_cases hstart h with ⟨segs, name, hnames, rfl⟩ | ⟨_, segs, hnames, hne, rfl⟩
  · rcases hr.front _ hmem segs (liesIn_name hnames) with ⟨rest, rfl⟩
    rw [identityOf_name hnames]
    rw [List.append_assoc] at hnul
    exact hbehind hnul
  · rcases hr.front _ hmem segs ⟨hnames, parentPath_trailing hnames hne⟩ with ⟨rest, rfl⟩
    have hzero : 0 ∈ absPath (r ++ rest) := by
      rcases List.mem_append.mp hnul with hin | hin
      · exact hin
      · exact absurd (List.mem_singleton.mp hin) (by decide)
    have hjoin := hbehind hzero
    have hrest : rest ≠ [] := by
      rintro rfl
      cases hjoin
    rw [identityOf, lexicallyRelative_trailing hnames hrest]
    exact List.mem_append_left _ hjoin

/-- Without NULs every path of the container is a name below the root, or the path recorded for the
`package.json` of the root directory. -/
theorem containerPath_cases (hstart : Started disk opts start) (hwalked : Walked disk tools start w)
    (hr : RootNames disk start w r)
    (hnul : ∀ path, Packaged disk tools start path → 0 ∉ path) {p : Bytes}
    (hp : p ∈ containerPaths disk start w) :
    (∃ rest name, Names (r ++ rest ++ [name]) ∧ p = absPath (r ++ rest ++ [name]) ∧
      ∀ seg ∈ rest ++ [name], 0 ∉ seg) ∨
    (p = rootPackagePath ∧ r = [] ∧ Consults disk tools opts start [slash] ∧
      (disk.readFile rootPackagePath).isSome = true) := by
  rcases List.mem_append.mp hp with hitem | hinput
  · have hpackaged := (hwalked.members p).mp hitem
    rcases packagedPath_cases hstart hpackaged with ⟨segs, name, hnames, rfl⟩ | ⟨hzero, _⟩
    · rcases hr.front _ hp segs (liesIn_name hnames) with ⟨rest, rfl⟩
      refine Or.inl ⟨rest, name, hnames, rfl, ?_⟩
      intro seg hseg
      apply nul_free_of_absPath (hnul _ hpackaged)
      rw [List.append_assoc]
      exact List.mem_append_right _ hseg
    · exact absurd hzero (hnul p hpackaged)
  · rcases input_cases hstart hwalked hinput with ⟨rfl, hconsults, hread⟩ |
      ⟨segs, hsegs, _, rfl, m, above, hm, hlies, habove⟩
    · have hfront := hr.front _ hp [] rootPackagePath_liesIn
      exact Or.inr ⟨rfl, List.prefix_nil.mp hfront, hconsults, hread⟩
    · have hnames := hsegs.append names_packageName
      rcases hr.front _ hp segs (liesIn_name hnames) with ⟨rest, rfl⟩
      refine Or.inl ⟨rest, packageName, hnames, rfl, ?_⟩
      intro seg hseg
      rcases List.mem_append.mp hseg with hin | hin
      · -- the directory is above that of a packaged file, which has no NUL
        rcases packagedPath_cases hstart hm with ⟨msegs, name, hmnames, rfl⟩ | ⟨hzero, _⟩
        · have hsame := hlies.unique (liesIn_name hmnames)
          subst hsame
          apply nul_free_of_absPath (hnul _ hm)
          exact List.mem_append_left _ (habove.subset (List.mem_append_right _ hin))
        · exact absurd hzero (hnul m hm)
      · rw [List.mem_singleton.mp hin]
        decide

theorem rootPackage_identity : identityOf (absPath []) rootPackagePath = packageName := by
  decide

theorem identity_valid (hstart : Started disk opts start) (hwalked : Walked disk tools start w)
    (hr : RootNames disk start w r)
    (hnul : ∀ path, Packaged disk tools start path → 0 ∉ path) {p : Bytes}
    (hp : p ∈ containerPaths disk start w) :
    isValidIdentity (identityOf (absPath r) p) = true := by
  rcases containerPath_cases hstart hwalked hr hnul hp with ⟨rest, name, hnames, rfl, hfree⟩ |
    ⟨rfl, rfl, _⟩
  · rw [identityOf_name hnames]
    rw [List.append_assoc] at hnames
    exact isValidIdentity_joinSlash hnames.right (by simp) hfree
  · rw [rootPackage_identity]
    decide

/-- Without NULs two paths with one identity are the two spellings of `/package.json`. -/
theorem identity_eq_cases (hstart : Started disk opts start) (hwalked : Walked disk tools start w)
    (hr : RootNames disk start w r)
    (hnul : ∀ path, Packaged disk tools start path → 0 ∉ path) {p q : Bytes}
    (hp : p ∈ containerPaths disk start w) (hq : q ∈ containerPaths disk start w)
    (heq : identityOf (absPath r) p = identityOf (absPath r) q) :
    p = q ∨ RootTwice disk tools opts start := by
  -- a name with the identity of the recorded root file is `/package.json`, and it was walked
  have hclash : ∀ {rest : List Bytes} {name : Bytes}, r = [] → Names (r ++ rest ++ [name]) →
      absPath (r ++ rest ++ [name]) ∈ containerPaths disk start w →
      joinSlash (rest ++ [name]) = packageName → Packaged disk tools start (ascii "/package.json") := by
    intro rest name hnil hnames hmem hjoin
    subst hnil
    have hpath : absPath ([] ++ rest ++ [name]) = ascii "/package.json" := by
      rw [List.nil_append, absPath, hjoin]
      decide
    rw [hpath] at hmem
    rcases List.mem_append.mp hmem with hitem | hinput
    · exact (hwalked.members _).mp hitem
    · rcases input_cases hstart hwalked hinput with ⟨hroot, _⟩ | ⟨segs, hsegs, hne, hname, _⟩
      · exact absurd hroot (by decide)
      · have hone : absPath [packageName] = absPath (segs ++ [packageName]) := by
          rw [← hname]
          decide
        have hsame := absPath_inj names_packageName (hsegs.append names_packageName) hone
        exact absurd (by simpa using hsame) hne
  rcases containerPath_cases hstart hwalked hr hnul hp with ⟨rest, name, hnames, rfl, _⟩ |
    ⟨rfl, hnil, hconsults, hread⟩
  · rw [identityOf_name hnames] at heq
    rcases containerPath_cases hstart hwalked hr hnul hq with ⟨rest', name', hnames', rfl, _⟩ |
      ⟨rfl, hnil, hconsults, hread⟩
    · rw [identityOf_name hnames'] at heq
      have hsegs := joinSlash_inj (by simp) (by simp)
        (fun s hs => hnames.free s (by rw [List.append_assoc]; exact List.mem_append_right _ hs))
        (fun s hs => hnames'.free s (by rw [List.append_assoc]; exact List.mem_append_right _ hs)) heq
      left
      rw [List.append_assoc, hsegs, ← List.append_assoc]
    · right
      have hjoin := heq
      rw [hnil, rootPackage_identity] at hjoin
      exact ⟨hclash hnil hnames hp hjoin, hconsults, hread⟩
  · rcases containerPath_cases hstart hwalked hr hnul hq with ⟨rest', name', hnames', rfl, _⟩ |
      ⟨rfl, _⟩
    · right
      rw [identityOf_name hnames'] at heq
      have hjoin := heq.symm
      rw [hnil, rootPackage_identity] at hjoin
      exact ⟨hclash hnil hnames' hq hjoin, hconsults, hread⟩
    · exact Or.inl rfl

theorem rootTwice_identity (hstart : Started disk opts start) (hwalked : Walked disk tools start w)
    (hr : RootNames disk start w r) (h : RootTwice disk tools opts start) :
    rootPackagePath ∈ containerPaths disk start w ∧
      ascii "/package.json" ∈ containerPaths disk start w ∧
      identityOf (absPath r) rootPackagePath = identityOf (absPath r) (ascii "/package.json") := by
  rcases h with ⟨hpackaged, hconsults, hread⟩
  have hentry : Packaged disk tools start start.absEntry := Packaged.entry
  rcases packagedPath_liesIn hstart hentry with ⟨segs, hlies⟩
  have hrecorded : rootPackagePath ∈ disk.readPackageJsonPaths (consultedOf start w) :=
    mem_readPackageJsonPaths.mpr
      ⟨[slash], (mem_consultedOf hstart hwalked).mpr hconsults, by decide, hread⟩
  have hinput : rootPackagePath ∈
      (packageInputs disk w.items (consultedOf start w)).map (·.path) := by
    apply mem_packageInputs.mpr
    refine ⟨hrecorded, ?_, start.absEntry, entry_mem hwalked, ?_⟩
    · intro hitem
      exact packaged_ne_rootPackagePath hstart ((hwalked.members _).mp hitem)
    · rw [rootPackagePath_liesIn.parent, hlies.parent]
      exact (isAbove_absPath names_nil hlies.names).mpr List.nil_prefix
  have hmem : rootPackagePath ∈ containerPaths disk start w := List.mem_append_right _ hinput
  have hnil : r = [] := List.prefix_nil.mp (hr.front _ hmem [] rootPackagePath_liesIn)
  subst hnil
  exact ⟨hmem, List.mem_append_left _ ((hwalked.members _).mpr hpackaged), by decide⟩

/-! ### The rest of a container -/

theorem moduleIndex_toNat {paths : List Bytes} (hcount : paths.length < 2 ^ 32)
    (h : path ∈ paths) : (moduleIndex paths path).toNat = paths.idxOf path := by
  have hlt := List.idxOf_lt_length_of_mem h
  exact UInt32.toNat_ofNat_of_lt' (Nat.lt_trans hlt hcount)

theorem moduleIndex_lt {paths : List Bytes} (hcount : paths.length < 2 ^ 32)
    (h : path ∈ paths) : (moduleIndex paths path).toNat < paths.length := by
  rw [moduleIndex_toNat hcount h]
  exact List.idxOf_lt_length_of_mem h

theorem moduleIndex_inj {paths : List Bytes} {p q : Bytes} (hcount : paths.length < 2 ^ 32)
    (hp : p ∈ paths) (hq : q ∈ paths) (h : moduleIndex paths p = moduleIndex paths q) : p = q := by
  have hidx := congrArg UInt32.toNat h
  rw [moduleIndex_toNat hcount hp, moduleIndex_toNat hcount hq] at hidx
  exact (List.idxOf_inj hp).mp hidx

theorem mem_nativesOf {files : List PackagedFile} {i : Nat} :
    (i, path) ∈ nativesOf files ↔
      ∃ file, files[i]? = some file ∧ file.info.kind = .kNative ∧ file.path = path := by
  unfold nativesOf
  simp only [List.mem_map, List.mem_filter, decide_eq_true_eq, Prod.exists, Prod.mk.injEq,
    List.mem_zipIdx_iff_getElem?]
  constructor
  · rintro ⟨file, j, ⟨hfile, hkind⟩, rfl, hpath⟩
    exact ⟨file, hfile, hkind, hpath⟩
  · rintro ⟨file, hfile, hkind, hpath⟩
    exact ⟨file, i, ⟨hfile, hkind⟩, rfl, hpath⟩

theorem nativesOf_nodup (files : List PackagedFile) : ((nativesOf files).map Prod.fst).Nodup := by
  have hfst : (nativesOf files).map Prod.fst =
      (files.zipIdx.filter fun x => x.1.info.kind = .kNative).map Prod.snd := by
    unfold nativesOf
    rw [List.map_map]
    rfl
  have hsub : ((files.zipIdx.filter fun x => x.1.info.kind = .kNative).map Prod.snd).Sublist
      (files.zipIdx.map Prod.snd) := List.filter_sublist.map _
  rw [hfst]
  apply hsub.nodup
  rw [List.zipIdx_map_snd]
  exact List.nodup_range'

/-- What step 3b ran through: the names, each addon's placement and the late checks. -/
theorem placeNatives_runs {root : Bytes} {files : List PackagedFile}
    {placements : List NativePlacement} (h : placeNatives disk opts root files = .ok placements) :
    ∃ names, sidecarNames disk opts root ((nativesOf files).map Prod.snd) = .ok names ∧
      (nativesOf files).mapM (fun (i, path) => placeNative disk opts names i path) =
        .ok placements ∧
      checkPlacements disk root placements = .ok () := by
  unfold placeNatives at h
  obtain ⟨names, hnames, h⟩ := bind_eq_ok.mp h
  obtain ⟨placed, hplaced, h⟩ := bind_eq_ok.mp h
  obtain ⟨_, hcheck, h⟩ := bind_eq_ok.mp h
  cases h
  exact ⟨names, hnames, hplaced, hcheck⟩

theorem placeNatives_ok {root : Bytes} {files : List PackagedFile}
    {placements : List NativePlacement} (h : placeNatives disk opts root files = .ok placements) :
    List.Forall₂ (fun native placement => placement.index = native.1 ∧ placement.path = native.2)
      (nativesOf files) placements := by
  obtain ⟨names, -, hplaced, -⟩ := placeNatives_runs h
  refine (mapM_ok_forall₂ hplaced).imp ?_
  intro native placement hplace
  unfold placeNative at hplace
  dsimp only at hplace
  split at hplace
  · cases hplace
  · cases hplace
    exact ⟨rfl, rfl⟩

variable {generation : UInt32} {built : Built} {placements : List NativePlacement}

/-- What stands at a place of the container: a walked file or a resolution input. -/
theorem file_cases (hwalked : Walked disk tools start w)
    (h : Assembled disk opts generation start w built placements) {i : Nat} {file : PackagedFile}
    (hfile : built.files[i]? = some file) :
    ∃ source, (allFiles disk start w)[i]? = some source ∧ CompiledFrom source file ∧
      ((∃ path v, w.items[i]? = some path ∧ source = { path, info := v.info } ∧
        VisitedAs disk tools path v) ∨
      source ∈ packageInputs disk w.items (consultedOf start w)) := by
  have hlt : i < (allFiles disk start w).length := by
    rw [h.files.length_eq]
    exact (List.getElem?_eq_some_iff.mp hfile).1
  obtain ⟨source, hsource⟩ : ∃ source, (allFiles disk start w)[i]? = some source :=
    ⟨_, List.getElem?_eq_getElem hlt⟩
  rcases forall₂_getElem? h.files hsource with ⟨compiled, hcompiled, hfrom⟩
  rw [hfile, Option.some.injEq] at hcompiled
  subst hcompiled
  refine ⟨source, hsource, hfrom, ?_⟩
  have hlength : (walkedFiles w).length = w.items.length := by
    rw [← walkedFiles_paths hwalked.length, List.length_map]
  by_cases hitem : i < w.items.length
  · rcases hwalked.walkedFiles_mem (List.getElem?_eq_getElem hitem) with ⟨v, hv, hvisited⟩
    rw [allFiles, List.getElem?_append_left (by omega), hv, Option.some.injEq] at hsource
    exact Or.inl ⟨_, v, List.getElem?_eq_getElem hitem, hsource.symm, hvisited⟩
  · rw [allFiles, List.getElem?_append_right (by omega)] at hsource
    exact Or.inr (List.mem_of_getElem? hsource)

theorem file_path (hwalked : Walked disk tools start w)
    (h : Assembled disk opts generation start w built placements) {i : Nat} {file : PackagedFile}
    (hfile : built.files[i]? = some file) :
    (containerPaths disk start w)[i]? = some file.path := by
  rw [containerPaths, ← h.paths hwalked.length, List.getElem?_map, hfile]
  rfl

theorem allFiles_paths (hwalked : Walked disk tools start w) :
    (allFiles disk start w).map (·.path) = containerPaths disk start w := by
  rw [allFiles, List.map_append, walkedFiles_paths hwalked.length, containerPaths]

theorem source_path (hwalked : Walked disk tools start w) {i : Nat} {file : PackagedFile}
    (hfile : (allFiles disk start w)[i]? = some file) :
    (containerPaths disk start w)[i]? = some file.path := by
  rw [← allFiles_paths hwalked, List.getElem?_map, hfile]
  rfl

/-- The native rows name the places of the native files, each once. -/
theorem native_indices (hwalked : Walked disk tools start w)
    (h : Assembled disk opts generation start w built placements)
    (hcount : (containerPaths disk start w).length < 2 ^ 32) :
    (placements.filterMap (nativeRow built.files)).map (·.moduleIndex.toNat) =
      (nativesOf (allFiles disk start w)).map Prod.fst := by
  apply forall₂_filterMap (placeNatives_ok h.placed)
  rintro ⟨i, path⟩ placement hnative ⟨hindex, hpath⟩
  simp only at hindex hpath
  rcases mem_nativesOf.mp hnative with ⟨source, hsource, hkind, rfl⟩
  rcases forall₂_getElem? h.files hsource with ⟨file, hfile, hfrom⟩
  have hdigest : file.info.digest.isSome = true := by
    rcases file_cases hwalked h hfile with ⟨source', hsource', _, hcases⟩
    rw [hsource, Option.some.injEq] at hsource'
    subst hsource'
    rw [hfrom.digest]
    rcases hcases with ⟨path, v, _, rfl, hvisited⟩ | hinput
    · exact hvisited.digest.mp hkind
    · rcases packageInputs_spec hinput with ⟨_, _, _, text, _, hinfo⟩
      rw [hinfo] at hkind
      cases hkind
  rcases Option.isSome_iff_exists.mp hdigest with ⟨digest, hsome⟩
  have hat := source_path hwalked hsource
  have hidx : (containerPaths disk start w).idxOf source.path = i := by
    have hlt := (List.getElem?_eq_some_iff.mp hat).1
    rw [← (List.getElem?_eq_some_iff.mp hat).2]
    exact (containerPaths_nodup hwalked).idxOf_getElem i hlt
  refine ⟨{ moduleIndex := moduleIndex (built.files.map (·.path)) placement.path
            sidecar := placement.sidecarName, byteLength := digest.byteLength
            digest := digest.raw }, ?_, ?_⟩
  · simp [nativeRow, hindex, hfile, hsome]
  · have hpaths : built.files.map (·.path) = containerPaths disk start w := h.paths hwalked.length
    simp only [hpaths, hpath]
    rw [moduleIndex_toNat hcount (List.mem_of_getElem? hat), hidx]

theorem edgeKeys_nodup (hwalked : Walked disk tools start w) (hemits : EmitsWalk disk tools w built)
    (hcount : w.items.length < 2 ^ 32) :
    ((Contents.ofCalls built.calls).edges.map fun e => (e.importer, e.specifier)).Nodup := by
  rw [hemits.edges, List.map_flatMap, List.nodup_flatMap]
  constructor
  · intro path _
    have hspecifiers := @keepOf_specifiers_nodup disk path _ (@literalsOf_nodup disk tools path)
    rw [List.map_map]
    apply List.Nodup.of_map Prod.snd
    rw [List.map_map]
    exact hspecifiers
  · apply hwalked.nodup.imp_of_mem
    intro p q hp hq hne
    rw [Function.onFun_apply, List.disjoint_left]
    intro key hkey hkey'
    simp only [List.map_map, List.mem_map, Function.comp_apply] at hkey hkey'
    rcases hkey with ⟨_, _, rfl⟩
    rcases hkey' with ⟨_, _, heq⟩
    exact hne (moduleIndex_inj hcount hp hq (Prod.mk.inj heq).1.symm)

/-- The contents of a build: what was emitted for its files, at the places of their paths. -/
theorem contents_built (hwalked : Walked disk tools start w)
    (h : Assembled disk opts generation start w built placements) :
    Contents.ofCalls built.calls =
      { modules := built.files.map (moduleOf built.root)
        edges := built.files.flatMap (edgeRows (containerPaths disk start w))
        preloads := start.preloadPaths.map (moduleIndex (containerPaths disk start w))
        natives := placements.filterMap (nativeRow built.files)
        vmOptions := opts.vmOptions
        entry := some (moduleIndex (containerPaths disk start w) start.absEntry)
        allowVmOptionsOverride := opts.allowVmOptionsOverride } := by
  have hpaths : built.files.map (·.path) = containerPaths disk start w := h.paths hwalked.length
  have hcontents := contents_callsOf opts start built.root built.files placements
  rw [← h.calls, hpaths] at hcontents
  exact hcontents

theorem module_file (hwalked : Walked disk tools start w)
    (h : Assembled disk opts generation start w built placements) {i : Nat} {m : AddedModule}
    (hm : (Contents.ofCalls built.calls).modules[i]? = some m) :
    ∃ file, built.files[i]? = some file ∧ m = moduleOf built.root file := by
  rw [contents_built hwalked h] at hm
  simp only [List.getElem?_map] at hm
  obtain ⟨file, hfile, heq⟩ := Option.map_eq_some_iff.mp hm
  exact ⟨file, hfile, heq.symm⟩

theorem module_identities (hwalked : Walked disk tools start w)
    (h : Assembled disk opts generation start w built placements) :
    (Contents.ofCalls built.calls).modules.map (·.identity) =
      (containerPaths disk start w).map (identityOf built.root) := by
  have hpaths : built.files.map (·.path) = containerPaths disk start w := h.paths hwalked.length
  rw [contents_built hwalked h, ← hpaths, List.map_map, List.map_map]
  rfl

theorem modules_length (hwalked : Walked disk tools start w)
    (h : Assembled disk opts generation start w built placements) :
    (Contents.ofCalls built.calls).modules.length = (containerPaths disk start w).length := by
  have hids := congrArg List.length (module_identities hwalked h)
  simpa using hids

theorem walked_index (hcount : (containerPaths disk start w).length < 2 ^ 32)
    (hpath : path ∈ w.items) :
    (moduleIndex (containerPaths disk start w) path).toNat < w.items.length := by
  have hle : w.items.length ≤ (containerPaths disk start w).length := by simp [containerPaths]
  rw [containerPaths, moduleIndex_append hpath]
  exact moduleIndex_lt (by omega) hpath

theorem walked_index_lt (hwalked : Walked disk tools start w)
    (h : Assembled disk opts generation start w built placements)
    (hcount : (containerPaths disk start w).length < 2 ^ 32)
    (hpath : path ∈ w.items) :
    (moduleIndex (containerPaths disk start w) path).toNat <
      (Contents.ofCalls built.calls).modules.length := by
  have hle : w.items.length ≤ (containerPaths disk start w).length := by simp [containerPaths]
  have hlt := walked_index hcount hpath
  rw [modules_length hwalked h]
  omega

theorem module_flags (hwalked : Walked disk tools start w)
    (h : Assembled disk opts generation start w built placements) {m : AddedModule}
    (hm : m ∈ (Contents.ofCalls built.calls).modules) : m.flags &&& ~~~kRequirable = 0 := by
  obtain ⟨i, hi⟩ := List.mem_iff_getElem?.mp hm
  obtain ⟨file, hfile, rfl⟩ := module_file hwalked h hi
  obtain ⟨source, _, hfrom, hcases⟩ := file_cases hwalked h hfile
  simp only [moduleOf, hfrom.flags]
  obtain ⟨path, v, _, rfl, hvisited⟩ | hinput := hcases
  · rw [hvisited.flags]
    decide
  · obtain ⟨_, _, _, text, _, hinfo⟩ := packageInputs_spec hinput
    have hzero : source.info.flags = kResolveOnly := by rw [hinfo]
    rw [hzero]
    decide

theorem native_payload (hwalked : Walked disk tools start w)
    (h : Assembled disk opts generation start w built placements) {m : AddedModule}
    (hm : m ∈ (Contents.ofCalls built.calls).modules) (hkind : m.kind = .kNative) :
    m.payload = [] := by
  obtain ⟨i, hi⟩ := List.mem_iff_getElem?.mp hm
  obtain ⟨file, hfile, rfl⟩ := module_file hwalked h hi
  obtain ⟨source, _, hfrom, hcases⟩ := file_cases hwalked h hfile
  have hkind' : source.info.kind = .kNative := by
    rw [← hfrom.kind]
    exact hkind
  have hpayload := hfrom.payload (by rw [hkind']; simp)
  obtain ⟨path, v, _, rfl, hvisited⟩ | hinput := hcases
  · exact hpayload.trans (hvisited.native hkind')
  · obtain ⟨_, _, _, text, _, hinfo⟩ := packageInputs_spec hinput
    rw [hinfo] at hkind'
    cases hkind'

theorem native_index_lt (hwalked : Walked disk tools start w)
    (h : Assembled disk opts generation start w built placements)
    (hcount : (containerPaths disk start w).length < 2 ^ 32) {n : PendingNative}
    (hn : n ∈ (Contents.ofCalls built.calls).natives) :
    n.moduleIndex.toNat < (Contents.ofCalls built.calls).modules.length := by
  have hmem : n.moduleIndex.toNat ∈ (nativesOf (allFiles disk start w)).map Prod.fst := by
    rw [← native_indices hwalked h hcount]
    rw [contents_built hwalked h] at hn
    exact List.mem_map_of_mem hn
  obtain ⟨⟨i, path⟩, hnative, heq⟩ := List.mem_map.mp hmem
  obtain ⟨source, hsource, _⟩ := mem_nativesOf.mp hnative
  rw [modules_length hwalked h, ← heq]
  exact (List.getElem?_eq_some_iff.mp (source_path hwalked hsource)).1

theorem native_rows (hwalked : Walked disk tools start w)
    (h : Assembled disk opts generation start w built placements)
    (hcount : (containerPaths disk start w).length < 2 ^ 32) {i : Nat} {m : AddedModule}
    (hm : (Contents.ofCalls built.calls).modules[i]? = some m) :
    ((Contents.ofCalls built.calls).natives.filter (·.moduleIndex.toNat = i)).length =
      if m.kind = .kNative then 1 else 0 := by
  obtain ⟨file, hfile, rfl⟩ := module_file hwalked h hm
  obtain ⟨source, hsource, hfrom, _⟩ := file_cases hwalked h hfile
  have hcountP : ((Contents.ofCalls built.calls).natives.filter
      (·.moduleIndex.toNat = i)).length =
      ((nativesOf (allFiles disk start w)).map Prod.fst).count i := by
    rw [← native_indices hwalked h hcount, contents_built hwalked h, List.count, List.countP_map,
      List.countP_eq_length_filter]
    congr 1
  rw [hcountP, (nativesOf_nodup _).count]
  apply if_congr ?_ rfl rfl
  rw [List.mem_map]
  constructor
  · rintro ⟨⟨j, path⟩, hnative, rfl⟩
    obtain ⟨source', hsource', hkind, _⟩ := mem_nativesOf.mp hnative
    rw [hsource, Option.some.injEq] at hsource'
    subst hsource'
    exact hfrom.kind.trans hkind
  · intro hkind
    refine ⟨(i, source.path), mem_nativesOf.mpr ⟨source, hsource, ?_, rfl⟩, rfl⟩
    rw [← hfrom.kind]
    exact hkind

/-- Everything the format asks for but the identities holds of every build. -/
theorem contents_wellFormed (hwalked : Walked disk tools start w)
    (h : Assembled disk opts generation start w built placements)
    (hcount : (containerPaths disk start w).length < 2 ^ 32)
    (hvalid : ∀ p ∈ containerPaths disk start w, isValidIdentity (identityOf built.root p) = true)
    (hdistinct : ((containerPaths disk start w).map (identityOf built.root)).Nodup) :
    (Contents.ofCalls built.calls).WellFormed := by
  have hemits := emitsWalk hwalked h
  have hitems : w.items.length < 2 ^ 32 := by
    have hle : w.items.length ≤ (containerPaths disk start w).length := by simp [containerPaths]
    omega
  constructor
  · intro m hm
    obtain ⟨i, hi⟩ := List.mem_iff_getElem?.mp hm
    obtain ⟨file, hfile, rfl⟩ := module_file hwalked h hi
    exact hvalid _ (List.mem_of_getElem? (file_path hwalked h hfile))
  · rw [module_identities hwalked h]
    exact hdistinct
  · intro m hm
    exact module_flags hwalked h hm
  · intro e he
    rw [hemits.edges] at he
    obtain ⟨path, hpath, hmem⟩ := List.mem_flatMap.mp he
    obtain ⟨edge, hedge, rfl⟩ := List.mem_map.mp hmem
    have htarget := hwalked.target_mem hpath hedge
    have hat := walked_index_lt hwalked h hcount hpath
    have hat' := walked_index_lt hwalked h hcount htarget
    rw [containerPaths, moduleIndex_append hpath] at hat
    rw [containerPaths, moduleIndex_append htarget] at hat'
    exact ⟨hat, hat'⟩
  · exact edgeKeys_nodup hwalked hemits hitems
  · intro i hi
    rw [contents_built hwalked h] at hi
    obtain ⟨path, hpath, rfl⟩ := List.mem_map.mp hi
    have hitem : path ∈ w.items :=
      (hwalked.members path).mpr (Packaged.preloaded (mem_preloadPaths.mp hpath))
    exact (hemits.requirable _).mpr (walked_index hcount hitem)
  · intro n hn
    exact native_index_lt hwalked h hcount hn
  · intro n hn
    rw [contents_built hwalked h] at hn
    obtain ⟨placement, _, hrow⟩ := List.mem_filterMap.mp hn
    unfold nativeRow at hrow
    obtain ⟨digest, _, rfl⟩ := Option.map_eq_some_iff.mp hrow
    exact digest.raw_length
  · intro i m hm
    exact native_rows hwalked h hcount hm
  · intro m hm hkind
    exact native_payload hwalked h hm hkind
  · intro i hi
    rw [contents_built hwalked h, Option.some.injEq] at hi
    subst hi
    exact walked_index_lt hwalked h hcount (entry_mem hwalked)

/-! ### When the container opens -/

/-- The stages of a build that succeeded. -/
theorem buildBundle_ok {fuel : Nat} (hstart : startOf disk opts = .ok start)
    (h : buildBundle disk tools opts generation fuel = some (.ok built)) :
    ∃ w placements, walk disk tools start fuel = .finished w ∧ Walked disk tools start w ∧
      Assembled disk opts generation start w built placements := by
  cases hwalk : walk disk tools start fuel with
  | running w => simp [buildBundle, hstart, hwalk] at h
  | failed e => simp [buildBundle, hstart, hwalk] at h
  | finished w =>
      have hassemble : assemble disk tools opts generation start w = .ok built := by
        simpa [buildBundle, hstart, hwalk] using h
      rcases assemble_ok hassemble with ⟨placements, hassembled⟩
      exact ⟨w, placements, rfl, walk_finished (startOf_started hstart) hwalk, hassembled⟩

/-- What is known about a build that succeeded, stage by stage. -/
structure Stages (disk : Disk) (tools : Toolchain) (opts : Options) (generation : UInt32)
    (start : Start) (built : Built) (w : State Bytes Visited) (placements : List NativePlacement)
    (r : List Bytes) : Prop where
  started : Started disk opts start
  walked : Walked disk tools start w
  assembled : Assembled disk opts generation start w built placements
  rootNames : RootNames disk start w r
  root : built.root = absPath r

theorem buildBundle_stages {fuel : Nat} (hstart : startOf disk opts = .ok start)
    (hbuild : buildBundle disk tools opts generation fuel = some (.ok built)) :
    ∃ w placements r, Stages disk tools opts generation start built w placements r := by
  have hstarted := startOf_started hstart
  rcases buildBundle_ok hstart hbuild with ⟨w, placements, _, hwalked, h⟩
  rcases exists_rootNames hstarted hwalked with ⟨r, hr⟩
  refine ⟨w, placements, r, hstarted, hwalked, h, hr, ?_⟩
  rw [h.root, allFiles_paths hwalked, hr.root]

namespace Stages

theorem identities (h : Stages disk tools opts generation start built w placements r) :
    (Contents.ofCalls built.calls).modules.map (·.identity) =
      (containerPaths disk start w).map (identityOf (absPath r)) := by
  rw [← h.root]
  exact module_identities h.walked h.assembled

theorem represents (h : Stages disk tools opts generation start built w placements r) :
    ∃ f : Frozen, built.container = f.emit generation ∧
      Represents f (Contents.ofCalls built.calls) := by
  have hmodules : (Contents.ofCalls built.calls).modules ≠ [] := by
    intro hnil
    have hids := h.identities
    rw [hnil, List.map_nil, eq_comm, List.map_eq_nil_iff] at hids
    exact List.ne_nil_of_mem (List.mem_append_left _ (entry_mem h.walked)) hids
  have hentry : ∃ entry, (Contents.ofCalls built.calls).entry = some entry := by
    rw [contents_built h.walked h.assembled]
    exact ⟨_, rfl⟩
  rcases hentry with ⟨entry, hentry⟩
  rcases serialize_represents generation hmodules hentry with ⟨f, hemit, hrep⟩
  exact ⟨f, h.assembled.container.trans hemit, hrep⟩

theorem count_lt (h : Stages disk tools opts generation start built w placements r)
    (hsize : built.container.length < 2 ^ 32) :
    (containerPaths disk start w).length < 2 ^ 32 := by
  rcases h.represents with ⟨f, hemit, hrep⟩
  rw [hemit] at hsize
  have hlt := modules_lt_of_represents hrep hsize
  rwa [← List.length_map (f := (·.identity)), h.identities, List.length_map] at hlt

/-- A container that opens has no NUL in a packaged path and `/package.json` at most once. -/
theorem opened (h : Stages disk tools opts generation start built w placements r)
    (hsize : built.container.length < 2 ^ 32) {reader : BundleReader}
    (haccepts : Accepts (BundleReader.open built.container generation) reader) :
    (∀ path, Packaged disk tools start path → 0 ∉ path) ∧ ¬ RootTwice disk tools opts start := by
  rcases h.represents with ⟨f, hemit, hrep⟩
  rw [hemit] at hsize haccepts
  rcases identities_of_accepts hrep hsize haccepts with ⟨hvalid, hdistinct⟩
  constructor
  · intro path hpackaged hnul
    have hmem : identityOf (absPath r) path ∈
        (Contents.ofCalls built.calls).modules.map (·.identity) := by
      rw [h.identities]
      exact List.mem_map_of_mem
        (List.mem_append_left _ ((h.walked.members path).mpr hpackaged))
    rcases List.mem_map.mp hmem with ⟨m, hm, hidentity⟩
    have hok := hvalid m hm
    rw [hidentity] at hok
    exact not_mem_of_isValidIdentity hok
      (nul_identity h.started h.walked h.rootNames hpackaged hnul)
  · intro htwice
    rcases rootTwice_identity h.started h.walked h.rootNames htwice with ⟨hp, hq, heq⟩
    rw [h.identities] at hdistinct
    exact absurd (List.inj_on_of_nodup_map hdistinct hp hq heq) (by decide)

theorem wellFormed (h : Stages disk tools opts generation start built w placements r)
    (hsize : built.container.length < 2 ^ 32)
    (hnul : ∀ path, Packaged disk tools start path → 0 ∉ path)
    (honce : ¬ RootTwice disk tools opts start) : (Contents.ofCalls built.calls).WellFormed := by
  apply contents_wellFormed h.walked h.assembled (h.count_lt hsize)
  · intro p hp
    rw [h.root]
    exact identity_valid h.started h.walked h.rootNames hnul hp
  · rw [h.root]
    apply List.Nodup.map_on ?_ (containerPaths_nodup h.walked)
    intro p hp q hq heq
    rcases identity_eq_cases h.started h.walked h.rootNames hnul hp hq heq with hsame | htwice
    · exact hsame
    · exact absurd htwice honce

/-- A container without these two defects opens, and the reader shows what the build added. -/
theorem opens (h : Stages disk tools opts generation start built w placements r)
    (hsize : built.container.length < 2 ^ 32)
    (hnul : ∀ path, Packaged disk tools start path → 0 ∉ path)
    (honce : ¬ RootTwice disk tools opts start) :
    ∃ reader, Accepts (BundleReader.open built.container generation) reader ∧
      Shows reader (Contents.ofCalls built.calls) := by
  have hwf := h.wellFormed hsize hnul honce
  rcases h.represents with ⟨f, hemit, hrep⟩
  rw [hemit] at hsize ⊢
  exact accepts_of_represents hrep hwf hsize

/-- The reader of a container that opens shows what the build added. -/
theorem shows (h : Stages disk tools opts generation start built w placements r)
    (hsize : built.container.length < 2 ^ 32) {reader : BundleReader}
    (hopen : Accepts (BundleReader.open built.container generation) reader) :
    Shows reader (Contents.ofCalls built.calls) := by
  rcases h.opened hsize hopen with ⟨hnul, honce⟩
  rcases h.opens hsize hnul honce with ⟨reader', haccepts, hshows⟩
  have hsame : reader' = reader := Check.accepted.inj (haccepts.symm.trans hopen)
  exact hsame ▸ hshows

end Stages

/-- The reader accepts a container of the producer exactly when no packaged path has a NUL in it and
the `package.json` of the root directory is not packaged under both its paths. -/
theorem built_opens_iff {fuel : Nat} (hstart : startOf disk opts = .ok start)
    (hbuild : buildBundle disk tools opts generation fuel = some (.ok built))
    (hsize : built.container.length < 2 ^ 32) :
    (∃ reader, Accepts (BundleReader.open built.container generation) reader) ↔
      (∀ path, Packaged disk tools start path → 0 ∉ path) ∧
        ¬ RootTwice disk tools opts start := by
  rcases buildBundle_stages hstart hbuild with ⟨w, placements, r, h⟩
  constructor
  · rintro ⟨reader, haccepts⟩
    exact h.opened hsize haccepts
  · rintro ⟨hnul, honce⟩
    rcases h.opens hsize hnul honce with ⟨reader, haccepts, _⟩
    exact ⟨reader, haccepts⟩

end

/-- Whether the build succeeded with a container of 32-bit size, and whether the reader takes it. -/
def opensBack (generation : UInt32) (result : Option (Except BuildError Built)) : Option Bool :=
  match result with
  | some (.ok built) =>
      if built.container.length < 2 ^ 32 then
        match BundleReader.open built.container generation with
        | .accepted _ => some true
        | _ => some false
      else none
  | _ => none

theorem opensBack_eq_some {generation : UInt32} {result : Option (Except BuildError Built)}
    {opens : Bool} (h : opensBack generation result = some opens) :
    ∃ built, result = some (.ok built) ∧ built.container.length < 2 ^ 32 ∧
      ((∃ reader, Accepts (BundleReader.open built.container generation) reader) ↔
        opens = true) := by
  unfold opensBack at h
  split at h
  · rename_i built
    split at h
    · rename_i hsize
      refine ⟨built, rfl, hsize, ?_⟩
      cases hopen : BundleReader.open built.container generation with
      | outOfBounds => simp_all [Accepts]
      | rejected message => simp_all [Accepts]
      | accepted reader => simp_all [Accepts]
    · cases h
  · cases h

/-- A program below the root directory that requires the root's index file through `..` and the
root's `package.json` by name. -/
def rootTwiceText : Bytes := ascii "require('..'); require('../package.json');"

/-- The last two entries are one file: the system takes both spellings. -/
def rootTwiceFiles : List (Bytes × Bytes) :=
  [(ascii "/app/main.js", rootTwiceText), (ascii "/index.js", []),
    (ascii "/package.json", ascii "\x7b\x7d"), (ascii "//package.json", ascii "\x7b\x7d")]

def rootTwiceDisk : Disk := Disk.ofFiles rootTwiceFiles (by decide)

def rootTwiceTools : Toolchain := sampleTools rootTwiceText [ascii "..", ascii "../package.json"]

theorem rootTwice_opensBack :
    opensBack 7 (buildBundle rootTwiceDisk rootTwiceTools mainOptions 7 5) = some false := by
  decide +kernel

/-- The build succeeds, and the reader refuses its container: two modules are `package.json`. -/
theorem rootTwice_refused : ∃ built,
    buildBundle rootTwiceDisk rootTwiceTools mainOptions 7 5 = some (.ok built) ∧
      built.container.length < 2 ^ 32 ∧
      ¬ ∃ reader, Accepts (BundleReader.open built.container 7) reader := by
  rcases opensBack_eq_some rootTwice_opensBack with ⟨built, hbuild, hsize, hopens⟩
  refine ⟨built, hbuild, hsize, ?_⟩
  intro haccepts
  exact absurd (hopens.mp haccepts) (by decide)

theorem oneSpelling_opensBack :
    opensBack 7 (buildBundle oneSpellingDisk oneSpellingTools mainOptions 7 3) = some true := by
  decide +kernel

/-- A tree whose container opens, so that its closure has no NUL and no doubled root file. -/
theorem oneSpelling_opens : ∃ built,
    buildBundle oneSpellingDisk oneSpellingTools mainOptions 7 3 = some (.ok built) ∧
      (∃ reader, Accepts (BundleReader.open built.container 7) reader) ∧
      (∀ path, Packaged oneSpellingDisk oneSpellingTools mainStart path → 0 ∉ path) ∧
      ¬ RootTwice oneSpellingDisk oneSpellingTools mainOptions mainStart := by
  rcases opensBack_eq_some oneSpelling_opensBack with ⟨built, hbuild, hsize, hopens⟩
  have hstart : startOf oneSpellingDisk mainOptions = .ok mainStart := rfl
  have haccepts := hopens.mpr rfl
  exact ⟨built, hbuild, haccepts, (built_opens_iff hstart hbuild hsize).mp haccepts⟩

end HermesNode.Build
