/-
Module: HermesNode.Resolve.Refinement
Purpose: A partial copy of a tree resolves like the tree. When a source `C` has some of the files of
  a source `D`, the directories those files imply and the same `package.json` texts wherever the
  resolution over `D` looks, resolving over `C` finds what `D` finds as long as `C` has it, and
  nothing where `D` finds nothing. `Simulates` is that statement about one pair of resolutions; it
  is closed under every combinator of the resolver.
Trusted boundary: none
Main exports: FileSource.Restricts, Simulates, resolveSpecifier_restricts
-/
import HermesNode.Resolve.Resolver

namespace HermesNode.Resolve

/-- `C` shows a part of the tree `D` shows. -/
structure FileSource.Restricts (C D : FileSource) : Prop where
  files : ∀ path, C.isRegularFile path = true → D.isRegularFile path = true
  directories : ∀ dir, C.isDirectory dir = true ↔
    D.isDirectory dir = true ∧ ∃ path, Below dir path ∧ C.isRegularFile path = true
  /-- The contract of `readPackageJson`: there is a text only where there is the file. -/
  packageJson : ∀ dir text, C.readPackageJson dir = some text →
    C.isRegularFile (pathAppend dir (ascii "package.json")) = true

/-- What `C` answers against what `D` answers. -/
structure Simulates (C : FileSource) (overD overC : Resolution) : Prop where
  found : ∀ target, overD.target = some target → C.isRegularFile target = true →
    overC.target = some target
  nothing : overD.target = none → overC.target = none

namespace Simulates

variable {C : FileSource}

theorem both_nothing : Simulates C Resolution.nothing Resolution.nothing := by
  constructor
  · intro target htarget
    cases htarget
  · intro _
    rfl

/-- Only the answers matter, not the directories that were consulted. -/
theorem of_targets {overD overD' overC overC' : Resolution} (h : Simulates C overD overC)
    (hD : overD'.target = overD.target) (hC : overC'.target = overC.target) :
    Simulates C overD' overC' := by
  constructor
  · intro target htarget hfile
    rw [hD] at htarget
    rw [hC]
    exact h.found target htarget hfile
  · intro hnone
    rw [hD] at hnone
    rw [hC]
    exact h.nothing hnone

/-- Trying one resolution after another: the second pair matters only when the first pair found
nothing. -/
theorem orElse {firstD firstC nextD nextC : Resolution} (hfirst : Simulates C firstD firstC)
    (hnext : firstD.target = none → Simulates C nextD nextC) :
    Simulates C (firstD.orElse nextD) (firstC.orElse nextC) := by
  cases hD : firstD.target with
  | some path =>
      constructor
      · intro target htarget hfile
        have heq : path = target := by simpa [Resolution.orElse, hD] using htarget
        subst heq
        have hC := hfirst.found path hD hfile
        simp [Resolution.orElse, hC]
      · intro hnone
        simp [Resolution.orElse, hD] at hnone
  | none =>
      have hC := hfirst.nothing hD
      apply (hnext hD).of_targets
      · simp [Resolution.orElse, hD]
      · simp [Resolution.orElse, hC]

end Simulates

theorem mem_consulted_orElse_left {r next : Resolution} {dir : Bytes} (h : dir ∈ r.consulted) :
    dir ∈ (r.orElse next).consulted := by
  cases hr : r.target with
  | some path => simpa [Resolution.orElse, hr] using h
  | none => simp [Resolution.orElse, hr, h]

theorem mem_consulted_orElse_right {r next : Resolution} {dir : Bytes} (hr : r.target = none)
    (h : dir ∈ next.consulted) : dir ∈ (r.orElse next).consulted := by
  simp [Resolution.orElse, hr, h]

variable {C D : FileSource}

theorem probe_simulates (h : C.Restricts D) (candidates : List Bytes) :
    Simulates C (probe D candidates) (probe C candidates) := by
  induction candidates with
  | nil => exact Simulates.both_nothing
  | cons path rest ih =>
      cases hD : D.isRegularFile path with
      | true =>
          constructor
          · intro target htarget hfile
            have heq : path = target := by
              simpa [probe, hD, Resolution.found] using htarget
            subst heq
            simp [probe, hfile, Resolution.found]
          · intro hnone
            simp [probe, hD, Resolution.found] at hnone
      | false =>
          have hC : C.isRegularFile path = false := by
            by_contra hfile
            rw [h.files path (by simpa using hfile)] at hD
            cases hD
          apply ih.of_targets
          · simp [probe, hD]
          · simp [probe, hC]

theorem directory_of_index (h : C.Restricts D) {base target : Bytes}
    (hdir : D.isDirectory base = true)
    (htarget : (probe D (indexCandidates base)).target = some target)
    (hfile : C.isRegularFile target = true) : C.isDirectory base = true := by
  apply (h.directories base).mpr
  refine ⟨hdir, target, ?_, hfile⟩
  have hmem : target ∈ indexCandidates base := by
    unfold probe at htarget
    cases hfind : (indexCandidates base).find? D.isRegularFile with
    | none => simp [hfind, Resolution.nothing] at htarget
    | some path =>
        have heq : path = target := by simpa [hfind, Resolution.found] using htarget
        subst heq
        exact List.mem_of_find?_eq_some hfind
  rcases List.mem_map.mp hmem with ⟨name, hname, rfl⟩
  have hshape : ∀ name ∈ [ascii "index.js", ascii "index.ts", ascii "index.json"],
      name ≠ [] ∧ isAbsolute name = false := by
    decide
  exact below_append (hshape name hname).1 (hshape name hname).2

theorem directory_of_packageJson (h : C.Restricts D) {base text : Bytes}
    (hdir : D.isDirectory base = true) (htext : C.readPackageJson base = some text) :
    C.isDirectory base = true := by
  apply (h.directories base).mpr
  refine ⟨hdir, _, below_append ?_ ?_, h.packageJson base text htext⟩
  · decide
  · decide

/-- The part of `resolveBase` behind the directory test. -/
def resolveDirectory (src : FileSource) (fuel : Nat) (base : Bytes) : Resolution :=
  match (src.readPackageJson base).bind packageMain with
  | some main =>
      (resolveBase src fuel (joinNormalized base main)).orElse (probe src (indexCandidates base))
  | none => probe src (indexCandidates base)

theorem resolveBase_succ (src : FileSource) (fuel : Nat) (base : Bytes) :
    resolveBase src (fuel + 1) base =
      (probe src (extensionCandidates base)).orElse
        (if src.isDirectory base then Resolution.consult base (resolveDirectory src fuel base)
          else Resolution.nothing) := by
  rfl

/-- The induction is on the remaining depth; the `package.json` texts agree wherever `D` looked. -/
theorem resolveBase_simulates (h : C.Restricts D) (fuel : Nat) (base : Bytes)
    (hread : ∀ dir ∈ (resolveBase D fuel base).consulted,
      C.readPackageJson dir = D.readPackageJson dir) :
    Simulates C (resolveBase D fuel base) (resolveBase C fuel base) := by
  induction fuel generalizing base with
  | zero => exact Simulates.both_nothing
  | succ fuel ih =>
      rw [resolveBase_succ] at hread
      rw [resolveBase_succ, resolveBase_succ]
      apply (probe_simulates h _).orElse
      intro hprobe
      cases hdir : D.isDirectory base with
      | false =>
          have hdirC : C.isDirectory base = false := by
            by_contra hC
            rw [((h.directories base).mp (by simpa using hC)).1] at hdir
            cases hdir
          simp only [hdirC, Bool.false_eq_true, if_false]
          exact Simulates.both_nothing
      | true =>
          simp only [hdir, if_true] at hread
          have hinner : ∀ dir ∈ base :: (resolveDirectory D fuel base).consulted,
              C.readPackageJson dir = D.readPackageJson dir := by
            intro dir hmem
            exact hread dir (mem_consulted_orElse_right hprobe hmem)
          have hbase := hinner base (by simp)
          have hdirectory : Simulates C (resolveDirectory D fuel base)
              (resolveDirectory C fuel base) := by
            unfold resolveDirectory
            rw [hbase]
            cases hmain : (D.readPackageJson base).bind packageMain with
            | none => exact probe_simulates h _
            | some main =>
                apply Simulates.orElse
                · apply ih
                  intro dir hmem
                  apply hinner dir
                  apply List.mem_cons_of_mem
                  simp only [resolveDirectory, hmain]
                  exact mem_consulted_orElse_left hmem
                · intro _
                  exact probe_simulates h _
          simp only [if_true]
          cases hdirC : C.isDirectory base with
          | true =>
              simp only [if_true]
              exact hdirectory.of_targets rfl rfl
          | false =>
              -- `C` sees no directory, so nothing `D` finds behind it can be a file of `C`
              have hnone : C.readPackageJson base = none := by
                cases hC : C.readPackageJson base with
                | none => rfl
                | some text =>
                    rw [directory_of_packageJson h hdir hC] at hdirC
                    cases hdirC
              have hindex : resolveDirectory D fuel base = probe D (indexCandidates base) := by
                simp [resolveDirectory, ← hbase, hnone]
              constructor
              · intro target htarget hfile
                rw [show (Resolution.consult base (resolveDirectory D fuel base)).target =
                  (probe D (indexCandidates base)).target by rw [hindex]; rfl] at htarget
                rw [directory_of_index h hdir htarget hfile] at hdirC
                cases hdirC
              · intro _
                rfl

theorem nodeModulesWalk_simulates (h : C.Restricts D) (specifier : Bytes) (fuel : Nat)
    (dir : Bytes)
    (hread : ∀ d ∈ (nodeModulesWalk D specifier fuel dir).consulted,
      C.readPackageJson d = D.readPackageJson d) :
    Simulates C (nodeModulesWalk D specifier fuel dir) (nodeModulesWalk C specifier fuel dir) := by
  induction fuel generalizing dir with
  | zero => exact Simulates.both_nothing
  | succ fuel ih =>
      simp only [nodeModulesWalk] at hread ⊢
      apply Simulates.orElse
      · split
        · apply resolveBase_simulates h
          intro d hmem
          apply hread d
          apply mem_consulted_orElse_left
          rename_i hname
          rw [if_pos hname]
          exact hmem
        · exact Simulates.both_nothing
      · intro hhere
        split
        · exact Simulates.both_nothing
        · rename_i hparent
          apply ih
          intro d hmem
          apply hread d
          apply mem_consulted_orElse_right hhere
          simpa [hparent] using hmem

/-- The container resolver refines the disk resolver: if `C` restricts `D` and the `package.json`
texts agree in every directory that resolving over `D` consults, a target found over `D` that `C`
has is found over `C`, and where `D` finds nothing `C` finds nothing. -/
theorem resolveSpecifier_restricts (h : C.Restricts D) (fromFile specifier : Bytes)
    (hread : ∀ dir ∈ (resolveSpecifier D fromFile specifier).consulted,
      C.readPackageJson dir = D.readPackageJson dir) :
    (∀ target, (resolveSpecifier D fromFile specifier).target = some target →
      C.isRegularFile target = true →
      (resolveSpecifier C fromFile specifier).target = some target) ∧
    ((resolveSpecifier D fromFile specifier).target = none →
      (resolveSpecifier C fromFile specifier).target = none) := by
  have hsim : Simulates C (resolveSpecifier D fromFile specifier)
      (resolveSpecifier C fromFile specifier) := by
    unfold resolveSpecifier at hread ⊢
    split
    · rename_i hrel
      simp only [hrel, if_true] at hread
      exact resolveBase_simulates h _ _ hread
    · rename_i hrel
      simp only [hrel] at hread
      split
      · rename_i habs
        simp only [habs, if_true] at hread
        exact resolveBase_simulates h _ _ hread
      · rename_i habs
        simp only [habs] at hread
        exact nodeModulesWalk_simulates h specifier _ _ hread
  exact ⟨hsim.found, hsim.nothing⟩

/-- The source that holds the listed files with their texts. -/
def FileSource.ofFiles (files : List (Bytes × Bytes)) : FileSource where
  isRegularFile path := (files.lookup path).isSome
  isDirectory dir := files.any fun file => belowB dir file.1
  readPackageJson dir := files.lookup (pathAppend dir (ascii "package.json"))

theorem lookup_isSome_of_mem {files : List (Bytes × Bytes)} {file : Bytes × Bytes}
    (h : file ∈ files) : (files.lookup file.1).isSome = true := by
  induction files with
  | nil => cases h
  | cons first rest ih =>
      obtain ⟨key, content⟩ := first
      by_cases heq : file.1 = key
      · simp [heq]
      · have hbeq : (file.1 == key) = false := by simpa using heq
        have hmem : file ∈ rest := by
          rcases List.mem_cons.mp h with hfirst | hrest
          · exact absurd (congrArg Prod.fst hfirst) heq
          · exact hrest
        simp only [List.lookup_cons, hbeq]
        exact ih hmem

theorem mem_of_lookup {files : List (Bytes × Bytes)} {path text : Bytes}
    (h : files.lookup path = some text) : (path, text) ∈ files := by
  induction files with
  | nil => cases h
  | cons first rest ih =>
      obtain ⟨key, content⟩ := first
      by_cases heq : path = key
      · subst heq
        have htext : content = text := by simpa using h
        subst htext
        exact List.mem_cons_self
      · have hbeq : (path == key) = false := by simpa using heq
        simp only [List.lookup_cons, hbeq] at h
        exact List.mem_cons_of_mem _ (ih h)

/-- Fewer files of one tree show a part of it. -/
theorem ofFiles_restricts {part files : List (Bytes × Bytes)}
    (h : ∀ path text, part.lookup path = some text → files.lookup path = some text) :
    (FileSource.ofFiles part).Restricts (FileSource.ofFiles files) := by
  have hfiles : ∀ path, (part.lookup path).isSome = true → (files.lookup path).isSome = true := by
    intro path hpath
    rcases Option.isSome_iff_exists.mp hpath with ⟨text, htext⟩
    rw [h path text htext]
    rfl
  constructor
  · exact hfiles
  · intro dir
    simp only [FileSource.ofFiles, List.any_eq_true]
    constructor
    · intro hdir
      rcases hdir with ⟨file, hmem, hbelow⟩
      have hpart := lookup_isSome_of_mem hmem
      rcases Option.isSome_iff_exists.mp (hfiles file.1 hpart) with ⟨text, htext⟩
      exact ⟨⟨(file.1, text), mem_of_lookup htext, hbelow⟩, file.1, belowB_iff.mp hbelow, hpart⟩
    · intro hdir
      rcases hdir with ⟨_, path, hbelow, hpart⟩
      rcases Option.isSome_iff_exists.mp hpart with ⟨text, htext⟩
      exact ⟨(path, text), mem_of_lookup htext, belowB_iff.mpr hbelow⟩
  · intro dir text htext
    simp only [FileSource.ofFiles] at htext ⊢
    rw [htext]
    rfl

/-- A package with a `main`, as a tree on disk holds it. -/
def packageFiles : List (Bytes × Bytes) :=
  [(ascii "/app/node_modules/p/package.json", ascii "\x7b\"main\": \"lib/x\"\x7d"),
    (ascii "/app/node_modules/p/lib/x.js", ascii "1"),
    (ascii "/app/main.js", ascii "require('p')")]

/-- The part of `packageFiles` without the importer still resolves the package. -/
theorem package_main_restricted :
    (resolveSpecifier (FileSource.ofFiles (packageFiles.take 2)) (ascii "/app/main.js")
      (ascii "p")).target = some (ascii "/app/node_modules/p/lib/x.js") := by
  have hpart : ∀ path text, (packageFiles.take 2).lookup path = some text →
      packageFiles.lookup path = some text := by
    intro path text htext
    have hsplit : packageFiles = packageFiles.take 2 ++ packageFiles.drop 2 := by decide
    rw [hsplit, List.lookup_append, htext]
    rfl
  apply (resolveSpecifier_restricts (ofFiles_restricts hpart) (ascii "/app/main.js")
    (ascii "p") ?_).1
  · decide
  · decide
  · decide

end HermesNode.Resolve
