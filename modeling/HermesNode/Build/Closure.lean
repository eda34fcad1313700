/-
Module: HermesNode.Build.Closure
Purpose: What a build packages. `Packaged` is the least set of paths with the entry, the includes and
  the preloads that is closed under the literal specifiers of its JavaScript files. The work list
  visits exactly this set, fails exactly when a file of it is unusable, and hands the container one
  requirable module for each path of it, in the order of discovery, with its edges. What it does not
  see is that two paths with a NUL in them can name one file.
Trusted boundary: none
Main exports: Packaged, Unusable, BuildsClosure
-/
import HermesNode.Build.Emission
import HermesNode.Resolve.Answers

namespace HermesNode.Build

open HermesNode.Bundle Resolve WorkList

/-! ### The closure -/

section

variable (disk : Disk) (tools : Toolchain)

/-- The literal specifiers of a file: those of its text, if it is JavaScript that parses. -/
def literalsOf (path : Bytes) : List Bytes :=
  if classifyFile path = .kJavaScript then
    match disk.readFile path with
    | none => []
    | some text =>
        match specifiersOf tools path text with
        | .error _ => []
        | .ok specifiers => specifiers
  else []

/-- The specifiers of a file that resolve to a packageable file, with that file. -/
def edgesOf (path : Bytes) : List (Bytes × Bytes) := keepOf disk path (literalsOf disk tools path)

variable (start : Start)

/-- The least set of paths that contains the seeds and is closed under literal specifiers. -/
inductive Packaged : Bytes → Prop where
  | entry : Packaged start.absEntry
  | included {path : Bytes} (h : path ∈ start.includes) : Packaged path
  | preloaded {path : Bytes} (h : path ∈ start.preloads) : Packaged path
  | literal {importer specifier path : Bytes} (h : Packaged importer)
      (hliteral : specifier ∈ literalsOf disk tools importer)
      (htarget : targetOf disk importer specifier = some path) : Packaged path

/-- A file the build cannot go on with. -/
inductive Unusable (path : Bytes) : Prop where
  | noDigest (hkind : classifyFile path = .kNative) (reason : Bytes)
      (h : disk.digest (cstr path) = .error reason)
  | unreadable (hkind : classifyFile path ≠ .kNative) (h : disk.readFile path = none)
  | unparsable (hkind : classifyFile path = .kJavaScript) (text parseError : Bytes)
      (hread : disk.readFile path = some text)
      (hparse : specifiersOf tools path text = .error parseError)
      (hcertain : path = start.absEntry ∨ path ∈ start.preloads)

end

variable {disk : Disk} {tools : Toolchain}

theorem literalsOf_nodup (path : Bytes) : (literalsOf disk tools path).Nodup := by
  unfold literalsOf
  split
  · split
    · exact List.nodup_nil
    · split
      · exact List.nodup_nil
      · rename_i specifiers hscan
        unfold specifiersOf scanRequires at hscan
        cases hfound : tools.literals (hasExtension path (ascii ".ts"))
            (wrapCJS (stripShebang _)) with
        | error e =>
            rw [hfound] at hscan
            cases hscan
        | ok found =>
            rw [hfound] at hscan
            cases hscan
            exact discover_nodup List.nodup_nil found
  · exact List.nodup_nil

variable {path : Bytes}

theorem mem_keepOf {specifiers : List Bytes} {edge : Bytes × Bytes} :
    edge ∈ keepOf disk path specifiers ↔
      edge.1 ∈ specifiers ∧ targetOf disk path edge.1 = some edge.2 := by
  unfold keepOf
  rw [List.mem_filterMap]
  constructor
  · intro h
    rcases h with ⟨specifier, hmem, hedge⟩
    rcases Option.map_eq_some_iff.mp hedge with ⟨target, htarget, rfl⟩
    exact ⟨hmem, htarget⟩
  · intro h
    exact ⟨edge.1, h.1, Option.map_eq_some_iff.mpr ⟨edge.2, h.2, rfl⟩⟩

theorem keepOf_specifiers_nodup {path : Bytes} {specifiers : List Bytes} (h : specifiers.Nodup) :
    ((keepOf disk path specifiers).map Prod.fst).Nodup := by
  have hsub : ((keepOf disk path specifiers).map Prod.fst).Sublist specifiers := by
    induction specifiers with
    | nil => exact List.Sublist.refl _
    | cons specifier specifiers ih =>
        have hrest := ih (List.nodup_cons.mp h).2
        cases htarget : targetOf disk path specifier with
        | none => simpa [keepOf, htarget] using hrest.cons specifier
        | some target => simpa [keepOf, htarget] using hrest
  exact hsub.nodup h

theorem targetOf_packageable {path specifier target : Bytes}
    (h : targetOf disk path specifier = some target) : classifyFile target ≠ .kSkip := by
  rcases Option.filter_eq_some_iff.mp h with ⟨_, hkind⟩
  simpa using hkind

/-! ### Visiting a file -/

/-- What the walk records for a file it visited. -/
structure VisitedAs (disk : Disk) (tools : Toolchain) (path : Bytes) (v : Visited) : Prop where
  edges : v.info.edges = edgesOf disk tools path
  flags : v.info.flags = kRequirable
  consulted : v.consulted = (literalsOf disk tools path).flatMap fun specifier =>
    (resolveLiteral disk path specifier).consulted
  native : v.info.kind = .kNative → v.info.payload = []
  digest : v.info.kind = .kNative ↔ v.info.digest.isSome = true
  json : classifyFile path = .kJSON →
    v.info.kind = .kJSON ∧ disk.readFile path = some v.info.payload

variable {start : Start}

/-- The preloads are recorded once each. -/
theorem mem_preloadPaths : path ∈ start.preloadPaths ↔ path ∈ start.preloads := by
  simp [Start.preloadPaths, mem_discover]

/-- Visiting a packageable file either fails, because it is unusable, or records it. -/
theorem visit_cases (hkind : classifyFile path ≠ .kSkip) {isFirst : Bool}
    (hfirst : isFirst = true ↔ path = start.absEntry) :
    (∃ e, visit disk tools start.preloadPaths isFirst path = .error e ∧
      Unusable disk tools start path) ∨
    (∃ v, visit disk tools start.preloadPaths isFirst path =
        .ok (v, (edgesOf disk tools path).map Prod.snd) ∧
      VisitedAs disk tools path v ∧ ¬ Unusable disk tools start path) := by
  cases hclass : classifyFile path with
  | kSkip => exact absurd hclass hkind
  | kNative =>
      have hliterals : literalsOf disk tools path = [] := by simp [literalsOf, hclass]
      cases hdigest : disk.digest (cstr path) with
      | error reason =>
          exact Or.inl ⟨.noDigest reason, by simp [visit, hclass, hdigest],
            .noDigest hclass reason hdigest⟩
      | ok digest =>
          refine Or.inr ⟨{ info := { kind := .kNative, digest := some digest } }, ?_, ?_, ?_⟩
          · simp [visit, hclass, hdigest, edgesOf, hliterals, keepOf]
          · constructor <;> simp [edgesOf, hliterals, keepOf, hclass]
          · intro hunusable
            cases hunusable with
            | noDigest _ reason h => simp [hdigest] at h
            | unreadable hk _ => exact hk hclass
            | unparsable hk _ _ _ _ _ => simp [hclass] at hk
  | kJSON =>
      have hliterals : literalsOf disk tools path = [] := by simp [literalsOf, hclass]
      cases hread : disk.readFile path with
      | none =>
          exact Or.inl ⟨.cannotRead path, by simp [visit, hclass, hread],
            .unreadable (by simp [hclass]) hread⟩
      | some text =>
          refine Or.inr ⟨{ info := { kind := .kJSON, payload := text } }, ?_, ?_, ?_⟩
          · simp [visit, hclass, hread, edgesOf, hliterals, keepOf]
          · constructor <;> simp [edgesOf, hliterals, keepOf, hread]
          · intro hunusable
            cases hunusable with
            | noDigest hk _ _ => simp [hclass] at hk
            | unreadable _ h => simp [hread] at h
            | unparsable hk _ _ _ _ _ => simp [hclass] at hk
  | kJavaScript =>
      cases hread : disk.readFile path with
      | none =>
          exact Or.inl ⟨.cannotRead path, by simp [visit, hclass, hread],
            .unreadable (by simp [hclass]) hread⟩
      | some text =>
          cases hscan : specifiersOf tools path text with
          | ok specifiers =>
              have hliterals : literalsOf disk tools path = specifiers := by
                simp [literalsOf, hclass, hread, hscan]
              refine Or.inr
                ⟨{ info := { kind := .kJavaScript, payload := stripShebang text
                             edges := keepOf disk path specifiers }
                   consulted := specifiers.flatMap fun specifier =>
                     (resolveLiteral disk path specifier).consulted }, ?_, ?_, ?_⟩
              · simp [visit, hclass, hread, hscan, edgesOf, hliterals]
              · constructor <;> simp [edgesOf, hliterals, hclass]
              · intro hunusable
                cases hunusable with
                | noDigest hk _ _ => simp [hclass] at hk
                | unreadable _ h => simp [hread] at h
                | unparsable _ text' e hread' hparse _ =>
                    rw [hread, Option.some.injEq] at hread'
                    subst hread'
                    simp [hscan] at hparse
          | error parseError =>
              have hliterals : literalsOf disk tools path = [] := by
                simp [literalsOf, hclass, hread, hscan]
              by_cases hcertain : path = start.absEntry ∨ path ∈ start.preloads
              · left
                have hunusable : Unusable disk tools start path :=
                  .unparsable hclass text parseError hread hscan hcertain
                by_cases hentry : isFirst = true
                · exact ⟨.doesNotParse .entry path parseError,
                    by simp [visit, hclass, hread, hscan, hentry], hunusable⟩
                · have hpreload : path ∈ start.preloadPaths := by
                    rcases hcertain with heq | hmem
                    · exact absurd (hfirst.mpr heq) hentry
                    · exact mem_preloadPaths.mpr hmem
                  exact ⟨.doesNotParse .preload path parseError,
                    by simp [visit, hclass, hread, hscan, hentry, hpreload], hunusable⟩
              · right
                have hentry : isFirst = false := by
                  rw [← Bool.not_eq_true, hfirst]
                  exact fun heq => hcertain (Or.inl heq)
                have hpreload : path ∉ start.preloadPaths := by
                  rw [mem_preloadPaths]
                  exact fun hmem => hcertain (Or.inr hmem)
                refine ⟨{ info := { kind := .kJavaScript
                                    payload := makeThrowingStub path parseError } }, ?_, ?_, ?_⟩
                · simp [visit, hclass, hread, hscan, hentry, hpreload, edgesOf, hliterals, keepOf]
                · constructor <;> simp [edgesOf, hliterals, keepOf, hclass]
                · intro hunusable
                  cases hunusable with
                  | noDigest hk _ _ => simp [hclass] at hk
                  | unreadable _ h => simp [hread] at h
                  | unparsable _ _ _ _ _ h => exact hcertain h

/-! ### Starting -/

/-- What is known when the walk starts. -/
structure Started (disk : Disk) (opts : Options) (start : Start) : Prop where
  entry : absEntryOf disk opts = .ok start.absEntry
  included : ∀ path ∈ start.includes, ∃ spec ∈ opts.includes,
    seedOf disk start.absEntry .includes spec = .ok path
  preloaded : ∀ path ∈ start.preloads, ∃ spec ∈ opts.preloads,
    seedOf disk start.absEntry .preload spec = .ok path
  consulted : start.consulted = (opts.includes ++ opts.preloads).flatMap fun spec =>
    (resolveSpecifier disk.source start.absEntry spec).consulted

variable {opts : Options}

theorem startOf_started (h : startOf disk opts = .ok start) :
    Started disk opts start := by
  unfold startOf at h
  obtain ⟨absEntry, hentry, h⟩ := bind_eq_ok.mp h
  obtain ⟨includes, hincludes, h⟩ := bind_eq_ok.mp h
  obtain ⟨preloads, hpreloads, h⟩ := bind_eq_ok.mp h
  cases h
  exact ⟨hentry, fun _ => mapM_ok_mem hincludes, fun _ => mapM_ok_mem hpreloads, rfl⟩

theorem seedOf_ok {absEntry spec path : Bytes} {option : SeedOption}
    (h : seedOf disk absEntry option spec = .ok path) :
    (resolveSpecifier disk.source absEntry spec).target = some path ∧
      classifyFile path ≠ .kSkip := by
  unfold seedOf at h
  split at h
  · cases h
  · rename_i resolved hresolved
    split at h
    · cases h
    · rename_i hkind
      cases h
      exact ⟨hresolved, hkind⟩

/-- The entry is a regular JavaScript file in normal form with no NUL in its path. -/
theorem absEntryOf_ok {absEntry : Bytes}
    (h : absEntryOf disk opts = .ok absEntry) :
    NormalPath absEntry ∧ disk.isRegularFile (cstr absEntry) = true ∧
      classifyFile absEntry = .kJavaScript ∧ 0 ∉ absEntry := by
  unfold absEntryOf at h
  split at h
  · cases h
  · rename_i path habsolute
    have hpath : isAbsolute path = true ∧ 0 ∉ path := by
      unfold absolute at habsolute
      split at habsolute
      · cases habsolute
      · split at habsolute
        · rename_i habs
          cases habsolute
          exact ⟨habs, opts.entry_nul⟩
        · rename_i hrel
          cases hcwd : disk.currentPath with
          | error e =>
              rw [hcwd] at habsolute
              cases habsolute
          | ok cwd =>
              rw [hcwd] at habsolute
              cases habsolute
              rcases disk.currentPath_abs cwd hcwd with ⟨habs, hnul⟩
              exact ⟨isAbsolute_pathAppend habs,
                not_mem_pathAppend (by decide) hnul opts.entry_nul⟩
    dsimp only at h
    split at h
    · cases h
    · rename_i hregular
      split at h
      · cases h
      · rename_i hkind
        cases h
        refine ⟨lexicallyNormal_normal hpath.1, by simpa using hregular, by simpa using hkind, ?_⟩
        exact not_mem_lexicallyNormal (by decide) (by decide) hpath.2

/-! ### The work list visits the closure -/

theorem resolveLiteral_target {importer specifier target : Bytes}
    (h : targetOf disk importer specifier = some target) :
    (resolveSpecifier disk.source importer specifier).target = some target := by
  rcases Option.filter_eq_some_iff.mp h with ⟨hfound, _⟩
  unfold resolveLiteral at hfound
  split at hfound
  · cases hfound
  · exact hfound

theorem Packaged.file {opts : Options} {path : Bytes} (hstart : Started disk opts start)
    (h : Packaged disk tools start path) :
    NormalPath path ∧ disk.isRegularFile (cstr path) = true ∧ classifyFile path ≠ .kSkip := by
  have hanswer : ∀ {p : Bytes}, Answer disk.source p →
      NormalPath p ∧ disk.isRegularFile (cstr p) = true := by
    intro p hp
    rcases hp with ⟨hfile, base, hbase, hcandidate⟩
    exact ⟨candidate_normalPath hbase hcandidate, hfile⟩
  rcases absEntryOf_ok hstart.entry with ⟨hnormal, hregular, hkind, _⟩
  have hseed : ∀ {option : SeedOption} {spec p : Bytes},
      seedOf disk start.absEntry option spec = .ok p →
      NormalPath p ∧ disk.isRegularFile (cstr p) = true ∧ classifyFile p ≠ .kSkip := by
    intro option spec p hseed
    rcases seedOf_ok hseed with ⟨hfound, hpackageable⟩
    rcases hanswer (resolveSpecifier_answer hnormal.absolute hfound) with ⟨hn, hr⟩
    exact ⟨hn, hr, hpackageable⟩
  induction h with
  | entry => exact ⟨hnormal, hregular, by simp [hkind]⟩
  | included hmem =>
      rcases hstart.included _ hmem with ⟨_, _, hok⟩
      exact hseed hok
  | preloaded hmem =>
      rcases hstart.preloaded _ hmem with ⟨_, _, hok⟩
      exact hseed hok
  | literal _ _ htarget ih =>
      have hfound := resolveLiteral_target htarget
      rcases hanswer (resolveSpecifier_answer ih.1.absolute hfound) with ⟨hn, hr⟩
      exact ⟨hn, hr, targetOf_packageable htarget⟩

theorem start_nodup : start.paths.Nodup := discover_nodup (List.nodup_singleton _) _

theorem start_ne_nil : start.paths ≠ [] := by
  intro hnil
  have hmem : start.absEntry ∈ start.paths := mem_discover.mpr (Or.inl (by simp))
  rw [hnil] at hmem
  cases hmem

theorem start_head : start.paths.head? = some start.absEntry := by
  rcases discover_starts [start.absEntry] (start.includes ++ start.preloads) with ⟨rest, hrest⟩
  rw [Start.paths, ← hrest]
  rfl

/-- Visiting a path on its own. -/
abbrev visitPath (disk : Disk) (tools : Toolchain) (start : Start) (path : Bytes) :
    Except BuildError (Visited × List Bytes) :=
  visitItem (visit disk tools start.preloadPaths) start.paths path

abbrev nextPaths (disk : Disk) (tools : Toolchain) (start : Start) (path : Bytes) : List Bytes :=
  targetsOf (visit disk tools start.preloadPaths) start.paths path

theorem visitPath_cases {path : Bytes} (hkind : classifyFile path ≠ .kSkip) :
    (∃ e, visitPath disk tools start path = .error e ∧ Unusable disk tools start path) ∨
    (∃ v, visitPath disk tools start path = .ok (v, (edgesOf disk tools path).map Prod.snd) ∧
      VisitedAs disk tools path v ∧ ¬ Unusable disk tools start path) := by
  apply visit_cases hkind
  rw [start_head]
  simp only [beq_iff_eq, Option.some.injEq]
  exact eq_comm

theorem mem_edge_targets {path target : Bytes} :
    target ∈ (edgesOf disk tools path).map Prod.snd ↔
      ∃ specifier ∈ literalsOf disk tools path, targetOf disk path specifier = some target := by
  rw [List.mem_map]
  constructor
  · rintro ⟨⟨specifier, _⟩, hedge, rfl⟩
    exact ⟨specifier, mem_keepOf.mp hedge⟩
  · rintro ⟨specifier, hmem, htarget⟩
    exact ⟨(specifier, target), mem_keepOf.mpr ⟨hmem, htarget⟩, rfl⟩

/-- An unusable file has no literal specifiers, so both sides stop there. -/
theorem Unusable.no_literals (h : Unusable disk tools start path) :
    literalsOf disk tools path = [] := by
  cases h with
  | noDigest hkind _ _ => simp [literalsOf, hkind]
  | unreadable _ hread => simp [literalsOf, hread]
  | unparsable _ _ _ hread hparse _ => simp [literalsOf, hread, hparse]

theorem nextPaths_eq (hkind : classifyFile path ≠ .kSkip) :
    nextPaths disk tools start path = (edgesOf disk tools path).map Prod.snd := by
  rcases @visitPath_cases disk tools start path hkind with
    ⟨e, hvisit, hunusable⟩ | ⟨v, hvisit, _⟩
  · simp [nextPaths, targetsOf, hvisit, edgesOf, hunusable.no_literals, keepOf]
  · simp [nextPaths, targetsOf, hvisit]

theorem closure_iff_packaged (hstart : Started disk opts start) (path : Bytes) :
    Closure start.paths (nextPaths disk tools start) path ↔ Packaged disk tools start path := by
  constructor
  · intro h
    induction h with
    | seed hseed =>
        rcases mem_discover.mp hseed with hentry | hmore
        · rw [List.mem_singleton.mp hentry]
          exact Packaged.entry
        · rcases List.mem_append.mp hmore with hincluded | hpreloaded
          · exact Packaged.included hincluded
          · exact Packaged.preloaded hpreloaded
    | next _ hnext ih =>
        rw [nextPaths_eq (ih.file hstart).2.2] at hnext
        rcases mem_edge_targets.mp hnext with ⟨specifier, hmem, htarget⟩
        exact Packaged.literal ih hmem htarget
  · intro h
    induction h with
    | entry => exact Closure.seed (mem_discover.mpr (Or.inl (by simp)))
    | included hmem => exact Closure.seed (mem_discover.mpr (Or.inr (List.mem_append_left _ hmem)))
    | preloaded hmem =>
        exact Closure.seed (mem_discover.mpr (Or.inr (List.mem_append_right _ hmem)))
    | literal himporter hmem htarget ih =>
        apply Closure.next ih
        rw [nextPaths_eq (himporter.file hstart).2.2]
        exact mem_edge_targets.mpr ⟨_, hmem, htarget⟩

/-- What the walk leaves when it is over. -/
structure Walked (disk : Disk) (tools : Toolchain) (start : Start) (w : State Bytes Visited) :
    Prop where
  members : ∀ path, path ∈ w.items ↔ Packaged disk tools start path
  nodup : w.items.Nodup
  /-- In discovery order: the seeds, then the targets of each file in the order of its literals. -/
  order : w.items = discover start.paths
    (w.items.flatMap fun path => (edgesOf disk tools path).map Prod.snd)
  results : List.Forall₂ (VisitedAs disk tools) w.items w.visited
  usable : ∀ path ∈ w.items, ¬ Unusable disk tools start path

theorem walk_finished (hstart : Started disk opts start) {fuel : Nat}
    {w : State Bytes Visited} (h : walk disk tools start fuel = .finished w) :
    Walked disk tools start w := by
  rcases run_finished start_ne_nil (reached_init start_nodup) h with ⟨hreached, hall⟩
  have hmembers : ∀ path, path ∈ w.items ↔ Packaged disk tools start path := by
    intro path
    rw [hreached.complete (Nat.le_of_eq hall), closure_iff_packaged hstart]
  have htake : w.items.take w.visited.length = w.items :=
    List.take_of_length_le (Nat.le_of_eq hall)
  have hkind : ∀ path ∈ w.items, classifyFile path ≠ .kSkip := by
    intro path hpath
    exact (((hmembers path).mp hpath).file hstart).2.2
  have hresults := hreached.results
  rw [htake] at hresults
  have hok : ∀ path v, path ∈ w.items → visitPath disk tools start path =
      .ok (v, nextPaths disk tools start path) →
      VisitedAs disk tools path v ∧ ¬ Unusable disk tools start path := by
    intro path v hpath hvisit
    rcases @visitPath_cases disk tools start path (hkind path hpath) with
      ⟨e, herror, _⟩ | ⟨v', hok, hv', husable⟩
    · rw [herror] at hvisit
      cases hvisit
    · rw [hok, Except.ok.injEq, Prod.mk.injEq] at hvisit
      exact ⟨hvisit.1 ▸ hv', husable⟩
  refine ⟨hmembers, hreached.nodup, ?_, ?_, ?_⟩
  · have horder := hreached.order
    rw [htake] at horder
    rw [List.flatMap_congr fun path hpath => (nextPaths_eq (hkind path hpath)).symm]
    exact horder
  · exact forall₂_imp_mem hresults fun path v hpath hvisit => (hok path v hpath hvisit).1
  · intro path hpath
    rcases forall₂_mem_left hresults hpath with ⟨v, _, hvisit⟩
    exact (hok path v hpath hvisit).2

theorem walk_failed_iff (hstart : Started disk opts start) :
    (∃ fuel e, walk disk tools start fuel = .failed e) ↔
      ∃ path, Packaged disk tools start path ∧ Unusable disk tools start path := by
  have hiff := @run_failed_iff _ _ _ _ (visit disk tools start.preloadPaths) start.paths
    start_nodup start_ne_nil
  rw [show (∃ fuel e, walk disk tools start fuel = .failed e) ↔ _ from hiff]
  constructor
  · rintro ⟨path, e, hclosure, hvisit⟩
    have hpackaged := (closure_iff_packaged hstart path).mp hclosure
    refine ⟨path, hpackaged, ?_⟩
    rcases @visitPath_cases disk tools start path (hpackaged.file hstart).2.2 with
      ⟨_, _, hunusable⟩ | ⟨v, hok, _⟩
    · exact hunusable
    · exact absurd (hok.symm.trans hvisit) (by simp)
  · rintro ⟨path, hpackaged, hunusable⟩
    rcases @visitPath_cases disk tools start path (hpackaged.file hstart).2.2 with
      ⟨e, hvisit, _⟩ | ⟨v, _, _, husable⟩
    · exact ⟨path, e, (closure_iff_packaged hstart path).mpr hpackaged, hvisit⟩
    · exact absurd hunusable husable

/-! ### Files and the paths that name them -/

/-- The tree has finitely many files: finitely many paths in normal form name a regular file. -/
def FiniteTree (disk : Disk) : Prop :=
  {path | NormalPath path ∧ 0 ∉ path ∧ disk.isRegularFile path = true}.Finite

theorem cstr_starts (p : Bytes) : cstr p <+: p := List.takeWhile_prefix _

theorem not_mem_cstr (p : Bytes) : 0 ∉ cstr p := by
  intro hmem
  exact absurd (List.all_eq_true.mp List.all_takeWhile _ hmem) (by decide)

theorem cstr_absolute {p : Bytes} (h : isAbsolute p = true) : isAbsolute (cstr p) = true := by
  cases p with
  | nil => cases h
  | cons c cs =>
      have hc : c = slash := by simpa [isAbsolute] using h
      subst hc
      rfl

/-- What the system is asked for in place of a packaged path is a file of the tree. -/
theorem Packaged.cstr_mem (hstart : Started disk opts start)
    (h : Packaged disk tools start path) :
    cstr path ∈ {path | NormalPath path ∧ 0 ∉ path ∧ disk.isRegularFile path = true} := by
  rcases h.file hstart with ⟨hnormal, hregular, _⟩
  rcases hnormal.front (cstr_starts path) (cstr_absolute hnormal.absolute)
    (disk.regular_end _ hregular) with ⟨segs, seg, hnames, heq⟩
  refine ⟨?_, not_mem_cstr path, hregular⟩
  rw [heq]
  exact NormalPath.file hnames

/-- No two packaged paths are cut to one C string. -/
def NamesApart (disk : Disk) (tools : Toolchain) (start : Start) : Prop :=
  Set.InjOn cstr {path | Packaged disk tools start path}

theorem walk_terminates (hstart : Started disk opts start)
    (hfinite : FiniteTree disk) (hapart : NamesApart disk tools start) :
    ∃ fuel, ∀ w, walk disk tools start fuel ≠ .running w := by
  apply run_terminates start_nodup start_ne_nil
  have hset : {path | Closure start.paths (nextPaths disk tools start) path} =
      {path | Packaged disk tools start path} := by
    ext path
    exact closure_iff_packaged hstart path
  rw [show {path | Closure start.paths (targetsOf (visit disk tools start.preloadPaths)
    start.paths) path} = {path | Packaged disk tools start path} from hset]
  apply Set.Finite.of_finite_image ?_ hapart
  apply hfinite.subset
  rintro _ ⟨path, hpath, rfl⟩
  exact Packaged.cstr_mem hstart hpath

/-! ### The container of the closure -/

/-- The container holds one requirable module for each walked path, in order, and the edges of the
walked files. -/
structure EmitsWalk (disk : Disk) (tools : Toolchain) (w : State Bytes Visited) (built : Built) :
    Prop where
  requirable : ∀ i, (∃ m, (Contents.ofCalls built.calls).modules[i]? = some m ∧
    m.flags &&& kRequirable ≠ 0) ↔ i < w.items.length
  identities : ∀ (i : Nat) (path : Bytes), w.items[i]? = some path →
    ∃ m, (Contents.ofCalls built.calls).modules[i]? = some m ∧
      m.identity = identityOf built.root path
  edges : (Contents.ofCalls built.calls).edges = w.items.flatMap fun path =>
    (edgesOf disk tools path).map fun edge =>
      { importer := moduleIndex w.items path, specifier := edge.1
        target := moduleIndex w.items edge.2 }

section

variable {opts : Options} {generation : UInt32} {w : State Bytes Visited} {built : Built}
  {placements : List NativePlacement}

theorem Walked.length (h : Walked disk tools start w) : w.items.length = w.visited.length :=
  h.results.length_eq

theorem Walked.walkedFiles_mem (h : Walked disk tools start w) {i : Nat}
    (hpath : w.items[i]? = some path) :
    ∃ v, (walkedFiles w)[i]? = some { path, info := v.info } ∧ VisitedAs disk tools path v := by
  rcases forall₂_getElem? h.results hpath with ⟨v, hv, hvisited⟩
  refine ⟨v, ?_, hvisited⟩
  simp [walkedFiles, List.getElem?_zipWith, hpath, hv]

theorem moduleIndex_append {items more : List Bytes} (h : path ∈ items) :
    moduleIndex (items ++ more) path = moduleIndex items path := by
  rw [moduleIndex, List.idxOf_append_of_mem h, moduleIndex]

theorem Walked.target_mem (h : Walked disk tools start w) (hpath : path ∈ w.items)
    {edge : Bytes × Bytes} (hedge : edge ∈ edgesOf disk tools path) : edge.2 ∈ w.items := by
  rcases mem_keepOf.mp hedge with ⟨hliteral, htarget⟩
  exact (h.members _).mpr (Packaged.literal ((h.members _).mp hpath) hliteral htarget)

theorem emitsWalk (hwalked : Walked disk tools start w)
    (h : Assembled disk opts generation start w built placements) :
    EmitsWalk disk tools w built := by
  have hcontents := contents_callsOf opts start built.root built.files placements
  rw [← h.calls] at hcontents
  have hpaths := h.paths hwalked.length
  have hlength : (walkedFiles w).length = w.items.length := by
    rw [← walkedFiles_paths hwalked.length, List.length_map]
  have hmodule : ∀ (i : Nat) (file : PackagedFile), (allFiles disk start w)[i]? = some file →
      ∃ m, (Contents.ofCalls built.calls).modules[i]? = some m ∧
        m.identity = identityOf built.root file.path ∧ m.flags = file.info.flags := by
    intro i file hfile
    rcases forall₂_getElem? h.files hfile with ⟨compiled, hcompiled, hfrom⟩
    refine ⟨moduleOf built.root compiled, ?_, ?_, hfrom.flags⟩
    · rw [hcontents]
      simp [hcompiled]
    · simp only [moduleOf, hfrom.path]
  constructor
  · intro i
    constructor
    · rintro ⟨m, hm, hflags⟩
      by_contra hge
      have hlt : i < built.files.length := by
        rw [hcontents] at hm
        simpa using (List.getElem?_eq_some_iff.mp hm).1
      rw [← h.files.length_eq] at hlt
      obtain ⟨file, hfile⟩ : ∃ file, (allFiles disk start w)[i]? = some file :=
        ⟨_, List.getElem?_eq_getElem hlt⟩
      rcases hmodule i file hfile with ⟨m', hm', _, hsame⟩
      rw [hm, Option.some.injEq] at hm'
      subst hm'
      have hinput : file ∈ packageInputs disk w.items (consultedOf start w) := by
        rw [allFiles, List.getElem?_append_right (by omega)] at hfile
        exact List.mem_of_getElem? hfile
      rcases packageInputs_spec hinput with ⟨_, _, _, text, _, hinfo⟩
      have hzero : m.flags = kResolveOnly := by
        rw [hsame, hinfo]
      rw [hzero] at hflags
      exact hflags (by decide)
    · intro hlt
      rcases hwalked.walkedFiles_mem (List.getElem?_eq_getElem hlt) with ⟨v, hfile, hvisited⟩
      have hall : (allFiles disk start w)[i]? = some { path := w.items[i], info := v.info } := by
        rw [allFiles, List.getElem?_append_left (by omega), hfile]
      rcases hmodule i _ hall with ⟨m, hm, _, hflags⟩
      refine ⟨m, hm, ?_⟩
      rw [hflags, hvisited.flags]
      decide
  · intro i path hpath
    rcases hwalked.walkedFiles_mem hpath with ⟨v, hfile, _⟩
    have hlt := (List.getElem?_eq_some_iff.mp hfile).1
    rcases hmodule i { path, info := v.info }
      (by rw [allFiles, List.getElem?_append_left hlt, hfile]) with ⟨m, hm, hidentity, _⟩
    exact ⟨m, hm, hidentity⟩
  · rw [hcontents]
    simp only [hpaths]
    generalize (packageInputs disk w.items (consultedOf start w)).map (·.path) = more
    have hcompiled : built.files.flatMap (edgeRows (w.items ++ more)) =
        (allFiles disk start w).flatMap (edgeRows (w.items ++ more)) := by
      apply forall₂_flatMap h.files
      intro file compiled _ hfrom
      simp only [edgeRows, hfrom.edges, hfrom.path]
    have hinputs : (packageInputs disk w.items (consultedOf start w)).flatMap
        (edgeRows (w.items ++ more)) = [] := by
      rw [List.flatMap_eq_nil_iff]
      intro file hfile
      rcases packageInputs_spec hfile with ⟨_, _, _, text, _, hinfo⟩
      simp [edgeRows, hinfo]
    rw [hcompiled, allFiles, List.flatMap_append, hinputs, List.append_nil]
    have hwalkedFiles : List.Forall₂ (fun path file => file.path = path ∧
        file.info.edges = edgesOf disk tools path) w.items (walkedFiles w) :=
      forall₂_zipWith hwalked.results fun path v hv => ⟨rfl, hv.edges⟩
    apply forall₂_flatMap hwalkedFiles
    intro path file hpath hfile
    simp only [edgeRows, hfile.1, hfile.2]
    apply List.map_congr_left
    intro edge hedge
    rw [moduleIndex_append hpath, moduleIndex_append (hwalked.target_mem hpath hedge)]

end

/-! ### When a build packages the closure -/

/-- A finished walk has packaged the closure: exactly its paths, each file once, in the order of
discovery, with one edge for each specifier that resolves to a packageable file. -/
structure PackagesClosure (disk : Disk) (tools : Toolchain) (start : Start)
    (w : State Bytes Visited) : Prop where
  members : ∀ path, path ∈ w.items ↔ Packaged disk tools start path
  oneEach : (w.items.map cstr).Nodup
  order : w.items = discover start.paths
    (w.items.flatMap fun path => (edgesOf disk tools path).map Prod.snd)
  edges : ∀ path, ((edgesOf disk tools path).map Prod.fst).Nodup ∧
    ∀ specifier target, (specifier, target) ∈ edgesOf disk tools path ↔
      specifier ∈ literalsOf disk tools path ∧ targetOf disk path specifier = some target

/-- The work list of a build ends, what it packaged is the closure, and the container shows it. -/
structure BuildsClosure (disk : Disk) (tools : Toolchain) (opts : Options) (generation : UInt32) :
    Prop where
  terminates : ∃ fuel, (buildBundle disk tools opts generation fuel).isSome = true
  walks : ∀ start fuel w, startOf disk opts = .ok start →
    walk disk tools start fuel = .finished w → PackagesClosure disk tools start w
  emits : ∀ start fuel w built, startOf disk opts = .ok start →
    walk disk tools start fuel = .finished w →
    assemble disk tools opts generation start w = .ok built → EmitsWalk disk tools w built

/-- The build reports an error before it has anything to package: the entry or a seed is refused,
or a file of the closure is unusable. -/
def Refuses (disk : Disk) (tools : Toolchain) (opts : Options) : Prop :=
  (∃ e, startOf disk opts = .error e) ∨
    ∃ start path, startOf disk opts = .ok start ∧ Packaged disk tools start path ∧
      Unusable disk tools start path

theorem Walked.packagesClosure {w : State Bytes Visited} (h : Walked disk tools start w)
    (hapart : NamesApart disk tools start) : PackagesClosure disk tools start w := by
  refine ⟨h.members, ?_, h.order, ?_⟩
  · apply List.Nodup.map_on ?_ h.nodup
    intro x hx y hy heq
    exact hapart ((h.members x).mp hx) ((h.members y).mp hy) heq
  · intro path
    refine ⟨keepOf_specifiers_nodup (literalsOf_nodup path), ?_⟩
    intro specifier target
    exact mem_keepOf

section

variable {opts : Options} {generation : UInt32}

/-- Whatever a build writes shows what its walk packaged. -/
theorem emits_of_assemble {fuel : Nat} {w : State Bytes Visited} {built : Built}
    (hstart : startOf disk opts = .ok start) (hwalk : walk disk tools start fuel = .finished w)
    (hassemble : assemble disk tools opts generation start w = .ok built) :
    EmitsWalk disk tools w built := by
  rcases assemble_ok hassemble with ⟨placements, hassembled⟩
  exact emitsWalk (walk_finished (startOf_started hstart) hwalk) hassembled

theorem buildsClosure_of_refuses (h : Refuses disk tools opts) :
    BuildsClosure disk tools opts generation := by
  refine ⟨?_, ?_, fun start fuel w built => emits_of_assemble⟩
  · rcases h with ⟨e, he⟩ | ⟨start, path, hstart, hpackaged, hunusable⟩
    · exact ⟨0, by simp [buildBundle, he]⟩
    · rcases (walk_failed_iff (startOf_started hstart)).mpr ⟨path, hpackaged, hunusable⟩ with
        ⟨fuel, e, hfailed⟩
      exact ⟨fuel, by simp [buildBundle, hstart, hfailed]⟩
  · intro start fuel w hok hwalk
    rcases h with ⟨e, he⟩ | ⟨start', path, hstart, hpackaged, hunusable⟩
    · rw [he] at hok
      cases hok
    · rw [hstart] at hok
      cases hok
      have hwalked := walk_finished (startOf_started hstart) hwalk
      exact absurd hunusable (hwalked.usable path ((hwalked.members path).mpr hpackaged))

theorem buildsClosure_of_apart (hfinite : FiniteTree disk) (hstart : startOf disk opts = .ok start)
    (hapart : NamesApart disk tools start) : BuildsClosure disk tools opts generation := by
  refine ⟨?_, ?_, fun start fuel w built => emits_of_assemble⟩
  · rcases walk_terminates (startOf_started hstart) hfinite hapart with ⟨fuel, hends⟩
    refine ⟨fuel, ?_⟩
    cases hwalk : walk disk tools start fuel with
    | running w => exact absurd hwalk (hends w)
    | failed e => simp [buildBundle, hstart, hwalk]
    | finished w => simp [buildBundle, hstart, hwalk]
  · intro start' fuel w hok hwalk
    rw [hstart] at hok
    cases hok
    exact (walk_finished (startOf_started hstart) hwalk).packagesClosure hapart

/-- A build that is not refused has to finish its walk, and then each file stands in it once. -/
theorem apart_of_buildsClosure (h : BuildsClosure disk tools opts generation)
    (haccepts : ¬ Refuses disk tools opts) :
    ∃ start, startOf disk opts = .ok start ∧ NamesApart disk tools start := by
  rcases h.terminates with ⟨fuel, hsome⟩
  cases hstart : startOf disk opts with
  | error e => exact absurd (Or.inl ⟨e, hstart⟩) haccepts
  | ok start =>
      refine ⟨start, rfl, ?_⟩
      cases hwalk : walk disk tools start fuel with
      | running w => simp [buildBundle, hstart, hwalk] at hsome
      | failed e =>
          rcases (walk_failed_iff (startOf_started hstart)).mp ⟨fuel, e, hwalk⟩ with
            ⟨path, hpackaged, hunusable⟩
          exact absurd (Or.inr ⟨start, path, hstart, hpackaged, hunusable⟩) haccepts
      | finished w =>
          have hpackages := h.walks start fuel w hstart hwalk
          intro x hx y hy heq
          exact List.inj_on_of_nodup_map hpackages.oneEach ((hpackages.members x).mpr hx)
            ((hpackages.members y).mpr hy) heq

/-- On a finite tree a build packages the closure of its seeds exactly when it is refused or no two
paths of the closure are one file to the system. -/
theorem buildsClosure_iff (hfinite : FiniteTree disk) :
    BuildsClosure disk tools opts generation ↔
      Refuses disk tools opts ∨
        ∃ start, startOf disk opts = .ok start ∧ NamesApart disk tools start := by
  constructor
  · intro h
    by_cases hrefuses : Refuses disk tools opts
    · exact Or.inl hrefuses
    · exact Or.inr (apart_of_buildsClosure h hrefuses)
  · intro h
    rcases h with hrefuses | ⟨start, hstart, hapart⟩
    · exact buildsClosure_of_refuses hrefuses
    · exact buildsClosure_of_apart hfinite hstart hapart

end

theorem ofFiles_finite {files : List (Bytes × Bytes)}
    (hfiles : ∀ file ∈ files, endsInDirectory file.1 = false) :
    FiniteTree (Disk.ofFiles files hfiles) := by
  apply (List.finite_toSet (files.map Prod.fst)).subset
  rintro path ⟨_, _, hregular⟩
  rcases List.any_eq_true.mp hregular with ⟨file, hmem, heq⟩
  exact List.mem_map.mpr ⟨file, hmem, eq_of_beq heq⟩

/-- An engine that reads the given literals out of one text and none out of any other. -/
def sampleTools (text : Bytes) (literals : List Bytes) : Toolchain where
  literals _ wrapped := .ok (if wrapped = wrapCJS text then literals else [])
  compile _ _ _ := .ok (ascii "bytecode")

/-- A program that requires one file under two spellings, the second with a NUL escape. -/
def twoSpellings : Bytes := ascii "require('./dep.js'); require('./dep.js\\0.js');"

def twoSpellingsFiles : List (Bytes × Bytes) :=
  [(ascii "/app/main.js", twoSpellings), (ascii "/app/dep.js", [])]

def twoSpellingsDisk : Disk := Disk.ofFiles twoSpellingsFiles (by decide)

def twoSpellingsTools : Toolchain :=
  sampleTools twoSpellings [ascii "./dep.js", ascii "./dep.js" ++ 0 :: ascii ".js"]

theorem mainPath_nul : 0 ∉ ascii "/app/main.js" := by decide

def mainOptions : Options where
  entryPath := ascii "/app/main.js"
  outPath := ascii "/app/app.hnb"
  entry_nul := mainPath_nul

/-- What a build of `/app/main.js` without seeds starts from. -/
def mainStart : Start where
  absEntry := ascii "/app/main.js"
  includes := []
  preloads := []
  consulted := []

theorem twoSpellings_start : startOf twoSpellingsDisk mainOptions = .ok mainStart := by
  rfl

theorem twoSpellings_walk : ((walk twoSpellingsDisk twoSpellingsTools mainStart 4).finished?.map
    (·.items)) = some [ascii "/app/main.js", ascii "/app/dep.js",
      ascii "/app/dep.js" ++ 0 :: ascii ".js"] := by
  decide

/-- The file `/app/dep.js` becomes two modules of a finite tree. -/
theorem twoSpellings_two_modules : FiniteTree twoSpellingsDisk ∧
    ¬ BuildsClosure twoSpellingsDisk twoSpellingsTools mainOptions 7 := by
  refine ⟨ofFiles_finite _, ?_⟩
  intro h
  rcases Option.map_eq_some_iff.mp twoSpellings_walk with ⟨w, hw, hitems⟩
  have hpackages := h.walks mainStart 4 w twoSpellings_start (Outcome.finished?_eq_some hw)
  have hapart := hpackages.oneEach
  rw [hitems] at hapart
  exact absurd hapart (by decide)

/-- The same tree when the program writes one spelling. -/
def oneSpelling : Bytes := ascii "require('./dep.js');"

def oneSpellingFiles : List (Bytes × Bytes) :=
  [(ascii "/app/main.js", oneSpelling), (ascii "/app/dep.js", [])]

def oneSpellingDisk : Disk := Disk.ofFiles oneSpellingFiles (by decide)

def oneSpellingTools : Toolchain := sampleTools oneSpelling [ascii "./dep.js"]

theorem oneSpelling_walk : ((walk oneSpellingDisk oneSpellingTools mainStart 3).finished?.map
    (·.items)) = some [ascii "/app/main.js", ascii "/app/dep.js"] := by
  decide

theorem oneSpelling_closure : FiniteTree oneSpellingDisk ∧
    BuildsClosure oneSpellingDisk oneSpellingTools mainOptions 7 := by
  have hfinite : FiniteTree oneSpellingDisk := ofFiles_finite _
  have hstart : startOf oneSpellingDisk mainOptions = .ok mainStart := rfl
  rcases Option.map_eq_some_iff.mp oneSpelling_walk with ⟨w, hw, hitems⟩
  have hwalked := walk_finished (startOf_started hstart) (Outcome.finished?_eq_some hw)
  refine ⟨hfinite, (buildsClosure_iff hfinite).mpr (Or.inr ⟨mainStart, hstart, ?_⟩)⟩
  intro x hx y hy heq
  have hapart : (w.items.map cstr).Nodup := by
    rw [hitems]
    decide
  exact List.inj_on_of_nodup_map hapart ((hwalked.members x).mpr hx) ((hwalked.members y).mpr hy) heq

end HermesNode.Build
