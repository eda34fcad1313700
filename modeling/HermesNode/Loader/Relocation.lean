/-
Module: HermesNode.Loader.Relocation
Purpose: `bundle.resolve` does not depend on where the bundle is installed. A join that stays under
  the root ends at the same place behind every root, the container answers alike there, and the
  `node_modules` directories above the root are outside it.
Trusted boundary: none
Main exports: StaysUnder, JoinsStay, resolve_relocates
-/
import HermesNode.Bundle.RootPaths
import HermesNode.Bundle.Writer
import HermesNode.Lib.Climb
import HermesNode.Loader.Callbacks
import HermesNode.Resolve.Search

namespace HermesNode.Loader

open HermesNode.Bundle Resolve

/-! ### Joins -/

/-- A join that does not climb above the root. An absolute right operand would leave it, and so
would a dot-dot that leads to a directory above it. -/
def StaysUnder (r : List Bytes) (base rel : Bytes) : Prop :=
  isAbsolute rel = false ∧
    ∀ dir ∈ passed (normalSegments base).reverse (splitSlash rel), ∀ below, below ≠ [] →
      r ≠ dir ++ below

/-- The joins `resolveBase` makes: each `main` that is followed. -/
def MainsStay (r : List Bytes) (src : FileSource) : Nat → Bytes → Prop
  | 0, _ => True
  | fuel + 1, base =>
      (probe src (extensionCandidates base)).target = none → src.isDirectory base = true →
        ∀ main, (src.readPackageJson base).bind packageMain = some main →
          StaysUnder r base main ∧ MainsStay r src fuel (joinNormalized base main)

/-- A join and the `main` fields it leads to. -/
def JoinStays (r : List Bytes) (src : FileSource) (base rel : Bytes) : Prop :=
  StaysUnder r base rel ∧ MainsStay r src (kMaxResolveDepth + 1) (joinNormalized base rel)

/-- The joins of the `node_modules` walk, as far as it goes. -/
def WalkStays (r : List Bytes) (src : FileSource) (specifier : Bytes) : Nat → Bytes → Prop
  | 0, _ => True
  | fuel + 1, dir =>
      let base := pathAppend dir (ascii "node_modules")
      if filename dir != ascii "node_modules" then
        JoinStays r src base specifier ∧
          ((resolveFrom src (joinNormalized base specifier)).target = none → parentPath dir ≠ dir →
            WalkStays r src specifier fuel (parentPath dir))
      else parentPath dir ≠ dir → WalkStays r src specifier fuel (parentPath dir)

/-- The joins `resolveSpecifier` makes for a relative or bare specifier. -/
def JoinsStay (r : List Bytes) (src : FileSource) (fromFile specifier : Bytes) : Prop :=
  let fromDir := parentPath fromFile
  if isRelative specifier then JoinStays r src fromDir specifier
  else WalkStays r src specifier (fromDir.length + 1) fromDir

/-! ### The container under a root -/

/-- A relative path without one trailing separator. -/
def trimRelative (rel : Bytes) : Bytes := if endsInSlash rel then rel.dropLast else rel

section

variable {r : List Bytes} {reader : BundleReader} (hr : Names r) (hne : r ≠ [])

theorem under_append (r : List Bytes) (rel ext : Bytes) :
    under r rel ++ ext = under r (rel ++ ext) := by
  simp [under]

theorem under_join {dirs : List Bytes} (hne : r ≠ []) (hdirs : dirs ≠ []) :
    under r (joinSlash dirs) = absPath (r ++ dirs) := by
  rw [under, absPath, absPath, joinSlash_append hne hdirs]
  simp

theorem pathAppend_under (r : List Bytes) {rel name : Bytes} (hname : isAbsolute name = false) :
    pathAppend (under r rel) name = under r (pathAppend rel name) := by
  have hempty : (under r rel).isEmpty = false := rfl
  have hend : endsInSlash (under r rel) = (rel.isEmpty || endsInSlash rel) := by
    cases rel with
    | nil => simp [under, endsInSlash]
    | cons c cs => simp [under, endsInSlash]
  simp only [pathAppend, hname, Bool.false_eq_true, if_false, hempty, Bool.false_or, hend]
  split
  · rw [under_append]
  · rw [under_append]

theorem trim_under {rel : Bytes} (hrel : rel ≠ []) :
    trimOneTrailingSlash (under r rel) = under r (trimRelative rel) := by
  have hend : endsInSlash (under r rel) = endsInSlash rel := by
    cases rel with
    | nil => exact absurd rfl hrel
    | cons c cs => simp [under, endsInSlash]
  have hlength : 1 < (under r rel).length := by
    simp only [under, absPath, List.length_append, List.length_cons]
    omega
  simp only [trimOneTrailingSlash, hlength, decide_true, Bool.true_and, hend, trimRelative]
  split
  · rw [under, under, List.dropLast_append_of_ne_nil (by simp), List.dropLast_cons_of_ne_nil hrel]
  · rfl

theorem trim_root : trimOneTrailingSlash (under r []) = absPath r :=
  trimOneTrailingSlash_trailing r

include hr hne

theorem identityFor_under (rel : Bytes) :
    (sourceAt reader r).identityFor (under r rel) = some rel := by
  have hroot : under r rel = (sourceAt reader r).rootPrefix ++ rel := by
    rw [rootPrefix_cons hr hne, under, List.append_assoc, List.singleton_append]
  have hnot : under r rel ≠ (sourceAt reader r).root := by
    intro heq
    have hlength := congrArg List.length heq
    simp [under, sourceAt] at hlength
  have hstarts : (sourceAt reader r).rootPrefix.isPrefixOf (under r rel) = true := by
    rw [hroot]
    exact List.isPrefixOf_iff_prefix.mpr (List.prefix_append _ _)
  rw [BundleFileSource.identityFor, if_neg hnot, if_pos hstarts, hroot, List.drop_left]

theorem identityFor_trim (rel : Bytes) :
    (sourceAt reader r).identityFor (trimOneTrailingSlash (under r rel)) =
      some (trimRelative rel) := by
  by_cases hrel : rel = []
  · subst hrel
    rw [trim_root]
    simp [BundleFileSource.identityFor, sourceAt, trimRelative, endsInSlash]
  · rw [trim_under hrel, identityFor_under hr hne]

theorem identityFor_package (rel : Bytes) :
    (sourceAt reader r).identityFor (trimOneTrailingSlash (under r rel) ++ ascii "/package.json") =
      some (if rel = [] then ascii "package.json"
        else trimRelative rel ++ ascii "/package.json") := by
  by_cases hrel : rel = []
  · subst hrel
    have hpath : absPath r ++ ascii "/package.json" = under r (ascii "package.json") := rfl
    rw [trim_root, hpath, identityFor_under hr hne, if_pos rfl]
  · rw [trim_under hrel, under_append, identityFor_under hr hne, if_neg hrel]

end

section

variable {r₁ r₂ : List Bytes} {reader : BundleReader}
variable (hr₁ : Names r₁) (hr₂ : Names r₂) (hne₁ : r₁ ≠ []) (hne₂ : r₂ ≠ [])

include hr₁ hr₂ hne₁ hne₂

theorem isRegularFile_relocated (rel : Bytes) :
    (sourceAt reader r₁).isRegularFile (under r₁ rel) =
      (sourceAt reader r₂).isRegularFile (under r₂ rel) := by
  simp only [BundleFileSource.isRegularFile, identityFor_under hr₁ hne₁, identityFor_under hr₂ hne₂]
  rfl

theorem isDirectory_relocated (rel : Bytes) :
    (sourceAt reader r₁).isDirectory (under r₁ rel) =
      (sourceAt reader r₂).isDirectory (under r₂ rel) := by
  simp only [BundleFileSource.isDirectory, identityFor_trim hr₁ hne₁, identityFor_trim hr₂ hne₂]
  rfl

theorem readPackageJson_relocated (rel : Bytes) :
    (sourceAt reader r₁).readPackageJson (under r₁ rel) =
      (sourceAt reader r₂).readPackageJson (under r₂ rel) := by
  simp only [BundleFileSource.readPackageJson, identityFor_package hr₁ hne₁,
    identityFor_package hr₂ hne₂]
  rfl

end

theorem extensionCandidates_under (r : List Bytes) (rel : Bytes) :
    extensionCandidates (under r rel) = (extensionCandidates rel).map (under r) := by
  simp [extensionCandidates, under_append]

theorem indexCandidates_under (r : List Bytes) (rel : Bytes) :
    indexCandidates (under r rel) = (indexCandidates rel).map (under r) := by
  have hname : ∀ name ∈ [ascii "index.js", ascii "index.ts", ascii "index.json"],
      pathAppend (under r rel) name = under r (pathAppend rel name) := by
    intro name hmem
    apply pathAppend_under
    revert name
    decide
  simp only [indexCandidates, List.map_map]
  exact List.map_congr_left hname

/-! ### Joins under a root -/

variable {kept : List Bytes}

/-- Walking down a joined path is walking down its two parts. -/
theorem descend_pathAppend {rel m : Bytes}
    (hkept : descend [] (splitSlash rel) = some kept) (hm : isAbsolute m = false) :
    descend [] (splitSlash (pathAppend rel m)) = descend kept (splitSlash m) := by
  by_cases hrel : rel = []
  · subst hrel
    have hnil : kept = [] := by simpa [splitSlash, descend] using hkept.symm
    simp [pathAppend, hm, hnil]
  · have hempty : rel.isEmpty = false := by simpa using hrel
    cases hend : endsInSlash rel with
    | true =>
        obtain ⟨front, rfl⟩ := List.getLast?_eq_some_iff.mp (by simpa [endsInSlash] using hend)
        have hsplit : splitSlash (front ++ [slash]) = splitSlash front ++ [[]] := by
          rw [splitSlash_append, splitSlash]
        rw [hsplit, descend_append] at hkept
        obtain ⟨mid, hmid, hlast⟩ := Option.bind_eq_some_iff.mp hkept
        have hsame : mid = kept := by simpa [descend] using hlast
        have hjoin : pathAppend (front ++ [slash]) m = front ++ slash :: m := by
          simp [pathAppend, hm, hend]
        rw [hjoin, splitSlash_append, descend_append, hmid, Option.bind_some, hsame]
    | false =>
        have hjoin : pathAppend rel m = rel ++ slash :: m := by
          simp [pathAppend, hm, hend, hempty]
        rw [hjoin, splitSlash_append, descend_append, hkept, Option.bind_some]

/-- The directory right above another one is not passed. -/
theorem not_passed_of_stays {r dir : List Bytes} {base rel : Bytes}
    (h : StaysUnder r base rel) (hbase : normalSegments base = dir ++ kept.reverse)
    {below : List Bytes} (hbelow : below ≠ []) (hdir : r = dir.dropLast ++ below) :
    dir.dropLast ∉ passed (kept ++ dir.reverse) (splitSlash rel) := by
  intro hmem
  apply h.2 dir.dropLast ?_ below hbelow hdir
  rw [hbase, List.reverse_append, List.reverse_reverse]
  exact hmem

/-- A join that stays under the root ends at one relative path behind every root. -/
theorem joinNormalized_under {r : List Bytes} (hr : Names r) (hne : r ≠ []) {rel m : Bytes}
    (hkept : descend [] (splitSlash rel) = some kept)
    (h : StaysUnder r (under r rel) m) :
    ∃ out kept', descend [] (splitSlash out) = some kept' ∧
      ∀ r' : List Bytes, Names r' → r' ≠ [] →
        joinNormalized (under r' rel) m = under r' out := by
  have hnames : Names kept :=
    descend_names (segmentWalk_split rel) hkept
  have hlast : r = r.dropLast ++ [r.getLast hne] := (List.dropLast_append_getLast hne).symm
  have hnot := not_passed_of_stays h (normalSegments_under hr hkept) (List.cons_ne_nil _ _) hlast
  obtain ⟨kept', hkept'⟩ := descend_of_passed hr hne
    (segmentWalk_of hnames fun _ => slash_not_mem_of_mem_splitSlash) hnot
  have hwalk := descend_pathAppend hkept h.1
  rw [hkept'] at hwalk
  obtain ⟨out, hout⟩ : ∃ out, normalUnder (pathAppend rel m) = some out := by
    rw [normalUnder, hwalk]
    exact ⟨_, rfl⟩
  refine ⟨out, kept', descend_normalUnder hwalk hout, ?_⟩
  intro r' hr' hne'
  rw [joinNormalized, pathAppend_under r' h.1, lexicallyNormal_under hr' hne' hout]

/-! ### Two resolutions -/

/-- Both found the same relative path under their root, or nothing. -/
def SameTarget (r₁ r₂ : List Bytes) (found₁ found₂ : Option Bytes) : Prop :=
  ∃ found : Option Bytes, found₁ = found.map (under r₁) ∧ found₂ = found.map (under r₂)

theorem SameTarget.nothing {r₁ r₂ : List Bytes} : SameTarget r₁ r₂ none none := ⟨none, rfl, rfl⟩

theorem SameTarget.or {r₁ r₂ : List Bytes} {a₁ a₂ b₁ b₂ : Option Bytes}
    (ha : SameTarget r₁ r₂ a₁ a₂) (hb : a₁ = none → SameTarget r₁ r₂ b₁ b₂) :
    SameTarget r₁ r₂ (a₁.or b₁) (a₂.or b₂) := by
  obtain ⟨found, rfl, rfl⟩ := ha
  cases found with
  | none => exact hb rfl
  | some rel => exact ⟨some rel, rfl, rfl⟩

section

variable {r₁ r₂ : List Bytes} {reader : BundleReader}
variable (hr₁ : Names r₁) (hr₂ : Names r₂) (hne₁ : r₁ ≠ []) (hne₂ : r₂ ≠ [])

include hr₁ hr₂ hne₁ hne₂

theorem probe_relocated (rels : List Bytes) :
    SameTarget r₁ r₂ (probe (sourceAt reader r₁).toFileSource (rels.map (under r₁))).target
      (probe (sourceAt reader r₂).toFileSource (rels.map (under r₂))).target := by
  refine ⟨rels.find? fun rel => (sourceAt reader r₁).isRegularFile (under r₁ rel), ?_, ?_⟩
  · rw [probe_target, List.find?_map]
    rfl
  · rw [probe_target, List.find?_map]
    congr 2
    funext rel
    exact (isRegularFile_relocated hr₁ hr₂ hne₁ hne₂ rel).symm

/-- The induction is on the remaining depth: each `main` that is followed ends at one relative path
under both roots. -/
theorem resolveBase_relocated {fuel : Nat} {rel : Bytes}
    (hkept : descend [] (splitSlash rel) = some kept)
    (h : MainsStay r₁ (sourceAt reader r₁).toFileSource fuel (under r₁ rel)) :
    SameTarget r₁ r₂ (resolveBase (sourceAt reader r₁).toFileSource fuel (under r₁ rel)).target
      (resolveBase (sourceAt reader r₂).toFileSource fuel (under r₂ rel)).target := by
  induction fuel generalizing rel kept with
  | zero => exact SameTarget.nothing
  | succ fuel ih =>
      have hindex := @probe_relocated r₁ r₂ reader hr₁ hr₂ hne₁ hne₂ (indexCandidates rel)
      have hdirectory := @isDirectory_relocated r₁ r₂ reader hr₁ hr₂ hne₁ hne₂ rel
      have hpackage := @readPackageJson_relocated r₁ r₂ reader hr₁ hr₂ hne₁ hne₂ rel
      simp only [MainsStay] at h
      simp only [resolveBase, orElse_target_eq]
      rw [extensionCandidates_under] at h ⊢
      rw [extensionCandidates_under]
      apply SameTarget.or (probe_relocated hr₁ hr₂ hne₁ hne₂ _)
      intro hnone
      have hmains := h hnone
      cases hdir : (sourceAt reader r₁).isDirectory (under r₁ rel) with
      | false =>
          rw [hdir] at hdirectory
          simp only [BundleFileSource.toFileSource, hdir, ← hdirectory, Bool.false_eq_true,
            if_false]
          exact SameTarget.nothing
      | true =>
          rw [hdir] at hdirectory
          have hread₁ : (sourceAt reader r₁).toFileSource.readPackageJson (under r₁ rel) =
              (sourceAt reader r₁).readPackageJson (under r₁ rel) := rfl
          have hread₂ : (sourceAt reader r₂).toFileSource.readPackageJson (under r₂ rel) =
              (sourceAt reader r₁).readPackageJson (under r₁ rel) := hpackage.symm
          have hdir₁ : (sourceAt reader r₁).toFileSource.isDirectory (under r₁ rel) = true := hdir
          have hdir₂ : (sourceAt reader r₂).toFileSource.isDirectory (under r₂ rel) = true :=
            hdirectory.symm
          rw [if_pos hdir₁, if_pos hdir₂, hread₁, hread₂]
          simp only [Resolution.consult, indexCandidates_under]
          cases hmain : ((sourceAt reader r₁).readPackageJson (under r₁ rel)).bind packageMain with
          | none => exact hindex
          | some main =>
              obtain ⟨hstays, hnext⟩ := hmains hdir₁ main hmain
              obtain ⟨out, kept', hkept', hjoin⟩ := joinNormalized_under hr₁ hne₁ hkept hstays
              rw [hjoin r₁ hr₁ hne₁] at hnext
              simp only [hjoin r₁ hr₁ hne₁, hjoin r₂ hr₂ hne₂, orElse_target_eq]
              exact (ih hkept' hnext).or fun _ => hindex

end

/-! ### Directories -/

theorem names_nodeModules : Names [ascii "node_modules"] := by decide

variable {segs : List Bytes} {name : Bytes}

theorem pathAppend_absPath (h : Names segs)
    (hname : isAbsolute name = false) :
    pathAppend (absPath segs) name =
      if segs = [] then slash :: name else under segs name := by
  by_cases hne : segs = []
  · subst hne
    have hroot : endsInSlash [slash] = true := by decide
    simp [pathAppend, hname, hroot, absPath, joinSlash]
  · rw [if_neg hne]
    simp only [pathAppend, hname, Bool.false_eq_true, if_false, absPath_not_endsInSlash h hne]
    rfl

theorem pathAppend_directory (h : Names segs)
    (hname : Names [name]) : pathAppend (absPath segs) name = absPath (segs ++ [name]) := by
  rw [pathAppend_absPath h (not_absolute_of_free (hname.free name (by simp)))]
  by_cases hne : segs = []
  · subst hne
    rfl
  · rw [if_neg hne, ← under_join hne (List.cons_ne_nil name [])]
    rfl

/-- A directory under the root, with its separator: joins do not tell the two spellings apart. -/
theorem joinNormalized_directory {r dirs : List Bytes} (hnames : Names (r ++ dirs)) (hne : r ≠ [])
    {m : Bytes} (hm : isAbsolute m = false) :
    joinNormalized (absPath (r ++ dirs)) m = joinNormalized (under r (joinSlash dirs)) m := by
  by_cases hdirs : dirs = []
  · subst hdirs
    rw [List.append_nil] at hnames ⊢
    have hjoin : pathAppend (joinSlash []) m = m := by simp [joinSlash, pathAppend, hm]
    rw [joinNormalized, joinNormalized, pathAppend_absPath hnames hm, if_neg hne,
      pathAppend_under r hm, hjoin]
  · rw [under_join hne hdirs]

theorem normalSegments_directory {r dirs : List Bytes} (hnames : Names (r ++ dirs)) (hne : r ≠ []) :
    normalSegments (under r (joinSlash dirs)) = normalSegments (absPath (r ++ dirs)) := by
  by_cases hdirs : dirs = []
  · subst hdirs
    rw [List.append_nil] at hnames ⊢
    rw [normalSegments_absPath hnames]
    exact normalSegments_trailing hnames
  · rw [under_join hne hdirs]

theorem descend_directory {dirs : List Bytes} (h : Names dirs) :
    descend [] (splitSlash (joinSlash dirs)) = some dirs.reverse := by
  by_cases hdirs : dirs = []
  · subst hdirs
    rfl
  · rw [splitSlash_joinSlash hdirs h.free, descend_plain h.plain, List.append_nil]

section

variable {r₁ r₂ : List Bytes} {reader : BundleReader}
variable (hr₁ : Names r₁) (hr₂ : Names r₂) (hne₁ : r₁ ≠ []) (hne₂ : r₂ ≠ [])

include hr₁ hr₂ hne₁ hne₂

/-- A join from a directory under the root, and the resolution from where it ends. -/
theorem join_relocated {dirs : List Bytes} (hdirs : Names dirs) {m : Bytes}
    (h : JoinStays r₁ (sourceAt reader r₁).toFileSource (absPath (r₁ ++ dirs)) m) :
    SameTarget r₁ r₂
      (resolveFrom (sourceAt reader r₁).toFileSource
        (joinNormalized (absPath (r₁ ++ dirs)) m)).target
      (resolveFrom (sourceAt reader r₂).toFileSource
        (joinNormalized (absPath (r₂ ++ dirs)) m)).target := by
  obtain ⟨⟨hrel, hpassed⟩, hmains⟩ := h
  have hstays : StaysUnder r₁ (under r₁ (joinSlash dirs)) m := by
    refine ⟨hrel, ?_⟩
    rw [normalSegments_directory (hr₁.append hdirs) hne₁]
    exact hpassed
  rw [joinNormalized_directory (hr₁.append hdirs) hne₁ hrel] at hmains ⊢
  rw [joinNormalized_directory (hr₂.append hdirs) hne₂ hrel]
  obtain ⟨out, kept, hkept, hjoin⟩ :=
    joinNormalized_under hr₁ hne₁ (descend_directory hdirs) hstays
  rw [hjoin r₁ hr₁ hne₁] at hmains ⊢
  rw [hjoin r₂ hr₂ hne₂]
  exact resolveBase_relocated hr₁ hr₂ hne₁ hne₂ hkept hmains

end

/-! ### Above the root -/

variable {specifier : Bytes}

section

variable {r : List Bytes} {reader : BundleReader}

/-- A path that goes through a `node_modules` directory above the root is not under the root. -/
theorem identityFor_outside (hr : Names r) {above below more : List Bytes} {p : Bytes}
    (hroot : r = above ++ below) (hbelow : below ≠ []) (hnot : ascii "node_modules" ∉ r)
    (hp : splitSlash p = [] :: (above ++ ascii "node_modules" :: more)) :
    (sourceAt reader r).identityFor p = none := by
  obtain ⟨name, rest, rfl⟩ := List.exists_cons_of_ne_nil hbelow
  have hne : r ≠ [] := by simp [hroot]
  have hother : name ≠ ascii "node_modules" := by
    rintro rfl
    exact hnot (by simp [hroot])
  cases hrel : (sourceAt reader r).identityFor p with
  | none => rfl
  | some rel =>
      -- the names of the path would start with those of the root
      have hsplit : ∃ tail, splitSlash p = [] :: (r ++ tail) := by
        rcases identityFor_cases hrel with ⟨hself, _⟩ | hbehind
        · refine ⟨[], ?_⟩
          rw [hself, List.append_nil]
          exact splitSlash_absPath hr hne
        · refine ⟨splitSlash rel, ?_⟩
          rw [hbehind, rootPrefix_cons hr hne, List.append_assoc, List.singleton_append,
            splitSlash_append, splitSlash_absPath hr hne]
          rfl
      obtain ⟨tail, htail⟩ := hsplit
      rw [hp, hroot, List.append_assoc] at htail
      have hsame := List.append_cancel_left (List.cons.inj htail).2
      exact absurd (List.cons.inj hsame).1.symm hother

theorem resolveBase_outside {src : FileSource} {fuel : Nat} {base : Bytes}
    (hfile : ∀ path ∈ extensionCandidates base, src.isRegularFile path = false)
    (hdir : src.isDirectory base = false) : (resolveBase src fuel base).target = none := by
  cases fuel with
  | zero => rfl
  | succ fuel =>
      have hprobe : (extensionCandidates base).find? src.isRegularFile = none := by
        rw [List.find?_eq_none]
        intro path hpath
        rw [hfile path hpath]
        exact Bool.false_ne_true
      simp only [resolveBase, orElse_target_eq, probe_target, hprobe, hdir, Option.none_or,
        Bool.false_eq_true, if_false]
      rfl

theorem resolveFrom_above (hr : Names r) {above below : List Bytes} (hroot : r = above ++ below)
    (hbelow : below ≠ []) (hnot : ascii "node_modules" ∉ r) {rel : Bytes} :
    (resolveFrom (sourceAt reader r).toFileSource
      (under (above ++ [ascii "node_modules"]) rel)).target = none := by
  have hnames : Names (above ++ [ascii "node_modules"]) := by
    rw [hroot] at hr
    exact hr.left.append names_nodeModules
  have hsplit : splitSlash (absPath (above ++ [ascii "node_modules"])) =
      [] :: (above ++ [ascii "node_modules"]) := splitSlash_absPath hnames (by simp)
  have hunder : ∀ q, (sourceAt reader r).identityFor
      (under (above ++ [ascii "node_modules"]) q) = none := by
    intro q
    apply @identityFor_outside r reader hr above below (splitSlash q) _ hroot hbelow hnot
    rw [under, splitSlash_append, hsplit]
    simp
  apply resolveBase_outside
  · intro path hpath
    rw [extensionCandidates_under] at hpath
    obtain ⟨q, _, rfl⟩ := List.mem_map.mp hpath
    simp only [BundleFileSource.toFileSource, BundleFileSource.isRegularFile, hunder]
  · have htrim : (sourceAt reader r).identityFor
        (trimOneTrailingSlash (under (above ++ [ascii "node_modules"]) rel)) = none := by
      by_cases hrel : rel = []
      · subst hrel
        rw [trim_root]
        exact @identityFor_outside r reader hr above below [] _ hroot hbelow hnot hsplit
      · rw [trim_under hrel]
        exact hunder _
    simp only [BundleFileSource.toFileSource, BundleFileSource.isDirectory, htrim]

theorem nodeModules_above (hr : Names r) (hnot : ascii "node_modules" ∉ r) {specifier : Bytes}
    (hspec : isAbsolute specifier = false) {kept : List Bytes}
    (hkept : descend [] (splitSlash specifier) = some kept) {above below : List Bytes}
    (hroot : r = above ++ below) (hbelow : below ≠ []) :
    (resolveFrom (sourceAt reader r).toFileSource
      (joinNormalized (pathAppend (absPath above) (ascii "node_modules")) specifier)).target =
      none := by
  have habove : Names above := by
    rw [hroot] at hr
    exact hr.left
  have hnames : Names (above ++ [ascii "node_modules"]) := habove.append names_nodeModules
  have hne : above ++ [ascii "node_modules"] ≠ [] := by simp
  obtain ⟨out, hout⟩ : ∃ out, normalUnder specifier = some out := by
    rw [normalUnder, hkept]
    exact ⟨_, rfl⟩
  rw [pathAppend_directory habove names_nodeModules, joinNormalized,
    pathAppend_absPath hnames hspec, if_neg hne, lexicallyNormal_under hnames hne hout]
  exact resolveFrom_above hr hroot hbelow hnot

/-- The walk finds nothing above the root when the specifier stays in each `node_modules`. -/
theorem nodeModulesWalk_above (hr : Names r) (hnot : ascii "node_modules" ∉ r)
    (hspec : isAbsolute specifier = false)
    (hkept : descend [] (splitSlash specifier) = some kept) {above below : List Bytes}
    (hroot : r = above ++ below) (hbelow : below ≠ []) (fuel : Nat) :
    (nodeModulesWalk (sourceAt reader r).toFileSource specifier fuel (absPath above)).target =
      none := by
  induction above using List.reverseRecOn generalizing below fuel with
  | nil =>
      cases fuel with
      | zero => rfl
      | succ fuel =>
          have hparent : parentPath (absPath []) = absPath [] := by decide
          have hhere := @nodeModules_above r reader hr hnot specifier hspec kept hkept [] below
            hroot hbelow
          simp only [nodeModulesWalk, orElse_target_eq, hparent, if_true, apply_ite, hhere]
          simp [Resolution.nothing]
  | append_singleton front name ih =>
      cases fuel with
      | zero => rfl
      | succ fuel =>
          have hnames : Names (front ++ [name]) := by
            rw [hroot] at hr
            exact hr.left
          have hhere := @nodeModules_above r reader hr hnot specifier hspec kept hkept
            (front ++ [name]) below hroot hbelow
          have hup := @ih ([name] ++ below) (by rw [hroot, List.append_assoc]) (by simp) fuel
          simp only [nodeModulesWalk, orElse_target_eq, parentPath_absPath hnames, apply_ite, hhere,
            hup]
          simp [Resolution.nothing]

end

/-! ### The walk -/

theorem filename_ne_nodeModules (h : Names segs)
    (hnot : ascii "node_modules" ∉ segs) :
    (filename (absPath segs) != ascii "node_modules") = true := by
  rcases List.eq_nil_or_concat' segs with rfl | ⟨front, name, rfl⟩
  · decide
  · rw [filename_absPath h, bne_iff_ne]
    rintro rfl
    exact hnot (by simp)

theorem absPath_ne_snoc (h : Names (segs ++ [name])) :
    absPath segs ≠ absPath (segs ++ [name]) := by
  intro heq
  have hsame := absPath_inj h.left h heq
  simp at hsame

theorem nodeModulesWalk_succ (src : FileSource) (specifier : Bytes) (fuel : Nat)
    (h : Names (segs ++ [name])) (hname : name ≠ ascii "node_modules") :
    (nodeModulesWalk src specifier (fuel + 1) (absPath (segs ++ [name]))).target =
      (resolveFrom src
        (joinNormalized (absPath (segs ++ [name] ++ [ascii "node_modules"])) specifier)).target.or
        (nodeModulesWalk src specifier fuel (absPath segs)).target := by
  have hfile : (filename (absPath (segs ++ [name])) != ascii "node_modules") = true := by
    rw [filename_absPath h, bne_iff_ne]
    exact hname
  simp only [nodeModulesWalk, orElse_target_eq, if_pos hfile, parentPath_absPath h,
    if_neg (absPath_ne_snoc h), pathAppend_directory h names_nodeModules]

theorem nodeModulesWalk_skip (src : FileSource) (specifier : Bytes) (fuel : Nat)
    (h : Names (segs ++ [ascii "node_modules"])) :
    (nodeModulesWalk src specifier (fuel + 1) (absPath (segs ++ [ascii "node_modules"]))).target =
      (nodeModulesWalk src specifier fuel (absPath segs)).target := by
  simp only [nodeModulesWalk, orElse_target_eq, filename_absPath h, bne_self_eq_false,
    Bool.false_eq_true, if_false, parentPath_absPath h, if_neg (absPath_ne_snoc h)]
  rfl

theorem walkStays_succ {r : List Bytes} {src : FileSource} {fuel : Nat}
    (hnames : Names (segs ++ [name]))
    (hname : name ≠ ascii "node_modules")
    (h : WalkStays r src specifier (fuel + 1) (absPath (segs ++ [name]))) :
    JoinStays r src (absPath (segs ++ [name] ++ [ascii "node_modules"])) specifier ∧
      ((resolveFrom src
        (joinNormalized (absPath (segs ++ [name] ++ [ascii "node_modules"])) specifier)).target =
          none → WalkStays r src specifier fuel (absPath segs)) := by
  have hfile : (filename (absPath (segs ++ [name])) != ascii "node_modules") = true := by
    rw [filename_absPath hnames, bne_iff_ne]
    exact hname
  simp only [WalkStays, if_pos hfile, pathAppend_directory hnames names_nodeModules,
    parentPath_absPath hnames] at h
  exact ⟨h.1, fun hnone => h.2 hnone (absPath_ne_snoc hnames)⟩

theorem walkStays_skip {r : List Bytes} {src : FileSource} {fuel : Nat}
    (hnames : Names (segs ++ [ascii "node_modules"]))
    (h : WalkStays r src specifier (fuel + 1) (absPath (segs ++ [ascii "node_modules"]))) :
    WalkStays r src specifier fuel (absPath segs) := by
  simp only [WalkStays, filename_absPath hnames, bne_self_eq_false, Bool.false_eq_true, if_false,
    parentPath_absPath hnames] at h
  exact h (absPath_ne_snoc hnames)

/-- The walk above the root has joined the specifier to a `node_modules` there. -/
theorem descend_of_walkStays {r above : List Bytes} (hr : Names r)
    (hroot : r = above ++ [name]) (hnot : ascii "node_modules" ∉ r) {src : FileSource}
    {fuel : Nat} (hfuel : 0 < fuel)
    (h : WalkStays r src specifier fuel (absPath above)) :
    isAbsolute specifier = false ∧ ∃ kept, descend [] (splitSlash specifier) = some kept := by
  obtain ⟨n, rfl⟩ : ∃ n, fuel = n + 1 := ⟨fuel - 1, by omega⟩
  have habove : Names above := by
    rw [hroot] at hr
    exact hr.left
  have hnot' : ascii "node_modules" ∉ above := fun hmem => hnot (by simp [hroot, hmem])
  have hnames := habove.append names_nodeModules
  simp only [WalkStays, if_pos (filename_ne_nodeModules habove hnot'),
    pathAppend_directory habove names_nodeModules] at h
  have hstays := h.1.1
  refine ⟨hstays.1, ?_⟩
  have hbase : normalSegments (absPath (above ++ [ascii "node_modules"])) =
      (above ++ [ascii "node_modules"]) ++ ([] : List Bytes).reverse := by
    rw [normalSegments_absPath hnames]
    simp
  have hdir : r = (above ++ [ascii "node_modules"]).dropLast ++ [name] := by
    rw [List.dropLast_concat, hroot]
  exact descend_of_passed hnames (by simp) (segmentWalk_split _)
    (not_passed_of_stays hstays hbase (List.cons_ne_nil _ _) hdir)

section

variable {r₁ r₂ : List Bytes} {reader : BundleReader}
variable (hr₁ : Names r₁) (hr₂ : Names r₂) (hne₁ : r₁ ≠ []) (hne₂ : r₂ ≠ [])
variable (hnot₁ : ascii "node_modules" ∉ r₁) (hnot₂ : ascii "node_modules" ∉ r₂)

include hr₁ hr₂ hne₁ hne₂ hnot₁ hnot₂

/-- From the root itself the first walk shows that the specifier stays in a `node_modules`, and
neither finds anything further up. -/
theorem nodeModulesWalk_root_relocated {fuel₁ fuel₂ : Nat}
    (hfuel₁ : r₁.length < fuel₁) (hfuel₂ : r₂.length < fuel₂)
    (h : WalkStays r₁ (sourceAt reader r₁).toFileSource specifier fuel₁ (absPath r₁)) :
    SameTarget r₁ r₂
      (nodeModulesWalk (sourceAt reader r₁).toFileSource specifier fuel₁ (absPath r₁)).target
      (nodeModulesWalk (sourceAt reader r₂).toFileSource specifier fuel₂ (absPath r₂)).target := by
  obtain ⟨n₁, rfl⟩ : ∃ n, fuel₁ = n + 1 := ⟨fuel₁ - 1, by omega⟩
  obtain ⟨n₂, rfl⟩ : ∃ n, fuel₂ = n + 1 := ⟨fuel₂ - 1, by omega⟩
  obtain ⟨above₁, name₁, hroot₁⟩ := (List.eq_nil_or_concat' r₁).resolve_left hne₁
  obtain ⟨above₂, name₂, hroot₂⟩ := (List.eq_nil_or_concat' r₂).resolve_left hne₂
  have hname₁ : name₁ ≠ ascii "node_modules" := by
    rintro rfl
    exact hnot₁ (by simp [hroot₁])
  have hname₂ : name₂ ≠ ascii "node_modules" := by
    rintro rfl
    exact hnot₂ (by simp [hroot₂])
  have hnames₁ : Names (above₁ ++ [name₁]) := hroot₁ ▸ hr₁
  have hnames₂ : Names (above₂ ++ [name₂]) := hroot₂ ▸ hr₂
  have hstep₁ :=
    nodeModulesWalk_succ (sourceAt reader r₁).toFileSource specifier n₁ hnames₁ hname₁
  have hstep₂ :=
    nodeModulesWalk_succ (sourceAt reader r₂).toFileSource specifier n₂ hnames₂ hname₂
  rw [← hroot₁] at hstep₁
  rw [← hroot₂] at hstep₂
  rw [hstep₁, hstep₂]
  have hwalk : WalkStays r₁ (sourceAt reader r₁).toFileSource specifier (n₁ + 1)
      (absPath (above₁ ++ [name₁])) := by
    rw [← hroot₁]
    exact h
  obtain ⟨hjoin, hrest⟩ := walkStays_succ hnames₁ hname₁ hwalk
  rw [← hroot₁] at hjoin hrest
  apply (join_relocated hr₁ hr₂ hne₁ hne₂ names_nodeModules hjoin).or
  intro hnone
  have hpos : 0 < n₁ := by
    have hlength := List.length_pos_iff.mpr hne₁
    omega
  obtain ⟨hspec, kept, hkept⟩ := descend_of_walkStays hr₁ hroot₁ hnot₁ hpos (hrest hnone)
  rw [nodeModulesWalk_above hr₁ hnot₁ hspec hkept hroot₁ (List.cons_ne_nil _ _) n₁,
    nodeModulesWalk_above hr₂ hnot₂ hspec hkept hroot₂ (List.cons_ne_nil _ _) n₂]
  exact SameTarget.nothing

/-- Under the root the two walks go up together. -/
theorem nodeModulesWalk_relocated {dirs : List Bytes} (hdirs : Names dirs)
    {fuel₁ fuel₂ : Nat} (hfuel₁ : (r₁ ++ dirs).length < fuel₁)
    (hfuel₂ : (r₂ ++ dirs).length < fuel₂)
    (h : WalkStays r₁ (sourceAt reader r₁).toFileSource specifier fuel₁ (absPath (r₁ ++ dirs))) :
    SameTarget r₁ r₂
      (nodeModulesWalk (sourceAt reader r₁).toFileSource specifier fuel₁
        (absPath (r₁ ++ dirs))).target
      (nodeModulesWalk (sourceAt reader r₂).toFileSource specifier fuel₂
        (absPath (r₂ ++ dirs))).target := by
  induction dirs using List.reverseRecOn generalizing fuel₁ fuel₂ with
  | nil =>
      rw [List.append_nil] at h hfuel₁ hfuel₂ ⊢
      rw [List.append_nil]
      exact nodeModulesWalk_root_relocated hr₁ hr₂ hne₁ hne₂ hnot₁ hnot₂ hfuel₁ hfuel₂ h
  | append_singleton front name ih =>
      obtain ⟨n₁, rfl⟩ : ∃ n, fuel₁ = n + 1 := ⟨fuel₁ - 1, by omega⟩
      obtain ⟨n₂, rfl⟩ : ∃ n, fuel₂ = n + 1 := ⟨fuel₂ - 1, by omega⟩
      have hnames₁ : Names (r₁ ++ front ++ [name]) := by
        rw [List.append_assoc]
        exact hr₁.append hdirs
      have hnames₂ : Names (r₂ ++ front ++ [name]) := by
        rw [List.append_assoc]
        exact hr₂.append hdirs
      rw [← List.append_assoc] at h ⊢
      rw [← List.append_assoc]
      have hup : WalkStays r₁ (sourceAt reader r₁).toFileSource specifier n₁
          (absPath (r₁ ++ front)) → SameTarget r₁ r₂
            (nodeModulesWalk (sourceAt reader r₁).toFileSource specifier n₁
              (absPath (r₁ ++ front))).target
            (nodeModulesWalk (sourceAt reader r₂).toFileSource specifier n₂
              (absPath (r₂ ++ front))).target := by
        apply ih hdirs.left
        · simp only [List.length_append, List.length_cons, List.length_nil] at hfuel₁ ⊢
          omega
        · simp only [List.length_append, List.length_cons, List.length_nil] at hfuel₂ ⊢
          omega
      by_cases hname : name = ascii "node_modules"
      · subst hname
        rw [nodeModulesWalk_skip _ _ _ hnames₁, nodeModulesWalk_skip _ _ _ hnames₂]
        exact hup (walkStays_skip hnames₁ h)
      · obtain ⟨hjoin, hrest⟩ := walkStays_succ hnames₁ hname h
        rw [nodeModulesWalk_succ _ _ _ hnames₁ hname, nodeModulesWalk_succ _ _ _ hnames₂ hname]
        have hsplit : ∀ r : List Bytes, r ++ front ++ [name] ++ [ascii "node_modules"] =
            r ++ (front ++ [name] ++ [ascii "node_modules"]) := by
          intro r
          simp
        rw [hsplit] at hjoin
        rw [hsplit] at hrest
        rw [hsplit, hsplit]
        exact (join_relocated hr₁ hr₂ hne₁ hne₂ (hdirs.append names_nodeModules) hjoin).or
          fun hnone => hup (hrest hnone)

theorem resolveSpecifier_relocated {importer specifier : Bytes}
    (himporter : isValidIdentity importer = true) (hspec : isAbsolute specifier = false)
    (h : JoinsStay r₁ (sourceAt reader r₁).toFileSource (under r₁ importer) specifier) :
    SameTarget r₁ r₂
      (resolveSpecifier (sourceAt reader r₁).toFileSource (under r₁ importer) specifier).target
      (resolveSpecifier (sourceAt reader r₂).toFileSource (under r₂ importer)
        specifier).target := by
  have hid := names_of_isValidIdentity himporter
  obtain ⟨dirs, name, hsplit⟩ :=
    (List.eq_nil_or_concat' (splitSlash importer)).resolve_left (splitSlash_ne_nil importer)
  rw [hsplit] at hid
  have hfrom : ∀ r : List Bytes, Names r → r ≠ [] →
      parentPath (under r importer) = absPath (r ++ dirs) := by
    intro r hr hne
    have hpath : under r importer = absPath (r ++ dirs ++ [name]) := by
      rw [← joinSlash_splitSlash importer, hsplit, under_join hne (by simp), List.append_assoc]
    rw [hpath]
    apply parentPath_absPath
    rw [List.append_assoc]
    exact hr.append hid
  have habs : (specifier.head? == some slash) = false := hspec
  simp only [JoinsStay, hfrom r₁ hr₁ hne₁] at h
  simp only [resolveSpecifier, hfrom r₁ hr₁ hne₁, hfrom r₂ hr₂ hne₂, habs, Bool.false_eq_true,
    if_false]
  cases hrel : isRelative specifier with
  | true =>
      rw [if_pos hrel] at h
      simp only [if_true]
      exact join_relocated hr₁ hr₂ hne₁ hne₂ hid.left h
  | false =>
      rw [if_neg (by simp [hrel])] at h
      simp only [Bool.false_eq_true, if_false]
      exact nodeModulesWalk_relocated hr₁ hr₂ hne₁ hne₂ hnot₁ hnot₂ hid.left
        (length_lt_absPath (hr₁.append hid.left))
        (length_lt_absPath (hr₂.append hid.left)) h

end

/-- The open bundle with a root given by its names. -/
def bundleAt (reader : BundleReader) (r : List Bytes) : OpenBundle := { reader, root := absPath r }

/-- Over every container, for every two roots in normal form other than `/`, neither with a segment
`node_modules`: what `bundle.resolve` answers does not depend on the root. -/
theorem resolve_relocates (napi : Napi) (reader : BundleReader) (r₁ r₂ : List Bytes)
    (hr₁ : Names r₁) (hr₂ : Names r₂) (hne₁ : r₁ ≠ []) (hne₂ : r₂ ≠ [])
    (hnot₁ : ascii "node_modules" ∉ r₁) (hnot₂ : ascii "node_modules" ∉ r₂)
    (importer request : JsString) (himporter : isValidIdentity (napi.toUtf8 importer) = true)
    (hrequest : isAbsolute (napi.toUtf8 request) = false)
    (hjoins : JoinsStay r₁ (bundleAt reader r₁).fileSource.toFileSource
      (absPath r₁ ++ slash :: napi.toUtf8 importer) (napi.toUtf8 request)) :
    (bundleAt reader r₁).bundleResolve napi importer request none =
      (bundleAt reader r₂).bundleResolve napi importer request none := by
  obtain ⟨found, hfound₁, hfound₂⟩ := resolveSpecifier_relocated hr₁ hr₂ hne₁ hne₂ hnot₁ hnot₂
    himporter hrequest hjoins
  have htarget : (bundleAt reader r₁).resolveTarget napi importer request none =
      (bundleAt reader r₂).resolveTarget napi importer request none := by
    have hlookup₁ : (bundleAt reader r₁).resolveTarget napi importer request none =
        (found.map (under r₁)).bind (bundleAt reader r₁).requirableAt := by
      rw [← hfound₁]
      rfl
    have hlookup₂ : (bundleAt reader r₂).resolveTarget napi importer request none =
        (found.map (under r₂)).bind (bundleAt reader r₂).requirableAt := by
      rw [← hfound₂]
      rfl
    rw [hlookup₁, hlookup₂]
    cases found with
    | none => rfl
    | some rel =>
        have hat₁ : (bundleAt reader r₁).fileSource.identityFor (under r₁ rel) = some rel :=
          identityFor_under hr₁ hne₁ rel
        have hat₂ : (bundleAt reader r₂).fileSource.identityFor (under r₂ rel) = some rel :=
          identityFor_under hr₂ hne₂ rel
        simp only [Option.map_some, Option.bind_some, OpenBundle.requirableAt, hat₁, hat₂]
        rfl
  rw [OpenBundle.bundleResolve, OpenBundle.bundleResolve, htarget]
  rfl

/-- Two modules side by side. -/
def pairContainer : Bytes :=
  ((BundleWriter.run
    [.addModule (ascii "index.js") .kJavaScript kRequirable [],
      .addModule (ascii "lib.js") .kJavaScript kRequirable [],
      .setEntry 0]).serialize 7).1

def pairReader : BundleReader where
  data := pairContainer
  header := (BundleHeader.read pairContainer).getD singleModuleHeader

/-- The conversions of ASCII texts. -/
def asciiNapi : Napi where
  toUtf8 s := s
  ofUtf8 s := s

/-- What the container of the two files answers under the roots below. -/
theorem pairReader_answers :
    Check.Accepts (BundleReader.open pairContainer 7) pairReader ∧
      (probe (bundleAt pairReader [ascii "srv"]).fileSource.toFileSource
        (extensionCandidates (ascii "/srv/lib.js"))).target = some (ascii "/srv/lib.js") ∧
      (∀ root ∈ [ascii "/a/../b", ascii "/b"],
        (OpenBundle.mk pairReader root).fileSource.toFileSource.isDirectory
          (ascii "/b/lib.js") = false) ∧
      (OpenBundle.mk pairReader (ascii "/a/../b")).bundleResolve asciiNapi (ascii "index.js")
        (ascii "./lib.js") none ≠
      (OpenBundle.mk pairReader (ascii "/b")).bundleResolve asciiNapi (ascii "index.js")
        (ascii "./lib.js") none := by
  unfold Check.Accepts
  decide +kernel

theorem lib_joins_stay :
    JoinsStay [ascii "srv"] (bundleAt pairReader [ascii "srv"]).fileSource.toFileSource
      (ascii "/srv/index.js") (ascii "./lib.js") := by
  have hrelative : isRelative (ascii "./lib.js") = true := by decide
  have hdir : parentPath (ascii "/srv/index.js") = ascii "/srv" := by decide
  have hpassed : passed (normalSegments (ascii "/srv")).reverse (splitSlash (ascii "./lib.js")) =
      [] := by
    decide
  have hbase : joinNormalized (ascii "/srv") (ascii "./lib.js") = ascii "/srv/lib.js" := by decide
  rw [JoinsStay, hdir, if_pos hrelative, JoinStays, StaysUnder, hpassed, hbase]
  refine ⟨⟨by decide, fun _ hmem => absurd hmem List.not_mem_nil⟩, ?_⟩
  intro hnone
  rw [pairReader_answers.2.1] at hnone
  cases hnone

theorem lib_relocates :
    (bundleAt pairReader [ascii "srv"]).bundleResolve asciiNapi (ascii "index.js")
        (ascii "./lib.js") none =
      (bundleAt pairReader [ascii "opt", ascii "app"]).bundleResolve asciiNapi (ascii "index.js")
        (ascii "./lib.js") none := by
  have hnames : ∀ segs ∈ [[ascii "srv"], [ascii "opt", ascii "app"]], Names segs := by
    intro segs hsegs
    constructor
    · unfold Plain
      revert segs
      decide
    · revert segs
      decide
  exact resolve_relocates asciiNapi pairReader [ascii "srv"] [ascii "opt", ascii "app"]
    (hnames _ (by simp)) (hnames _ (by simp)) (by decide) (by decide) (by decide) (by decide)
    (ascii "index.js") (ascii "./lib.js") (by decide) (by decide) lib_joins_stay

/-- The joins from `index.js` under a root that is spelled with a dot-dot, or not. -/
theorem dotted_joins_stay : ∀ root ∈ [ascii "/a/../b", ascii "/b"],
    JoinsStay [ascii "b"] (OpenBundle.mk pairReader root).fileSource.toFileSource
      (root ++ ascii "/index.js") (ascii "./lib.js") := by
  intro root hroot
  have hrelative : isRelative (ascii "./lib.js") = true := by decide
  have hdir : parentPath (root ++ ascii "/index.js") = root := by
    revert root
    decide
  have hpassed : passed (normalSegments root).reverse (splitSlash (ascii "./lib.js")) = [] := by
    revert root
    decide
  have hbase : joinNormalized root (ascii "./lib.js") = ascii "/b/lib.js" := by
    revert root
    decide
  have hnoDir := pairReader_answers.2.2.1 root hroot
  rw [JoinsStay, hdir, if_pos hrelative, JoinStays, StaysUnder, hpassed, hbase]
  refine ⟨⟨by decide, fun _ hmem => absurd hmem List.not_mem_nil⟩, ?_⟩
  intro _ hisDir
  rw [hnoDir] at hisDir
  cases hisDir

/-- `/a/../b` and `/b` are one directory, but joins are normalized and the root is not: under the
first spelling nothing is found. -/
theorem dotted_root_differs :
    Check.Accepts (BundleReader.open pairContainer 7) pairReader ∧
      (∀ root ∈ [ascii "/a/../b", ascii "/b"],
        isAbsolute root = true ∧ root ≠ [slash] ∧ ascii "node_modules" ∉ splitSlash root ∧
          JoinsStay [ascii "b"] (OpenBundle.mk pairReader root).fileSource.toFileSource
            (root ++ ascii "/index.js") (ascii "./lib.js")) ∧
      (OpenBundle.mk pairReader (ascii "/a/../b")).bundleResolve asciiNapi (ascii "index.js")
        (ascii "./lib.js") none ≠
      (OpenBundle.mk pairReader (ascii "/b")).bundleResolve asciiNapi (ascii "index.js")
        (ascii "./lib.js") none := by
  refine ⟨pairReader_answers.1, ?_, pairReader_answers.2.2.2⟩
  intro root hroot
  have hspelled : isAbsolute root = true ∧ root ≠ [slash] ∧
      ascii "node_modules" ∉ splitSlash root := by
    revert root
    decide
  exact ⟨hspelled.1, hspelled.2.1, hspelled.2.2, dotted_joins_stay root hroot⟩

end HermesNode.Loader
