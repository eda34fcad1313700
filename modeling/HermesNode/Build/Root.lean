/-
Module: HermesNode.Build.Root
Purpose: The build root and the identities relative to it. A walked path is a name in a directory, or
  (when a NUL is in it) may also end in a separator; a recorded `package.json` is a name in a
  directory too, but for the one of the root directory, whose path has a doubled separator. The root
  is the greatest common front of the directories, so an identity is what is left of a path's names.
Trusted boundary: none
Main exports: prefix_foldl_commonFront, identityOf_name, isValidIdentity_joinSlash
-/
import HermesNode.Build.Closure

namespace HermesNode.Build

open HermesNode.Bundle Resolve WorkList

/-! ### The common ancestor -/

theorem commonFront_starts (xs ys : List Bytes) :
    commonFront xs ys <+: xs ∧ commonFront xs ys <+: ys := by
  induction xs generalizing ys with
  | nil => exact ⟨List.prefix_rfl, List.nil_prefix⟩
  | cons x xs ih =>
      cases ys with
      | nil => exact ⟨List.nil_prefix, List.prefix_rfl⟩
      | cons y ys =>
          by_cases heq : x = y
          · subst heq
            rcases ih ys with ⟨hxs, hys⟩
            simp only [commonFront, if_true]
            exact ⟨(List.prefix_cons_inj x).mpr hxs, (List.prefix_cons_inj x).mpr hys⟩
          · simp [commonFront, heq]

theorem prefix_commonFront_iff {front xs ys : List Bytes} :
    front <+: commonFront xs ys ↔ front <+: xs ∧ front <+: ys := by
  constructor
  · intro h
    exact ⟨h.trans (commonFront_starts xs ys).1, h.trans (commonFront_starts xs ys).2⟩
  · rintro ⟨⟨moreX, rfl⟩, ⟨moreY, rfl⟩⟩
    induction front with
    | nil => exact List.nil_prefix
    | cons x front ih =>
        simp only [List.cons_append, commonFront, if_true]
        exact (List.prefix_cons_inj x).mpr ih

/-- The fold over a list of directories computes their meet. -/
theorem prefix_foldl_commonFront {front first : List Bytes} {rest : List (List Bytes)} :
    front <+: rest.foldl commonFront first ↔ ∀ segs ∈ first :: rest, front <+: segs := by
  induction rest generalizing first with
  | nil => simp
  | cons next rest ih =>
      rw [List.foldl_cons, ih]
      simp only [List.forall_mem_cons, prefix_commonFront_iff, and_assoc]

theorem splitAbsPath_absPath {segs : List Bytes} (h : Names segs) :
    splitAbsPath (absPath segs) = segs := by
  by_cases hne : segs = []
  · subst hne
    decide
  · rw [splitAbsPath, splitSlash_absPath h hne]
    simp only [bne_self_eq_false, Bool.false_eq_true, not_false_eq_true, List.filter_cons_of_neg]
    rw [List.filter_eq_self]
    intro seg hseg
    simpa using (h.plain seg hseg).1

theorem flatMap_slash {segs : List Bytes} (hne : segs ≠ []) :
    segs.flatMap (slash :: ·) = absPath segs := by
  induction segs with
  | nil => exact absurd rfl hne
  | cons seg rest ih =>
      by_cases hrest : rest = []
      · subst hrest
        simp [absPath, joinSlash]
      · rw [List.flatMap_cons, ih hrest, absPath, absPath, joinSlash_cons hrest]
        rfl

/-- The directory `p` lies in is that of the names `segs`. -/
structure LiesIn (p : Bytes) (segs : List Bytes) : Prop where
  names : Names segs
  parent : parentPath p = absPath segs

theorem LiesIn.unique {p : Bytes} {segs segs' : List Bytes} (h : LiesIn p segs)
    (h' : LiesIn p segs') : segs = segs' :=
  absPath_inj h.names h'.names (h.parent.symm.trans h'.parent)

/-- The common ancestor of paths with proper directories is the greatest common front of these. -/
theorem commonAncestor_spec {paths : List Bytes} (hne : paths ≠ [])
    (hdirs : ∀ p ∈ paths, ∃ segs, LiesIn p segs) :
    ∃ r, Names r ∧ commonAncestor paths = absPath r ∧
      ∀ front, front <+: r ↔ ∀ p ∈ paths, ∀ segs, LiesIn p segs → front <+: segs := by
  cases paths with
  | nil => exact absurd rfl hne
  | cons p rest =>
      let dirOf (q : Bytes) : List Bytes := splitAbsPath (parentPath q)
      have hdir : ∀ q segs, LiesIn q segs → dirOf q = segs := by
        intro q segs hq
        show splitAbsPath (parentPath q) = segs
        rw [hq.parent, splitAbsPath_absPath hq.names]
      have hmeet : ∀ front, front <+: (rest.map dirOf).foldl commonFront (dirOf p) ↔
          ∀ q ∈ p :: rest, ∀ segs, LiesIn q segs → front <+: segs := by
        intro front
        rw [prefix_foldl_commonFront, ← List.map_cons, List.forall_mem_map]
        refine forall₂_congr fun q hq => ?_
        constructor
        · intro h segs hsegs
          rw [← hdir q segs hsegs]
          exact h
        · intro h
          rcases hdirs q hq with ⟨segs, hsegs⟩
          rw [hdir q segs hsegs]
          exact h segs hsegs
      refine ⟨(rest.map dirOf).foldl commonFront (dirOf p), ?_, ?_, hmeet⟩
      · rcases hdirs p List.mem_cons_self with ⟨segs, hsegs⟩
        rcases (hmeet _).mp List.prefix_rfl p List.mem_cons_self segs hsegs with ⟨tail, htail⟩
        have hnames := hsegs.names
        rw [← htail] at hnames
        exact hnames.left
      · simp only [commonAncestor, List.map_cons]
        split
        · rename_i hnil
          rw [show (rest.map dirOf).foldl commonFront (dirOf p) = [] from hnil]
          rfl
        · rename_i hsome
          exact flatMap_slash hsome

/-! ### Paths and their directories -/

def packageName : Bytes := ascii "package.json"

theorem names_packageName : Names [packageName] := by
  constructor
  · intro seg hseg
    rw [List.mem_singleton.mp hseg]
    decide
  · intro seg hseg
    rw [List.mem_singleton.mp hseg]
    decide

/-- The path recorded for the `package.json` of the root directory. -/
def rootPackagePath : Bytes := ascii "//package.json"

theorem names_ne_rootPackagePath {segs : List Bytes} (h : Names segs) :
    absPath segs ≠ rootPackagePath := by
  intro heq
  have hne : segs ≠ [] := by
    rintro rfl
    exact absurd heq (by decide)
  have hsplit := splitSlash_absPath h hne
  have hempty : splitSlash rootPackagePath = [[], [], packageName] := by decide
  rw [heq, hempty] at hsplit
  have hmem : [] ∈ segs := by
    rw [← (List.cons.inj hsplit).2]
    simp
  exact absurd rfl (h.plain [] hmem).1

theorem rootPackagePath_liesIn : LiesIn rootPackagePath [] := ⟨names_nil, by decide⟩

theorem liesIn_name {segs : List Bytes} {name : Bytes} (h : Names (segs ++ [name])) :
    LiesIn (absPath (segs ++ [name])) segs :=
  ⟨h.left, parentPath_absPath h⟩

/-- The directory a consulted path is, and the path recorded for its `package.json`. -/
theorem recordedPath_cases {dir : Bytes} (h : NormalPath dir) :
    (dir = [slash] ∧ trimOneTrailingSlash dir ++ ascii "/package.json" = rootPackagePath) ∨
    ∃ segs, Names segs ∧ segs ≠ [] ∧ (dir = absPath segs ∨ dir = absPath segs ++ [slash]) ∧
      trimOneTrailingSlash dir ++ ascii "/package.json" = absPath (segs ++ [packageName]) := by
  have hname : ascii "/package.json" = slash :: packageName := by decide
  cases h with
  | @file segs hsegs =>
      by_cases hne : segs = []
      · subst hne
        exact Or.inl ⟨rfl, by decide⟩
      · refine Or.inr ⟨segs, hsegs, hne, Or.inl rfl, ?_⟩
        have hend := absPath_not_endsInSlash hsegs hne
        rw [absPath_snoc hne, hname]
        simp [trimOneTrailingSlash, hend]
  | @trailing segs hsegs hne =>
      refine Or.inr ⟨segs, hsegs, hne, Or.inr rfl, ?_⟩
      have hend : endsInSlash (absPath segs ++ [slash]) = true := by simp [endsInSlash]
      rw [absPath_snoc hne, hname]
      simp [trimOneTrailingSlash, hend]
      simp [absPath]

variable {disk : Disk} {tools : Toolchain} {start : Start} {opts : Options}

/-- A packaged path is a name in a directory, unless there is a NUL in it. -/
theorem packagedPath_cases {path : Bytes} (hstart : Started disk opts start)
    (h : Packaged disk tools start path) :
    (∃ segs name, Names (segs ++ [name]) ∧ path = absPath (segs ++ [name])) ∨
    (0 ∈ path ∧ ∃ segs, Names segs ∧ segs ≠ [] ∧ path = absPath segs ++ [slash]) := by
  rcases h.file hstart with ⟨hnormal, hregular, _⟩
  have hend := disk.regular_end _ hregular
  cases hnormal with
  | @file segs hsegs =>
      rcases List.eq_nil_or_concat segs with hnil | ⟨front, name, hconcat⟩
      · subst hnil
        exact absurd hend (by decide)
      · rw [List.concat_eq_append] at hconcat
        subst hconcat
        exact Or.inl ⟨front, name, hsegs, rfl⟩
  | @trailing segs hsegs hne =>
      refine Or.inr ⟨?_, segs, hsegs, hne, rfl⟩
      by_contra hnul
      rw [cstr_of_no_nul hnul] at hend
      have hfile : filename (absPath segs ++ [slash]) = [] := by
        rw [filename, splitSlash_append]
        simp [splitSlash]
      simp [endsInDirectory, hfile] at hend

theorem packagedPath_liesIn {path : Bytes} (hstart : Started disk opts start)
    (h : Packaged disk tools start path) : ∃ segs, LiesIn path segs := by
  rcases packagedPath_cases hstart h with ⟨segs, name, hnames, rfl⟩ | ⟨_, segs, hnames, hne, rfl⟩
  · exact ⟨segs, liesIn_name hnames⟩
  · exact ⟨segs, hnames, parentPath_trailing hnames hne⟩

/-! ### Identities -/

theorem identityOf_name {r rest : List Bytes} {name : Bytes} (h : Names (r ++ rest ++ [name])) :
    identityOf (absPath r) (absPath (r ++ rest ++ [name])) = joinSlash (rest ++ [name]) := by
  rw [List.append_assoc] at h ⊢
  exact lexicallyRelative_absPath h (by simp)

theorem isValidIdentity_joinSlash {segs : List Bytes} (h : Names segs) (hne : segs ≠ [])
    (hnul : ∀ seg ∈ segs, 0 ∉ seg) : isValidIdentity (joinSlash segs) = true := by
  have hsplit := splitSlash_joinSlash hne h.free
  have hplain : Plain (splitSlash (joinSlash segs)) := by
    rw [hsplit]
    exact h.plain
  have hrel : ¬ (joinSlash segs).head? = some slash := by
    have hnot := plain_not_absolute hplain
    simpa [isAbsolute] using hnot
  have hzero : 0 ∉ joinSlash segs := by
    intro hmem
    rcases mem_joinSlash hmem with hslash | ⟨seg, hseg, hin⟩
    · exact absurd hslash (by decide)
    · exact hnul seg hseg hin
  have hsegments : (splitSlash (joinSlash segs)).all isValidSegment = true := by
    rw [hsplit, List.all_eq_true]
    intro seg hseg
    rcases h.plain seg hseg with ⟨hnil, hdot, hdotDot⟩
    simp only [isValidSegment, Bool.not_eq_true', Bool.or_eq_false_iff]
    exact ⟨⟨by simpa using hnil, by simpa [dot] using hdot⟩, by simpa [dotDot] using hdotDot⟩
  simp [isValidIdentity, plain_ne_nil hplain, hrel, hzero, hsegments]

end HermesNode.Build
