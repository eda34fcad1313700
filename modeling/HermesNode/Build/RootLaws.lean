/-
Module: HermesNode.Build.RootLaws
Purpose: The build root as the greatest of the directories above every file. In the order of paths by
  ancestry the common front of two directories is their meet, so the fold over the files computes
  the meet of all their directories, whatever the order and however often a file is listed. What is
  left of a path behind the root names it.
Trusted boundary: human-reviewed spec (what an ancestor, a directory's path and a file's path are)
Main exports: AtOrAbove, DirectoryPath, commonAncestor_root
-/
import HermesNode.Build.Root

namespace HermesNode.Build

open HermesNode.Bundle Resolve WorkList

/-! ### Ancestry -/

/-- The directory `d` is `e`, or `e` lies somewhere in it. -/
def AtOrAbove (d e : Bytes) : Prop := d = e ∨ Below d e

/-- The path of a directory: absolute, in normal form, and without a separator behind its name. -/
structure DirectoryPath (d : Bytes) : Prop where
  absolute : isAbsolute d = true
  normal : lexicallyNormal d = d
  ending : d = [slash] ∨ filename d ≠ []

/-- The path of a file: absolute, in normal form, and with a name. -/
structure FilePath (p : Bytes) : Prop where
  absolute : isAbsolute p = true
  normal : lexicallyNormal p = p
  named : filename p ≠ []

theorem filename_trailing (p : Bytes) : filename (p ++ [slash]) = [] := by
  rw [filename, splitSlash_append]
  simp [splitSlash]

theorem DirectoryPath.names {d : Bytes} (h : DirectoryPath d) :
    ∃ segs, Names segs ∧ d = absPath segs := by
  have hnormal := lexicallyNormal_normal h.absolute
  rw [h.normal] at hnormal
  cases hnormal with
  | @file segs hsegs => exact ⟨segs, hsegs, rfl⟩
  | @trailing segs hsegs hne =>
      rcases h.ending with hroot | hnamed
      · simp [absPath] at hroot
      · exact absurd (filename_trailing _) hnamed

theorem directoryPath_absPath {segs : List Bytes} (h : Names segs) : DirectoryPath (absPath segs) := by
  refine ⟨rfl, (NormalPath.file h).lexicallyNormal_eq, ?_⟩
  rcases List.eq_nil_or_concat' segs with rfl | ⟨front, seg, rfl⟩
  · exact Or.inl rfl
  · right
    rw [filename_absPath h]
    exact (h.plain seg (by simp)).1

theorem FilePath.names {p : Bytes} (h : FilePath p) :
    ∃ segs name, Names (segs ++ [name]) ∧ p = absPath (segs ++ [name]) := by
  have hdir : DirectoryPath p := ⟨h.absolute, h.normal, Or.inr h.named⟩
  rcases hdir.names with ⟨segs, hsegs, rfl⟩
  rcases List.eq_nil_or_concat' segs with rfl | ⟨front, name, rfl⟩
  · exact absurd rfl h.named
  · exact ⟨front, name, hsegs, rfl⟩

theorem pathAppend_joinSlash {segs rest : List Bytes} (h : Names (segs ++ rest)) (hne : rest ≠ []) :
    pathAppend (absPath segs) (joinSlash rest) = absPath (segs ++ rest) := by
  have hsplit := splitSlash_joinSlash hne h.right.free
  have hplain : Plain (splitSlash (joinSlash rest)) := by
    rw [hsplit]
    exact h.right.plain
  have hrel := plain_not_absolute hplain
  by_cases hsegs : segs = []
  · subst hsegs
    have hroot : endsInSlash [slash] = true := by decide
    simp [pathAppend, hrel, hroot, absPath, joinSlash]
  · have hend := absPath_not_endsInSlash h.left hsegs
    have hsome : (absPath segs).isEmpty = false := rfl
    rw [pathAppend, hrel, hend, hsome, absPath, absPath, joinSlash_append hsegs hne]
    rfl

theorem below_absPath {segs rest : List Bytes} (h : Names (segs ++ rest)) (hne : rest ≠ []) :
    Below (absPath segs) (absPath (segs ++ rest)) := by
  have hsplit := splitSlash_joinSlash hne h.right.free
  have hplain : Plain (splitSlash (joinSlash rest)) := by
    rw [hsplit]
    exact h.right.plain
  rw [← pathAppend_joinSlash h hne]
  exact below_append (plain_ne_nil hplain) (plain_not_absolute hplain)

/-- Over paths in normal form, ancestry is the order of their names by fronts. -/
theorem atOrAbove_absPath {ds es : List Bytes} (hd : Names ds) (he : Names es) :
    AtOrAbove (absPath ds) (absPath es) ↔ ds <+: es := by
  constructor
  · rintro (heq | ⟨rest, _, hrel, heq⟩)
    · rw [absPath_inj hd he heq]
    · by_cases hds : ds = []
      · rw [hds]
        exact List.nil_prefix
      · have hend := absPath_not_endsInSlash hd hds
        have hjoin : absPath es = absPath ds ++ slash :: rest := by
          rw [heq, pathAppend, hrel, hend]
          rfl
        have hsplit := splitAbsPath_absPath he
        rw [hjoin, splitAbsPath, splitSlash_append, List.filter_append] at hsplit
        have hfront := splitAbsPath_absPath hd
        rw [splitAbsPath] at hfront
        rw [← hsplit, hfront]
        exact List.prefix_append _ _
  · rintro ⟨rest, rfl⟩
    by_cases hne : rest = []
    · subst hne
      left
      rw [List.append_nil]
    · exact Or.inr (below_absPath he hne)

theorem AtOrAbove.length_le {d e : Bytes} (h : AtOrAbove d e) : d.length ≤ e.length := by
  rcases h with rfl | ⟨rest, _, hrel, rfl⟩
  · exact Nat.le_refl _
  · rw [pathAppend, hrel]
    split
    · rename_i habs
      cases habs
    · split
      · simp
      · simp

/-! ### The root -/

/-- `root` is the greatest of the directories at or above the directory of every path. -/
structure GreatestCommonDirectory (paths : List Bytes) (root : Bytes) : Prop where
  directory : DirectoryPath root
  above : ∀ p ∈ paths, AtOrAbove root (parentPath p)
  greatest : ∀ d, DirectoryPath d → (∀ p ∈ paths, AtOrAbove d (parentPath p)) →
    AtOrAbove d root ∧ d.length ≤ root.length

theorem AtOrAbove.antisymm {d e : Bytes} (h : AtOrAbove d e) (h' : AtOrAbove e d) : d = e := by
  rcases h with heq | ⟨rest, hne, hrel, heq⟩
  · exact heq
  · have hlen := h'.length_le
    rw [heq, pathAppend_relative d hrel] at hlen
    have hlonger : d.length ≤ (pathAppend d []).length := by
      simp only [pathAppend]
      split
      · rename_i habs
        cases habs
      · split <;> simp
    have hsome := List.length_pos_of_ne_nil hne
    simp only [List.length_append] at hlen
    omega

/-- There is one greatest common directory, whatever the order of the files. -/
theorem GreatestCommonDirectory.unique {paths paths' : List Bytes} {root root' : Bytes}
    (h : GreatestCommonDirectory paths root) (h' : GreatestCommonDirectory paths' root')
    (hsame : ∀ p, p ∈ paths' ↔ p ∈ paths) : root' = root := by
  apply AtOrAbove.antisymm
  · exact (h.greatest root' h'.directory fun p hp => h'.above p ((hsame p).mpr hp)).1
  · exact (h'.greatest root h.directory fun p hp => h.above p ((hsame p).mp hp)).1

theorem FilePath.liesIn {p : Bytes} (h : FilePath p) : ∃ segs, LiesIn p segs := by
  rcases h.names with ⟨segs, name, hnames, rfl⟩
  exact ⟨segs, liesIn_name hnames⟩

theorem commonAncestor_greatest {paths : List Bytes} (hne : paths ≠ [])
    (hfiles : ∀ p ∈ paths, FilePath p) :
    GreatestCommonDirectory paths (commonAncestor paths) := by
  rcases commonAncestor_spec hne fun p hp => (hfiles p hp).liesIn with ⟨r, hr, hroot, hmeet⟩
  rw [hroot]
  refine ⟨directoryPath_absPath hr, ?_, ?_⟩
  · intro p hp
    rcases (hfiles p hp).liesIn with ⟨segs, hsegs⟩
    rw [hsegs.parent, atOrAbove_absPath hr hsegs.names]
    exact (hmeet r).mp List.prefix_rfl p hp segs hsegs
  · intro d hd habove
    rcases hd.names with ⟨front, hfront, rfl⟩
    have hle : AtOrAbove (absPath front) (absPath r) := by
      rw [atOrAbove_absPath hfront hr, hmeet]
      intro p hp segs hsegs
      have hp' := habove p hp
      rwa [hsegs.parent, atOrAbove_absPath hfront hsegs.names] at hp'
    exact ⟨hle, hle.length_le⟩

/-- A file behind a directory at or above its own: the names between them and the file's. -/
theorem FilePath.behind {root p : Bytes} (h : FilePath p) (hroot : DirectoryPath root)
    (habove : AtOrAbove root (parentPath p)) :
    ∃ r rest, Names (r ++ rest) ∧ rest ≠ [] ∧ root = absPath r ∧ p = absPath (r ++ rest) := by
  rcases hroot.names with ⟨r, hr, rfl⟩
  rcases h.names with ⟨segs, name, hnames, rfl⟩
  rw [parentPath_absPath hnames, atOrAbove_absPath hr hnames.left] at habove
  rcases habove with ⟨rest, rfl⟩
  rw [List.append_assoc] at hnames ⊢
  exact ⟨r, rest ++ [name], hnames, by simp, rfl, rfl⟩

/-- The root is the greatest directory above all the files, by the set of these alone; every file
lies below it, and its identity joined to the root is the file again. -/
theorem commonAncestor_root {paths : List Bytes} (hne : paths ≠ [])
    (hfiles : ∀ p ∈ paths, FilePath p) :
    GreatestCommonDirectory paths (commonAncestor paths) ∧
    (∀ paths' : List Bytes, (∀ p, p ∈ paths' ↔ p ∈ paths) →
      commonAncestor paths' = commonAncestor paths) ∧
    (∀ p ∈ paths, Below (commonAncestor paths) p) ∧
    Set.InjOn (identityOf (commonAncestor paths)) {p | p ∈ paths} ∧
    ∀ p ∈ paths, pathAppend (commonAncestor paths) (identityOf (commonAncestor paths) p) = p ∧
      posixJoin (commonAncestor paths) (identityOf (commonAncestor paths) p) = p := by
  have hroot := commonAncestor_greatest hne hfiles
  have hbehind : ∀ p ∈ paths, ∃ r rest, Names (r ++ rest) ∧ rest ≠ [] ∧
      commonAncestor paths = absPath r ∧ p = absPath (r ++ rest) := by
    intro p hp
    exact (hfiles p hp).behind hroot.directory (hroot.above p hp)
  have hjoin : ∀ p ∈ paths,
      pathAppend (commonAncestor paths) (identityOf (commonAncestor paths) p) = p ∧
      posixJoin (commonAncestor paths) (identityOf (commonAncestor paths) p) = p := by
    intro p hp
    rcases hbehind p hp with ⟨r, rest, hnames, hrest, hr, rfl⟩
    have hsplit := splitSlash_joinSlash hrest hnames.right.free
    have hplain : Plain (splitSlash (joinSlash rest)) := by
      rw [hsplit]
      exact hnames.right.plain
    rw [hr, identityOf, lexicallyRelative_absPath hnames hrest,
      (NormalPath.file hnames.left).posixJoin_eq hplain, pathAppend_joinSlash hnames hrest]
    exact ⟨rfl, rfl⟩
  refine ⟨hroot, ?_, ?_, ?_, hjoin⟩
  · intro paths' hsame
    have hne' : paths' ≠ [] := by
      rcases List.exists_mem_of_ne_nil paths hne with ⟨p, hp⟩
      exact List.ne_nil_of_mem ((hsame p).mpr hp)
    have hfiles' : ∀ p ∈ paths', FilePath p := fun p hp => hfiles p ((hsame p).mp hp)
    exact hroot.unique (commonAncestor_greatest hne' hfiles') hsame
  · intro p hp
    rcases hbehind p hp with ⟨r, rest, hnames, hrest, hr, rfl⟩
    rw [hr]
    exact below_absPath hnames hrest
  · intro p hp q hq heq
    rw [← (hjoin p hp).1, heq, (hjoin q hq).1]

/-- Two directories the name of one of which starts with that of the other. -/
theorem commonAncestor_root_siblings :
    commonAncestor [ascii "/lib/ab/x.js", ascii "/lib/a/y.js"] = ascii "/lib" ∧
    GreatestCommonDirectory [ascii "/lib/ab/x.js", ascii "/lib/a/y.js"] (ascii "/lib") := by
  have hfiles : ∀ p ∈ [ascii "/lib/ab/x.js", ascii "/lib/a/y.js"], FilePath p := by
    simp only [List.forall_mem_cons, List.not_mem_nil, false_imp_iff, implies_true, and_true]
    exact ⟨⟨by decide, by decide, by decide⟩, ⟨by decide, by decide, by decide⟩⟩
  have hroot : commonAncestor [ascii "/lib/ab/x.js", ascii "/lib/a/y.js"] = ascii "/lib" := by
    decide
  have hgreatest := (commonAncestor_root (by simp) hfiles).1
  rw [hroot] at hgreatest
  exact ⟨hroot, hgreatest⟩

end HermesNode.Build
