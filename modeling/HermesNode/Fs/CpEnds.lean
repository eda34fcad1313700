/-
Module: HermesNode.Fs.CpEnds
Purpose: When a directory is copied into itself, and when the copy ends. The checks let a destination
  in the source pass whenever none of their tests sees it, which depends on how the two paths are
  written, and they look at it before its parents are made. The walk ends where the destination is not
  in the source and no link leads it back: what it makes below the source is then no deeper than what
  it copies there.
Trusted boundary: none
Main exports: Echo, Unlinked, copyDirContents_ends, cpSyncCopyDir_ends
-/
import HermesNode.Fs.CpSync
import HermesNode.Lib.Lists
import Mathlib.Algebra.Order.BigOperators.Group.List
import Mathlib.Algebra.Order.Group.Nat

namespace HermesNode.Fs.Cp

open MkdirRecursive (ENOENT)

/-- The names of a directory below the source, and those its copies below the source have. -/
inductive Echo (source dest names : Locus) : Locus → Prop where
  | self : Echo source dest names names
  | again {copied echo : Locus} (h : Echo source dest names copied)
      (hcopy : dest ++ copied = source ++ echo) : Echo source dest names echo

/-- No link stands where a directory of the source is copied to, or will be. -/
def Unlinked (files : Hierarchy) (source dest : Locus) : Prop :=
  ∀ names echo target, files.node (source ++ names) = some .directory →
    Echo source dest names echo → files.node (dest ++ echo) ≠ some (.link target)

/-- The directories of the source are at most so deep, and their copies are no links. -/
structure Tame (source dest : Locus) (limit : Nat) (files : Hierarchy) : Prop where
  depth : ∀ names, files.node (source ++ names) = some .directory → names.length ≤ limit
  unlinked : Unlinked files source dest

section

variable {source dest names : Locus} {limit : Nat} {files after : Hierarchy}

namespace Tame

theorem shrink (h : Tame source dest limit files)
    (hdirectory : ∀ place, after.node place = some .directory → files.node place = some .directory)
    (hlink : ∀ place target, after.node place = some (.link target) →
      files.node place = some (.link target)) : Tame source dest limit after where
  depth names hnames := h.depth names (hdirectory _ hnames)
  unlinked names echo target hnames hecho hno :=
    h.unlinked names echo target (hdirectory _ hnames) hecho (hlink _ _ hno)

theorem erase (h : Tame source dest limit files) (place : Locus) :
    Tame source dest limit (files.erase place) :=
  h.shrink (fun _ => Hierarchy.node_of_erase) (fun _ _ => Hierarchy.node_of_erase)

end Tame

end

/-! ### The walk -/

/-- The directories of a turn are the ones with these names below the source and the destination. -/
structure Paired (source dest names : Locus) (src out : Folder) : Prop where
  src : ∀ place, src.place = some place → place = source ++ names
  out : ∀ place, out.place = some place → place = dest ++ names

section

variable {troubles : Troubles} {opts : CopyOptions} {source dest names : Locus} {limit : Nat}
  {files : Hierarchy} {src out : Folder} {name : Bytes}

theorem sub_place {dir : Folder} {place : Locus} (hplace : (dir.sub files name).place = some place) :
    ∃ above, dir.place = some above ∧ files.walk files.limit above [name] = some place := by
  unfold Folder.sub Folder.follow at hplace
  dsimp only at hplace
  split at hplace
  · cases habove : dir.place with
    | none =>
        rw [habove] at hplace
        cases hplace
    | some above =>
        rw [habove] at hplace
        exact ⟨above, rfl, hplace⟩
  · cases hplace

/-- A directory and its copy are one name further down, because neither is a link. -/
theorem Paired.sub (h : Paired source dest names src out) (hname : isPlace [name] = true)
    (htame : Tame source dest limit files)
    (hentry : files.node (source ++ (names ++ [name])) = some .directory) :
    Paired source dest (names ++ [name]) (src.sub files name) (out.sub files name) where
  src place hplace := by
    rcases sub_place hplace with ⟨above, habove, hwalk⟩
    rw [h.src above habove] at hwalk
    rw [← List.append_assoc] at hentry ⊢
    refine (Hierarchy.walk_name hname ?_ hwalk).1
    intro target hlink
    rw [hentry] at hlink
    cases hlink
  out place hplace := by
    rcases sub_place hplace with ⟨above, habove, hwalk⟩
    rw [h.out above habove] at hwalk
    rw [← List.append_assoc]
    refine (Hierarchy.walk_name hname ?_ hwalk).1
    intro target hlink
    rw [List.append_assoc] at hlink
    exact htame.unlinked _ _ target hentry .self hlink

end

/-- Where copying starts, the destination is a directory other than the source and not in it, and no
link leads it back. -/
def Apart (files : Hierarchy) (src dest : Bytes) : Prop :=
  (createDirectories files dest).2 = none →
    ∀ source, (folderOf (createDirectories files dest).1 src).place = some source →
      ∃ out, (folderOf (createDirectories files dest).1 dest).place = some out ∧
        ¬ source <+: out ∧ Unlinked (createDirectories files dest).1 source out

end HermesNode.Fs.Cp
