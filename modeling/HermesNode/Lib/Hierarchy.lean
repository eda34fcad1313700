/-
Module: HermesNode.Lib.Hierarchy
Purpose: A hierarchy of directories, files and symbolic links, each known by its names from the root.
  Paths are looked up name by name and links are followed wherever a walk meets them; what a path
  leads to is a place, so two paths denote one thing exactly when their places are equal, and a place
  lies in a directory exactly when the directory's names are a front of its own.
Trusted boundary: human-reviewed spec (POSIX pathname resolution)
Main exports: Node, isPlace, Hierarchy.mem_names
-/
import HermesNode.Build.LinkedDisk
import HermesNode.Lib.Assoc
import Mathlib.Data.List.Dedup

namespace HermesNode

open Build (routeNames)

/-- What is neither a directory nor a regular file nor a link. -/
inductive SpecialFile where
  | socket
  | fifo
  | device
  | unknown
deriving DecidableEq, Repr

inductive Node where
  | directory
  | file (content : Bytes)
  | special (kind : SpecialFile)
  | link (target : Bytes)
deriving DecidableEq, Repr

/-- A place, by its names from the root. -/
abbrev Locus := List Bytes

structure Hierarchy where
  entries : List (Locus × Node)
  /-- The working directory. -/
  cwd : Locus
  /-- How many links one walk follows. -/
  limit : Nat
deriving DecidableEq, Repr

/-- The names of a place are no dots and have no separator in them. -/
def isPlace (place : Locus) : Bool :=
  place.all fun name => name != [] && name != dot && name != dotDot && !name.contains slash

namespace Hierarchy

variable (h : Hierarchy)

/-- What is at a place; the root is always a directory. -/
def node (place : Locus) : Option Node :=
  if place = [] then some .directory
  else if isPlace place then Assoc.find place h.entries
  else none

/-- The name of an entry of the directory. -/
def nameIn (dir place : Locus) : Option Bytes :=
  if place.dropLast = dir then place.getLast? else none

/-- What a directory lists. -/
def names (dir : Locus) : List Bytes :=
  ((h.entries.filterMap fun entry => nameIn dir entry.1).filter fun name =>
    isPlace (dir ++ [name])).dedup

/-- The walk over names up to its first link, and `follow` from there. -/
def scan (follow : Locus → List Bytes → Option Locus) : Locus → List Bytes → Option Locus
  | place, [] => some place
  | place, name :: rest =>
      if h.node place ≠ some .directory then none
      else if name = dot then scan follow place rest
      else if name = dotDot then scan follow place.dropLast rest
      else
        match h.node (place ++ [name]) with
        | none => none
        | some (.link target) =>
            follow (if isAbsolute target then [] else place) (routeNames target ++ rest)
        | some _ => scan follow (place ++ [name]) rest

/-- The walk over names from a place, with a number of links it may follow. -/
def walk : Nat → Locus → List Bytes → Option Locus
  | 0 => h.scan fun _ _ => none
  | limit + 1 => h.scan (walk limit)

/-- Where a path starts. -/
def start (path : Bytes) : Locus := if isAbsolute path then [] else h.cwd

/-- Where a path leads; an empty one leads nowhere. -/
def resolve (path : Bytes) : Option Locus :=
  if path = [] then none else h.walk h.limit (h.start path) (routeNames path)

/-- The place a path stands for, where a link as its last name is not followed. -/
def entryOf (path : Bytes) : Option Locus :=
  match (routeNames path).getLast? with
  | none => h.resolve path
  | some name =>
      if name = dot ∨ name = dotDot then h.resolve path
      else do
        let dir ← h.walk h.limit (h.start path) (routeNames path).dropLast
        if h.node dir = some .directory ∧ (h.node (dir ++ [name])).isSome then some (dir ++ [name])
        else none

def put (place : Locus) (node : Node) : Hierarchy :=
  { h with entries := Assoc.put place node h.entries }

def erase (place : Locus) : Hierarchy :=
  { h with entries := Assoc.remove place h.entries }

variable {h}

theorem node_erase_of_ne {place other : Locus} (hne : other ≠ place) :
    (h.erase place).node other = h.node other := by
  unfold Hierarchy.node
  rw [erase, Assoc.find_remove_of_ne hne]

theorem node_of_erase {place other : Locus} {found : Node}
    (hfound : (h.erase place).node other = some found) : h.node other = some found := by
  by_cases hne : other = place
  · by_cases hroot : other = []
    · rw [Hierarchy.node, if_pos hroot] at hfound ⊢
      exact hfound
    · rw [Hierarchy.node, if_neg hroot, erase, hne, Assoc.find_remove_self, ite_self] at hfound
      cases hfound
  · rw [← hfound, node_erase_of_ne hne]

/-- How the last name of a walk is looked up in the directory that the others lead to. -/
structure LastStep (h : Hierarchy) (dir : Locus) (name : Bytes) (found : Locus) : Prop where
  directory : h.node dir = some .directory
  lookup : name = dot ∨ name = dotDot ∨ (∃ target, h.node (dir ++ [name]) = some (.link target)) ∨
    ((h.node (dir ++ [name])).isSome = true ∧ found = dir ++ [name])

theorem scan_snoc {follow : Locus → List Bytes → Option Locus} {name : Bytes}
    (hfollow : ∀ (place : Locus) (front : List Bytes) (found : Locus),
      follow place (front ++ [name]) = some found →
        ∃ dir, follow place front = some dir ∧ LastStep h dir name found)
    {front : List Bytes} {place found : Locus}
    (hfound : h.scan follow place (front ++ [name]) = some found) :
    ∃ dir, h.scan follow place front = some dir ∧ LastStep h dir name found := by
  induction front generalizing place with
  | nil =>
      rw [List.nil_append, scan] at hfound
      split at hfound
      · cases hfound
      · rename_i hdir
        refine ⟨place, rfl, not_not.mp hdir, ?_⟩
        split_ifs at hfound with hdot hdotDot
        · exact Or.inl hdot
        · exact Or.inr (Or.inl hdotDot)
        · right; right
          cases hnode : h.node (place ++ [name]) with
          | none =>
              rw [hnode] at hfound
              cases hfound
          | some entry =>
              rw [hnode] at hfound
              cases entry with
              | link target => exact Or.inl ⟨target, rfl⟩
              | directory => exact Or.inr ⟨rfl, (Option.some.inj hfound).symm⟩
              | file content => exact Or.inr ⟨rfl, (Option.some.inj hfound).symm⟩
              | special kind => exact Or.inr ⟨rfl, (Option.some.inj hfound).symm⟩
  | cons first front ih =>
      rw [List.cons_append, scan] at hfound
      rw [scan]
      split at hfound
      · cases hfound
      · rename_i hdir
        rw [if_neg hdir]
        split_ifs at hfound ⊢ with hdot hdotDot
        · exact ih hfound
        · exact ih hfound
        · cases hnode : h.node (place ++ [first]) with
          | none =>
              rw [hnode] at hfound
              cases hfound
          | some entry =>
              rw [hnode] at hfound
              cases entry with
              | link target =>
                  dsimp only at hfound ⊢
                  rw [← List.append_assoc] at hfound
                  exact hfollow _ _ _ hfound
              | directory => exact ih hfound
              | file content => exact ih hfound
              | special kind => exact ih hfound

theorem walk_snoc {limit : Nat} {front : List Bytes} {name : Bytes} {place found : Locus}
    (hfound : h.walk limit place (front ++ [name]) = some found) :
    ∃ dir, h.walk limit place front = some dir ∧ LastStep h dir name found := by
  induction limit generalizing place front found with
  | zero => exact scan_snoc (fun _ _ _ hno => by cases hno) hfound
  | succ limit ih => exact scan_snoc (fun place front found hmore => @ih front place found hmore) hfound

theorem ne_dots_of_isPlace {name : Bytes} (hname : isPlace [name] = true) :
    name ≠ dot ∧ name ≠ dotDot := by
  simp only [isPlace, List.all_cons, Bool.and_eq_true, bne_iff_ne] at hname
  exact ⟨hname.1.1.1.2, hname.1.1.2⟩

/-- A proper name that no link has leads to its own place at most. -/
theorem walk_name {limit : Nat} {dir found : Locus} {name : Bytes} (hname : isPlace [name] = true)
    (hlink : ∀ target, h.node (dir ++ [name]) ≠ some (.link target))
    (hfound : h.walk limit dir [name] = some found) :
    found = dir ++ [name] ∧ (h.node found).isSome = true := by
  rcases @walk_snoc h limit [] name dir found hfound with ⟨start, hstart, hstep⟩
  have hsame : start = dir := by cases limit <;> exact (Option.some.inj hstart).symm
  rw [hsame] at hstep
  rcases hstep.lookup with hdot | hdotDot | ⟨target, hno⟩ | ⟨hsome, rfl⟩
  · exact absurd hdot (ne_dots_of_isPlace hname).1
  · exact absurd hdotDot (ne_dots_of_isPlace hname).2
  · exact absurd hno (hlink target)
  · exact ⟨rfl, hsome⟩

end Hierarchy

end HermesNode
