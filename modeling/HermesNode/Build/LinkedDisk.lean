/-
Module: HermesNode.Build.LinkedDisk
Purpose: A machine whose files lie behind directories with hard and symbolic links, and the answers
  it gives the producer: `stat` follows links, `lstat` does not follow the last one, and two paths
  are the same file when they lead to one inode or one directory.
Trusted boundary: human-reviewed spec (POSIX `stat`, `lstat`, `open`)
Main exports: routeNames, routeOf, LinkedDisk.isSameFile_iff
-/
import HermesNode.Lib.Copies
import HermesNode.Build.Disk

namespace HermesNode.Build

open Links

/-- The names of a path that are not empty. -/
def lookupNames (p : Bytes) : List Bytes := (splitSlash p).filter (· != [])

/-- The names a path looks up. A separator at the end looks up the directory itself. -/
def routeNames (p : Bytes) : List Bytes := lookupNames p ++ if endsInSlash p then [dot] else []

def routeOf (p : Bytes) : Route Bytes where
  fromRoot := isAbsolute p
  names := routeNames p

example : routeNames (ascii "/a//b/") = [ascii "a", ascii "b", ascii "."] := by decide

theorem lookupNames_append (p q : Bytes) : lookupNames (p ++ slash :: q) = lookupNames p ++ lookupNames q := by
  rw [lookupNames, splitSlash_append, List.filter_append]
  rfl

theorem lookupNames_name {name : Bytes} (hname : name ≠ []) (hfree : slash ∉ name) :
    lookupNames name = [name] := by
  simp [lookupNames, splitSlash_of_not_mem hfree, hname]

theorem name_not_endsInSlash {name : Bytes} (hname : name ≠ []) (hfree : slash ∉ name) (p : Bytes) :
    endsInSlash (p ++ name) = false := by
  cases hlast : name.getLast? with
  | none => exact absurd (List.getLast?_eq_none_iff.mp hlast) hname
  | some c =>
      have hc : c ≠ slash := by
        rintro rfl
        exact hfree (List.mem_of_getLast? hlast)
      simp [endsInSlash, List.getLast?_append, hlast, hc]

theorem routeNames_name {p name : Bytes} (hname : name ≠ []) (hfree : slash ∉ name) :
    routeNames (p ++ slash :: name) = lookupNames p ++ [name] := by
  have hend : endsInSlash (p ++ slash :: name) = false := by
    have h := name_not_endsInSlash hname hfree (p ++ [slash])
    simpa using h
  rw [routeNames, hend, lookupNames_append, lookupNames_name hname hfree]
  simp

structure LinkedDisk extends Files Bytes Bytes where
  dot_self : ∀ dir, tree.entry dir dot = some (.directory dir)
  dotDot_directory : ∀ dir, ∃ above, tree.entry dir dotDot = some (.directory above)
  digest : Bytes → Except Bytes NativeDigest
  workingDirectory : Bytes
  workingDirectory_abs : isAbsolute workingDirectory = true ∧ 0 ∉ workingDirectory
  /-- What is reported when no file can be put at a path. -/
  refusal : Bytes → Bytes

namespace LinkedDisk

variable (d : LinkedDisk)

/-- Where a path leads; an empty one leads nowhere. -/
def stat (p : Bytes) : Option Place := if p.isEmpty then none else d.tree.find (routeOf p)

/-- The entry a path stands for, which is not followed if it is a link. -/
def lstat (p : Bytes) : Option (Entry Bytes) :=
  if p.isEmpty then none
  else (d.tree.locate (routeOf p)).bind fun target => d.tree.entry target.1 target.2

def isRegularFile (p : Bytes) : Bool :=
  match d.stat p with
  | some (.file _) => true
  | _ => false

def isDirectory (p : Bytes) : Bool :=
  match d.stat p with
  | some (.directory _) => true
  | _ => false

def readPath (p : Bytes) : Option Bytes :=
  match d.stat p with
  | some (.file inode) => some (d.content inode)
  | some (.directory _) => some []
  | none => none

def isSameFile (p q : Bytes) : Bool :=
  match d.stat p, d.stat q with
  | some a, some b => a == b
  | _, _ => false

def isSymlink (p : Bytes) : Bool :=
  match d.lstat p with
  | some (.link _) => true
  | _ => false

/-- A file can be put where an entry can be, unless a directory is there. -/
def writeError (p : Bytes) : Option Bytes :=
  match d.tree.locate (routeOf p) with
  | none => some (d.refusal p)
  | some target =>
      match d.tree.entry target.1 target.2 with
      | some (.directory _) => some (d.refusal p)
      | _ => none

variable {d}

theorem isSameFile_iff {p q : Bytes} :
    d.isSameFile p q = true ↔ ∃ place, d.stat p = some place ∧ d.stat q = some place := by
  unfold isSameFile
  cases d.stat p with
  | none => simp
  | some a =>
      cases d.stat q with
      | none => simp
      | some b =>
          constructor
          · intro h
            exact ⟨a, rfl, by rw [eq_of_beq h]⟩
          · rintro ⟨place, ha, hb⟩
            cases ha
            cases hb
            exact beq_self_eq_true _

theorem isRegularFile_iff {p : Bytes} :
    d.isRegularFile p = true ↔ ∃ inode, d.stat p = some (.file inode) := by
  unfold isRegularFile
  cases d.stat p with
  | none => simp
  | some place => cases place <;> simp

theorem isDirectory_iff {p : Bytes} :
    d.isDirectory p = true ↔ ∃ id, d.stat p = some (.directory id) := by
  unfold isDirectory
  cases d.stat p with
  | none => simp
  | some place => cases place <;> simp

theorem stat_eq {p : Bytes} (h : p ≠ []) : d.stat p = d.tree.find (routeOf p) := by
  simp [stat, h]

/-- A directory's own name and the one above it lead to directories. -/
theorem walk_dots {name : Bytes} (hname : name = dot ∨ name = dotDot) (left dir : Nat) :
    ∃ id, d.tree.walk left dir [name] = some (.directory id) := by
  have hentry : ∃ id, d.tree.entry dir name = some (.directory id) := by
    rcases hname with rfl | rfl
    · exact ⟨dir, d.dot_self dir⟩
    · exact d.dotDot_directory dir
  obtain ⟨id, hid⟩ := hentry
  cases left with
  | zero => exact ⟨id, by simp [Tree.walk, Tree.scan, hid]⟩
  | succ left => exact ⟨id, by simp [Tree.walk, Tree.scan, hid]⟩

theorem walk_dot (left dir : Nat) :
    d.tree.walk left dir [dot] = some (.directory dir) := by
  cases left with
  | zero => simp [Tree.walk, Tree.scan, d.dot_self dir]
  | succ left => simp [Tree.walk, Tree.scan, d.dot_self dir]

/-- A path that ends in a separator, a dot or a dot-dot looks one of the dots up last. -/
theorem routeNames_of_endsInDirectory {p : Bytes} (hp : p ≠ []) (h : endsInDirectory p = true) :
    ∃ front name, (name = dot ∨ name = dotDot) ∧ routeNames p = front ++ [name] := by
  unfold routeNames
  cases hend : endsInSlash p with
  | true => exact ⟨lookupNames p, dot, Or.inl rfl, rfl⟩
  | false =>
      have hsplit := List.dropLast_append_getLast? (filename p) (l := splitSlash p) (by
        cases hlast : (splitSlash p).getLast? with
        | none => exact absurd (List.getLast?_eq_none_iff.mp hlast) (splitSlash_ne_nil p)
        | some name => simp [filename, hlast])
      have hname : filename p ≠ [] := by
        intro hnil
        rw [hnil] at hsplit
        have hjoin := joinSlash_splitSlash p
        rw [← hsplit] at hjoin
        by_cases hfront : (splitSlash p).dropLast = []
        · rw [hfront] at hjoin
          exact hp hjoin.symm
        · rw [joinSlash_snoc hfront] at hjoin
          rw [← hjoin] at hend
          simp [endsInSlash] at hend
      refine ⟨(splitSlash p).dropLast.filter (· != []), filename p, ?_, ?_⟩
      · simpa [endsInDirectory, hname] using h
      · rw [lookupNames, ← hsplit, List.filter_append]
        simp [hname]

/-- A directory is found with and without a separator behind it. -/
theorem stat_directory_iff {p : Bytes} (hp : p ≠ []) {id : Nat} :
    d.stat p = some (.directory id) ↔
      d.tree.walk d.tree.limit (d.tree.start (isAbsolute p) d.tree.cwd) (lookupNames p) =
        some (.directory id) := by
  rw [stat_eq hp, Tree.find]
  simp only [routeOf, routeNames]
  cases endsInSlash p with
  | false => simp
  | true =>
      have happend := @Tree.walk_append _ d.tree d.tree.limit
        (d.tree.start (isAbsolute p) d.tree.cwd) (lookupNames p) [dot]
      simp only [if_true]
      constructor
      · intro h
        obtain ⟨above, habove⟩ := happend.2 _ (by simp) h
        obtain ⟨left, _, hleft⟩ := happend.1 above habove
        rw [hleft, walk_dot] at h
        rw [habove]
        exact h
      · intro h
        obtain ⟨left, _, hleft⟩ := happend.1 id h
        rw [walk_dot] at hleft
        exact hleft

variable (d) in
/-- The machine as the producer sees it. -/
def disk : Disk where
  isRegularFile := d.isRegularFile
  isDirectory := d.isDirectory
  read := d.readPath
  digest := d.digest
  isSameFile := d.isSameFile
  isSymlink := d.isSymlink
  writeError := d.writeError
  currentPath := .ok d.workingDirectory
  regular_end p h := by
    obtain ⟨inode, hinode⟩ := isRegularFile_iff.mp h
    have hp : p ≠ [] := by
      rintro rfl
      cases hinode
    rw [stat_eq hp, Tree.find] at hinode
    by_contra hdir
    rw [Bool.not_eq_false] at hdir
    obtain ⟨front, name, hname, hroute⟩ := routeNames_of_endsInDirectory hp hdir
    have happend := @Tree.walk_append _ d.tree d.tree.limit
      (d.tree.start (isAbsolute p) d.tree.cwd) front [name]
    simp only [routeOf, hroute] at hinode
    obtain ⟨above, habove⟩ := happend.2 _ (by simp) hinode
    obtain ⟨left, _, hleft⟩ := happend.1 above habove
    obtain ⟨id, hid⟩ := @walk_dots d name hname left above
    rw [hleft, hid] at hinode
    cases hinode
  currentPath_abs p h := by
    cases h
    exact d.workingDirectory_abs
  root_dir := by
    apply isDirectory_iff.mpr
    refine ⟨d.tree.root, (stat_directory_iff (by simp)).mpr ?_⟩
    cases hlimit : d.tree.limit with
    | zero => rfl
    | succ limit => rfl
  trailing_dir p hp := by
    have hnames : lookupNames (p ++ [slash]) = lookupNames p := by
      rw [lookupNames_append p []]
      simp [lookupNames, splitSlash]
    have habs : isAbsolute (p ++ [slash]) = isAbsolute p := by
      cases p with
      | nil => exact absurd rfl hp
      | cons c cs => rfl
    apply Bool.eq_iff_iff.mpr
    rw [isDirectory_iff, isDirectory_iff]
    apply exists_congr
    intro id
    rw [stat_directory_iff (by simp), stat_directory_iff hp, hnames, habs]
  dir_above p name hp hname hfree h := by
    have hfound : ∃ place, d.stat (p ++ slash :: name) = some place := by
      rcases h with hfile | hdir
      · obtain ⟨inode, hinode⟩ := isRegularFile_iff.mp hfile
        exact ⟨_, hinode⟩
      · obtain ⟨id, hid⟩ := isDirectory_iff.mp hdir
        exact ⟨_, hid⟩
    obtain ⟨place, hplace⟩ := hfound
    have habs : isAbsolute (p ++ slash :: name) = isAbsolute p := by
      cases p with
      | nil => exact absurd rfl hp
      | cons c cs => rfl
    rw [stat_eq (by simp), Tree.find] at hplace
    simp only [routeOf, routeNames_name hname hfree, habs, Tree.start] at hplace
    obtain ⟨id, hid⟩ := Tree.walk_append.2 place (by simp) hplace
    exact isDirectory_iff.mpr ⟨id, (stat_directory_iff hp).mpr hid⟩

/-- The entry holds one of the first `count` inodes if it is a file. -/
def fileBelow (count : Nat) : Entry Bytes → Bool
  | .file inode => inode < count
  | _ => true

/-- The machine with the listed directory entries: directory 0 is the root, and what is above a
directory is the root. -/
def ofEntries (entries : List ((Nat × Bytes) × Entry Bytes)) (contents : List Bytes)
    (h : (entries.all fun e => fileBelow contents.length e.2) = true) : LinkedDisk where
  tree := {
    entry := fun dir name =>
      if name = dot then some (.directory dir)
      else if name = dotDot then some (.directory 0)
      else entries.lookup (dir, name)
    root := 0
    cwd := 0
    limit := 40 }
  content inode := contents.getD inode []
  next := contents.length
  bounded := by
    intro dir name inode hentry
    dsimp only at hentry
    split at hentry
    · cases hentry
    · split at hentry
      · cases hentry
      · obtain ⟨front, rest, hentries, _⟩ := List.lookup_eq_some_iff.mp hentry
        have hbelow := List.all_eq_true.mp h ((dir, name), .file inode) (by simp [hentries])
        simpa [fileBelow] using hbelow
  dot_self dir := by simp
  dotDot_directory dir := ⟨0, by simp [show dotDot ≠ dot by decide]⟩
  digest path := .error (ascii "cannot open " ++ path)
  workingDirectory := [slash]
  workingDirectory_abs := by decide
  refusal path := ascii "error: cannot open " ++ path

end LinkedDisk

end HermesNode.Build
