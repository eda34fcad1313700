/-
Module: HermesNode.Fs.Remove
Purpose: The recursive remove of the `fs` binding. The entries below a directory are recorded by a
  traversal with an explicit stack, and removed in the opposite order. A call that can be carried out
  removes the entry its path stands for and all that lies below it in the tree of directories, every
  directory after its entries, and nothing else; it looks into no directory that it reaches through a
  link. It can be carried out when the path does not lead through what it removes.
Trusted boundary: human-reviewed spec (transcribed from `lib/bindings/node_file.cpp`; POSIX pathname
  resolution, `lstat`, `scandir`, `unlink` and `rmdir`, without permissions; the order in which
  `scandir` lists names and whether it reports types are parameters)
Main exports: Volume, Volume.scandir, rmSync_removes
-/
import HermesNode.Lib.Lists
import HermesNode.Lib.Traversal
import HermesNode.Build.LinkedDisk
import HermesNode.Fs.Utf8FastPath

namespace HermesNode.Fs

open Build (routeOf routeNames lookupNames routeNames_name name_not_endsInSlash)
open Links
open Utf8 (UVException ENOENT)

/-! ### The system -/

/-- Directories that form trees. `names` is what `scandir` lists; the dots are entries too, but are not
listed. `typed` tells whether the type of an entry is reported with its name. -/
structure Volume where
  tree : Links.Tree Bytes
  names : Nat → List Bytes
  typed : Nat → Bytes → Bool
  /-- Why a path leads nowhere. -/
  lost : Bytes → Nat
  /-- How deep a directory is, from below. -/
  rank : Nat → Nat
  listed : ∀ {dir name}, name ∈ names dir ↔
    tree.entry dir name ≠ none ∧ name ≠ dot ∧ name ≠ dotDot
  nodup : ∀ dir, (names dir).Nodup
  plain : ∀ {dir name}, name ∈ names dir → name ≠ [] ∧ slash ∉ name
  one_place : ∀ {dir dir' name name' id}, name ∈ names dir → name' ∈ names dir' →
    tree.entry dir name = some (.directory id) → tree.entry dir' name' = some (.directory id) →
    dir = dir' ∧ name = name'
  rank_lt : ∀ {dir name id}, name ∈ names dir → tree.entry dir name = some (.directory id) →
    rank id < rank dir

namespace Volume

variable (v : Volume)

/-- `uv_dirent_type_t`, as far as it is told apart. -/
inductive DirentType where
  | unknown
  | file
  | dir
  | link
deriving Repr, DecidableEq

def direntType (dir : Nat) (name : Bytes) : DirentType :=
  if v.typed dir name then
    match v.tree.entry dir name with
    | some (.directory _) => .dir
    | some (.link _) => .link
    | _ => .file
  else .unknown

def EISDIR : Nat := 21

def ENOTDIR : Nat := 20

def ENOTEMPTY : Nat := 39

def EINVAL : Nat := 22

/-- The directory and the name a path stands for. -/
def place (path : Bytes) : Except Nat (Nat × Bytes) :=
  if path = [] then .error ENOENT
  else
    match v.tree.locate (routeOf path) with
    | some place => .ok place
    | none => .error (v.lost path)

def lstat (path : Bytes) : Except Nat (Entry Bytes) := do
  let (dir, name) ← v.place path
  match v.tree.entry dir name with
  | some entry => .ok entry
  | none => .error ENOENT

/-- The directory a path leads to, and what it lists. -/
def scandir (path : Bytes) : Except Nat (Nat × List (Bytes × DirentType)) :=
  if path = [] then .error ENOENT
  else
    match v.tree.find (routeOf path) with
    | some (.directory id) => .ok (id, (v.names id).map fun name => (name, v.direntType id name))
    | some (.file _) => .error ENOTDIR
    | none => .error (v.lost path)

/-- The volume without an entry. -/
def erase (dir : Nat) (name : Bytes) : Volume where
  tree := v.tree.without fun d n => decide (d = dir ∧ n = name)
  names d := (v.names d).filter fun n => !decide (d = dir ∧ n = name)
  typed := v.typed
  lost := v.lost
  rank := v.rank
  listed := by
    intro d n
    by_cases h : d = dir ∧ n = name
    · simp [Tree.without, h]
    · have hother : decide (d = dir ∧ n = name) = false := decide_eq_false h
      simp only [List.mem_filter, Tree.without, hother, Bool.not_false, and_true,
        Bool.false_eq_true, ↓reduceIte, v.listed]
  nodup d := (v.nodup d).filter _
  plain h := v.plain (List.mem_of_mem_filter h)
  one_place h h' hentry hentry' := by
    simp only [Tree.without, Option.ite_none_left_eq_some] at hentry hentry'
    exact v.one_place (List.mem_of_mem_filter h) (List.mem_of_mem_filter h') hentry.2 hentry'.2
  rank_lt h hentry := by
    simp only [Tree.without, Option.ite_none_left_eq_some] at hentry
    exact v.rank_lt (List.mem_of_mem_filter h) hentry.2

/-- The volume after `unlink`, and the entry that is gone. -/
def unlink (path : Bytes) : Except Nat (Volume × Nat × Bytes) := do
  let (dir, name) ← v.place path
  match v.tree.entry dir name with
  | none => .error ENOENT
  | some (.directory _) => .error EISDIR
  | some _ => .ok (v.erase dir name, dir, name)

/-- The volume after `rmdir`, and the entry that is gone. -/
def rmdir (path : Bytes) : Except Nat (Volume × Nat × Bytes) := do
  let (dir, name) ← v.place path
  if name = dot ∨ name = dotDot then .error EINVAL
  else
    match v.tree.entry dir name with
    | none => .error ENOENT
    | some (.directory id) =>
        if v.names id = [] then .ok (v.erase dir name, dir, name) else .error ENOTEMPTY
    | some _ => .error ENOTDIR

end Volume

open Volume (DirentType)

/-! ### The call -/

/-- What a call does to the system. -/
inductive Access where
  | scanned (dir : Nat)
  | removed (dir : Nat) (name : Bytes)
deriving Repr, DecidableEq

/-- The volume a call leaves, what it did in order, and whether it throws. -/
structure RmOutcome where
  volume : Volume
  accesses : List Access
  result : Except UVException Unit

/-- Whether an entry is removed as a directory: what its type says, and `lstat` without one. -/
def isDirEntry (v : Volume) (childPath : Bytes) : DirentType → Bool
  | .dir => true
  | .unknown =>
      match v.lstat childPath with
      | .ok (.directory _) => true
      | _ => false
  | .file | .link => false

/-- The loop over what `scandir` lists: the stack, whose top is the head, and `entries`. -/
def scanEntries (v : Volume) (dir : Bytes) : List (Bytes × DirentType) → List Bytes →
    List (Bytes × Bool) → List Bytes × List (Bytes × Bool)
  | [], stack, entries => (stack, entries)
  | (name, type) :: rest, stack, entries =>
      let childPath := dir ++ slash :: name
      if isDirEntry v childPath type then
        scanEntries v dir rest (childPath :: stack) (entries ++ [(childPath, true)])
      else scanEntries v dir rest stack (entries ++ [(childPath, false)])

/-- The loop over the stack. -/
def scan (v : Volume) : Nat → List Bytes → List (Bytes × Bool) → List Access →
    Option (Except UVException (List (Bytes × Bool)) × List Access)
  | _, [], entries, accesses => some (.ok entries, accesses)
  | 0, _ :: _, _, _ => none
  | fuel + 1, dir :: stack, entries, accesses =>
      match v.scandir dir with
      | .error errno => some (.error ⟨errno, "scandir", dir⟩, accesses)
      | .ok (id, dirents) =>
          let next := scanEntries v dir dirents stack entries
          scan v fuel next.1 next.2 (accesses ++ [.scanned id])

/-- The loop over `entries`, from the last one on. -/
def removeEntries (v : Volume) : List (Bytes × Bool) → List Access → RmOutcome
  | [], accesses => ⟨v, accesses, .ok ()⟩
  | (path, isDir) :: rest, accesses =>
      match if isDir then v.rmdir path else v.unlink path with
      | .error errno => ⟨v, accesses, .error ⟨errno, if isDir then "rmdir" else "unlink", path⟩⟩
      | .ok (next, dir, name) => removeEntries next rest (accesses ++ [.removed dir name])

/-- `fsRmSync`. -/
def rmSync (v : Volume) (path : Bytes) (recursive : Bool) (fuel : Nat) : Option RmOutcome :=
  if recursive = false then
    match v.unlink path with
    | .error errno =>
        if errno = ENOENT then some ⟨v, [], .ok ()⟩
        else some ⟨v, [], .error ⟨errno, "unlink", path⟩⟩
    | .ok (next, dir, name) => some ⟨next, [.removed dir name], .ok ()⟩
  else
    match v.lstat path with
    | .error errno =>
        if errno = ENOENT then some ⟨v, [], .ok ()⟩
        else some ⟨v, [], .error ⟨errno, "stat", path⟩⟩
    | .ok (.directory _) =>
        match scan v fuel [path] [] [] with
        | none => none
        | some (.error thrown, accesses) => some ⟨v, accesses, .error thrown⟩
        | some (.ok entries, accesses) =>
            let out := removeEntries v entries.reverse accesses
            match out.result with
            | .error _ => some out
            | .ok () =>
                -- the root directory itself
                match out.volume.rmdir path with
                | .error errno => some { out with result := .error ⟨errno, "rmdir", path⟩ }
                | .ok (next, dir, name) =>
                    some ⟨next, out.accesses ++ [.removed dir name], .ok ()⟩
    | .ok _ =>
        match v.unlink path with
        | .error errno => some ⟨v, [], .error ⟨errno, "unlink", path⟩⟩
        | .ok (next, dir, name) => some ⟨next, [.removed dir name], .ok ()⟩

/-! ### Paths of entries -/

section

variable {v : Volume} {path name : Bytes} {dir id : Nat}

theorem place_ok_iff {place : Nat × Bytes} :
    v.place path = .ok place ↔ path ≠ [] ∧ v.tree.locate (routeOf path) = some place := by
  unfold Volume.place
  by_cases hpath : path = []
  · simp [hpath]
  · cases v.tree.locate (routeOf path) with
    | none => simp [hpath]
    | some found => simp [hpath]

/-- The path of a directory leads to it, and with a name behind it stands for that name there. -/
theorem place_child (hplace : v.place path = .ok (dir, name)) (hslash : endsInSlash path = false)
    (hentry : v.tree.entry dir name = some (.directory id)) :
    v.tree.find (routeOf path) = some (.directory id) ∧
      ∀ {child : Bytes}, child ≠ [] → slash ∉ child →
        v.place (path ++ slash :: child) = .ok (id, child) ∧
          endsInSlash (path ++ slash :: child) = false := by
  obtain ⟨hpath, hlocate⟩ := place_ok_iff.mp hplace
  have hfind := Tree.find_of_locate hlocate hentry
  refine ⟨hfind, fun {child} hchild hfree => ⟨?_, ?_⟩⟩
  · have hnames : routeNames path = lookupNames path := by simp [routeNames, hslash]
    have habsolute : isAbsolute (path ++ slash :: child) = isAbsolute path := by
      cases path with
      | nil => exact absurd rfl hpath
      | cons c path => rfl
    refine place_ok_iff.mpr ⟨by simp, ?_⟩
    rw [Tree.find, routeOf, hnames] at hfind
    rw [routeOf, habsolute, routeNames_name hchild hfree, Tree.locate_snoc]
    exact ⟨id, hfind, rfl⟩
  · have hend := name_not_endsInSlash hchild hfree (path ++ [slash])
    simpa using hend

end

/-! ### What lies below a directory -/

variable {name : Bytes} {dir : Nat}

section

variable (v : Volume) (root : Nat)

/-- The directory at some names below `root`, the last name first. -/
def Volume.dirAt : List Bytes → Option Nat
  | [] => some root
  | name :: above =>
      match dirAt above with
      | none => none
      | some dir =>
          match v.tree.entry dir name with
          | some (.directory id) => some id
          | _ => none

variable {v root}

theorem dirAt_cons {above : List Bytes} {id : Nat} :
    v.dirAt root (name :: above) = some id ↔
      ∃ dir, v.dirAt root above = some dir ∧ v.tree.entry dir name = some (.directory id) := by
  rw [Volume.dirAt]
  cases v.dirAt root above with
  | none => simp
  | some dir =>
      cases hentry : v.tree.entry dir name with
      | none => simp [hentry]
      | some entry =>
          cases entry with
          | file inode => simp [hentry]
          | directory id' => simp [hentry]
          | link target => simp [hentry]

variable (v root)

/-- The entries below `root` as a forest. -/
def Volume.forest : Forest (List Bytes) where
  kids node :=
    match v.dirAt root node with
    | some dir => (v.names dir).map (· :: node)
    | none => []
  branches node := (v.dirAt root node).isSome
  rank node :=
    match v.dirAt root node with
    | some dir => v.rank dir + 1
    | none => 0
  leaf := by
    intro node h
    rw [Option.isSome_eq_false_iff, Option.isNone_iff_eq_none] at h
    rw [h]
  rank_lt := by
    intro node kid h
    cases hdir : v.dirAt root node with
    | none => simp [hdir] at h
    | some dir =>
        simp only [hdir, List.mem_map] at h ⊢
        obtain ⟨name, hname, rfl⟩ := h
        cases hid : v.dirAt root (name :: node) with
        | none => exact Nat.succ_pos _
        | some id =>
            obtain ⟨dir', hdir', hentry⟩ := dirAt_cons.mp hid
            rw [hdir] at hdir'
            cases hdir'
            exact Nat.succ_lt_succ (v.rank_lt hname hentry)
  nodup := by
    intro node
    cases v.dirAt root node with
    | none => exact List.nodup_nil
    | some dir => exact (v.nodup dir).map fun _ _ h => (List.cons.inj h).1
  one_parent := by
    intro a b x ha hb
    cases hdir : v.dirAt root a with
    | none => simp [hdir] at ha
    | some dir =>
        cases hdir' : v.dirAt root b with
        | none => simp [hdir'] at hb
        | some dir' =>
            simp only [hdir, List.mem_map] at ha
            simp only [hdir', List.mem_map] at hb
            obtain ⟨name, -, rfl⟩ := ha
            obtain ⟨name', -, heq⟩ := hb
            exact (List.cons.inj heq).2.symm

/-- The path of an entry below `path`. -/
def pathOf (path : Bytes) : List Bytes → Bytes
  | [] => path
  | name :: above => pathOf path above ++ slash :: name

/-- The directory and the name of an entry below `place`. -/
def Volume.spot (place : Nat × Bytes) : List Bytes → Nat × Bytes
  | [] => place
  | name :: above => ((v.dirAt root above).getD 0, name)

/-- An entry is `root`'s own, or lies below it. -/
def Volume.Node (node : List Bytes) : Prop := node = [] ∨ (v.forest root).Under [] node

variable {v root}

theorem mem_kids {node kid : List Bytes} :
    kid ∈ (v.forest root).kids node ↔
      ∃ dir name, v.dirAt root node = some dir ∧ name ∈ v.names dir ∧ kid = name :: node := by
  simp only [Volume.forest]
  cases v.dirAt root node with
  | none => simp
  | some dir => simp [eq_comm]

theorem Node.kid {node kid : List Bytes} (h : v.Node root node)
    (hkid : kid ∈ (v.forest root).kids node) : (v.forest root).Under [] kid := by
  obtain rfl | hunder := h
  · exact .kid hkid
  · exact .deeper hunder hkid

variable {node : List Bytes}

theorem not_under_nil : ¬ (v.forest root).Under node [] := by
  intro h
  have hkid : ∀ {parent}, [] ∉ (v.forest root).kids parent := by
    intro parent hkid
    obtain ⟨dir, name, -, -, heq⟩ := mem_kids.mp hkid
    cases heq
  cases h with
  | kid h => exact hkid h
  | deeper _ h => exact hkid h

/-- An entry below `root` is listed in a directory at `root` or below it. -/
theorem Node.cons {above : List Bytes}
    (h : (v.forest root).Under [] (name :: above)) :
    v.Node root above ∧ ∃ dir, v.dirAt root above = some dir ∧ name ∈ v.names dir := by
  have hparent : ∀ {parent}, name :: above ∈ (v.forest root).kids parent →
      parent = above ∧ ∃ dir, v.dirAt root above = some dir ∧ name ∈ v.names dir := by
    intro parent hkid
    obtain ⟨dir, found, hdir, hname, heq⟩ := mem_kids.mp hkid
    obtain ⟨rfl, rfl⟩ := List.cons.inj heq
    exact ⟨rfl, dir, hdir, hname⟩
  cases h with
  | kid hkid =>
      obtain ⟨rfl, hlisted⟩ := hparent hkid
      exact ⟨Or.inl rfl, hlisted⟩
  | deeper hunder hkid =>
      obtain ⟨rfl, hlisted⟩ := hparent hkid
      exact ⟨Or.inr hunder, hlisted⟩

/-! ### Every entry is found by its path -/

/-- The path of a directory entry without a trailing slash. -/
structure Volume.Rooted (v : Volume) (path : Bytes) (place : Nat × Bytes) (root : Nat) : Prop where
  placed : v.place path = .ok place
  entry : v.tree.entry place.1 place.2 = some (.directory root)
  slashless : endsInSlash path = false

variable {path : Bytes} {place : Nat × Bytes}

theorem spot_cons {above : List Bytes}
    (hdir : v.dirAt root above = some dir) :
    v.spot root place (name :: above) = (dir, name) := by
  simp [Volume.spot, hdir]

theorem Volume.Rooted.entry_dirAt (h : v.Rooted path place root)
    (hdir : v.dirAt root node = some dir) :
    v.tree.entry (v.spot root place node).1 (v.spot root place node).2 =
      some (.directory dir) := by
  cases node with
  | nil =>
      cases hdir
      exact h.entry
  | cons name above =>
      obtain ⟨parent, hparent, hentry⟩ := dirAt_cons.mp hdir
      rw [spot_cons hparent]
      exact hentry

/-- The path of an entry stands for it, also on a volume where only the entries above it are as they
were. -/
theorem Volume.Rooted.place_node (h : v.Rooted path place root) {v' : Volume}
    (hplace : v'.place path = .ok place) (hnode : v.Node root node)
    (hsame : ∀ above, (v.forest root).Under above node →
      v'.tree.entry (v.spot root place above).1 (v.spot root place above).2 =
        v.tree.entry (v.spot root place above).1 (v.spot root place above).2) :
    v'.place (pathOf path node) = .ok (v.spot root place node) ∧
      endsInSlash (pathOf path node) = false := by
  induction node with
  | nil => exact ⟨hplace, h.slashless⟩
  | cons name above ih =>
      obtain hnil | hunder := hnode
      · cases hnil
      · obtain ⟨habove, dir, hdir, hname⟩ := Node.cons hunder
        have hkid : name :: above ∈ (v.forest root).kids above := mem_kids.mpr ⟨dir, name, hdir, hname, rfl⟩
        obtain ⟨hparent, hslash⟩ := ih habove fun other hother => hsame other (.deeper hother hkid)
        have hentry := (hsame above (.kid hkid)).trans (h.entry_dirAt hdir)
        have hplain := v.plain hname
        rw [spot_cons hdir]
        exact (place_child hparent hslash hentry).2 hplain.1 hplain.2

/-- Two entries that are in one place are the same. -/
theorem Volume.Rooted.spot_injective (h : v.Rooted path place root)
    (hlisted : place.2 ∈ v.names place.1) {node other : List Bytes} (hnode : v.Node root node)
    (hother : v.Node root other) (heq : v.spot root place node = v.spot root place other) :
    node = other := by
  have hdeep : ∀ {above : List Bytes} {dir : Nat}, v.Node root above →
      v.dirAt root above = some dir → dir ≠ place.1 := by
    intro above dir habove hdir hsame
    have hroot := v.rank_lt hlisted h.entry
    have hle : v.rank dir ≤ v.rank root := by
      obtain rfl | hunder := habove
      · cases hdir
        exact Nat.le_refl _
      · have hrank := hunder.rank_lt
        simp only [Volume.forest, hdir, Volume.dirAt] at hrank
        omega
    rw [hsame] at hle
    omega
  induction node generalizing other with
  | nil =>
      cases other with
      | nil => rfl
      | cons name above =>
          obtain ⟨habove, dir, hdir, -⟩ := Node.cons (hother.resolve_left (List.cons_ne_nil _ _))
          rw [spot_cons hdir] at heq
          exact absurd (congrArg Prod.fst heq).symm (hdeep habove hdir)
  | cons name above ih =>
      obtain ⟨habove, dir, hdir, -⟩ := Node.cons (hnode.resolve_left (List.cons_ne_nil _ _))
      rw [spot_cons hdir] at heq
      cases other with
      | nil => exact absurd (congrArg Prod.fst heq) (hdeep habove hdir)
      | cons name' above' =>
          obtain ⟨habove', dir', hdir', -⟩ := Node.cons (hother.resolve_left (List.cons_ne_nil _ _))
          rw [spot_cons hdir'] at heq
          obtain ⟨rfl, rfl⟩ := Prod.mk.inj heq
          have hlistedAt : ∀ {x : List Bytes}, v.Node root x →
              (v.spot root place x).2 ∈ v.names (v.spot root place x).1 := by
            intro x hx
            cases x with
            | nil => exact hlisted
            | cons n y =>
                obtain ⟨-, d, hd, hn⟩ := Node.cons (hx.resolve_left (List.cons_ne_nil _ _))
                rw [spot_cons hd]
                exact hn
          have hone := v.one_place (hlistedAt habove) (hlistedAt habove') (h.entry_dirAt hdir)
            (h.entry_dirAt hdir')
          rw [ih habove habove' (Prod.ext hone.1 hone.2)]

/-! ### Recording -/

/-- What is recorded for an entry: its path, and whether it is a directory. -/
def Volume.record (v : Volume) (root : Nat) (path : Bytes) (node : List Bytes) : Bytes × Bool :=
  (pathOf path node, (v.dirAt root node).isSome)

theorem Volume.Rooted.find_node (h : v.Rooted path place root)
    (hnode : v.Node root node) (hdir : v.dirAt root node = some dir) :
    v.tree.find (routeOf (pathOf path node)) = some (.directory dir) ∧
      ∀ name ∈ v.names dir, v.place (pathOf path (name :: node)) = .ok (dir, name) := by
  obtain ⟨hplace, hslash⟩ := h.place_node h.placed hnode fun _ _ => rfl
  obtain ⟨hfind, hchild⟩ := place_child hplace hslash (h.entry_dirAt hdir)
  exact ⟨hfind, fun name hname => (hchild (v.plain hname).1 (v.plain hname).2).1⟩

/-- A reported type and the one `lstat` tells are the same. -/
theorem scanEntries_spec (h : v.Rooted path place root)
    (hnode : v.Node root node) (hdir : v.dirAt root node = some dir)
    {names : List Bytes} (hnames : ∀ name ∈ names, name ∈ v.names dir) (stack : List Bytes)
    (entries : List (Bytes × Bool)) :
    scanEntries v (pathOf path node) (names.map fun name => (name, v.direntType dir name)) stack
        entries =
      (((names.map (· :: node)).filter (v.forest root).branches).reverse.map (pathOf path) ++ stack,
        entries ++ (names.map (· :: node)).map (v.record root path)) := by
  induction names generalizing stack entries with
  | nil => simp [scanEntries]
  | cons name names ih =>
      have hname := hnames name List.mem_cons_self
      have hplace := (h.find_node hnode hdir).2 name hname
      have hrest := fun stack entries =>
        ih (fun n hn => hnames n (List.mem_cons_of_mem _ hn)) stack entries
      obtain ⟨entry, hentry⟩ := Option.ne_none_iff_exists'.mp (v.listed.mp hname).1
      have hlstat : v.lstat (pathOf path node ++ slash :: name) = .ok entry := by
        have hchild : v.place (pathOf path node ++ slash :: name) = .ok (dir, name) := hplace
        simp [Volume.lstat, hchild, hentry, bind, Except.bind]
      have hisDir : isDirEntry v (pathOf path node ++ slash :: name) (v.direntType dir name) =
          (v.dirAt root (name :: node)).isSome := by
        rw [Volume.dirAt, hdir, Volume.direntType]
        cases entry with
        | file inode => cases v.typed dir name <;> simp [isDirEntry, hentry, hlstat]
        | directory id => cases v.typed dir name <;> simp [isDirEntry, hentry, hlstat]
        | link target => cases v.typed dir name <;> simp [isDirEntry, hentry, hlstat]
      rw [List.map_cons, scanEntries, hisDir]
      by_cases hbranch : (v.dirAt root (name :: node)).isSome = true
      · simp [hbranch, hrest, Volume.forest, Volume.record, pathOf]
      · simp [hbranch, hrest, Volume.forest, Volume.record, pathOf]

/-- The loop over the stack is the traversal of what lies below `root`, and looks into directories at
or below `root` only. -/
theorem scan_spec (h : v.Rooted path place root) {fuel : Nat} {stack found noted : List (List Bytes)}
    (hstack : ∀ node ∈ stack, v.Node root node ∧ (v.forest root).branches node = true)
    (hrun : (v.forest root).run fuel stack found = some noted) (accesses : List Access) :
    ∃ more, scan v fuel (stack.map (pathOf path)) (found.map (v.record root path)) accesses =
        some (.ok (noted.map (v.record root path)), accesses ++ more) ∧
      ∀ access ∈ more, ∃ node dir, v.Node root node ∧ v.dirAt root node = some dir ∧
        access = .scanned dir := by
  induction fuel generalizing stack found accesses with
  | zero =>
      cases stack with
      | nil =>
          cases hrun
          exact ⟨[], by simp [scan], by simp⟩
      | cons node stack => cases hrun
  | succ fuel ih =>
      cases stack with
      | nil =>
          cases hrun
          exact ⟨[], by simp [scan], by simp⟩
      | cons node stack =>
          obtain ⟨hnode, hbranch⟩ := hstack node List.mem_cons_self
          obtain ⟨dir, hdir⟩ := Option.isSome_iff_exists.mp hbranch
          have hkids : (v.names dir).map (· :: node) = (v.forest root).kids node := by
            simp [Volume.forest, hdir]
          have hscandir : v.scandir (pathOf path node) =
              .ok (dir, (v.names dir).map fun name => (name, v.direntType dir name)) := by
            have hplace := (h.place_node h.placed hnode fun _ _ => rfl).1
            simp [Volume.scandir, (place_ok_iff.mp hplace).1, (h.find_node hnode hdir).1]
          have hnext : ∀ kid ∈ (v.forest root).pushed node ++ stack,
              v.Node root kid ∧ (v.forest root).branches kid = true := by
            intro kid hkid
            obtain hkid | hkid := List.mem_append.mp hkid
            · obtain ⟨hkid, hbranch⟩ := Forest.mem_pushed.mp hkid
              exact ⟨Or.inr (Node.kid hnode hkid), hbranch⟩
            · exact hstack kid (List.mem_cons_of_mem node hkid)
          obtain ⟨more, hscan, hmore⟩ := ih hnext hrun (accesses ++ [.scanned dir])
          refine ⟨.scanned dir :: more, ?_, ?_⟩
          · rw [List.map_cons, scan, hscandir]
            simp only [scanEntries_spec h hnode hdir (fun _ hname => hname), hkids]
            rw [List.map_append, List.map_append, List.append_assoc] at hscan
            exact hscan
          · intro access haccess
            obtain rfl | haccess := List.mem_cons.mp haccess
            · exact ⟨node, dir, hnode, hdir, rfl⟩
            · exact hmore access haccess

/-! ### Volumes from which entries are gone -/

/-- A later state of a volume, from which some entries are gone and nothing else. -/
def Volume.Cleared (v : Volume) (gone : List (Nat × Bytes)) (v' : Volume) : Prop :=
  v'.tree = v.tree.without fun dir name => decide ((dir, name) ∈ gone)

variable {v' : Volume} {gone : List (Nat × Bytes)}

theorem Volume.Cleared.nil : v.Cleared [] v := by
  simp [Volume.Cleared, Tree.without]

theorem Volume.Cleared.erase (h : v.Cleared gone v') (spot : Nat × Bytes) :
    v.Cleared (spot :: gone) (v'.erase spot.1 spot.2) := by
  unfold Volume.Cleared at h ⊢
  simp only [Volume.erase, h, Tree.without, Tree.mk.injEq, and_self, and_true]
  funext dir name
  by_cases hspot : (dir, name) = spot
  · simp [← hspot]
  · have hother : ¬ (dir = spot.1 ∧ name = spot.2) := fun heq => hspot (Prod.ext heq.1 heq.2)
    simp [hspot, hother]

variable {spot : Nat × Bytes}

theorem Volume.Cleared.entry_gone (h : v.Cleared gone v')
    (hgone : spot ∈ gone) : v'.tree.entry spot.1 spot.2 = none := by
  rw [h]
  simp [Tree.without, hgone]

theorem Volume.Cleared.entry_kept (h : v.Cleared gone v')
    (hgone : spot ∉ gone) : v'.tree.entry spot.1 spot.2 = v.tree.entry spot.1 spot.2 := by
  rw [h]
  simp [Tree.without, hgone]

/-- A directory all of whose entries are gone is empty. -/
theorem Volume.Cleared.names_nil (h : v.Cleared gone v')
    (hgone : ∀ name ∈ v.names dir, (dir, name) ∈ gone) : v'.names dir = [] := by
  refine List.eq_nil_iff_forall_not_mem.mpr fun name hname => ?_
  obtain ⟨hentry, hdots⟩ := v'.listed.mp hname
  by_cases hspot : (dir, name) ∈ gone
  · exact hentry (h.entry_gone hspot)
  · rw [h.entry_kept hspot] at hentry
    exact hspot (hgone name (v.listed.mpr ⟨hentry, hdots⟩))

/-- The walk to the directory of a path meets none of the marked entries. -/
def Volume.Passes (v : Volume) (path : Bytes) (marked : Nat → Bytes → Bool) (dir : Nat) : Prop :=
  v.tree.meet marked v.tree.limit (v.tree.start (isAbsolute path) v.tree.cwd)
    (routeNames path).dropLast = .ends (.directory dir)

/-- A path stands for something on a cleared volume exactly when it does not lead through what is
gone, and then it stands for the same as before. -/
theorem Volume.Cleared.place_iff (h : v.Cleared gone v') :
    v'.place path = .ok place ↔ v.place path = .ok place ∧
      v.Passes path (fun dir name => decide ((dir, name) ∈ gone)) place.1 := by
  have hstart : v'.tree.start (isAbsolute path) v'.tree.cwd =
      v.tree.start (isAbsolute path) v.tree.cwd := by
    rw [h]
    rfl
  have hlimit : v'.tree.limit = v.tree.limit := by
    rw [h]
    rfl
  rcases place with ⟨dir, name⟩
  simp only [place_ok_iff, Tree.locate_eq_some_iff, routeOf, hstart, hlimit, Volume.Passes]
  rw [h]
  simp only [Tree.walk_without]
  have hends : ∀ {m : Tree.Meeting Bytes}, m.left = some (.directory dir) ↔ m = .ends (.directory dir) := by
    intro m
    cases m with
    | lost => simp [Tree.Meeting.left]
    | ends found => simp [Tree.Meeting.left]
    | meets d n rest => simp [Tree.Meeting.left]
  simp only [hends]
  constructor
  · rintro ⟨hpath, names, hnames, hmeet⟩
    have htells := @Tree.meet_tells _ v.tree (fun d n => decide ((d, n) ∈ gone)) v.tree.limit
      (v.tree.start (isAbsolute path) v.tree.cwd) names
    rw [hmeet] at htells
    exact ⟨⟨hpath, names, hnames, htells⟩, by rw [hnames, List.dropLast_concat, hmeet]⟩
  · rintro ⟨⟨hpath, names, hnames, -⟩, hmeet⟩
    rw [hnames, List.dropLast_concat] at hmeet
    exact ⟨hpath, names, hnames, hmeet⟩

/-! ### Removing -/

/-- The entries that lie at or below a place, through directories only. -/
inductive Volume.Within (v : Volume) (place : Nat × Bytes) : Nat × Bytes → Prop
  | self : v.Within place place
  | listed {spot : Nat × Bytes} {dir : Nat} {name : Bytes} (hspot : v.Within place spot)
      (hentry : v.tree.entry spot.1 spot.2 = some (.directory dir)) (hname : name ∈ v.names dir) :
      v.Within place (dir, name)

theorem Volume.Within.trans {a b c : Nat × Bytes} (h : v.Within a b) (h' : v.Within b c) :
    v.Within a c := by
  induction h' with
  | self => exact h
  | listed _ hentry hname ih => exact .listed ih hentry hname

/-- A directory can be removed by its path: its own name is not one of the dots, and the path does not
lead through what lies below it. -/
structure Volume.Removable (v : Volume) (path : Bytes) (place : Nat × Bytes) : Prop where
  proper : place.2 ≠ dot ∧ place.2 ≠ dotDot
  apart : ∃ marked : Nat → Bytes → Bool,
    (∀ spot, v.Within place spot → spot ≠ place → marked spot.1 spot.2 = true) ∧
      v.Passes path marked place.1

theorem Volume.Rooted.dirAt_of_entry (h : v.Rooted path place root)
    (hnode : v.Node root node)
    (hentry : v.tree.entry (v.spot root place node).1 (v.spot root place node).2 =
      some (.directory dir)) : v.dirAt root node = some dir := by
  cases node with
  | nil =>
      cases h.entry.symm.trans hentry
      rfl
  | cons name above =>
      obtain ⟨-, parent, hparent, -⟩ := Node.cons (hnode.resolve_left (List.cons_ne_nil _ _))
      rw [spot_cons hparent] at hentry
      exact dirAt_cons.mpr ⟨parent, hparent, hentry⟩

theorem Volume.Rooted.within_iff (h : v.Rooted path place root) :
    v.Within place spot ↔ ∃ node, v.Node root node ∧ v.spot root place node = spot := by
  constructor
  · intro hwithin
    induction hwithin with
    | self => exact ⟨[], Or.inl rfl, rfl⟩
    | @listed spot dir child hspot hentry hname ih =>
        obtain ⟨node, hnode, rfl⟩ := ih
        have hdir := h.dirAt_of_entry hnode hentry
        exact ⟨child :: node, Or.inr (Node.kid hnode (mem_kids.mpr ⟨dir, child, hdir, hname, rfl⟩)),
          spot_cons hdir⟩
  · rintro ⟨node, hnode, rfl⟩
    induction node with
    | nil => exact .self
    | cons name above ih =>
        obtain ⟨habove, dir, hdir, hname⟩ := Node.cons (hnode.resolve_left (List.cons_ne_nil _ _))
        rw [spot_cons hdir]
        exact .listed (ih habove) (h.entry_dirAt hdir) hname

theorem Volume.Rooted.listed (h : v.Rooted path place root) (hr : v.Removable path place) :
    place.2 ∈ v.names place.1 :=
  v.listed.mpr ⟨by rw [h.entry]; exact Option.some_ne_none _, hr.proper⟩

theorem Volume.Rooted.spot_below (h : v.Rooted path place root) (hr : v.Removable path place)
    (hunder : (v.forest root).Under [] node) :
    v.Within place (v.spot root place node) ∧ v.spot root place node ≠ place := by
  refine ⟨h.within_iff.mpr ⟨node, Or.inr hunder, rfl⟩, fun heq => ?_⟩
  have hnil := h.spot_injective (h.listed hr) (Or.inr hunder) (Or.inl rfl) heq
  exact not_under_nil (hnil ▸ hunder)

/-- While entries below a removable directory are removed, its path stands for it. -/
theorem Volume.Rooted.place_kept (h : v.Rooted path place root) (hr : v.Removable path place)
    (hgone : ∀ spot ∈ gone, v.Within place spot ∧ spot ≠ place) (hcleared : v.Cleared gone v') :
    v'.place path = .ok place := by
  obtain ⟨marked, hmarked, hpass⟩ := hr.apart
  refine hcleared.place_iff.mpr ⟨h.placed, ?_⟩
  refine Tree.meet_ends_of_fewer (fun dir name hmem => ?_) hpass
  obtain ⟨hwithin, hne⟩ := hgone _ (of_decide_eq_true hmem)
  exact hmarked (dir, name) hwithin hne

theorem rmdir_eq {dir id : Nat} (hplace : v.place path = .ok (dir, name))
    (hproper : name ≠ dot ∧ name ≠ dotDot) (hentry : v.tree.entry dir name = some (.directory id))
    (hempty : v.names id = []) : v.rmdir path = .ok (v.erase dir name, dir, name) := by
  simp [Volume.rmdir, hplace, bind, Except.bind, hproper.1, hproper.2, hentry, hempty]

theorem unlink_eq {entry : Entry Bytes}
    (hplace : v.place path = .ok (dir, name)) (hentry : v.tree.entry dir name = some entry)
    (hplain : ∀ id, entry ≠ .directory id) :
    v.unlink path = .ok (v.erase dir name, dir, name) := by
  cases entry with
  | file inode => simp [Volume.unlink, hplace, bind, Except.bind, hentry]
  | directory id => exact absurd rfl (hplain id)
  | link target => simp [Volume.unlink, hplace, bind, Except.bind, hentry]

/-- What the removal of an entry does. -/
def Volume.removal (v : Volume) (root : Nat) (place : Nat × Bytes) (node : List Bytes) : Access :=
  .removed (v.spot root place node).1 (v.spot root place node).2

/-- When everything recorded behind an entry is gone, it can be removed. -/
theorem Volume.Rooted.remove_node (h : v.Rooted path place root) (hr : v.Removable path place)
    {before behind : List (List Bytes)}
    (hnoted : (v.forest root).visit [] = before ++ node :: behind)
    (hcleared : v.Cleared (behind.map (v.spot root place)) v') :
    (if (v.record root path node).2 then v'.rmdir (v.record root path node).1
      else v'.unlink (v.record root path node).1) =
      .ok (v'.erase (v.spot root place node).1 (v.spot root place node).2,
        v.spot root place node) := by
  have hlisted := h.listed hr
  have hbehind : ∀ other ∈ behind, (v.forest root).Under [] other := fun other hother =>
    Forest.mem_visit.mp (hnoted ▸ List.mem_append_right before (List.mem_cons_of_mem node hother))
  have hunder : (v.forest root).Under [] node :=
    Forest.mem_visit.mp (hnoted ▸ List.mem_append_right before List.mem_cons_self)
  -- no other entry is in the place of one that is gone
  have hkept : ∀ other, v.Node root other → other ∉ behind →
      v.spot root place other ∉ behind.map (v.spot root place) := by
    intro other hother hnot hmem
    obtain ⟨found, hfound, heq⟩ := List.mem_map.mp hmem
    exact hnot (h.spot_injective hlisted (Or.inr (hbehind found hfound)) hother heq ▸ hfound)
  have hroot : ∀ spot ∈ behind.map (v.spot root place), v.Within place spot ∧ spot ≠ place := by
    intro spot hspot
    obtain ⟨found, hfound, rfl⟩ := List.mem_map.mp hspot
    exact h.spot_below hr (hbehind found hfound)
  have habove : ∀ above, (v.forest root).Under above node →
      v.spot root place above ∉ behind.map (v.spot root place) := by
    intro above habove
    obtain rfl | hover | hover := hunder.comparable habove
    · exact hkept [] (Or.inl rfl) fun hmem => Nat.lt_irrefl _ (hbehind [] hmem).rank_lt
    · exact hkept above (Or.inr hover) (Forest.above_not_behind hnoted hover habove)
    · exact absurd hover not_under_nil
  have hplace := (h.place_node (h.place_kept hr hroot hcleared) (Or.inr hunder)
    fun above hover => hcleared.entry_kept (habove above hover)).1
  have hnodup : node ∉ behind := by
    have h := Forest.visit_nodup (t := v.forest root) []
    rw [hnoted, List.nodup_append', List.nodup_cons] at h
    exact h.2.1.1
  have hentry := hcleared.entry_kept (hkept node (Or.inr hunder) hnodup)
  obtain ⟨name, parent, rfl⟩ : ∃ name parent, node = name :: parent := by
    cases node with
    | nil => exact absurd hunder not_under_nil
    | cons name parent => exact ⟨name, parent, rfl⟩
  obtain ⟨-, dir, hdir, hname⟩ := Node.cons hunder
  rw [spot_cons hdir] at hplace hentry ⊢
  have hfound := v.listed.mp hname
  cases hid : v.dirAt root (name :: parent) with
  | some id =>
      obtain ⟨dir', hdir', hdirectory⟩ := dirAt_cons.mp hid
      cases hdir.symm.trans hdir'
      have hempty : v'.names id = [] := hcleared.names_nil fun child hchild =>
        List.mem_map.mpr ⟨child :: name :: parent, Forest.below_behind hnoted
          (.kid (mem_kids.mpr ⟨id, child, hid, hchild, rfl⟩)), spot_cons hid⟩
      simpa [Volume.record, hid] using rmdir_eq hplace hfound.2 (hentry.trans hdirectory) hempty
  | none =>
      obtain ⟨entry, hsome⟩ := Option.ne_none_iff_exists'.mp hfound.1
      have hplain : ∀ id, entry ≠ .directory id := by
        rintro id rfl
        rw [dirAt_cons.mpr ⟨dir, hdir, hsome⟩] at hid
        cases hid
      simpa [Volume.record, hid] using unlink_eq hplace (hentry.trans hsome) hplain

theorem removeEntries_cons (entry : Bytes × Bool) (rest : List (Bytes × Bool))
    (accesses : List Access) : removeEntries v (entry :: rest) accesses =
      match if entry.2 then v.rmdir entry.1 else v.unlink entry.1 with
      | .error errno =>
          ⟨v, accesses, .error ⟨errno, if entry.2 then "rmdir" else "unlink", entry.1⟩⟩
      | .ok (next, dir, name) => removeEntries next rest (accesses ++ [.removed dir name]) := rfl

theorem rmdir_ok {next : Volume} (h : v.rmdir path = .ok (next, spot)) :
    v.place path = .ok spot ∧ next = v.erase spot.1 spot.2 ∧
      (spot.2 ≠ dot ∧ spot.2 ≠ dotDot) ∧
        ∃ id, v.tree.entry spot.1 spot.2 = some (.directory id) ∧ v.names id = [] := by
  unfold Volume.rmdir at h
  obtain ⟨found, hplace, h⟩ := bind_eq_ok.mp h
  dsimp only at h
  split_ifs at h with hdots
  split at h
  · cases h
  · rename_i id hentry
    split_ifs at h with hempty
    cases h
    exact ⟨hplace, rfl, not_or.mp hdots, id, hentry, hempty⟩
  · cases h

theorem unlink_ok {next : Volume} (h : v.unlink path = .ok (next, spot)) :
    v.place path = .ok spot ∧ next = v.erase spot.1 spot.2 ∧
      ∃ entry, v.tree.entry spot.1 spot.2 = some entry ∧ ∀ id, entry ≠ .directory id := by
  unfold Volume.unlink at h
  obtain ⟨found, hplace, h⟩ := bind_eq_ok.mp h
  dsimp only at h
  split at h
  · cases h
  · cases h
  · rename_i entry hplain hentry
    cases h
    exact ⟨hplace, rfl, entry, hentry, hplain⟩

theorem Volume.Rooted.removeEntries_spec (h : v.Rooted path place root)
    (hr : v.Removable path place) {before behind : List (List Bytes)}
    (hnoted : (v.forest root).visit [] = before ++ behind)
    (hcleared : v.Cleared (behind.map (v.spot root place)) v') (accesses : List Access) :
    ∃ left, removeEntries v' (before.map (v.record root path)).reverse accesses =
        ⟨left, accesses ++ (before.map (v.removal root place)).reverse, .ok ()⟩ ∧
      v.Cleared (((v.forest root).visit []).map (v.spot root place)) left := by
  induction before using List.reverseRecOn generalizing behind v' accesses with
  | nil => exact ⟨v', by simp [removeEntries], hnoted ▸ hcleared⟩
  | append_singleton before node ih =>
      rw [List.append_assoc, List.singleton_append] at hnoted
      obtain ⟨left, hrest, hleft⟩ := ih hnoted (by simpa using hcleared.erase (v.spot root place node))
        (accesses ++ [v.removal root place node])
      refine ⟨left, ?_, hleft⟩
      rw [List.map_append, List.reverse_append, List.map_singleton, List.reverse_singleton,
        List.singleton_append, removeEntries, h.remove_node hr hnoted hcleared]
      refine hrest.trans ?_
      simp

/-- Where every entry that is removed is found, what is gone is what their paths stood for. -/
theorem removeEntries_cleared {nodes : List (List Bytes)} {accesses : List Access}
    (hcleared : v.Cleared gone v')
    (hplaces : ∀ node ∈ nodes, v.place (pathOf path node) = .ok (v.spot root place node))
    (hresult : (removeEntries v' (nodes.map (v.record root path)) accesses).result = .ok ()) :
    v.Cleared ((nodes.map (v.spot root place)).reverse ++ gone)
      (removeEntries v' (nodes.map (v.record root path)) accesses).volume := by
  induction nodes generalizing v' gone accesses with
  | nil => exact hcleared
  | cons node nodes ih =>
      have hnode := hplaces node List.mem_cons_self
      have hspot : ∀ {next : Volume} {spot : Nat × Bytes},
          (if (v.record root path node).2 then v'.rmdir (v.record root path node).1
            else v'.unlink (v.record root path node).1) = .ok (next, spot) →
          spot = v.spot root place node ∧ next = v'.erase spot.1 spot.2 := by
        intro next spot hremoved
        have hfound : v'.place (pathOf path node) = .ok spot ∧ next = v'.erase spot.1 spot.2 := by
          split_ifs at hremoved
          · obtain ⟨hplace, hnext, -⟩ := rmdir_ok hremoved
            exact ⟨hplace, hnext⟩
          · obtain ⟨hplace, hnext, -⟩ := unlink_ok hremoved
            exact ⟨hplace, hnext⟩
        have hbefore := (hcleared.place_iff.mp hfound.1).1
        exact ⟨Except.ok.inj (hbefore.symm.trans hnode), hfound.2⟩
      rw [List.map_cons, removeEntries_cons] at hresult
      rw [List.map_cons, List.map_cons, removeEntries_cons]
      cases hremoved : (if (v.record root path node).2 then v'.rmdir (v.record root path node).1
          else v'.unlink (v.record root path node).1) with
      | error errno => simp [hremoved] at hresult
      | ok removed =>
          rcases removed with ⟨next, spot⟩
          obtain ⟨rfl, rfl⟩ := hspot hremoved
          simp only [hremoved] at hresult ⊢
          rw [List.reverse_cons, List.append_assoc, List.singleton_append]
          exact ih (hcleared.erase _) (fun other hother =>
            hplaces other (List.mem_cons_of_mem node hother)) hresult

/-! ### The whole call -/

/-- What lies at or below a place is gone and nothing else is. Only directories there were looked into,
every entry there was removed, and a directory after all its entries. -/
structure Removed (v : Volume) (place : Nat × Bytes) (out : RmOutcome) : Prop where
  gone : ∀ spot, v.Within place spot → out.volume.tree.entry spot.1 spot.2 = none
  kept : ∀ spot, ¬ v.Within place spot →
    out.volume.tree.entry spot.1 spot.2 = v.tree.entry spot.1 spot.2
  scanned : ∀ dir, .scanned dir ∈ out.accesses →
    ∃ spot, v.Within place spot ∧ v.tree.entry spot.1 spot.2 = some (.directory dir)
  removed : ∀ spot, .removed spot.1 spot.2 ∈ out.accesses ↔ v.Within place spot
  after : ∀ (before behind : List Access) (spot : Nat × Bytes) (dir : Nat),
    out.accesses = before ++ .removed spot.1 spot.2 :: behind →
    v.tree.entry spot.1 spot.2 = some (.directory dir) →
      ∀ name ∈ v.names dir, .removed dir name ∈ before

theorem Volume.Rooted.removals_order (h : v.Rooted path place root) (hr : v.Removable path place)
    {before behind : List Access} {node kid : List Bytes} (hnode : v.Node root node)
    (hkid : kid ∈ (v.forest root).kids node)
    (hsplit : (([] :: (v.forest root).visit []).map (v.removal root place)).reverse =
      before ++ v.removal root place node :: behind) :
    v.removal root place kid ∈ before := by
  have hnodes : ∀ x ∈ [] :: (v.forest root).visit [], v.Node root x := by
    intro x hx
    obtain rfl | hx := List.mem_cons.mp hx
    · exact Or.inl rfl
    · exact Or.inr (Forest.mem_visit.mp hx)
  have hnodup : (([] :: (v.forest root).visit []).map (v.removal root place)).reverse.Nodup := by
    refine List.nodup_reverse.mpr (List.Nodup.map_on (fun x hx y hy heq => ?_) ?_)
    · simp only [Volume.removal, Access.removed.injEq] at heq
      exact h.spot_injective (h.listed hr) (hnodes x hx) (hnodes y hy) (Prod.ext heq.1 heq.2)
    · exact List.nodup_cons.mpr ⟨fun hmem => not_under_nil (Forest.mem_visit.mp hmem),
        Forest.visit_nodup _⟩
  have horder : [node, kid].Sublist ([] :: (v.forest root).visit []) := by
    obtain rfl | hunder := hnode
    · exact List.cons_sublist_cons.mpr
        (List.singleton_sublist.mpr (Forest.mem_visit.mpr (.kid hkid)))
    · exact (Forest.visit_order hunder (.kid hkid)).cons _
  have hcalls := (horder.map (v.removal root place)).reverse
  rw [hsplit] at hnodup hcalls
  exact (Forest.behind_of_order hnodup).2 _ hcalls

theorem Volume.Rooted.removed_spec (h : v.Rooted path place root) (hr : v.Removable path place)
    {left : Volume} (hleft : v.Cleared (place :: ((v.forest root).visit []).map (v.spot root place)) left)
    {scans : List Access} (hscans : ∀ access ∈ scans, ∃ node dir, v.Node root node ∧
      v.dirAt root node = some dir ∧ access = .scanned dir) :
    Removed v place ⟨left, scans ++
      (([] :: (v.forest root).visit []).map (v.removal root place)).reverse, .ok ()⟩ := by
  have hspots : ∀ spot, spot ∈ place :: ((v.forest root).visit []).map (v.spot root place) ↔
      v.Within place spot := by
    intro spot
    rw [h.within_iff, List.mem_cons, List.mem_map]
    constructor
    · rintro (rfl | ⟨node, hnode, rfl⟩)
      · exact ⟨[], Or.inl rfl, rfl⟩
      · exact ⟨node, Or.inr (Forest.mem_visit.mp hnode), rfl⟩
    · rintro ⟨node, rfl | hunder, rfl⟩
      · exact Or.inl rfl
      · exact Or.inr ⟨node, Forest.mem_visit.mpr hunder, rfl⟩
  have hremoval : ∀ access ∈ (([] :: (v.forest root).visit []).map (v.removal root place)).reverse,
      ∃ node, v.Node root node ∧ v.removal root place node = access := by
    intro access haccess
    obtain ⟨node, hnode, rfl⟩ := List.mem_map.mp (List.mem_reverse.mp haccess)
    obtain rfl | hnode := List.mem_cons.mp hnode
    · exact ⟨[], Or.inl rfl, rfl⟩
    · exact ⟨node, Or.inr (Forest.mem_visit.mp hnode), rfl⟩
  have hscanned : ∀ spot : Nat × Bytes, .removed spot.1 spot.2 ∉ scans := by
    intro spot hmem
    obtain ⟨_, _, _, _, heq⟩ := hscans _ hmem
    cases heq
  have hspot : ∀ {node : List Bytes} {spot : Nat × Bytes},
      v.removal root place node = .removed spot.1 spot.2 → v.spot root place node = spot := by
    intro node spot heq
    simp only [Volume.removal, Access.removed.injEq] at heq
    exact Prod.ext heq.1 heq.2
  constructor
  · exact fun spot hwithin => hleft.entry_gone ((hspots spot).mpr hwithin)
  · exact fun spot hout => hleft.entry_kept fun hmem => hout ((hspots spot).mp hmem)
  · intro dir hmem
    obtain hmem | hmem := List.mem_append.mp hmem
    · obtain ⟨node, found, hnode, hdir, heq⟩ := hscans _ hmem
      cases heq
      exact ⟨_, h.within_iff.mpr ⟨node, hnode, rfl⟩, h.entry_dirAt hdir⟩
    · obtain ⟨node, -, heq⟩ := hremoval _ hmem
      cases heq
  · intro spot
    constructor
    · intro hmem
      obtain ⟨node, hnode, heq⟩ :=
        hremoval _ ((List.mem_append.mp hmem).resolve_left (hscanned spot))
      exact h.within_iff.mpr ⟨node, hnode, hspot heq⟩
    · intro hwithin
      refine List.mem_append_right _ (List.mem_reverse.mpr (List.mem_map.mpr ?_))
      obtain ⟨node, hnode, rfl⟩ := h.within_iff.mp hwithin
      refine ⟨node, List.mem_cons.mpr (hnode.imp_right Forest.mem_visit.mpr), rfl⟩
  · intro before behind spot dir hsplit hentry name hname
    have hremovals : ∃ more, before = scans ++ more ∧
        (([] :: (v.forest root).visit []).map (v.removal root place)).reverse =
          more ++ .removed spot.1 spot.2 :: behind := by
      obtain hmore | ⟨more, hscan, hmore⟩ := List.append_eq_append_iff.mp hsplit
      · exact hmore
      · cases more with
        | nil => exact ⟨[], by simpa using hscan.symm, by simpa using hmore.symm⟩
        | cons access more =>
            obtain ⟨rfl, -⟩ := List.cons.inj hmore
            exact absurd (hscan ▸ by simp) (hscanned spot)
    obtain ⟨more, rfl, hmore⟩ := hremovals
    obtain ⟨node, hnode, heq⟩ := hremoval (.removed spot.1 spot.2) (hmore ▸ by simp)
    rw [← hspot heq] at hentry
    have hdir := h.dirAt_of_entry hnode hentry
    have hkid : name :: node ∈ (v.forest root).kids node :=
      mem_kids.mpr ⟨dir, name, hdir, hname, rfl⟩
    have hbefore := h.removals_order hr hnode hkid (heq ▸ hmore)
    rw [Volume.removal, spot_cons hdir] at hbefore
    exact List.mem_append_right scans hbefore

/-- A call on a directory ends. It can be carried out exactly when the directory can be removed by its
path, and then it removes what lies there. -/
theorem Volume.Rooted.rmSync_spec (h : v.Rooted path place root) :
    ∃ fuel out, rmSync v path true fuel = some out ∧
      (out.result = .ok () ↔ v.Removable path place) ∧
      (out.result = .ok () → Removed v place out) := by
  obtain ⟨fuel, hrun⟩ := Forest.run_visit (t := v.forest root) []
  have hstack : ∀ node ∈ [([] : List Bytes)],
      v.Node root node ∧ (v.forest root).branches node = true := by
    intro node hnode
    rw [List.mem_singleton.mp hnode]
    exact ⟨Or.inl rfl, rfl⟩
  obtain ⟨scans, hscan, hscans⟩ := scan_spec h hstack hrun []
  have hlstat : v.lstat path = .ok (.directory root) := by
    simp [Volume.lstat, h.placed, bind, Except.bind, h.entry]
  have hscan : scan v fuel [path] [] [] =
      some (.ok (((v.forest root).visit []).map (v.record root path)), scans) := hscan
  have hnoted : ∀ node ∈ (v.forest root).visit [], v.Node root node := fun node hnode =>
    Or.inr (Forest.mem_visit.mp hnode)
  by_cases hr : v.Removable path place
  · obtain ⟨left, hremove, hleft⟩ := h.removeEntries_spec hr (List.append_nil _).symm
      Volume.Cleared.nil scans
    have hbelow : ∀ spot ∈ ((v.forest root).visit []).map (v.spot root place),
        v.Within place spot ∧ spot ≠ place := by
      intro spot hspot
      obtain ⟨node, hnode, rfl⟩ := List.mem_map.mp hspot
      exact h.spot_below hr (Forest.mem_visit.mp hnode)
    have hentry : left.tree.entry place.1 place.2 = some (.directory root) :=
      (hleft.entry_kept fun hmem => (hbelow place hmem).2 rfl).trans h.entry
    have hempty : left.names root = [] := hleft.names_nil fun name hname =>
      List.mem_map.mpr ⟨[name], Forest.mem_visit.mpr
        (.kid (mem_kids.mpr ⟨root, name, rfl, hname, rfl⟩)), rfl⟩
    have hrmdir := rmdir_eq (h.place_kept hr hbelow hleft) hr.proper hentry hempty
    have hspec := h.removed_spec hr (hleft.erase place) hscans
    refine ⟨fuel, _, ?_, iff_of_true rfl hr, fun _ => hspec⟩
    simp [rmSync, hlstat, hscan, hremove, hrmdir, Volume.removal, Volume.spot]
  · have hreverse : (((v.forest root).visit []).map (v.record root path)).reverse =
        ((v.forest root).visit []).reverse.map (v.record root path) := List.map_reverse.symm
    cases hresult : (removeEntries v (((v.forest root).visit []).map (v.record root path)).reverse
        scans).result with
    | error thrown =>
        refine ⟨fuel, _, by simp only [rmSync, hlstat, hscan, hresult]; rfl, iff_of_false ?_ hr, ?_⟩
        · rw [hresult]
          exact fun hok => by cases hok
        · rw [hresult]
          exact fun hok => by cases hok
    | ok done =>
        cases hrmdir : (removeEntries v
            (((v.forest root).visit []).map (v.record root path)).reverse scans).volume.rmdir path with
        | error errno =>
            refine ⟨fuel, _, by simp only [rmSync, hlstat, hscan, hresult, hrmdir]; rfl,
              iff_of_false ?_ hr, ?_⟩
            · exact fun hok => by cases hok
            · exact fun hok => by cases hok
        | ok removed =>
            -- the path led past everything removed, so that it could be removed
            obtain ⟨hplace, -, hproper, -⟩ := rmdir_ok hrmdir
            rw [hreverse] at hplace hresult
            have hcleared := removeEntries_cleared Volume.Cleared.nil (fun node hnode =>
              (h.place_node h.placed (hnoted node (List.mem_reverse.mp hnode)) fun _ _ => rfl).1)
              hresult
            obtain ⟨hbefore, hpass⟩ := hcleared.place_iff.mp hplace
            have hspot : removed.2 = place := Except.ok.inj (hbefore.symm.trans h.placed)
            rw [hspot] at hproper hpass
            refine absurd ⟨hproper, _, fun spot hwithin hne => decide_eq_true ?_, hpass⟩ hr
            obtain ⟨node, hnode, rfl⟩ := h.within_iff.mp hwithin
            have hunder := hnode.resolve_left (by rintro rfl; exact hne rfl)
            simp only [List.map_reverse, List.reverse_reverse, List.append_nil]
            exact List.mem_map_of_mem (Forest.mem_visit.mpr hunder)

end

section

variable {v : Volume} {path : Bytes} {place : Nat × Bytes}

theorem lstat_eq (hplace : v.place path = .ok place) {entry : Entry Bytes}
    (hentry : v.tree.entry place.1 place.2 = some entry) : v.lstat path = .ok entry := by
  simp [Volume.lstat, hplace, bind, Except.bind, hentry]

theorem lstat_ok {entry : Entry Bytes} (h : v.lstat path = .ok entry) :
    ∃ place, v.place path = .ok place ∧ v.tree.entry place.1 place.2 = some entry := by
  unfold Volume.lstat at h
  obtain ⟨place, hplace, h⟩ := bind_eq_ok.mp h
  refine ⟨place, hplace, ?_⟩
  dsimp only at h
  split at h
  · cases h
    assumption
  · cases h

theorem removed_plain {entry : Entry Bytes} (hentry : v.tree.entry place.1 place.2 = some entry)
    (hplain : ∀ id, entry ≠ .directory id) :
    Removed v place ⟨v.erase place.1 place.2, [.removed place.1 place.2], .ok ()⟩ := by
  have hwithin : ∀ {spot}, v.Within place spot → spot = place := by
    intro spot hwithin
    induction hwithin with
    | self => rfl
    | listed hspot hdirectory hname ih =>
        rw [ih, hentry] at hdirectory
        exact absurd (Option.some.inj hdirectory) (hplain _)
  have hcleared := (Volume.Cleared.nil (v := v)).erase place
  constructor
  · intro spot hspot
    exact hcleared.entry_gone (by rw [hwithin hspot]; exact List.mem_singleton_self place)
  · intro spot hout
    refine hcleared.entry_kept fun hmem => hout ?_
    rw [List.mem_singleton.mp hmem]
    exact .self
  · intro dir hmem
    cases List.mem_singleton.mp hmem
  · intro spot
    rw [List.mem_singleton, Access.removed.injEq, ← Prod.ext_iff]
    constructor
    · rintro rfl
      exact .self
    · exact hwithin
  · intro before behind spot dir hsplit hdirectory
    have hsplit : [Access.removed place.1 place.2] = before ++ .removed spot.1 spot.2 :: behind :=
      hsplit
    have hmem : .removed spot.1 spot.2 ∈ [Access.removed place.1 place.2] := hsplit ▸ by simp
    rw [List.mem_singleton, Access.removed.injEq, ← Prod.ext_iff] at hmem
    rw [hmem, hentry] at hdirectory
    exact absurd (Option.some.inj hdirectory) (hplain dir)

end

/-- **Recursive remove deletes exactly the tree.** The call ends. A missing path changes nothing. On
any other path it fails nowhere exactly when what is there is no directory or can be removed by this
path, and a call that fails nowhere has removed what lies at the path and nothing else. -/
theorem rmSync_removes (v : Volume) {path : Bytes} (hslash : endsInSlash path = false) :
    ∃ fuel out, rmSync v path true fuel = some out ∧
      (v.lstat path = .error ENOENT → out.volume = v ∧ out.accesses = [] ∧ out.result = .ok ()) ∧
      ∀ place entry, v.place path = .ok place → v.tree.entry place.1 place.2 = some entry →
        (out.result = .ok () ↔ ∀ id, entry = .directory id → v.Removable path place) ∧
        (out.result = .ok () → Removed v place out) := by
  cases hlstat : v.lstat path with
  | error errno =>
      have hnothing : ∀ place entry, v.place path = .ok place →
          v.tree.entry place.1 place.2 ≠ some entry := by
        intro place entry hplace hentry
        cases hlstat.symm.trans (lstat_eq hplace hentry)
      by_cases hmissing : errno = ENOENT
      · exact ⟨0, ⟨v, [], .ok ()⟩, by simp [rmSync, hlstat, hmissing], fun _ => ⟨rfl, rfl, rfl⟩,
          fun place entry hplace hentry => absurd hentry (hnothing place entry hplace)⟩
      · refine ⟨0, ⟨v, [], .error ⟨errno, "stat", path⟩⟩, by simp [rmSync, hlstat, hmissing],
          fun h => ?_, fun place entry hplace hentry => absurd hentry (hnothing place entry hplace)⟩
        exact absurd (Except.error.inj h) hmissing
  | ok entry =>
      obtain ⟨place, hplace, hentry⟩ := lstat_ok hlstat
      have hsame : ∀ {place' entry'}, v.place path = .ok place' →
          v.tree.entry place'.1 place'.2 = some entry' → place' = place ∧ entry' = entry := by
        intro place' entry' hplace' hentry'
        cases Except.ok.inj (hplace.symm.trans hplace')
        exact ⟨rfl, Option.some.inj (hentry'.symm.trans hentry)⟩
      have hfound : ¬ (.ok entry : Except Nat (Entry Bytes)) = .error ENOENT := fun h => by cases h
      by_cases hdirectory : ∃ root, entry = .directory root
      · obtain ⟨root, rfl⟩ := hdirectory
        obtain ⟨fuel, out, hout, hiff, hremoved⟩ :=
          Volume.Rooted.rmSync_spec ⟨hplace, hentry, hslash⟩
        refine ⟨fuel, out, hout, fun h => absurd h hfound, fun place' entry' hplace' hentry' => ?_⟩
        obtain ⟨rfl, rfl⟩ := hsame hplace' hentry'
        refine ⟨hiff.trans ⟨fun hr _ _ => hr, fun hr => hr root rfl⟩, hremoved⟩
      · have hplain : ∀ id, entry ≠ .directory id := fun id heq => hdirectory ⟨id, heq⟩
        refine ⟨0, ⟨v.erase place.1 place.2, [.removed place.1 place.2], .ok ()⟩, ?_,
          fun h => absurd h hfound, fun place' entry' hplace' hentry' => ?_⟩
        · have hunlink := unlink_eq hplace hentry hplain
          cases entry with
          | file inode => simp [rmSync, hlstat, hunlink]
          | directory id => exact absurd rfl (hplain id)
          | link target => simp [rmSync, hlstat, hunlink]
        · obtain ⟨rfl, rfl⟩ := hsame hplace' hentry'
          exact ⟨iff_of_true rfl fun id heq => absurd heq (hplain id),
            fun _ => removed_plain hentry hplain⟩

/-- A directory `d` with a link `l` to somewhere else. -/
def linkEntry (dir : Nat) (name : Bytes) : Option (Entry Bytes) :=
  if dir = 0 ∧ name = [100] then some (.directory 1)
  else if dir = 1 ∧ name = [108] then some (.link ⟨true, [[120]]⟩)
  else none

def linkNames (dir : Nat) : List Bytes :=
  if dir = 0 then [[100]] else if dir = 1 then [[108]] else []

theorem linkEntry_directory {dir id : Nat}
    (h : linkEntry dir name = some (.directory id)) : dir = 0 ∧ name = [100] ∧ id = 1 := by
  unfold linkEntry at h
  split_ifs at h with hd
  · cases h
    exact ⟨hd.1, hd.2, rfl⟩
  · cases h

theorem mem_linkNames :
    name ∈ linkNames dir ↔ dir = 0 ∧ name = [100] ∨ dir = 1 ∧ name = [108] := by
  unfold linkNames
  split_ifs with h0 h1
  · simp [h0]
  · simp [h1]
  · simp [h0, h1]

theorem linkEntry_ne_none :
    linkEntry dir name ≠ none ↔ dir = 0 ∧ name = [100] ∨ dir = 1 ∧ name = [108] := by
  unfold linkEntry
  split_ifs with hd hl
  · simp [hd]
  · simp [hl]
  · simp [hd, hl]

def linkInDirectory : Volume where
  tree := { entry := linkEntry, root := 0, cwd := 0, limit := 40 }
  names := linkNames
  typed _ _ := false
  lost _ := ENOENT
  rank dir := 1 - dir
  listed := by
    intro dir name
    rw [mem_linkNames, linkEntry_ne_none, iff_self_and]
    rintro (⟨-, rfl⟩ | ⟨-, rfl⟩)
    · exact ⟨by decide, by decide⟩
    · exact ⟨by decide, by decide⟩
  nodup dir := by
    unfold linkNames
    split_ifs
    · exact List.nodup_singleton _
    · exact List.nodup_singleton _
    · exact List.nodup_nil
  plain h := by
    obtain ⟨-, rfl⟩ | ⟨-, rfl⟩ := mem_linkNames.mp h
    · exact ⟨by decide, by decide⟩
    · exact ⟨by decide, by decide⟩
  one_place _ _ hentry hentry' := by
    obtain ⟨rfl, rfl, -⟩ := linkEntry_directory hentry
    obtain ⟨rfl, rfl, -⟩ := linkEntry_directory hentry'
    exact ⟨rfl, rfl⟩
  rank_lt _ hentry := by
    obtain ⟨rfl, -, rfl⟩ := linkEntry_directory hentry
    exact Nat.zero_lt_one

theorem rmSync_removes_link : ∃ fuel out, rmSync linkInDirectory [100] true fuel = some out ∧
    out.result = .ok () ∧ Removed linkInDirectory (0, [100]) out := by
  have hwithin : ∀ {spot}, linkInDirectory.Within (0, [100]) spot → spot ≠ (0, [100]) →
      spot.1 = 1 := by
    intro spot hspot hne
    cases hspot with
    | self => exact absurd rfl hne
    | listed _ hentry _ => exact (linkEntry_directory hentry).2.2
  have hr : linkInDirectory.Removable [100] (0, [100]) :=
    ⟨⟨by decide, by decide⟩, fun dir _ => decide (dir = 1),
      fun spot hspot hne => decide_eq_true (hwithin hspot hne), rfl⟩
  have hslash : endsInSlash [100] = false := rfl
  obtain ⟨fuel, out, hout, -, hfound⟩ := rmSync_removes linkInDirectory hslash
  obtain ⟨hiff, hremoved⟩ := hfound (0, [100]) (.directory 1) rfl rfl
  have hresult := hiff.mpr fun _ _ => hr
  exact ⟨fuel, out, hout, hresult, hremoved hresult⟩

end HermesNode.Fs
