/-
Module: HermesNode.Fs.MkdirRecursive
Purpose: The recursive `mkdir` on directories with links. It returns 0 exactly when the path leads to a
  directory afterwards, and all it changes is that directories are added along the path. What it
  reports is the first directory it created; the others lie inside that one unless the path goes up
  again behind it.
Trusted boundary: human-reviewed spec (transcribed from `lib/bindings/node_file.cpp`; POSIX pathname
  resolution, `mkdir` and `stat`, where a directory that is missing may be refused for any reason)
Main exports: Directories, Refusals, mkdirRecursive_outcome
-/
import HermesNode.Lib.Growth
import HermesNode.Build.LinkedDisk
import HermesNode.Fs.Functions

namespace HermesNode.Fs.MkdirRecursive

open HermesNode.Build (routeOf routeNames lookupNames lookupNames_append lookupNames_name routeNames_name
  name_not_endsInSlash)
open Links Requests

/-! ### The system -/

/-- Directories with files and links. Those from `next` on are not in use. -/
structure Directories where
  entries : Nat → Bytes → Option (Entry Bytes)
  parent : Nat → Nat
  root : Nat
  cwd : Nat
  limit : Nat
  next : Nat
  /-- The entries `mkdir` has created. -/
  made : List (Nat × Bytes)
  root_lt : root < next
  cwd_lt : cwd < next
  entry_lt : ∀ {dir name id}, entries dir name = some (.directory id) → id < next
  parent_lt : ∀ {dir}, dir < next → parent dir < next
  unused : ∀ {dir name}, next ≤ dir → entries dir name = none

variable {name : Bytes} {dir : Nat}

namespace Directories

variable (s : Directories)

/-- The entries with the dots. -/
def tree : Links.Tree Bytes where
  entry dir name :=
    if name = dot then some (.directory dir)
    else if name = dotDot then some (.directory (s.parent dir))
    else s.entries dir name
  root := s.root
  cwd := s.cwd
  limit := s.limit

variable {s}

theorem entry_dot (dir : Nat) : s.tree.entry dir dot = some (.directory dir) := by
  unfold tree
  dsimp only
  rw [if_pos rfl]

theorem entry_proper (h : name ≠ dot ∧ name ≠ dotDot) :
    s.tree.entry dir name = s.entries dir name := by
  unfold tree
  dsimp only
  rw [if_neg h.1, if_neg h.2]

theorem proper_of_none (h : s.tree.entry dir name = none) :
    name ≠ dot ∧ name ≠ dotDot := by
  unfold tree at h
  dsimp only at h
  split_ifs at h with hdot hdotDot
  exact ⟨hdot, hdotDot⟩

/-- No walk leaves the directories in use. -/
theorem tree_closed {dir id : Nat} (hdir : dir < s.next)
    (h : s.tree.entry dir name = some (.directory id)) : id < s.next := by
  unfold tree at h
  dsimp only at h
  split_ifs at h with hdot hdotDot
  · cases h
    exact hdir
  · cases h
    exact s.parent_lt hdir
  · exact s.entry_lt h

theorem grows_self : s.tree.Grows s.tree (· < s.next) where
  root := rfl
  cwd := rfl
  limit := rfl
  kept _ h := h
  closed := tree_closed
  root_inside := s.root_lt
  cwd_inside := s.cwd_lt

theorem locate_lt {route : Route Bytes}
    (h : s.tree.locate route = some (dir, name)) : dir < s.next :=
  (Tree.locate_grows grows_self h).2

variable (s)

/-- A directory more. -/
def create (dir : Nat) (name : Bytes) (hdir : dir < s.next) : Directories where
  entries d n := if d = dir ∧ n = name then some (.directory s.next) else s.entries d n
  parent d := if d = s.next then dir else s.parent d
  root := s.root
  cwd := s.cwd
  limit := s.limit
  next := s.next + 1
  made := s.made ++ [(dir, name)]
  root_lt := Nat.lt_succ_of_lt s.root_lt
  cwd_lt := Nat.lt_succ_of_lt s.cwd_lt
  entry_lt h := by
    split_ifs at h with hnew
    · cases h
      exact Nat.lt_succ_self _
    · exact Nat.lt_succ_of_lt (s.entry_lt h)
  parent_lt h := by
    split_ifs with hnew
    · exact Nat.lt_succ_of_lt hdir
    · have hold := Nat.lt_of_le_of_ne (Nat.le_of_lt_succ h) hnew
      exact Nat.lt_succ_of_lt (s.parent_lt hold)
  unused h := by
    split_ifs with hnew
    · exact absurd (hnew.1 ▸ hdir) (Nat.not_lt_of_le (Nat.le_of_succ_le h))
    · exact s.unused (Nat.le_of_succ_le h)

end Directories

/-- An error of a system call, other than that something exists. -/
structure Errno where
  value : Nat
  pos : 0 < value
  small : value < 4096
  other : value ≠ 17

/-- What libuv returns for it. -/
def Errno.code (e : Errno) : Int := -(e.value : Int)

/-- Why a path leads nowhere, and whether and why a directory is not created, which may depend on how
many were created before. -/
structure Refusals where
  lost : Route Bytes → Errno
  refuse : Nat → Nat × Bytes → Option Errno

inductive Answer where
  | made (s : Directories)
  | present
  | refused (e : Errno)

/-- `mkdir`, which does not follow a link at the end. -/
def Directories.mkdir (r : Refusals) (s : Directories) (route : Route Bytes) : Answer :=
  match h : s.tree.locate route with
  | none => .refused (r.lost route)
  | some (dir, name) =>
      match s.tree.entry dir name with
      | some _ => .present
      | none =>
          match r.refuse s.made.length (dir, name) with
          | some e => .refused e
          | none => .made (s.create dir name (Directories.locate_lt h))

theorem absent_errno : 2 < 4096 ∧ 2 ≠ 17 := by decide

theorem unknown_errno : 0 < 38 ∧ 38 < 4096 ∧ 38 ≠ 17 := by decide

def ENOENT : Errno := ⟨2, Nat.two_pos, absent_errno.1, absent_errno.2⟩

def ENOSYS : Errno := ⟨38, unknown_errno.1, unknown_errno.2.1, unknown_errno.2.2⟩

/-- `uv_fs_mkdir` and `uv_fs_stat`; no other function is called. -/
def work (r : Refusals) (call : UvFs) (s : Directories) : Directories × UvReq :=
  match call with
  | ⟨.mkdir, .str path :: _⟩ =>
      if path = [] then (s, { result := ENOENT.code })
      else
        match s.mkdir r (routeOf path) with
        | .made s => (s, { result := 0 })
        | .present => (s, { result := UV_EEXIST })
        | .refused e => (s, { result := e.code })
  | ⟨.stat, .str path :: _⟩ =>
      if path = [] then (s, { result := ENOENT.code })
      else
        match s.tree.find (routeOf path) with
        | some (.directory _) => (s, { result := 0, statbuf := { (default : UvStat) with mode := 0o040755 } })
        | some (.file _) => (s, { result := 0, statbuf := { (default : UvStat) with mode := 0o100644 } })
        | none => (s, { result := (r.lost (routeOf path)).code })
  | _ => (s, { result := ENOSYS.code })

theorem toInt32_code (e : Errno) : toInt32 e.code = e.code := by
  have hsmall := e.small
  unfold toInt32 Errno.code
  omega

theorem code_neg (e : Errno) : e.code < 0 := by
  have hpos := e.pos
  unfold Errno.code
  omega

theorem code_ne_exist (e : Errno) : e.code ≠ UV_EEXIST := by
  have hother := e.other
  unfold Errno.code UV_EEXIST
  omega

def libuv (r : Refusals) : Libuv Directories where
  work := work r
  errName _ := []
  strerror _ := []
  mkdir_nonpos args s := by
    have hcode : ∀ e : Errno, toInt32 e.code ≤ 0 := fun e => by
      rw [toInt32_code]
      exact Int.le_of_lt (code_neg e)
    unfold work
    split
    · split_ifs
      · exact hcode _
      · split
        · exact Int.le_refl 0
        · exact show toInt32 UV_EEXIST ≤ 0 by decide
        · exact hcode _
    · rename_i h
      cases h
    · exact hcode _

/-! ### Names -/

variable {absolute : Bool}

theorem locate_behind {s : Directories} {done : List Bytes}
    {spot : Nat × Bytes} : s.tree.locate ⟨absolute, done ++ [name]⟩ = some spot ↔
      ∃ dir, s.tree.find ⟨absolute, done⟩ = some (.directory dir) ∧ spot = (dir, name) :=
  Tree.locate_snoc

theorem mkdir_spec (r : Refusals) (s : Directories) (absolute : Bool) (done : List Bytes) (name : Bytes) :
    (∃ dir, ∃ hdir : dir < s.next, s.mkdir r ⟨absolute, done ++ [name]⟩ = .made (s.create dir name hdir) ∧
        s.tree.find ⟨absolute, done⟩ = some (.directory dir) ∧ s.tree.entry dir name = none) ∨
      (s.mkdir r ⟨absolute, done ++ [name]⟩ = .present ∧
        ∃ dir, s.tree.find ⟨absolute, done⟩ = some (.directory dir) ∧ s.tree.entry dir name ≠ none) ∨
      ∃ e, s.mkdir r ⟨absolute, done ++ [name]⟩ = .refused e ∧
        ∀ dir, s.tree.find ⟨absolute, done⟩ = some (.directory dir) → s.tree.entry dir name = none := by
  unfold Directories.mkdir
  split
  · rename_i hnone
    refine Or.inr (Or.inr ⟨_, rfl, fun dir hfind => ?_⟩)
    have hsome : s.tree.locate ⟨absolute, done ++ [name]⟩ = some (dir, name) :=
      locate_behind.mpr ⟨dir, hfind, rfl⟩
    rw [hnone] at hsome
    cases hsome
  · rename_i dir found hlocate
    rcases locate_behind.mp hlocate with ⟨dir', hfind, heq⟩
    cases heq
    have hone : ∀ dir'', s.tree.find ⟨absolute, done⟩ = some (.directory dir'') → dir'' = dir := by
      intro dir'' hfind'
      cases hfind.symm.trans hfind'
      rfl
    split
    · rename_i entry hentry
      exact Or.inr (Or.inl ⟨rfl, dir, hfind, by rw [hentry]; exact Option.some_ne_none _⟩)
    · rename_i hentry
      split
      · exact Or.inr (Or.inr ⟨_, rfl, fun dir'' h => hone dir'' h ▸ hentry⟩)
      · exact Or.inl ⟨dir, Directories.locate_lt hlocate, rfl, hfind, hentry⟩

/-- The loop over the components, and the names of what it creates. -/
def makeAll (r : Refusals) (absolute : Bool) :
    List Bytes → List Bytes → Directories → Directories × Option Errno × List (List Bytes)
  | _, [], s => (s, none, [])
  | done, name :: rest, s =>
      match s.mkdir r ⟨absolute, done ++ [name]⟩ with
      | .made s =>
          let out := makeAll r absolute (done ++ [name]) rest s
          (out.1, out.2.1, (done ++ [name]) :: out.2.2)
      | .present => makeAll r absolute (done ++ [name]) rest s
      | .refused e => (s, some e, [])

/-- A component. -/
def Proper (name : Bytes) : Prop := name ≠ [] ∧ name ≠ dot ∧ slash ∉ name

/-- The components of a path. -/
def components (path : Bytes) : List Bytes :=
  (lookupNames path).filter fun name => decide (name ≠ dot)

theorem components_proper {path name : Bytes} (h : name ∈ components path) : Proper name := by
  unfold components lookupNames at h
  simp only [List.mem_filter, bne_iff_ne, ne_eq, decide_eq_true_eq] at h
  exact ⟨h.1.2, h.2, slash_not_mem_of_mem_splitSlash h.1.1⟩

/-- The text of some components. -/
def pathTo (absolute : Bool) (names : List Bytes) : Bytes :=
  names.foldl extended (if absolute then [slash] else [])

theorem pathTo_snoc (absolute : Bool) (names : List Bytes) (name : Bytes) :
    pathTo absolute (names ++ [name]) = extended (pathTo absolute names) name := by
  rw [pathTo, List.foldl_concat]
  rfl

/-- A path with some names and nothing behind them. -/
structure Named (absolute : Bool) (names : List Bytes) (path : Bytes) : Prop where
  nonempty : path ≠ []
  absolute : isAbsolute path = absolute
  names : lookupNames path = names
  slashless : endsInSlash path = false

theorem Named.route {names : List Bytes} {path : Bytes} (h : Named absolute names path) :
    routeOf path = ⟨absolute, names⟩ := by
  simp [routeOf, routeNames, h.absolute, h.names, h.slashless]

theorem isAbsolute_append {p : Bytes} (hp : p ≠ []) (q : Bytes) : isAbsolute (p ++ q) = isAbsolute p := by
  cases p with
  | nil => exact absurd rfl hp
  | cons c p => rfl

/-- The text of some components names them. -/
theorem named_pathTo (absolute : Bool) {names : List Bytes} (hne : names ≠ [])
    (hnames : ∀ name ∈ names, Proper name) : Named absolute names (pathTo absolute names) := by
  induction names using List.reverseRecOn with
  | nil => exact absurd rfl hne
  | append_singleton names name ih =>
      have hname := hnames name (List.mem_append_right _ List.mem_cons_self)
      have hlast : ∀ front, endsInSlash (front ++ name) = false :=
        name_not_endsInSlash hname.1 hname.2.2
      rw [pathTo_snoc]
      by_cases hfirst : names = []
      · subst hfirst
        cases absolute with
        | false =>
            have htext : extended (pathTo false []) name = name := by simp [pathTo, extended]
            rw [htext]
            refine ⟨hname.1, ?_, lookupNames_name hname.1 hname.2.2, hlast []⟩
            cases name with
            | nil => exact absurd rfl hname.1
            | cons c cs =>
                have hc : c ≠ slash := by
                  rintro rfl
                  exact hname.2.2 List.mem_cons_self
                simp [isAbsolute, hc]
        | true =>
            have htext : extended (pathTo true []) name = [] ++ slash :: name := by
              simp [pathTo, extended, slash]
            rw [htext]
            refine ⟨by simp, by simp [isAbsolute], ?_, hlast [slash]⟩
            rw [lookupNames_append, lookupNames_name hname.1 hname.2.2]
            rfl
      · have h := ih hfirst fun n hn => hnames n (List.mem_append_left _ hn)
        have htext : extended (pathTo absolute names) name = pathTo absolute names ++ slash :: name := by
          have hend : ¬ (pathTo absolute names = [] ∨ (pathTo absolute names).getLast? = some 0x2F) := by
            rintro (hnil | hlast)
            · exact h.nonempty hnil
            · have hno := h.slashless
              simp [endsInSlash, hlast, slash] at hno
          unfold extended
          rw [if_neg hend, List.append_assoc]
          rfl
        rw [htext]
        refine ⟨by simp, ?_, ?_, ?_⟩
        · rw [isAbsolute_append h.nonempty, h.absolute]
        · rw [lookupNames_append, lookupNames_name hname.1 hname.2.2, h.names]
        · have hend := hlast (pathTo absolute names ++ [slash])
          rwa [List.append_assoc] at hend

/-! ### The loop -/

/-- What the loop returns for an error. -/
def codeOf : Option Errno → Int
  | none => 0
  | some e => e.code

/-- The pieces of a path that the loop passes over. -/
theorem mkdirComponents_filter {σ : Type} (uv : Libuv σ) (mode : Int) (segments : List Bytes)
    (current first : Bytes) (s : σ) :
    mkdirComponents uv mode segments current first s =
      mkdirComponents uv mode ((segments.filter (· != [])).filter fun name => decide (name ≠ dot))
        current first s := by
  induction segments generalizing current first s with
  | nil => rfl
  | cons name segments ih =>
      by_cases hskip : name = [] ∨ name = ascii "."
      · rw [mkdirComponents, if_pos hskip, ih]
        rcases hskip with rfl | rfl
        · simp
        · have hdot : ascii "." = dot := rfl
          rw [hdot, List.filter_cons_of_pos (by decide), List.filter_cons_of_neg (by simp)]
      · rw [not_or] at hskip
        have hdot : name ≠ dot := hskip.2
        rw [List.filter_cons_of_pos (by simp [hskip.1]), List.filter_cons_of_pos (by simp [hdot])]
        simp only [mkdirComponents, hskip.1, hskip.2, or_self, if_false, ih]

theorem splitOn_eq_splitSlash (path : Bytes) : path.splitOn 0x2F = splitSlash path := by
  induction path with
  | nil => rfl
  | cons c path ih =>
      unfold List.splitOn at ih ⊢
      rw [List.splitOnP_cons_eq_if_modifyHead, ih, splitSlash]
      by_cases hc : c = slash
      · rw [if_pos (by simp [hc, slash]), if_pos hc]
      · have hc' : ¬ c = 47 := hc
        rw [if_neg (by simpa using hc'), if_neg hc]
        cases hsplit : splitSlash path with
        | nil => exact absurd hsplit (splitSlash_ne_nil path)
        | cons segment segments => rfl

/-- The loop creates what the names say, and keeps the text of the first. -/
theorem mkdirComponents_eq (r : Refusals) (mode : Int) (absolute : Bool) {done rest : List Bytes}
    (hdone : ∀ name ∈ done, Proper name) (hrest : ∀ name ∈ rest, Proper name) (first : Bytes)
    (s : Directories) :
    mkdirComponents (libuv r) mode rest (pathTo absolute done) first s =
      ((makeAll r absolute done rest s).1, codeOf (makeAll r absolute done rest s).2.1,
        if first = [] then
          ((makeAll r absolute done rest s).2.2.head?.map (pathTo absolute)).getD []
        else first) := by
  induction rest generalizing done first s with
  | nil =>
      by_cases hfirst : first = []
      · simp [mkdirComponents, makeAll, codeOf, hfirst]
      · simp [mkdirComponents, makeAll, codeOf, hfirst]
  | cons name rest ih =>
      have hname := hrest name List.mem_cons_self
      have hdone' : ∀ n ∈ done ++ [name], Proper n := by
        intro n hn
        rcases List.mem_append.mp hn with hold | hnew
        · exact hdone n hold
        · cases List.mem_singleton.mp hnew
          exact hname
      have hnext := fun first s => ih hdone' (fun n hn => hrest n (List.mem_cons_of_mem _ hn)) first s
      have hnamed := named_pathTo absolute (List.append_ne_nil_of_right_ne_nil done (List.cons_ne_nil name []))
        hdone'
      have hskip : ¬ (name = [] ∨ name = ascii ".") := by
        rintro (hnil | hdot)
        · exact hname.1 hnil
        · exact hname.2.1 hdot
      have hwork : ∀ s, (libuv r).work (fsMkdir (pathTo absolute (done ++ [name])) mode).uv s =
          match s.mkdir r ⟨absolute, done ++ [name]⟩ with
          | .made s => (s, { result := 0 })
          | .present => (s, { result := UV_EEXIST })
          | .refused e => (s, { result := e.code }) := by
        intro s
        simp only [libuv, fsMkdir, onPath, work, if_neg hnamed.nonempty, hnamed.route]
      rw [mkdirComponents, if_neg hskip, ← pathTo_snoc, makeAll]
      simp only [hwork]
      cases hanswer : s.mkdir r ⟨absolute, done ++ [name]⟩ with
      | made s' =>
          dsimp only
          rw [if_pos (show toInt32 0 = 0 by decide), hnext]
          by_cases hfirst : first = []
          · simp [hfirst, hnamed.nonempty]
          · simp [hfirst]
      | present =>
          dsimp only
          rw [if_neg (show toInt32 UV_EEXIST ≠ 0 by decide),
            if_pos (show toInt32 UV_EEXIST = UV_EEXIST by decide), hnext]
      | refused e =>
          dsimp only
          have hneg := code_neg e
          rw [toInt32_code, if_neg (Int.ne_of_lt hneg), if_neg (code_ne_exist e)]
          by_cases hfirst : first = []
          · simp [codeOf, hfirst]
          · simp [codeOf, hfirst]

/-! ### What is added -/

/-- Some entries are added, which are directories that were not in use, and nothing else changes. -/
structure Grown (s t : Directories) (spots : List (Nat × Bytes)) : Prop where
  made : t.made = s.made ++ spots
  root : t.root = s.root
  cwd : t.cwd = s.cwd
  limit : t.limit = s.limit
  next_le : s.next ≤ t.next
  fresh : ∀ spot ∈ spots, s.tree.entry spot.1 spot.2 = none ∧
    ∃ id, s.next ≤ id ∧ t.entries spot.1 spot.2 = some (.directory id)
  kept : ∀ dir name, (dir, name) ∉ spots → t.entries dir name = s.entries dir name
  parent : ∀ dir, dir < s.next → t.parent dir = s.parent dir

theorem Grown.refl (s : Directories) : Grown s s [] where
  made := (List.append_nil _).symm
  root := rfl
  cwd := rfl
  limit := rfl
  next_le := Nat.le_refl _
  fresh := by simp
  kept _ _ _ := rfl
  parent _ _ := rfl

variable {s t u : Directories} {spots spots' : List (Nat × Bytes)}

/-- Added entries change no other one in a directory that was in use. -/
theorem Grown.entry (h : Grown s t spots) {entry : Entry Bytes}
    (hdir : dir < s.next) (hentry : s.tree.entry dir name = some entry) :
    t.tree.entry dir name = some entry := by
  have hspot : (dir, name) ∉ spots := fun hin => by
    have hnone := (h.fresh _ hin).1
    rw [hentry] at hnone
    cases hnone
  unfold Directories.tree at hentry ⊢
  dsimp only at hentry ⊢
  rw [h.parent dir hdir, h.kept dir name hspot]
  exact hentry

theorem Grown.grows (h : Grown s t spots) : s.tree.Grows t.tree (· < s.next) where
  root := h.root
  cwd := h.cwd
  limit := h.limit
  kept := h.entry
  closed := Directories.tree_closed
  root_inside := s.root_lt
  cwd_inside := s.cwd_lt

/-- What is not there later was not there. -/
theorem Grown.absent (h : Grown s t spots)
    (hnone : t.tree.entry dir name = none) : s.tree.entry dir name = none := by
  have hproper := Directories.proper_of_none hnone
  by_cases hspot : (dir, name) ∈ spots
  · exact (h.fresh _ hspot).1
  · rw [Directories.entry_proper hproper] at hnone ⊢
    rw [← h.kept dir name hspot]
    exact hnone

theorem Grown.trans (h : Grown s t spots) (h' : Grown t u spots') : Grown s u (spots ++ spots') where
  made := by rw [h'.made, h.made, List.append_assoc]
  root := h'.root.trans h.root
  cwd := h'.cwd.trans h.cwd
  limit := h'.limit.trans h.limit
  next_le := Nat.le_trans h.next_le h'.next_le
  fresh spot hspot := by
    rcases List.mem_append.mp hspot with hold | hnew
    · rcases h.fresh spot hold with ⟨hnone, id, hid, hentry⟩
      have hproper := Directories.proper_of_none hnone
      refine ⟨hnone, id, hid, ?_⟩
      by_cases hagain : spot ∈ spots'
      · have hgone := (h'.fresh spot hagain).1
        rw [Directories.entry_proper hproper, hentry] at hgone
        cases hgone
      · rw [h'.kept spot.1 spot.2 hagain]
        exact hentry
    · rcases h'.fresh spot hnew with ⟨hnone, id, hid, hentry⟩
      exact ⟨h.absent hnone, id, Nat.le_trans h.next_le hid, hentry⟩
  kept dir name hspot := by
    rw [List.mem_append, not_or] at hspot
    rw [h'.kept dir name hspot.2, h.kept dir name hspot.1]
  parent dir hdir := by
    rw [h'.parent dir (Nat.lt_of_lt_of_le hdir h.next_le), h.parent dir hdir]

theorem Grown.create (hdir : dir < s.next)
    (hnone : s.tree.entry dir name = none) : Grown s (s.create dir name hdir) [(dir, name)] where
  made := rfl
  root := rfl
  cwd := rfl
  limit := rfl
  next_le := Nat.le_succ _
  fresh spot hspot := by
    cases List.mem_singleton.mp hspot
    exact ⟨hnone, s.next, Nat.le_refl _, if_pos ⟨rfl, rfl⟩⟩
  kept d n hspot := by
    refine if_neg ?_
    rintro ⟨rfl, rfl⟩
    exact hspot List.mem_cons_self
  parent d hd := if_neg (Nat.ne_of_lt hd)

/-! ### What the loop does -/

/-- A name that is no dot. -/
def Counts (name : Bytes) : Prop := name ≠ dot ∧ name ≠ dotDot

/-- The outcome of the loop behind some names. -/
structure Looped (absolute : Bool) (done rest : List Bytes) (s : Directories)
    (out : Directories × Option Errno × List (List Bytes)) (spots : List (Nat × Bytes)) : Prop where
  grown : Grown s out.1 spots
  /-- What is created has the names up to some component. -/
  created : List.Forall₂ (fun names spot => out.1.tree.locate ⟨absolute, names⟩ = some spot ∧
    ∃ more behind, more ≠ [] ∧ rest = more ++ behind ∧ names = done ++ more) out.2.2 spots
  /-- After an error, the names lead to no directory. -/
  failed : out.2.1 ≠ none → ∀ id, out.1.tree.find ⟨absolute, done ++ rest⟩ ≠ some (.directory id)
  /-- From an empty directory on, the path goes deeper. -/
  inside : ∀ id, s.tree.find ⟨absolute, done⟩ = some (.directory id) → (∀ name, s.entries id name = none) →
    (∀ name ∈ rest, Counts name) → ∀ top, out.1.tree.entry top.1 top.2 = some (.directory id) →
    ∀ spot ∈ spots, out.1.tree.Inside Counts top spot
  first : ∀ spot others, spots = spot :: others → spot.1 < s.next ∧ ∃ more behind, more ≠ [] ∧
    rest = more ++ behind ∧ out.2.2.head? = some (done ++ more) ∧
    ((∀ name ∈ behind, Counts name) → ∀ other ∈ others, out.1.tree.Inside Counts spot other)

/-- The directory that was created is empty, and is where its names lead. -/
theorem create_leads {done : List Bytes} (hdir : dir < s.next)
    (hfind : s.tree.find ⟨absolute, done⟩ = some (.directory dir)) (hnone : s.tree.entry dir name = none) :
    (s.create dir name hdir).tree.entry dir name = some (.directory s.next) ∧
      (s.create dir name hdir).tree.find ⟨absolute, done ++ [name]⟩ = some (.directory s.next) ∧
      ∀ n, (s.create dir name hdir).entries s.next n = none := by
  have hentry : (s.create dir name hdir).tree.entry dir name = some (.directory s.next) := by
    rw [Directories.entry_proper (Directories.proper_of_none hnone)]
    exact if_pos ⟨rfl, rfl⟩
  have hthere : s.tree.locate ⟨absolute, done ++ [name]⟩ = some (dir, name) :=
    locate_behind.mpr ⟨dir, hfind, rfl⟩
  have hlocate := (Tree.locate_grows (Grown.create hdir hnone).grows hthere).1
  refine ⟨hentry, Tree.find_of_locate hlocate hentry, fun n => ?_⟩
  have hother : ¬ (s.next = dir ∧ n = name) := fun h => Nat.lt_irrefl _ (h.1 ▸ hdir)
  exact (if_neg hother).trans (s.unused (Nat.le_refl _))

theorem created_cons {done rest : List Bytes} {tree : Links.Tree Bytes}
    {names : List Bytes} {spot : Nat × Bytes}
    (h : tree.locate ⟨absolute, names⟩ = some spot ∧
      ∃ more behind, more ≠ [] ∧ rest = more ++ behind ∧ names = done ++ [name] ++ more) :
    tree.locate ⟨absolute, names⟩ = some spot ∧
      ∃ more behind, more ≠ [] ∧ name :: rest = more ++ behind ∧ names = done ++ more := by
  rcases h with ⟨hlocate, more, behind, -, rfl, rfl⟩
  exact ⟨hlocate, name :: more, behind, List.cons_ne_nil _ _, rfl, by simp⟩

theorem makeAll_spec (r : Refusals) (absolute : Bool) (done rest : List Bytes) (s : Directories) :
    ∃ spots, Looped absolute done rest s (makeAll r absolute done rest s) spots := by
  induction rest generalizing done s with
  | nil =>
      refine ⟨[], Grown.refl s, .nil, fun h => absurd rfl h, by simp, ?_⟩
      intro spot others h
      cases h
  | cons name rest ih =>
      have hassoc : done ++ name :: rest = done ++ [name] ++ rest := by simp
      unfold makeAll
      rcases mkdir_spec r s absolute done name with ⟨dir, hdir, hmade, hfind, hnone⟩ |
        ⟨hpresent, dir, hfind, hsome⟩ | ⟨e, hrefused, hnone⟩
      · rw [hmade]
        rcases ih (done ++ [name]) (s.create dir name hdir) with ⟨spots, hloop⟩
        rcases create_leads hdir hfind hnone with ⟨hentry, hleads, hempty⟩
        have hstep := Grown.create hdir hnone
        have hthere : s.tree.locate ⟨absolute, done ++ [name]⟩ = some (dir, name) :=
          locate_behind.mpr ⟨dir, hfind, rfl⟩
        have hall := hstep.trans hloop.grown
        have hlast := hloop.grown.entry (Nat.lt_succ_of_lt hdir) hentry
        refine ⟨(dir, name) :: spots, hall, .cons ⟨?_, ?_⟩ (hloop.created.imp fun _ _ => created_cons),
          ?_, ?_, ?_⟩
        · exact (Tree.locate_grows hall.grows hthere).1
        · exact ⟨[name], rest, List.cons_ne_nil _ _, rfl, rfl⟩
        · intro herror
          rw [hassoc]
          exact hloop.failed herror
        · intro id hfind' _ hcounts top htop
          cases hfind.symm.trans hfind'
          have hown : (makeAll r absolute (done ++ [name]) rest (s.create dir name hdir)).1.tree.Inside
              Counts top (dir, name) := by
            refine .deeper .self htop (hcounts name List.mem_cons_self) ?_
            rw [hlast]
            exact Option.some_ne_none _
          intro spot hspot
          rcases List.mem_cons.mp hspot with rfl | hmore
          · exact hown
          · exact hown.trans (hloop.inside s.next hleads hempty
              (fun n hn => hcounts n (List.mem_cons_of_mem _ hn)) (dir, name) hlast spot hmore)
        · intro spot others hspots
          cases hspots
          exact ⟨hdir, [name], rest, List.cons_ne_nil _ _, rfl, rfl, fun hcounts =>
            hloop.inside s.next hleads hempty hcounts (dir, name) hlast⟩
      · rw [hpresent]
        rcases ih (done ++ [name]) s with ⟨spots, hloop⟩
        refine ⟨spots, hloop.grown, hloop.created.imp fun _ _ => created_cons, ?_, ?_, ?_⟩
        · intro herror
          rw [hassoc]
          exact hloop.failed herror
        · intro id hfind' hempty hcounts
          cases hfind.symm.trans hfind'
          rw [Directories.entry_proper (hcounts name List.mem_cons_self), hempty name] at hsome
          exact absurd rfl hsome
        · intro spot others hspots
          rcases hloop.first spot others hspots with ⟨hlt, more, behind, -, hrest, hhead, hinside⟩
          refine ⟨hlt, name :: more, behind, List.cons_ne_nil _ _, by rw [hrest]; rfl, ?_, hinside⟩
          rw [hhead, List.append_assoc]
          rfl
      · rw [hrefused]
        refine ⟨[], Grown.refl s, .nil, fun _ id hfound => ?_, by simp, fun spot others h => by cases h⟩
        have happend := @Tree.walk_append _ s.tree s.tree.limit (s.tree.start absolute s.tree.cwd) done
          (name :: rest)
        rcases happend.2 _ (List.cons_ne_nil _ _) hfound with ⟨dir, hfind⟩
        rcases happend.1 dir hfind with ⟨left, -, hleft⟩
        have hgone := hleft.symm.trans hfound
        rw [Tree.walk_of_absent (hnone dir hfind)] at hgone
        cases hgone

theorem makeAll_append (r : Refusals) {absolute : Bool} {done front : List Bytes} {s : Directories} {id : Nat}
    (hfind : s.tree.find ⟨absolute, done ++ front⟩ = some (.directory id)) (rest : List Bytes) :
    makeAll r absolute done (front ++ rest) s = makeAll r absolute (done ++ front) rest s := by
  induction front generalizing done with
  | nil => rw [List.append_nil, List.nil_append]
  | cons name front ih =>
      have hassoc : done ++ name :: front = done ++ [name] ++ front := by simp
      have happend := @Tree.walk_append _ s.tree s.tree.limit (s.tree.start absolute s.tree.cwd) done
        (name :: front)
      rcases happend.2 _ (List.cons_ne_nil _ _) hfind with ⟨dir, hdir⟩
      rcases happend.1 dir hdir with ⟨left, -, hleft⟩
      have hthere : s.tree.entry dir name ≠ none := by
        intro hnone
        have hgone := hleft.symm.trans hfind
        rw [Tree.walk_of_absent hnone] at hgone
        cases hgone
      have hpresent : s.mkdir r ⟨absolute, done ++ [name]⟩ = .present := by
        rcases mkdir_spec r s absolute done name with ⟨dir', hlt, -, hdir', hnone⟩ | ⟨hpresent, -⟩ |
          ⟨e, -, hnone⟩
        · cases hdir.symm.trans hdir'
          exact absurd hnone hthere
        · exact hpresent
        · exact absurd (hnone dir hdir) hthere
      rw [List.cons_append, makeAll, hpresent, hassoc]
      rw [hassoc] at hfind
      exact ih hfind

/-- Something that is there and is no directory ends the loop, and nothing has changed. -/
theorem makeAll_blocked (r : Refusals) {names behind : List Bytes} {s : Directories}
    {spot : Nat × Bytes} (hlocate : s.tree.locate ⟨absolute, names⟩ = some spot)
    (hthere : s.tree.entry spot.1 spot.2 ≠ none)
    (hno : ∀ id, s.tree.find ⟨absolute, names⟩ ≠ some (.directory id)) :
    (makeAll r absolute [] (names ++ behind) s).1 = s := by
  rcases List.eq_nil_or_concat names with rfl | ⟨front, name, rfl⟩
  · simp [Tree.locate] at hlocate
  · rw [List.concat_eq_append] at hlocate hno ⊢
    rcases locate_behind.mp hlocate with ⟨dir, hfind, rfl⟩
    have hskip := @makeAll_append r absolute [] front s dir hfind ([name] ++ behind)
    rw [List.append_assoc, hskip, List.nil_append, List.singleton_append, makeAll]
    rcases mkdir_spec r s absolute front name with ⟨dir', hlt, -, hdir', hnone⟩ | ⟨hpresent, -⟩ |
      ⟨e, hrefused, -⟩
    · cases hfind.symm.trans hdir'
      exact absurd hnone hthere
    · rw [hpresent]
      cases behind with
      | nil => rfl
      | cons next behind =>
          dsimp only
          rw [makeAll]
          rcases mkdir_spec r s absolute (front ++ [name]) next with ⟨dir', _, -, hdir', -⟩ |
            ⟨-, dir', hdir', -⟩ | ⟨e, hrefused, -⟩
          · exact absurd hdir' (hno dir')
          · exact absurd hdir' (hno dir')
          · rw [hrefused]
    · rw [hrefused]

/-! ### The call -/

/-- What a call does, and what a second one does. -/
structure Outcome (path : Bytes) (s t : Directories) (made : Made) (spots : List (Nat × Bytes)) : Prop where
  result : made.result = 0 ↔ ∃ id, t.tree.find (routeOf path) = some (.directory id)
  named : made.result ≠ 0 → made.errPath = path
  grown : Grown s t spots
  along : ∀ spot ∈ spots, ∃ names behind, names ≠ [] ∧ components path = names ++ behind ∧
    t.tree.locate ⟨isAbsolute path, names⟩ = some spot
  none_created : spots = [] → made.firstCreated = []
  /-- What is reported was created first, in a directory that was there. Where no component behind it
  leads up, all other directories were created inside it. -/
  first : ∀ spot others, spots = spot :: others → made.firstCreated ≠ [] ∧
    t.tree.locate (routeOf made.firstCreated) = some spot ∧ spot.1 < s.next ∧
    ∃ names behind, components path = names ++ behind ∧
      made.firstCreated = pathTo (isAbsolute path) names ∧
      (dotDot ∉ behind → ∀ other ∈ others, t.tree.Inside Counts spot other)
  obstacle : ∀ names behind spot, components path = names ++ behind →
    s.tree.locate ⟨isAbsolute path, names⟩ = some spot → s.tree.entry spot.1 spot.2 ≠ none →
    (∀ id, s.tree.find ⟨isAbsolute path, names⟩ ≠ some (.directory id)) →
    made.result ≠ 0 ∧ made.errPath = path ∧ t = s
  again : made.result = 0 → ∀ r mode, mkdirRecursive (libuv r) path mode t = (t, ⟨0, [], []⟩)

theorem find_components {path : Bytes} {id : Nat} :
    s.tree.find (routeOf path) = some (.directory id) ↔
      s.tree.find ⟨isAbsolute path, components path⟩ = some (.directory id) := by
  have hlast : Thinned dot (if endsInSlash path then [dot] else []) [] := by
    split
    · exact .skip .nil
    · exact .nil
  have hthin : Thinned dot (routeNames path) (components path) := by
    have happend := (Thinned.filter (lookupNames path)).append hlast
    rwa [List.append_nil] at happend
  exact Tree.walk_thinned Directories.entry_dot hthin

theorem mkdirRecursive_eq (r : Refusals) {path : Bytes} (hpath : path ≠ []) (mode : Int) (s : Directories) :
    mkdirRecursive (libuv r) path mode s =
      let out := makeAll r (isAbsolute path) [] (components path) s
      let first := (out.2.2.head?.map (pathTo (isAbsolute path))).getD []
      (out.1,
        match out.2.1, out.1.tree.find (routeOf path) with
        | some e, _ => ⟨e.code, first, path⟩
        | none, some (.directory _) => ⟨0, first, []⟩
        | none, some (.file _) => ⟨UV_EEXIST, first, path⟩
        | none, none => ⟨UV_ENOTDIR, first, path⟩) := by
  have hroot : rootOf path = pathTo (isAbsolute path) [] := by
    unfold rootOf isAbsolute pathTo
    cases path with
    | nil => rfl
    | cons c path =>
        by_cases hc : c = 47
        · simp [hc, slash]
        · simp [hc, slash]
  have hloop := @mkdirComponents_eq r mode (isAbsolute path) [] (components path) (by simp)
    (fun _ => components_proper) [] s
  unfold mkdirRecursive
  rw [mkdirComponents_filter, splitOn_eq_splitSlash, hroot]
  rw [components, lookupNames] at hloop ⊢
  rw [hloop]
  dsimp only
  generalize makeAll r (isAbsolute path) [] _ s = out
  cases out.2.1 with
  | some e =>
      rw [codeOf, if_pos (Int.ne_of_lt (code_neg e))]
      simp
  | none =>
      have hzero : ¬ codeOf none ≠ 0 := not_not.mpr rfl
      rw [if_neg hzero, if_pos rfl]
      simp only [libuv, fsStat, onPath, work, if_neg hpath]
      cases out.1.tree.find (routeOf path) with
      | none =>
          dsimp only
          rw [toInt32_code, if_pos (Int.ne_of_lt (code_neg _))]
      | some place =>
          cases place with
          | directory id =>
              dsimp only
              rw [if_neg (not_not.mpr (show toInt32 0 = 0 by decide)), if_pos (by decide)]
          | file inode =>
              dsimp only
              rw [if_neg (not_not.mpr (show toInt32 0 = 0 by decide)), if_neg (by decide)]

theorem exists_of_forall₂ {α β : Type} {R : α → β → Prop} {l : List α} {l' : List β}
    (h : List.Forall₂ R l l') : ∀ b ∈ l', ∃ a ∈ l, R a b := by
  induction h with
  | nil => simp
  | cons hab _ ih =>
      intro b hb
      rcases List.mem_cons.mp hb with rfl | hrest
      · exact ⟨_, List.mem_cons_self, hab⟩
      · rcases ih b hrest with ⟨a, ha, hr⟩
        exact ⟨a, List.mem_cons_of_mem _ ha, hr⟩

/-- For every file system and every path that is not empty. -/
theorem mkdirRecursive_outcome (r : Refusals) {path : Bytes} (hpath : path ≠ []) (mode : Int)
    (s : Directories) : ∃ spots, Outcome path s (mkdirRecursive (libuv r) path mode s).1
      (mkdirRecursive (libuv r) path mode s).2 spots := by
  rcases makeAll_spec r (isAbsolute path) [] (components path) s with ⟨spots, hloop⟩
  refine ⟨spots, ?_⟩
  have hproper : ∀ name ∈ components path, Proper name := fun _ => components_proper
  have hnames : ∀ names behind, names ≠ [] → components path = names ++ behind →
      Named (isAbsolute path) names (pathTo (isAbsolute path) names) := by
    intro names behind hne hsplit
    refine named_pathTo _ hne fun name hname => hproper name ?_
    rw [hsplit]
    exact List.mem_append_left _ hname
  have heq := mkdirRecursive_eq r hpath mode s
  dsimp only at heq
  have hstate : (mkdirRecursive (libuv r) path mode s).1 =
      (makeAll r (isAbsolute path) [] (components path) s).1 := by rw [heq]
  have hfirst : (mkdirRecursive (libuv r) path mode s).2.firstCreated =
      ((makeAll r (isAbsolute path) [] (components path) s).2.2.head?.map
        (pathTo (isAbsolute path))).getD [] := by
    rw [heq]
    dsimp only
    split <;> rfl
  have hresult : (mkdirRecursive (libuv r) path mode s).2.result = 0 ↔
      ∃ id, (makeAll r (isAbsolute path) [] (components path) s).1.tree.find (routeOf path) =
        some (.directory id) := by
    rw [heq]
    cases herror : (makeAll r (isAbsolute path) [] (components path) s).2.1 with
    | some e =>
        refine iff_of_false (Int.ne_of_lt (code_neg e)) ?_
        rintro ⟨id, hid⟩
        exact hloop.failed (by rw [herror]; exact Option.some_ne_none e) id (find_components.mp hid)
    | none =>
        cases (makeAll r (isAbsolute path) [] (components path) s).1.tree.find (routeOf path) with
        | none => simp [UV_ENOTDIR]
        | some place =>
            cases place with
            | directory id => simp
            | file inode => simp [UV_EEXIST]
  have hnamed : (mkdirRecursive (libuv r) path mode s).2.result ≠ 0 →
      (mkdirRecursive (libuv r) path mode s).2.errPath = path := fun h =>
    (mkdirRecursive_result (libuv r) path mode s h).2.2
  refine ⟨by rw [hstate]; exact hresult, hnamed, by rw [hstate]; exact hloop.grown, ?_, ?_, ?_, ?_, ?_⟩
  · intro spot hspot
    rw [hstate]
    rcases exists_of_forall₂ hloop.created spot hspot with
      ⟨names, -, hlocate, more, behind, hne, hsplit, hmore⟩
    rw [List.nil_append] at hmore
    exact ⟨names, behind, hmore ▸ hne, hmore ▸ hsplit, hlocate⟩
  · intro hnone
    have hcreated := hloop.created
    rw [hnone, List.forall₂_nil_right_iff] at hcreated
    rw [hfirst, hcreated]
    rfl
  · intro spot others hspots
    rcases hloop.first spot others hspots with ⟨hlt, more, behind, hne, hsplit, hhead, hinside⟩
    have hn := hnames more behind hne hsplit
    have htext : (mkdirRecursive (libuv r) path mode s).2.firstCreated = pathTo (isAbsolute path) more := by
      rw [hfirst, hhead]
      rfl
    rw [htext, hstate, hn.route]
    refine ⟨hn.nonempty, ?_, hlt, more, behind, hsplit, rfl, fun hdots => hinside fun name hname => ⟨?_, ?_⟩⟩
    · have hcreated := hloop.created
      rw [hspots] at hcreated
      cases hout : (makeAll r (isAbsolute path) [] (components path) s).2.2 with
      | nil =>
          rw [hout] at hhead
          cases hhead
      | cons names created =>
          rw [hout] at hhead hcreated
          cases hhead
          exact (List.forall₂_cons.mp hcreated).1.1
    · exact (hproper name (by rw [hsplit]; exact List.mem_append_right _ hname)).2.1
    · rintro rfl
      exact hdots hname
  · intro names behind spot hsplit hlocate hthere hno
    have hsame : (makeAll r (isAbsolute path) [] (components path) s).1 = s := by
      rw [hsplit]
      exact makeAll_blocked r hlocate hthere hno
    have herror : (mkdirRecursive (libuv r) path mode s).2.result ≠ 0 := by
      intro hzero
      rcases hresult.mp hzero with ⟨id, hid⟩
      rw [hsame, find_components, hsplit] at hid
      have happend := @Tree.walk_append _ s.tree s.tree.limit (s.tree.start (isAbsolute path) s.tree.cwd)
        names behind
      by_cases hbehind : behind = []
      · rw [hbehind, List.append_nil] at hid
        exact hno id hid
      · rcases happend.2 _ hbehind hid with ⟨dir, hdir⟩
        exact hno dir hdir
    exact ⟨herror, hnamed herror, hstate.trans hsame⟩
  · intro hzero r' mode'
    rcases hresult.mp hzero with ⟨id, hid⟩
    rw [hstate, mkdirRecursive_eq r' hpath]
    have hskip := @makeAll_append r' (isAbsolute path) [] (components path) _ id (find_components.mp hid) []
    rw [List.append_nil, List.nil_append, makeAll] at hskip
    rw [hskip]
    dsimp only
    rw [hid]
    rfl

/-- The working directory is the root and holds the directory `x`. -/
def oneDirectory : Directories where
  entries dir name := if dir = 0 ∧ name = [120] then some (.directory 1) else none
  parent _ := 0
  root := 0
  cwd := 0
  limit := 40
  next := 2
  made := []
  root_lt := Nat.zero_lt_two
  cwd_lt := Nat.zero_lt_two
  entry_lt h := by
    split_ifs at h
    cases h
    exact Nat.one_lt_two
  parent_lt _ := Nat.zero_lt_two
  unused h := by
    refine if_neg fun heq => ?_
    rw [heq.1] at h
    exact absurd h (Nat.not_le_of_lt Nat.zero_lt_two)

/-- Nothing is refused but what leads nowhere. -/
def willing : Refusals := ⟨fun _ => ENOENT, fun _ _ => none⟩

theorem mkdirRecursive_outcome_x : ∃ spots, Outcome (ascii "x//./y/")
    oneDirectory (mkdirRecursive (libuv willing) (ascii "x//./y/") 0o777 oneDirectory).1
    (mkdirRecursive (libuv willing) (ascii "x//./y/") 0o777 oneDirectory).2 spots :=
  mkdirRecursive_outcome willing (by decide) 0o777 oneDirectory

/-- The directories behind `x/y` and behind `z`. -/
def below : Directories := oneDirectory.create 1 [121] Nat.one_lt_two

def beside : Directories := below.create 0 [122] (Nat.succ_pos 2)

theorem makeAll_beside : makeAll willing false [] [[120], [121], dotDot, dotDot, [122]] oneDirectory =
    (beside, none, [[[120], [121]], [[120], [121], dotDot, dotDot, [122]]]) := by
  have hx : oneDirectory.mkdir willing ⟨false, [[120]]⟩ = .present := rfl
  have hy : oneDirectory.mkdir willing ⟨false, [[120], [121]]⟩ = .made below := rfl
  have hup : below.mkdir willing ⟨false, [[120], [121], dotDot]⟩ = .present := rfl
  have hupper : below.mkdir willing ⟨false, [[120], [121], dotDot, dotDot]⟩ = .present := rfl
  have hz : below.mkdir willing ⟨false, [[120], [121], dotDot, dotDot, [122]]⟩ = .made beside := rfl
  simp only [makeAll, List.nil_append, List.cons_append, hx, hy, hup, hupper, hz]

/-- For `x/y/../../z` the directory `x/y` is reported, but `z` is created beside `x`. -/
theorem mkdirRecursive_reports_lower :
    mkdirRecursive (libuv willing) (ascii "x/y/../../z") 0o777 oneDirectory =
        (beside, ⟨0, ascii "x/y", []⟩) ∧
      beside.made = [(1, ascii "y"), (0, ascii "z")] ∧
      beside.tree.Inside Counts (0, ascii "x") (1, ascii "y") ∧
      ¬ beside.tree.Inside Counts (1, ascii "y") (0, ascii "z") := by
  have hcomponents : components (ascii "x/y/../../z") = [[120], [121], dotDot, dotDot, [122]] := by decide
  have hfind : beside.tree.find (routeOf (ascii "x/y/../../z")) = some (.directory 3) := by
    rw [find_components, hcomponents]
    rfl
  refine ⟨?_, by decide, ?_, ?_⟩
  · rw [mkdirRecursive_eq willing (by decide), hcomponents]
    have habsolute : isAbsolute (ascii "x/y/../../z") = false := by decide
    rw [habsolute, makeAll_beside]
    dsimp only
    rw [hfind]
    exact congrArg (fun text => (beside, (⟨0, text, []⟩ : Made))) (by decide)
  · have hx : beside.tree.entry 0 (ascii "x") = some (.directory 1) := by decide
    exact .deeper .self hx (by unfold Counts; decide) (by decide)
  · -- nothing is inside `y`
    have hempty : ∀ name, beside.entries 2 name = none := by
      intro name
      simp [beside, below, oneDirectory, Directories.create]
    have hself : ∀ spot, beside.tree.Inside Counts (1, ascii "y") spot → spot = (1, ascii "y") := by
      intro spot h
      induction h with
      | self => rfl
      | deeper _ hentry hname hthere ih =>
          subst ih
          have hy : beside.tree.entry 1 (ascii "y") = some (.directory 2) := by decide
          cases hy.symm.trans hentry
          rw [Directories.entry_proper hname, hempty] at hthere
          exact absurd rfl hthere
    intro h
    exact absurd (hself _ h) (by decide)

end HermesNode.Fs.MkdirRecursive
