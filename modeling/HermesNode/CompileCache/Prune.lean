/-
Module: HermesNode.CompileCache.Prune
Purpose: Old generations of the cache are removed. Whatever system calls fail, what is gone lies in the
  directories beside the one to keep, through directories only, and as many of these as are to be kept
  are untouched. Where none fails, the ones that are gone are gone as a whole, and none of them was
  modified in a later second than one that is left.
Trusted boundary: human-reviewed spec (transcribed from `lib/compile-cache/compile_cache.cpp`; POSIX
  pathname resolution and file operations as in the recursive remove, each of which may also fail for
  a reason of its own); assumed contract (`std::sort`, a parameter)
Main exports: Timestamp, System, compileCachePruneGenerations_prunes
-/
import Mathlib.Data.List.Sort
import HermesNode.Lib.Lists
import HermesNode.Fs.Remove

namespace HermesNode.CompileCache.Prune

open HermesNode.Build (routeOf routeNames lookupNames routeNames_name name_not_endsInSlash)
open Links Fs

/-! ### System calls -/

/-- `st_mtim`. -/
structure Timestamp where
  seconds : Int
  nanoseconds : Nat
deriving Repr, DecidableEq

/-- A moment is not before another one. -/
def Timestamp.le (a b : Timestamp) : Prop :=
  a.seconds < b.seconds ∨ a.seconds = b.seconds ∧ a.nanoseconds ≤ b.nanoseconds

instance timestamp_decidable (a b : Timestamp) : Decidable (a.le b) :=
  inferInstanceAs (Decidable (a.seconds < b.seconds ∨ a.seconds = b.seconds ∧ a.nanoseconds ≤ b.nanoseconds))

/-- The volume, how many system calls were made, whether one of them failed, and what was removed. -/
structure System where
  volume : Volume
  calls : Nat
  failed : Bool
  gone : List (Nat × Bytes)

namespace System

section

variable (faults : Nat → Option Nat) (s : System)

/-- A system call with its own answer, which fails if the fault of that call is due. -/
def call {α : Type} (answer : Except Nat α) : Option α × System :=
  match faults s.calls, answer with
  | none, .ok a => (some a, { s with calls := s.calls + 1 })
  | _, _ => (none, { s with calls := s.calls + 1, failed := true })

def lstat (path : Bytes) : Option (Links.Entry Bytes) × System := s.call faults (s.volume.lstat path)

/-- `opendir`, and the names `readdir` gives but for the dots. A fault of `readdir` tells how many names
come before it. -/
def list (path : Bytes) : Option (List Bytes) × System :=
  match s.call faults ((s.volume.scandir path).map fun listed => listed.2.map Prod.fst) with
  | (none, s) => (none, s)
  | (some names, s) =>
      match faults s.calls with
      | none => (some names, { s with calls := s.calls + 1 })
      | some k => (some (names.take k), { s with calls := s.calls + 1, failed := true })

/-- What `unlink` and `rmdir` leave. -/
def after (answer : Except Nat (Volume × Nat × Bytes)) : System :=
  match s.call faults answer with
  | (none, s) => s
  | (some (volume, spot), s) => { s with volume := volume, gone := spot :: s.gone }

def unlink (path : Bytes) : System := s.after faults (s.volume.unlink path)

def rmdir (path : Bytes) : System := s.after faults (s.volume.rmdir path)

end

end System

/-! ### The functions -/

/-- One turn of the loop of `removeTree` over the entries of a directory. -/
def removeEntry (faults : Nat → Option Nat) (removeTree : Bytes → System → Option System) (path : Bytes)
    (s : System) (name : Bytes) : Option System :=
  let child := path ++ slash :: name
  let (st, s) := s.lstat faults child
  match st with
  | some (.directory _) => removeTree child s
  | _ => some (s.unlink faults child)

def removeTree (faults : Nat → Option Nat) : Nat → Bytes → System → Option System
  | 0, _, _ => none
  | fuel + 1, path, s =>
      let (names, s) := s.list faults path
      let removed := (names.getD []).foldlM (removeEntry faults (removeTree faults fuel) path) s
      removed.map fun s => s.rmdir faults path

section

variable (faults : Nat → Option Nat) (mtime : Nat → Timestamp) (versionedRoot keepName : Bytes)

/-- The loop over the entries of `versionedRoot`: `others`, with `st_mtime` in whole seconds. -/
def collect : List Bytes → System → List (Int × Bytes) × System
  | [], s => ([], s)
  | name :: rest, s =>
      if keepName = name then collect rest s
      else
        let child := versionedRoot ++ slash :: name
        let (st, s) := s.lstat faults child
        match st with
        | some (.directory id) =>
            let (others, s) := collect rest s
            (((mtime id).seconds, child) :: others, s)
        | _ => collect rest s

def compileCachePruneGenerations (sort : List (Int × Bytes) → List (Int × Bytes)) (keepCount fuel : Nat)
    (s : System) : Option System :=
  match s.list faults versionedRoot with
  | (none, s) => some s
  | (some names, s) =>
      let (others, s) := collect faults mtime versionedRoot keepName names s
      if others.length ≤ keepCount then some s
      else ((sort others).drop keepCount).foldlM (fun s other => removeTree faults fuel other.2 s) s

end

/-- `std::sort` with the later time first: the same elements in an order that nothing else is said
about. -/
structure Sorts (sort : List (Int × Bytes) → List (Int × Bytes)) : Prop where
  perm : ∀ others, (sort others).Perm others
  sorted : ∀ others, (sort others).Pairwise fun a b => b.1 ≤ a.1

/-- Every directory is an entry of its own. -/
def Dotted (v : Volume) : Prop := ∀ dir, v.tree.entry dir dot = some (.directory dir)

/-- A volume no call was made on yet. -/
def untouched (v : Volume) : System := ⟨v, 0, false, []⟩

/-! ### What is removed -/

/-- An entry is a directory, which a link is not. -/
def isDirectory (v : Volume) (dir : Nat) (name : Bytes) : Bool :=
  match v.tree.entry dir name with
  | some (.directory _) => true
  | _ => false

/-- The directories beside the one to keep. -/
def otherNames (v : Volume) (root : Nat) (keepName : Bytes) : List Bytes :=
  (v.names root).filter fun name => decide (name ≠ keepName) && isDirectory v root name

/-- When a directory was modified. -/
def modified (v : Volume) (mtime : Nat → Timestamp) (root : Nat) (name : Bytes) : Timestamp :=
  match v.tree.entry root name with
  | some (.directory id) => mtime id
  | _ => ⟨0, 0⟩

/-- Nothing at or below a place is gone. -/
def Untouched (v : Volume) (out : System) (place : Nat × Bytes) : Prop :=
  ∀ spot, v.Within place spot → spot ∉ out.gone

/-- What pruning leaves of a volume. -/
structure Pruned (v : Volume) (mtime : Nat → Timestamp) (root : Nat) (keepName : Bytes)
    (keepCount : Nat) (out : System) : Prop where
  /-- Only what is gone has changed. -/
  cleared : v.Cleared out.gone out.volume
  /-- It lies in one of the other directories, and links are not followed. -/
  only : ∀ spot ∈ out.gone, ∃ name ∈ otherNames v root keepName, v.Within (root, name) spot
  keep : keepName ∈ v.names root → Untouched v out (root, keepName)
  plain : ∀ name, (∀ id, v.tree.entry root name ≠ some (.directory id)) → (root, name) ∉ out.gone
  /-- Enough of the others are untouched. -/
  survivors : ∃ kept : List Bytes, kept.Nodup ∧
    (∀ name ∈ kept, name ∈ otherNames v root keepName ∧ Untouched v out (root, name)) ∧
      min keepCount (otherNames v root keepName).length ≤ kept.length
  /-- A directory is gone with all that lies below it. -/
  whole : ∀ name, (root, name) ∈ out.gone → ∀ spot, v.Within (root, name) spot → spot ∈ out.gone
  /-- Where no call failed, nothing is removed in part, ... -/
  clean : out.failed = false → ∀ name ∈ otherNames v root keepName,
    (root, name) ∈ out.gone ∨ Untouched v out (root, name)
  /-- ... and what is left was modified in the same second or later. -/
  recent : out.failed = false → ∀ left ∈ otherNames v root keepName,
    ∀ removed ∈ otherNames v root keepName, (root, left) ∉ out.gone → (root, removed) ∈ out.gone →
    (modified v mtime root removed).seconds ≤ (modified v mtime root left).seconds

/-! ### Calls -/

variable {v : Volume} {s t u : System}

/-- Nothing changes but the number of calls and whether one failed. -/
structure Same (s t : System) : Prop where
  volume : t.volume = s.volume
  gone : t.gone = s.gone
  failed : s.failed = true → t.failed = true

theorem Same.trans (h : Same s t) (h' : Same t u) : Same s u where
  volume := h'.volume.trans h.volume
  gone := h'.gone.trans h.gone
  failed hs := h'.failed (h.failed hs)

theorem quiet (h : s.failed = true → t.failed = true) (hno : t.failed = false) : s.failed = false := by
  rw [← Bool.not_eq_true] at hno ⊢
  exact fun hs => hno (h hs)

/-- A call that fails is noted, and one that does not gives its answer. -/
theorem call_spec {α : Type} (s : System) (faults : Nat → Option Nat) (answer : Except Nat α) :
    Same s (s.call faults answer).2 ∧
      (∀ a, (s.call faults answer).1 = some a → answer = .ok a) ∧
      ((s.call faults answer).1 = none → (s.call faults answer).2.failed = true) := by
  unfold System.call
  split
  · rename_i a _ _
    refine ⟨⟨rfl, rfl, id⟩, ?_, fun h => by cases h⟩
    intro b hb
    cases hb
    rfl
  · exact ⟨⟨rfl, rfl, fun _ => rfl⟩, (fun _ h => nomatch h), fun _ => rfl⟩

/-- What is known of a later state of a volume: a directory that is gone was empty by then. -/
structure Inv (v : Volume) (s : System) : Prop where
  cleared : v.Cleared s.gone s.volume
  closed : ∀ spot ∈ s.gone, ∀ id, v.tree.entry spot.1 spot.2 = some (.directory id) →
    ∀ name ∈ v.names id, (id, name) ∈ s.gone

theorem Inv.same (h : Inv v s) (hsame : Same s t) : Inv v t where
  cleared := by
    rw [hsame.gone, hsame.volume]
    exact h.cleared
  closed := by
    rw [hsame.gone]
    exact h.closed

theorem Inv.start (v : Volume) : Inv v (untouched v) where
  cleared := Volume.Cleared.nil
  closed _ h := by cases h

/-- A directory that is gone is gone with all that lies below it. -/
theorem Inv.whole (h : Inv v s) {place spot : Nat × Bytes} (hplace : place ∈ s.gone)
    (hwithin : v.Within place spot) : spot ∈ s.gone := by
  induction hwithin with
  | self => exact hplace
  | listed _ hentry hname ih => exact h.closed _ ih _ hentry _ hname

/-- Removing from a volume leads no path anywhere else. -/
theorem find_of_cleared {v' : Volume} {gone : List (Nat × Bytes)} (h : v.Cleared gone v')
    {route : Route Bytes} {place : Place} (hfind : v'.tree.find route = some place) :
    v.tree.find route = some place := by
  rw [h] at hfind
  exact Tree.find_of_without hfind

theorem names_of_cleared {v' : Volume} {gone : List (Nat × Bytes)} (h : v.Cleared gone v')
    {dir : Nat} {name : Bytes} (hname : name ∈ v'.names dir) : name ∈ v.names dir := by
  rcases v'.listed.mp hname with ⟨hentry, hdots⟩
  refine v.listed.mpr ⟨?_, hdots⟩
  intro hnone
  apply hentry
  by_cases hgone : (dir, name) ∈ gone
  · exact h.entry_gone hgone
  · rw [h.entry_kept hgone]
    exact hnone

/-- What a later state has under a path it had before. -/
theorem lstat_spec (faults : Nat → Option Nat) (hs : Inv v s) {path : Bytes} {place : Nat × Bytes}
    (hplace : v.place path = .ok place) :
    Same s (s.lstat faults path).2 ∧
      (∀ entry, (s.lstat faults path).1 = some entry →
        v.tree.entry place.1 place.2 = some entry) ∧
      ((s.lstat faults path).1 = none → (s.lstat faults path).2.failed = true) := by
  rcases call_spec s faults (s.volume.lstat path) with ⟨hsame, hanswer, hfailed⟩
  refine ⟨hsame, ?_, hfailed⟩
  intro entry hentry
  rcases lstat_ok (hanswer entry hentry) with ⟨found, hfound, hthere⟩
  cases Except.ok.inj (hplace.symm.trans (hs.cleared.place_iff.mp hfound).1)
  by_cases hgone : place ∈ s.gone
  · rw [hs.cleared.entry_gone hgone] at hthere
    cases hthere
  · rwa [hs.cleared.entry_kept hgone] at hthere

theorem list_spec (faults : Nat → Option Nat) (hs : Inv v s) {path : Bytes} {dir : Nat}
    (hfind : v.tree.find (routeOf path) = some (.directory dir)) :
    Same s (s.list faults path).2 ∧
      (∀ names, (s.list faults path).1 = some names →
        names.Nodup ∧ (∀ name ∈ names, name ∈ v.names dir) ∧
          ((s.list faults path).2.failed = false → names = s.volume.names dir)) ∧
      ((s.list faults path).1 = none → (s.list faults path).2.failed = true) := by
  have hlisted : ∀ names, (s.volume.scandir path).map (fun listed => listed.2.map Prod.fst) = .ok names →
      names = s.volume.names dir := by
    intro names hnames
    cases hscan : s.volume.scandir path with
    | error errno =>
        rw [hscan] at hnames
        cases hnames
    | ok listed =>
        rw [hscan] at hnames
        cases hnames
        unfold Volume.scandir at hscan
        split_ifs at hscan
        split at hscan
        · rename_i id hthere
          cases hscan
          cases (find_of_cleared hs.cleared hthere).symm.trans hfind
          simp [Function.comp_def]
        · cases hscan
        · cases hscan
  rcases call_spec s faults
    ((s.volume.scandir path).map fun listed => listed.2.map Prod.fst) with ⟨hsame, hanswer, hfailed⟩
  unfold System.list
  split
  · rename_i t hcall
    rw [hcall] at hsame hfailed
    exact ⟨hsame, (fun _ h => nomatch h), hfailed⟩
  · rename_i names t hcall
    rw [hcall] at hsame hanswer
    have hnames := hlisted names (hanswer names rfl)
    subst hnames
    have hthere : ∀ name ∈ s.volume.names dir, name ∈ v.names dir := fun _ =>
      names_of_cleared hs.cleared
    split
    · refine ⟨⟨hsame.volume, hsame.gone, hsame.failed⟩, ?_, fun h => nomatch h⟩
      intro names hsome
      cases hsome
      exact ⟨s.volume.nodup dir, hthere, fun _ => rfl⟩
    · rename_i k _
      refine ⟨⟨hsame.volume, hsame.gone, fun _ => rfl⟩, ?_, fun h => nomatch h⟩
      intro names hsome
      cases hsome
      exact ⟨(s.volume.nodup dir).sublist (List.take_sublist k _),
        fun name hname => hthere name (List.mem_of_mem_take hname), fun h => nomatch h⟩

/-! ### What removing reaches -/

/-- From one state to a later one, what is removed lies at or below a place. -/
structure Progress (v : Volume) (place : Nat × Bytes) (s t : System) : Prop where
  inv : Inv v t
  kept : ∀ spot ∈ s.gone, spot ∈ t.gone
  within : ∀ spot ∈ t.gone, spot ∈ s.gone ∨ v.Within place spot
  failed : s.failed = true → t.failed = true

variable {place : Nat × Bytes} {path : Bytes}

theorem Progress.of_same (hs : Inv v s) (h : Same s t) : Progress v place s t where
  inv := hs.same h
  kept spot hspot := by rwa [h.gone]
  within spot hspot := by
    rw [h.gone] at hspot
    exact Or.inl hspot
  failed := h.failed

theorem Progress.trans (h : Progress v place s t) (h' : Progress v place t u) : Progress v place s u where
  inv := h'.inv
  kept spot hspot := h'.kept spot (h.kept spot hspot)
  within spot hspot := by
    rcases h'.within spot hspot with hold | hnew
    · exact h.within spot hold
    · exact Or.inr hnew
  failed hs := h'.failed (h.failed hs)

theorem Progress.mono {above : Nat × Bytes} (h : Progress v place s t) (hbelow : v.Within above place) :
    Progress v above s t where
  inv := h.inv
  kept := h.kept
  within spot hspot := (h.within spot hspot).imp_right hbelow.trans
  failed := h.failed

/-- A call that removes the entry at a path, provided that a directory was empty by then. -/
theorem after_spec (faults : Nat → Option Nat) (hs : Inv v s) (hplace : v.place path = .ok place)
    {answer : Except Nat (Volume × Nat × Bytes)}
    (hanswer : ∀ next spot, answer = .ok (next, spot) → s.volume.place path = .ok spot ∧
      next = s.volume.erase spot.1 spot.2 ∧ s.volume.tree.entry spot.1 spot.2 ≠ none ∧
      ∀ id, s.volume.tree.entry spot.1 spot.2 = some (.directory id) → s.volume.names id = []) :
    Progress v place s (s.after faults answer) ∧
      ((s.after faults answer).failed = false → place ∈ (s.after faults answer).gone) := by
  rcases call_spec s faults answer with ⟨hsame, hgives, hfailed⟩
  unfold System.after
  split
  · rename_i t hcall
    rw [hcall] at hsame hfailed
    refine ⟨Progress.of_same hs hsame, ?_⟩
    intro hno
    exact absurd (hfailed rfl) (by simp [hno])
  · rename_i next spot t hcall
    rw [hcall] at hsame hgives
    rcases hanswer next spot (hgives (next, spot) rfl) with ⟨hfound, rfl, hthere, hempty⟩
    cases Except.ok.inj (hplace.symm.trans (hs.cleared.place_iff.mp hfound).1)
    have hfresh : place ∉ s.gone := fun hgone => hthere (hs.cleared.entry_gone hgone)
    refine ⟨⟨⟨?_, ?_⟩, ?_, ?_, hsame.failed⟩, ?_⟩
    · rw [hsame.gone]
      exact hs.cleared.erase place
    · intro other hother id hentry name hname
      rw [hsame.gone] at hother ⊢
      rcases List.mem_cons.mp hother with rfl | hold
      · -- what the directory listed at first is gone, since it lists nothing any more
        have hnone := hempty id ((hs.cleared.entry_kept hfresh).trans hentry)
        by_contra hnot
        have hin : name ∈ s.volume.names id := by
          have hlisted := v.listed.mp hname
          refine s.volume.listed.mpr ⟨?_, hlisted.2⟩
          rw [hs.cleared.entry_kept fun hgone => hnot (List.mem_cons_of_mem _ hgone)]
          exact hlisted.1
        rw [hnone] at hin
        cases hin
      · exact List.mem_cons_of_mem _ (hs.closed other hold id hentry name hname)
    · intro other hother
      rw [hsame.gone]
      exact List.mem_cons_of_mem _ hother
    · intro other hother
      rw [hsame.gone] at hother
      rcases List.mem_cons.mp hother with rfl | hold
      · exact Or.inr .self
      · exact Or.inl hold
    · intro _
      exact List.mem_cons_self

theorem unlink_spec (faults : Nat → Option Nat) (hs : Inv v s) (hplace : v.place path = .ok place) :
    Progress v place s (s.unlink faults path) := by
  refine (after_spec faults hs hplace ?_).1
  intro next spot hanswer
  rcases unlink_ok hanswer with ⟨hfound, hnext, entry, hentry, hplain⟩
  refine ⟨hfound, hnext, by rw [hentry]; exact Option.some_ne_none _, fun id hid => ?_⟩
  rw [hentry] at hid
  exact absurd (Option.some.inj hid) (hplain id)

theorem rmdir_spec (faults : Nat → Option Nat) (hs : Inv v s) (hplace : v.place path = .ok place) :
    Progress v place s (s.rmdir faults path) ∧
      ((s.rmdir faults path).failed = false → place ∈ (s.rmdir faults path).gone) := by
  apply after_spec faults hs hplace
  intro next spot hanswer
  rcases rmdir_ok hanswer with ⟨hfound, hnext, -, id, hentry, hempty⟩
  refine ⟨hfound, hnext, by rw [hentry]; exact Option.some_ne_none _, fun id' hid => ?_⟩
  cases Option.some.inj (hentry.symm.trans hid)
  exact hempty

/-- A loop whose every turn ends and removes below a place does. -/
theorem foldlM_spec {names : List Bytes} {turn : System → Bytes → Option System}
    (hturn : ∀ name ∈ names, ∀ s, Inv v s → ∃ t, turn s name = some t ∧ Progress v place s t)
    (hs : Inv v s) : ∃ t, names.foldlM turn s = some t ∧ Progress v place s t := by
  apply foldlM_some_keeps (P := Progress v place s) _ (Progress.of_same hs ⟨rfl, rfl, id⟩)
  intro name hname t ht
  rcases hturn name hname t ht.inv with ⟨u, hnext, hmore⟩
  exact ⟨u, hnext, ht.trans hmore⟩

/-- With more steps than the directory is deep, `removeTree` ends. What it removes lies at or below the
directory, and the directory is gone where no call failed. -/
theorem removeTree_spec (faults : Nat → Option Nat) {fuel dir : Nat} (hplace : v.place path = .ok place)
    (hslash : endsInSlash path = false) (hentry : v.tree.entry place.1 place.2 = some (.directory dir))
    (hfuel : v.rank dir < fuel) (hs : Inv v s) :
    ∃ t, removeTree faults fuel path s = some t ∧ Progress v place s t ∧
      (t.failed = false → place ∈ t.gone) := by
  induction fuel generalizing path place dir s with
  | zero => exact absurd hfuel (Nat.not_lt_zero _)
  | succ fuel ih =>
      rcases place_child hplace hslash hentry with ⟨hfind, hchild⟩
      rcases list_spec faults hs hfind with ⟨hsame, hnames, -⟩
      have hturn : ∀ name ∈ ((s.list faults path).1).getD [], ∀ s, Inv v s →
          ∃ t, removeEntry faults (removeTree faults fuel) path s name = some t ∧
            Progress v place s t := by
        intro name hname s' hs'
        have hlisted : name ∈ v.names dir := by
          cases hlist : (s.list faults path).1 with
          | none =>
              rw [hlist] at hname
              cases hname
          | some names =>
              rw [hlist] at hname
              exact (hnames names hlist).2.1 name hname
        have hplain := v.plain hlisted
        rcases hchild hplain.1 hplain.2 with ⟨hthere, hslashless⟩
        have hbelow : v.Within place (dir, name) := .listed .self hentry hlisted
        rcases lstat_spec faults hs' hthere with ⟨hsame', hfound, -⟩
        have hother : Progress v place s' (((s'.lstat faults (path ++ slash :: name)).2).unlink faults
            (path ++ slash :: name)) :=
          (Progress.of_same hs' hsame').trans
            ((unlink_spec faults (hs'.same hsame') hthere).mono hbelow)
        cases hstat : s'.lstat faults (path ++ slash :: name) with
        | mk st s₁ =>
            rw [hstat] at hsame' hfound hother
            simp only [removeEntry, hstat]
            cases st with
            | none => exact ⟨_, rfl, hother⟩
            | some entry =>
                cases entry with
                | file inode => exact ⟨_, rfl, hother⟩
                | link target => exact ⟨_, rfl, hother⟩
                | directory id =>
                    have hdirectory := hfound _ rfl
                    have hrank := v.rank_lt hlisted hdirectory
                    rcases ih hthere hslashless hdirectory (by omega) (hs'.same hsame') with
                      ⟨t, ht, hprogress, -⟩
                    exact ⟨t, ht, (Progress.of_same hs' hsame').trans (hprogress.mono hbelow)⟩
      rcases foldlM_spec hturn (hs.same hsame) with ⟨t, hloop, hprogress⟩
      rcases rmdir_spec faults hprogress.inv hplace with ⟨hlast, hgone⟩
      refine ⟨t.rmdir faults path, ?_, ((Progress.of_same hs hsame).trans hprogress).trans hlast, hgone⟩
      rw [removeTree]
      simp only [hloop, Option.map_some]

/-! ### Subtrees -/

/-- What lies at or below a listed entry is listed. -/
theorem listed_of_within {spot : Nat × Bytes} (hlisted : place.2 ∈ v.names place.1)
    (h : v.Within place spot) : spot.2 ∈ v.names spot.1 := by
  cases h with
  | self => exact hlisted
  | listed _ _ hname => exact hname

/-- What lies below an entry is in a deeper directory. -/
theorem rank_of_within {spot : Nat × Bytes} (hlisted : place.2 ∈ v.names place.1)
    (h : v.Within place spot) : spot = place ∨ v.rank spot.1 < v.rank place.1 := by
  induction h with
  | self => exact Or.inl rfl
  | @listed spot dir name hspot hentry hname ih =>
      have hlower := v.rank_lt (listed_of_within hlisted hspot) hentry
      rcases ih with rfl | hrank
      · exact Or.inr hlower
      · exact Or.inr (Nat.lt_trans hlower hrank)

/-- Of two entries above a third one, one is above the other. -/
theorem within_linear {a b spot : Nat × Bytes} (ha : a.2 ∈ v.names a.1) (hb : b.2 ∈ v.names b.1)
    (h : v.Within a spot) (h' : v.Within b spot) : v.Within a b ∨ v.Within b a := by
  induction h with
  | self => exact Or.inr h'
  | @listed spot dir name hspot hentry hname ih =>
      cases h' with
      | self => exact Or.inl (.listed hspot hentry hname)
      | @listed spot' _ _ hspot' hentry' _ =>
          have hone := v.one_place (listed_of_within ha hspot) (listed_of_within hb hspot') hentry hentry'
          exact ih (Prod.ext hone.1 hone.2 ▸ hspot')

/-- Entries of one directory have nothing below them in common. -/
theorem within_apart {root : Nat} {a b : Bytes} {spot : Nat × Bytes} (ha : a ∈ v.names root)
    (hb : b ∈ v.names root) (h : v.Within (root, a) spot) (h' : v.Within (root, b) spot) : a = b := by
  have hsame : ∀ {a b : Bytes}, a ∈ v.names root → v.Within (root, a) (root, b) → b = a := by
    intro a b ha hab
    rcases @rank_of_within _ (root, a) (root, b) ha hab with heq | hrank
    · exact (Prod.mk.inj heq).2
    · exact absurd hrank (Nat.lt_irrefl _)
  rcases @within_linear _ (root, a) (root, b) spot ha hb h h' with hab | hba
  · exact (hsame ha hab).symm
  · exact hsame hb hba

/-! ### The entries beside the one to keep -/

section

variable {root : Nat} {mtime : Nat → Timestamp} {versionedRoot keepName : Bytes}

/-- Below the path of a directory, a name stands for its entry there. -/
theorem place_below (hdots : Dotted v) (hpath : path ≠ [])
    (hfind : v.tree.find (routeOf path) = some (.directory root)) {child : Bytes} (hchild : child ≠ [])
    (hfree : slash ∉ child) : v.place (path ++ slash :: child) = .ok (root, child) ∧
      endsInSlash (path ++ slash :: child) = false := by
  have hdot : ∀ left dir, v.tree.walk left dir [dot] = some (.directory dir) := by
    intro left dir
    cases left with
    | zero => simp [Tree.walk, Tree.scan, hdots dir]
    | succ left => simp [Tree.walk, Tree.scan, hdots dir]
  have hwalk : v.tree.walk v.tree.limit (v.tree.start (isAbsolute path) v.tree.cwd) (lookupNames path) =
      some (.directory root) := by
    simp only [Tree.find, routeOf, routeNames] at hfind
    cases hend : endsInSlash path with
    | false => simpa [hend] using hfind
    | true =>
        rw [hend] at hfind
        rcases Tree.walk_append.2 _ (List.cons_ne_nil dot []) hfind with ⟨dir, hdir⟩
        have hmore := @Tree.walk_append _ v.tree v.tree.limit
          (v.tree.start (isAbsolute path) v.tree.cwd) (lookupNames path) [dot]
        rcases hmore.1 dir hdir with ⟨left, -, hleft⟩
        rw [if_pos rfl, hleft, hdot] at hfind
        rw [hdir]
        exact hfind
  have habsolute : isAbsolute (path ++ slash :: child) = isAbsolute path := by
    cases path with
    | nil => exact absurd rfl hpath
    | cons c path => rfl
  refine ⟨place_ok_iff.mpr ⟨by simp, ?_⟩, ?_⟩
  · rw [routeOf, habsolute, routeNames_name hchild hfree, Tree.locate_snoc]
    exact ⟨root, hwalk, rfl⟩
  · have hend := name_not_endsInSlash hchild hfree (path ++ [slash])
    simpa using hend

theorem mem_otherNames {name : Bytes} : name ∈ otherNames v root keepName ↔
    name ∈ v.names root ∧ name ≠ keepName ∧ ∃ id, v.tree.entry root name = some (.directory id) := by
  have hdirectory : isDirectory v root name = true ↔
      ∃ id, v.tree.entry root name = some (.directory id) := by
    unfold isDirectory
    split
    · rename_i id hentry
      simp [hentry]
    · rename_i hnot
      simp only [Bool.false_eq_true, false_iff, not_exists]
      exact hnot
  simp [otherNames, hdirectory]

/-- An entry of `others`: when it was modified, in seconds, and its path. -/
def other (v : Volume) (mtime : Nat → Timestamp) (root : Nat) (versionedRoot name : Bytes) :
    Int × Bytes :=
  ((modified v mtime root name).seconds, versionedRoot ++ slash :: name)

/-- `collect` takes other directories only, and all of them where no call failed. -/
theorem collect_spec (faults : Nat → Option Nat) (hdots : Dotted v) (hpath : versionedRoot ≠ [])
    (hfind : v.tree.find (routeOf versionedRoot) = some (.directory root)) {names : List Bytes}
    (hnames : ∀ name ∈ names, name ∈ v.names root) (hs : Inv v s) :
    ∃ gens : List Bytes, (collect faults mtime versionedRoot keepName names s).1 =
        gens.map (other v mtime root versionedRoot) ∧ gens.Sublist names ∧
      (∀ name ∈ gens, name ∈ otherNames v root keepName) ∧
      Same s (collect faults mtime versionedRoot keepName names s).2 ∧
      ((collect faults mtime versionedRoot keepName names s).2.failed = false →
        ∀ name ∈ names, name ∈ otherNames v root keepName → name ∈ gens) := by
  induction names generalizing s with
  | nil => exact ⟨[], rfl, .slnil, by simp, ⟨rfl, rfl, id⟩, by simp⟩
  | cons name rest ih =>
      have hlisted := hnames name List.mem_cons_self
      have htail := fun s hs => ih (s := s) (fun n hn => hnames n (List.mem_cons_of_mem _ hn)) hs
      unfold collect
      split_ifs with hkeep
      · rcases htail s hs with ⟨gens, heq, hsub, hothers, hsame, hall⟩
        refine ⟨gens, heq, hsub.cons _, hothers, hsame, fun hno n hn hother => ?_⟩
        rcases List.mem_cons.mp hn with rfl | hrest
        · exact absurd hkeep.symm (mem_otherNames.mp hother).2.1
        · exact hall hno n hrest hother
      · have hplain := v.plain hlisted
        have hplace := (place_below hdots hpath hfind hplain.1 hplain.2).1
        rcases lstat_spec faults hs hplace with ⟨hsame, hfound, hfailed⟩
        cases hstat : s.lstat faults (versionedRoot ++ slash :: name) with
        | mk st s₁ =>
            rw [hstat] at hsame hfound hfailed
            simp only [hstat]
            rcases htail s₁ (hs.same hsame) with ⟨gens, heq, hsub, hothers, hsame', hall⟩
            -- an entry that is passed over is no directory, or its `lstat` failed
            have hskip : (∀ id, st ≠ some (.directory id)) →
                ((collect faults mtime versionedRoot keepName rest s₁).2.failed = false →
                  ∀ n ∈ name :: rest, n ∈ otherNames v root keepName → n ∈ gens) := by
              intro hst hno n hn hother
              rcases List.mem_cons.mp hn with rfl | hrest
              · rcases (mem_otherNames.mp hother).2.2 with ⟨id, hid⟩
                cases st with
                | none =>
                    have hyes := hsame'.failed (hfailed rfl)
                    rw [hno] at hyes
                    cases hyes
                | some entry =>
                    cases Option.some.inj ((hfound entry rfl).symm.trans hid)
                    exact absurd rfl (hst id)
              · exact hall hno n hrest hother
            cases st with
            | none =>
                exact ⟨gens, heq, hsub.cons _, hothers, hsame.trans hsame', hskip fun _ h => nomatch h⟩
            | some entry =>
                cases entry with
                | file inode =>
                    exact ⟨gens, heq, hsub.cons _, hothers, hsame.trans hsame', hskip fun _ h => nomatch h⟩
                | link target =>
                    exact ⟨gens, heq, hsub.cons _, hothers, hsame.trans hsame', hskip fun _ h => nomatch h⟩
                | directory id =>
                    have hentry := hfound _ rfl
                    refine ⟨name :: gens, ?_, hsub.cons_cons name, ?_, hsame.trans hsame', ?_⟩
                    · simp only [List.map_cons, other, modified, hentry]
                      rw [heq]
                    · intro n hn
                      rcases List.mem_cons.mp hn with rfl | hrest
                      · exact mem_otherNames.mpr ⟨hlisted, Ne.symm hkeep, id, hentry⟩
                      · exact hothers n hrest
                    · intro hno n hn hother
                      rcases List.mem_cons.mp hn with rfl | hrest
                      · exact List.mem_cons_self
                      · exact List.mem_cons_of_mem _ (hall hno n hrest hother)

end

/-! ### Pruning -/

section

variable {root : Nat} {mtime : Nat → Timestamp} {versionedRoot keepName : Bytes}

theorem other_injective : Function.Injective (other v mtime root versionedRoot) := by
  intro a b h
  have hpath := List.append_cancel_left (Prod.mk.inj h).2
  exact (List.cons.inj hpath).2

/-- A list whose elements are all values of a function is the list of its values somewhere. -/
theorem exists_map {α β : Type} {f : α → β} {l : List β} (h : ∀ b ∈ l, ∃ a, b = f a) :
    ∃ order : List α, l = order.map f := by
  induction l with
  | nil => exact ⟨[], rfl⟩
  | cons b l ih =>
      rcases h b List.mem_cons_self with ⟨a, rfl⟩
      rcases ih fun b hb => h b (List.mem_cons_of_mem _ hb) with ⟨order, rfl⟩
      exact ⟨a :: order, rfl⟩

/-- What the loop over the last of `others` removes. -/
structure Swept (v : Volume) (root : Nat) (names : List Bytes) (s t : System) : Prop where
  inv : Inv v t
  kept : ∀ spot ∈ s.gone, spot ∈ t.gone
  within : ∀ spot ∈ t.gone, spot ∈ s.gone ∨ ∃ name ∈ names, v.Within (root, name) spot
  failed : s.failed = true → t.failed = true
  whole : t.failed = false → ∀ name ∈ names, (root, name) ∈ t.gone

theorem sweep_spec (faults : Nat → Option Nat) (hdots : Dotted v) (hpath : versionedRoot ≠ [])
    (hfind : v.tree.find (routeOf versionedRoot) = some (.directory root)) {fuel : Nat}
    (hfuel : v.rank root < fuel) {names : List Bytes}
    (hnames : ∀ name ∈ names, name ∈ otherNames v root keepName) (hs : Inv v s) :
    ∃ t, (names.map (other v mtime root versionedRoot)).foldlM
        (fun s other => removeTree faults fuel other.2 s) s = some t ∧ Swept v root names s t := by
  induction names generalizing s with
  | nil => exact ⟨s, rfl, hs, fun _ h => h, fun _ h => Or.inl h, id, by simp⟩
  | cons name names ih =>
      rcases mem_otherNames.mp (hnames name List.mem_cons_self) with ⟨hlisted, -, id, hentry⟩
      have hplain := v.plain hlisted
      rcases place_below hdots hpath hfind hplain.1 hplain.2 with ⟨hplace, hslash⟩
      have hrank := v.rank_lt hlisted hentry
      rcases removeTree_spec faults hplace hslash hentry (Nat.lt_trans hrank hfuel) hs with
        ⟨t, ht, hprogress, hgone⟩
      rcases ih (fun n hn => hnames n (List.mem_cons_of_mem _ hn)) hprogress.inv with ⟨u, hu, hswept⟩
      refine ⟨u, ?_, hswept.inv, fun spot h => hswept.kept spot (hprogress.kept spot h), ?_,
        fun h => hswept.failed (hprogress.failed h), ?_⟩
      · rw [List.map_cons, List.foldlM_cons]
        exact (congrArg (· >>= _) ht).trans hu
      · intro spot hspot
        rcases hswept.within spot hspot with hold | ⟨n, hn, hwithin⟩
        · rcases hprogress.within spot hold with hold | hwithin
          · exact Or.inl hold
          · exact Or.inr ⟨name, List.mem_cons_self, hwithin⟩
        · exact Or.inr ⟨n, List.mem_cons_of_mem _ hn, hwithin⟩
      · intro hno n hn
        have hno' : t.failed = false := quiet hswept.failed hno
        rcases List.mem_cons.mp hn with rfl | hrest
        · exact hswept.kept _ (hgone hno')
        · exact hswept.whole hno n hrest

/-- Where nothing is removed, nothing is to be shown. -/
theorem Pruned.nothing {keepCount : Nat} {out : System} (hvolume : out.volume = v)
    (hgone : out.gone = []) : Pruned v mtime root keepName keepCount out where
  cleared := by
    rw [hgone, hvolume]
    exact Volume.Cleared.nil
  only := by simp [hgone]
  keep _ := by simp [Untouched, hgone]
  plain := by simp [hgone]
  survivors := by
    refine ⟨otherNames v root keepName, (v.nodup root).filter _, fun name h => ⟨h, ?_⟩, Nat.min_le_right _ _⟩
    simp [Untouched, hgone]
  whole := by simp [hgone]
  clean _ name _ := Or.inr (by simp [Untouched, hgone])
  recent := by simp [hgone]

/-- The last of `others` in their order are gone, the first ones are not. -/
theorem Swept.pruned {keepCount : Nat} {order : List Bytes} {out : System} (hs : s.gone = [])
    (hnodup : order.Nodup) (hothers : ∀ name ∈ order, name ∈ otherNames v root keepName)
    (hall : out.failed = false → ∀ name ∈ otherNames v root keepName, name ∈ order)
    (hmore : keepCount < order.length)
    (hsorted : order.Pairwise fun a b =>
      (modified v mtime root b).seconds ≤ (modified v mtime root a).seconds)
    (h : Swept v root (order.drop keepCount) s out) : Pruned v mtime root keepName keepCount out := by
  have hwithin : ∀ spot ∈ out.gone, ∃ name ∈ order.drop keepCount, v.Within (root, name) spot := by
    intro spot hspot
    rcases h.within spot hspot with hold | hnew
    · rw [hs] at hold
      cases hold
    · exact hnew
  have hlisted : ∀ name ∈ order, name ∈ v.names root := fun name hname =>
    (mem_otherNames.mp (hothers name hname)).1
  have hdropped : ∀ name ∈ order.drop keepCount, name ∈ order := fun _ => List.mem_of_mem_drop
  have huntouched : ∀ name ∈ v.names root, name ∉ order.drop keepCount → Untouched v out (root, name) := by
    intro name hname hnot spot hspot hgone
    rcases hwithin spot hgone with ⟨other, hother, habove⟩
    cases within_apart hname (hlisted other (hdropped other hother)) hspot habove
    exact hnot hother
  have hfirst : ∀ name ∈ order.take keepCount, name ∉ order.drop keepCount := by
    rw [← List.take_append_drop keepCount order] at hnodup
    exact fun name h h' => (List.nodup_append.mp hnodup).2.2 name h name h' rfl
  have hpart : ∀ name ∈ order, name ∈ order.take keepCount ∨ name ∈ order.drop keepCount := by
    intro name hname
    rw [← List.take_append_drop keepCount order] at hname
    exact List.mem_append.mp hname
  exact
    { cleared := h.inv.cleared
      only := fun spot hspot => by
        rcases hwithin spot hspot with ⟨name, hname, habove⟩
        exact ⟨name, hothers name (hdropped name hname), habove⟩
      keep := fun hkeep => huntouched keepName hkeep fun hdrop =>
        (mem_otherNames.mp (hothers keepName (hdropped keepName hdrop))).2.1 rfl
      plain := fun name hplain hgone => by
        rcases hwithin _ hgone with ⟨other, hother, habove⟩
        have hlist := hlisted other (hdropped other hother)
        rcases (mem_otherNames.mp (hothers other (hdropped other hother))).2.2 with ⟨id, hentry⟩
        rcases @rank_of_within _ (root, other) (root, name) hlist habove with heq | hrank
        · cases heq
          exact hplain id hentry
        · exact Nat.lt_irrefl _ hrank
      survivors := by
        refine ⟨order.take keepCount, hnodup.sublist (List.take_sublist _ _), ?_, ?_⟩
        · intro name hname
          have hin := List.mem_of_mem_take hname
          exact ⟨hothers name hin, huntouched name (hlisted name hin) (hfirst name hname)⟩
        · rw [List.length_take]
          omega
      whole := fun name hgone spot => h.inv.whole hgone
      clean := fun hno name hname => by
        rcases hpart name (hall hno name hname) with hkept | hdrop
        · exact Or.inr (huntouched name (mem_otherNames.mp hname).1 (hfirst name hkept))
        · exact Or.inl (h.whole hno name hdrop)
      recent := fun hno left hleft removed hremoved hthere hgone => by
        have hkept : left ∈ order.take keepCount :=
          (hpart left (hall hno left hleft)).resolve_right fun hdrop => hthere (h.whole hno left hdrop)
        have hdrop : removed ∈ order.drop keepCount := by
          by_contra hnot
          exact huntouched removed (mem_otherNames.mp hremoved).1 hnot _ .self hgone
        rw [← List.take_append_drop keepCount order] at hsorted
        exact (List.pairwise_append.mp hsorted).2.2 left hkept removed hdrop }

end

/-- Whatever fails, pruning ends and removes from the other directories only, keeping enough of them.
Where `versionedRoot` leads to no directory, it does nothing. -/
theorem compileCachePruneGenerations_prunes (faults : Nat → Option Nat) (mtime : Nat → Timestamp)
    (versionedRoot keepName : Bytes) {sort : List (Int × Bytes) → List (Int × Bytes)} (hsort : Sorts sort)
    (keepCount : Nat) {v : Volume} (hdots : Dotted v) : ∃ enough, ∀ fuel, enough ≤ fuel → ∃ out,
      compileCachePruneGenerations faults mtime versionedRoot keepName sort keepCount fuel (untouched v) =
          some out ∧
        (∀ root, versionedRoot ≠ [] → v.tree.find (routeOf versionedRoot) = some (.directory root) →
          Pruned v mtime root keepName keepCount out) ∧
        ((∀ root, versionedRoot = [] ∨ v.tree.find (routeOf versionedRoot) ≠ some (.directory root)) →
          out.volume = v ∧ out.gone = []) := by
  by_cases hroot : ∃ root, versionedRoot ≠ [] ∧
      v.tree.find (routeOf versionedRoot) = some (.directory root)
  · rcases hroot with ⟨root, hpath, hfind⟩
    refine ⟨v.rank root + 1, fun fuel hfuel => ?_⟩
    have hone : ∀ {out : System}, Pruned v mtime root keepName keepCount out →
        (∀ root, versionedRoot ≠ [] → v.tree.find (routeOf versionedRoot) = some (.directory root) →
          Pruned v mtime root keepName keepCount out) ∧
        ((∀ root, versionedRoot = [] ∨ v.tree.find (routeOf versionedRoot) ≠ some (.directory root)) →
          out.volume = v ∧ out.gone = []) := by
      intro out h
      constructor
      · intro root' _ hfind'
        cases hfind.symm.trans hfind'
        exact h
      · intro hno
        rcases hno root with hnil | hne
        · exact absurd hnil hpath
        · exact absurd hfind hne
    rcases list_spec faults (Inv.start v) hfind with ⟨hsame, hlist, -⟩
    unfold compileCachePruneGenerations
    cases hlisted : (untouched v).list faults versionedRoot with
    | mk names s =>
        rw [hlisted] at hsame hlist
        cases names with
        | none => exact ⟨s, rfl, hone (Pruned.nothing hsame.volume hsame.gone)⟩
        | some names =>
            rcases hlist names rfl with ⟨hnodup, hthere, hwhole⟩
            have hcollected := @collect_spec v s root mtime versionedRoot keepName faults hdots hpath hfind
              names hthere ((Inv.start v).same hsame)
            rcases hcollected with ⟨gens, hgens, hsub, hothers, hsame', hall⟩
            dsimp only
            cases hcollect : collect faults mtime versionedRoot keepName names s with
            | mk others t =>
                rw [hcollect] at hgens hsame' hall
                have hstill := hsame.trans hsame'
                dsimp only at hgens hsame' hall ⊢
                split_ifs with hfew
                · exact ⟨t, rfl, hone (Pruned.nothing hstill.volume hstill.gone)⟩
                · have hperm := hsort.perm others
                  have hmap : ∀ b ∈ sort others, ∃ name, b = other v mtime root versionedRoot name := by
                    intro b hb
                    have hmem := hperm.mem_iff.mp hb
                    rw [hgens] at hmem
                    rcases List.mem_map.mp hmem with ⟨name, -, rfl⟩
                    exact ⟨name, rfl⟩
                  rcases exists_map hmap with ⟨order, horder⟩
                  rw [horder, hgens] at hperm
                  have hreorder : order.Perm gens := (List.map_perm_map_iff other_injective).mp hperm
                  have hin : ∀ name ∈ order, name ∈ otherNames v root keepName := fun name hname =>
                    hothers name (hreorder.mem_iff.mp hname)
                  have hsweep := @sweep_spec v t root mtime versionedRoot keepName faults hdots hpath hfind
                    fuel hfuel (order.drop keepCount)
                    (fun name hname => hin name (List.mem_of_mem_drop hname))
                    ((Inv.start v).same hstill)
                  rcases hsweep with ⟨out, hout, hswept⟩
                  refine ⟨out, ?_, hone (hswept.pruned hstill.gone ?_ hin ?_ ?_ ?_)⟩
                  · rw [horder, ← List.map_drop]
                    exact hout
                  · exact hreorder.nodup_iff.mpr (hnodup.sublist hsub)
                  · intro hno name hname
                    have hquiet : t.failed = false := quiet hswept.failed hno
                    refine hreorder.mem_iff.mpr (hall hquiet name ?_ hname)
                    rw [hwhole (quiet hsame'.failed hquiet)]
                    exact (mem_otherNames.mp hname).1
                  · rw [hreorder.length_eq]
                    rw [hgens, List.length_map] at hfew
                    exact Nat.lt_of_not_le hfew
                  · have hsorted := hsort.sorted others
                    rw [horder, List.pairwise_map] at hsorted
                    exact hsorted
  · refine ⟨0, fun fuel _ => ?_⟩
    have hscan : ∃ errno, v.scandir versionedRoot = .error errno := by
      unfold Volume.scandir
      split_ifs with hpath
      · exact ⟨_, rfl⟩
      · split
        · rename_i root hfind
          exact absurd ⟨root, hpath, hfind⟩ hroot
        · exact ⟨_, rfl⟩
        · exact ⟨_, rfl⟩
    rcases hscan with ⟨errno, hscan⟩
    have hlist : (untouched v).list faults versionedRoot = (none, ⟨v, 1, true, []⟩) := by
      unfold System.list System.call
      rw [show (untouched v).volume.scandir versionedRoot = .error errno from hscan]
      simp [untouched, Except.map]
    refine ⟨_, by rw [compileCachePruneGenerations, hlist], ?_, fun _ => ⟨rfl, rfl⟩⟩
    intro root hpath hfind
    exact absurd ⟨root, hpath, hfind⟩ hroot

/-! ### A small cache -/

/-- The directory 1, which is the entry `g` of the root, holds the generations `b` and `a`, and `a` a
file. -/
def entries : List ((Nat × Bytes) × Links.Entry Bytes) :=
  [((0, [103]), .directory 1), ((1, [98]), .directory 3), ((1, [97]), .directory 2),
    ((2, [102]), .file 0)]

def namesIn (dir : Nat) : List Bytes := (entries.filter fun e => e.1.1 = dir).map fun e => e.1.2

def entryOf (dir : Nat) (name : Bytes) : Option (Links.Entry Bytes) :=
  if name = dot then some (.directory dir)
  else if name = dotDot then some (.directory 0)
  else entries.lookup (dir, name)

theorem mem_namesIn {dir : Nat} {name : Bytes} :
    name ∈ namesIn dir ↔ ∃ entry, ((dir, name), entry) ∈ entries := by
  simp only [namesIn, List.mem_map, List.mem_filter, decide_eq_true_eq]
  constructor
  · rintro ⟨⟨⟨d, n⟩, entry⟩, ⟨hmem, rfl⟩, rfl⟩
    exact ⟨entry, hmem⟩
  · rintro ⟨entry, hmem⟩
    exact ⟨_, ⟨hmem, rfl⟩, rfl⟩

/-- What is listed is no dot, so that it is looked up among the entries. -/
theorem plain_of_mem {e : (Nat × Bytes) × Links.Entry Bytes} (h : e ∈ entries) :
    e.1.2 ≠ [] ∧ slash ∉ e.1.2 ∧ e.1.2 ≠ dot ∧ e.1.2 ≠ dotDot := by
  revert e
  decide

theorem mem_of_entryOf {dir : Nat} {name : Bytes} {entry : Links.Entry Bytes} (hname : name ∈ namesIn dir)
    (h : entryOf dir name = some entry) : ((dir, name), entry) ∈ entries := by
  rcases mem_namesIn.mp hname with ⟨_, hmem⟩
  have hplain := plain_of_mem hmem
  rw [entryOf, if_neg hplain.2.2.1, if_neg hplain.2.2.2] at h
  rcases List.lookup_eq_some_iff.mp h with ⟨front, back, heq, -⟩
  rw [heq]
  exact List.mem_append_right _ List.mem_cons_self

def twoGenerations : Volume where
  tree := { entry := entryOf, root := 0, cwd := 0, limit := 40 }
  names := namesIn
  typed _ _ := true
  lost _ := Utf8.ENOENT
  rank dir := 3 - dir
  listed := by
    intro dir name
    constructor
    · intro hname
      rcases mem_namesIn.mp hname with ⟨entry, hmem⟩
      have hplain := plain_of_mem hmem
      refine ⟨?_, hplain.2.2⟩
      dsimp only
      rw [entryOf, if_neg hplain.2.2.1, if_neg hplain.2.2.2, ne_eq, List.lookup_eq_none_iff]
      intro hall
      simpa using hall _ hmem
    · rintro ⟨hentry, hdot, hdotDot⟩
      dsimp only at hentry
      rw [entryOf, if_neg hdot, if_neg hdotDot] at hentry
      rcases Option.ne_none_iff_exists'.mp hentry with ⟨entry, hsome⟩
      rcases List.lookup_eq_some_iff.mp hsome with ⟨front, back, heq, -⟩
      exact mem_namesIn.mpr ⟨entry, by rw [heq]; exact List.mem_append_right _ List.mem_cons_self⟩
  nodup dir := by
    rw [namesIn]
    refine (List.nodup_map_iff_inj_on ?_).mpr ?_
    · exact List.Nodup.filter _ (by decide)
    · simp only [List.mem_filter, decide_eq_true_eq]
      rintro a ⟨ha, rfl⟩ b ⟨hb, hdir⟩ hname
      have hkey : a.1 = b.1 := Prod.ext hdir.symm hname
      revert a b
      decide
  plain hname := by
    rcases mem_namesIn.mp hname with ⟨entry, hmem⟩
    exact ⟨(plain_of_mem hmem).1, (plain_of_mem hmem).2.1⟩
  one_place hname hname' hentry hentry' := by
    have hsame : ∀ a ∈ entries, ∀ b ∈ entries, a.2 = b.2 → a.1 = b.1 := by decide
    exact Prod.mk.inj (hsame _ (mem_of_entryOf hname hentry) _ (mem_of_entryOf hname' hentry') rfl)
  rank_lt hname hentry := by
    have hdeeper : ∀ e ∈ entries, ∀ id ∈ [1, 2, 3], e.2 = .directory id → 3 - id < 3 - e.1.1 := by decide
    have hids : ∀ e ∈ entries, e.2 = .file 0 ∨ ∃ id ∈ [1, 2, 3], e.2 = .directory id := by decide
    have hmem := mem_of_entryOf hname hentry
    rcases hids _ hmem with hfile | ⟨id, hid, heq⟩
    · cases hfile
    · cases heq
      exact hdeeper _ hmem _ hid rfl

theorem twoGenerations_dotted : Dotted twoGenerations := by
  intro dir
  change entryOf dir dot = _
  rw [entryOf, if_pos rfl]

/-- The later time first. -/
def later (a b : Int × Bytes) : Prop := b.1 ≤ a.1

instance later_decidable : DecidableRel later := fun a b => inferInstanceAs (Decidable (b.1 ≤ a.1))

instance later_total : Std.Total later := ⟨fun a b => le_total b.1 a.1⟩

instance later_trans : IsTrans (Int × Bytes) later := ⟨fun _ _ _ h h' => le_trans h' h⟩

theorem sorts_insertionSort : Sorts (List.insertionSort later) where
  perm := List.perm_insertionSort later
  sorted := List.pairwise_insertionSort later

/-- Generations that are kept in a second of their own. -/
theorem compileCachePruneGenerations_prunes_two : ∃ enough, ∀ fuel, enough ≤ fuel → ∃ out,
    compileCachePruneGenerations (fun _ => none) (fun id => ⟨id, 0⟩) [103] [107]
        (List.insertionSort later) 1 fuel (untouched twoGenerations) = some out ∧
      Pruned twoGenerations (fun id => ⟨id, 0⟩) 1 [107] 1 out := by
  rcases compileCachePruneGenerations_prunes (fun _ => none) (fun id => ⟨id, 0⟩) [103] [107]
    sorts_insertionSort 1 twoGenerations_dotted with ⟨enough, h⟩
  refine ⟨enough, fun fuel hfuel => ?_⟩
  rcases h fuel hfuel with ⟨out, hout, hpruned, -⟩
  exact ⟨out, hout, hpruned 1 (by decide) rfl⟩

/-- A generation is left although a later one is removed: their times fall in one second, or the older
one cannot be removed. -/
theorem later_generation_removed :
    Sorts (List.insertionSort later) ∧ Dotted twoGenerations ∧
    (∃ out, compileCachePruneGenerations (fun _ => none) (fun id => ⟨1, 10 - id⟩) [103] [107]
        (List.insertionSort later) 1 3 (untouched twoGenerations) = some out ∧ out.failed = false ∧
      [97] ∈ otherNames twoGenerations 1 [107] ∧ (1, [97]) ∈ out.gone ∧
      [98] ∈ otherNames twoGenerations 1 [107] ∧ (1, [98]) ∉ out.gone ∧
      ¬ (modified twoGenerations (fun id => ⟨1, 10 - id⟩) 1 [97]).le
        (modified twoGenerations (fun id => ⟨1, 10 - id⟩) 1 [98])) ∧
    ∃ out, compileCachePruneGenerations (fun call => if call = 11 then some 0 else none)
        (fun id => ⟨10 - id, 0⟩) [103] [107] (List.insertionSort later) 0 3
        (untouched twoGenerations) = some out ∧
      [97] ∈ otherNames twoGenerations 1 [107] ∧ (1, [97]) ∈ out.gone ∧
      [98] ∈ otherNames twoGenerations 1 [107] ∧ (1, [98]) ∉ out.gone ∧
      ¬ (modified twoGenerations (fun id => ⟨10 - id, 0⟩) 1 [97]).le
        (modified twoGenerations (fun id => ⟨10 - id, 0⟩) 1 [98]) := by
  refine ⟨sorts_insertionSort, twoGenerations_dotted,
    ⟨_, rfl, by decide, by decide, by decide, by decide, by decide, ?_⟩,
    ⟨_, rfl, by decide, by decide, by decide, by decide, ?_⟩⟩
  · decide
  · decide

end HermesNode.CompileCache.Prune
