/-
Module: HermesNode.Lib.Growth
Purpose: Directories that grow. Where entries are added and none is changed, every path that leads
  somewhere leads there still. A name that stands for the directory it is looked up in can be left out
  of a path that leads to a directory.
Trusted boundary: none
Main exports: Tree.Grows, Tree.locate_grows, Thinned, Tree.walk_thinned
-/
import HermesNode.Lib.Links

namespace HermesNode.Links

variable {Name : Type}

namespace Tree

/-! ### Added entries -/

/-- `t'` has all entries that `t` has in some directories, which no walk in `t` leaves. -/
structure Grows (t t' : Tree Name) (inside : Nat → Prop) : Prop where
  root : t'.root = t.root
  cwd : t'.cwd = t.cwd
  limit : t'.limit = t.limit
  kept : ∀ {dir name entry}, inside dir → t.entry dir name = some entry →
    t'.entry dir name = some entry
  closed : ∀ {dir name id}, inside dir → t.entry dir name = some (.directory id) → inside id
  root_inside : inside t.root
  cwd_inside : inside t.cwd

variable {t t' : Tree Name} {inside : Nat → Prop}

theorem Grows.start (h : t.Grows t' inside) (fromRoot : Bool) (dir : Nat) :
    t'.start fromRoot dir = t.start fromRoot dir := by
  unfold Tree.start
  rw [h.root]

theorem Grows.start_inside (h : t.Grows t' inside) (fromRoot : Bool) {dir : Nat} (hdir : inside dir) :
    inside (t.start fromRoot dir) := by
  unfold Tree.start
  split
  · exact h.root_inside
  · exact hdir

/-- A place a walk ends at is not outside. -/
def Reaches (inside : Nat → Prop) : Place → Prop
  | .file _ => True
  | .directory id => inside id

theorem scan_grows (h : t.Grows t' inside) {follow follow' : Nat → List Name → Option Place}
    (hfollow : ∀ dir names place, inside dir → follow dir names = some place →
      follow' dir names = some place ∧ Reaches inside place)
    {dir : Nat} {names : List Name} {place : Place} (hdir : inside dir)
    (hscan : t.scan follow dir names = some place) :
    t'.scan follow' dir names = some place ∧ Reaches inside place := by
  induction names generalizing dir with
  | nil =>
      cases hscan
      exact ⟨rfl, hdir⟩
  | cons name rest ih =>
      simp only [scan] at hscan ⊢
      cases hentry : t.entry dir name with
      | none =>
          rw [hentry] at hscan
          cases hscan
      | some entry =>
          rw [hentry] at hscan
          rw [h.kept hdir hentry]
          cases entry with
          | file inode =>
              refine ⟨hscan, ?_⟩
              dsimp only at hscan
              split at hscan
              · cases hscan
                exact trivial
              · cases hscan
          | directory id => exact ih (h.closed hdir hentry) hscan
          | link target =>
              dsimp only
              rw [h.start]
              exact hfollow _ _ _ (h.start_inside _ hdir) hscan

/-- A walk that ends somewhere ends there still. -/
theorem walk_grows (h : t.Grows t' inside) {limit dir : Nat} {names : List Name} {place : Place}
    (hdir : inside dir) (hwalk : t.walk limit dir names = some place) :
    t'.walk limit dir names = some place ∧ Reaches inside place := by
  induction limit generalizing dir names place with
  | zero => exact scan_grows h (fun _ _ _ _ hnone => by cases hnone) hdir hwalk
  | succ limit ih => exact scan_grows h (fun _ _ _ hdir hwalk => ih hdir hwalk) hdir hwalk

theorem locate_grows (h : t.Grows t' inside) {route : Route Name} {spot : Nat × Name}
    (hlocate : t.locate route = some spot) : t'.locate route = some spot ∧ inside spot.1 := by
  rcases spot with ⟨dir, name⟩
  rcases locate_eq_some_iff.mp hlocate with ⟨names, hnames, hwalk⟩
  rcases walk_grows h (h.start_inside _ h.cwd_inside) hwalk with ⟨hwalk', hdir⟩
  refine ⟨locate_eq_some_iff.mpr ⟨names, hnames, ?_⟩, hdir⟩
  rw [h.limit, h.start, h.cwd]
  exact hwalk'

end Tree

/-! ### Names that lead nowhere else -/

/-- The second list is the first one without some occurrences of a name. -/
inductive Thinned (dot : Name) : List Name → List Name → Prop
  | nil : Thinned dot [] []
  | keep {name : Name} {names thin : List Name} (h : Thinned dot names thin) :
      Thinned dot (name :: names) (name :: thin)
  | skip {names thin : List Name} (h : Thinned dot names thin) : Thinned dot (dot :: names) thin

theorem Thinned.refl {dot : Name} (names : List Name) : Thinned dot names names := by
  induction names with
  | nil => exact .nil
  | cons name names ih => exact .keep ih

theorem Thinned.append {dot : Name} {names thin more more' : List Name} (h : Thinned dot names thin)
    (h' : Thinned dot more more') : Thinned dot (names ++ more) (thin ++ more') := by
  induction h with
  | nil => exact h'
  | keep _ ih => exact .keep ih
  | skip _ ih => exact .skip ih

theorem Thinned.filter [DecidableEq Name] {dot : Name} (names : List Name) :
    Thinned dot names (names.filter fun name => decide (name ≠ dot)) := by
  induction names with
  | nil => exact .nil
  | cons name names ih =>
      by_cases hname : name = dot
      · rw [List.filter_cons_of_neg (by simp [hname]), hname]
        exact .skip ih
      · rw [List.filter_cons_of_pos (by simp [hname])]
        exact .keep ih

namespace Tree

variable {t : Tree Name} {dot : Name}

theorem scan_thinned (hdot : ∀ dir, t.entry dir dot = some (.directory dir))
    {follow : Nat → List Name → Option Place} {id : Nat}
    (hfollow : ∀ dir names thin, Thinned dot names thin →
      (follow dir names = some (.directory id) ↔ follow dir thin = some (.directory id)))
    {dir : Nat} {names thin : List Name} (h : Thinned dot names thin) :
    t.scan follow dir names = some (.directory id) ↔ t.scan follow dir thin = some (.directory id) := by
  induction h generalizing dir with
  | nil => exact Iff.rfl
  | @keep name names thin h ih =>
      simp only [scan]
      cases t.entry dir name with
      | none => exact Iff.rfl
      | some entry =>
          cases entry with
          | file inode =>
              have hfile : ∀ {more : List Name},
                  (if more = [] then some (Place.file inode) else none) ≠ some (.directory id) := by
                intro more
                by_cases hmore : more = []
                · simp [hmore]
                · simp [hmore]
              exact iff_of_false hfile hfile
          | directory next => exact ih
          | link target => exact hfollow _ _ _ ((Thinned.refl target.names).append h)
  | skip h ih =>
      rw [scan, hdot]
      exact ih

/-- A walk ends at the same directory without the names that stay where they are. -/
theorem walk_thinned (hdot : ∀ dir, t.entry dir dot = some (.directory dir)) {limit dir id : Nat}
    {names thin : List Name} (h : Thinned dot names thin) :
    t.walk limit dir names = some (.directory id) ↔ t.walk limit dir thin = some (.directory id) := by
  induction limit generalizing dir names thin with
  | zero => exact scan_thinned hdot (fun _ _ _ _ => Iff.rfl) h
  | succ limit ih => exact scan_thinned hdot (fun dir names thin h => @ih dir names thin h) h

/-- A walk whose first name is not there ends nowhere. -/
theorem walk_of_absent {limit dir : Nat} {name : Name} {rest : List Name} (h : t.entry dir name = none) :
    t.walk limit dir (name :: rest) = none := by
  cases limit with
  | zero => rw [walk, scan, h]
  | succ limit => rw [walk, scan, h]

/-! ### Inside an entry -/

/-- The entries at or inside an entry, by names that count. -/
inductive Inside (t : Tree Name) (counts : Name → Prop) (top : Nat × Name) : Nat × Name → Prop
  | self : Inside t counts top top
  | deeper {spot : Nat × Name} {dir : Nat} {name : Name} (hspot : Inside t counts top spot)
      (hentry : t.entry spot.1 spot.2 = some (.directory dir)) (hname : counts name)
      (hthere : t.entry dir name ≠ none) : Inside t counts top (dir, name)

theorem Inside.trans {counts : Name → Prop} {a b c : Nat × Name} (h : t.Inside counts a b)
    (h' : t.Inside counts b c) : t.Inside counts a c := by
  induction h' with
  | self => exact h
  | deeper _ hentry hname hthere ih => exact .deeper ih hentry hname hthere

end Tree

end HermesNode.Links
