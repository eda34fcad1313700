/-
Module: HermesNode.Lib.Links
Purpose: Directories with links, and what putting files into them does to every path. An entry of a
  directory is a file, a directory or a symbolic link; two entries with one inode are hard links.
  A walk takes the names of a path one by one and follows links wherever it meets them. When some
  entries are replaced by files, what becomes of a path depends only on where its walk first meets
  one of them: not at all, and nothing changes; as the last thing it looks up, and it ends at the
  new file; with names left, and it ends nowhere. When they are removed, a walk that meets one of them
  ends nowhere.
Trusted boundary: human-reviewed spec (POSIX pathname resolution)
Main exports: Route, Entry, Tree.meet_tells, Tree.locate_overlay
-/
import Mathlib.Data.List.Basic

namespace HermesNode.Links

variable {Name : Type}

/-- A path: where it starts and the names it looks up. -/
structure Route (Name : Type) where
  fromRoot : Bool
  names : List Name
deriving DecidableEq

inductive Entry (Name : Type) where
  | file (inode : Nat)
  | directory (id : Nat)
  | link (target : Route Name)
deriving DecidableEq

/-- What a walk ends at. -/
inductive Place where
  | file (inode : Nat)
  | directory (id : Nat)
deriving Repr, DecidableEq

structure Tree (Name : Type) where
  entry : Nat → Name → Option (Entry Name)
  root : Nat
  /-- The working directory. -/
  cwd : Nat
  /-- How many links one walk follows. -/
  limit : Nat

namespace Tree

section

variable (t : Tree Name)

/-- Where a path that is looked up from `dir` starts. -/
def start (fromRoot : Bool) (dir : Nat) : Nat := if fromRoot then t.root else dir

/-- The walk over names up to its first link, and `follow` from there. -/
def scan (follow : Nat → List Name → Option Place) : Nat → List Name → Option Place
  | dir, [] => some (.directory dir)
  | dir, name :: rest =>
      match t.entry dir name with
      | none => none
      | some (.file inode) => if rest = [] then some (.file inode) else none
      | some (.directory id) => scan follow id rest
      | some (.link target) => follow (t.start target.fromRoot dir) (target.names ++ rest)

/-- The walk over names from a directory, with a number of links it may follow. -/
def walk : Nat → Nat → List Name → Option Place
  | 0 => t.scan fun _ _ => none
  | limit + 1 => t.scan (walk limit)

/-- Where a path leads. -/
def find (route : Route Name) : Option Place := t.walk t.limit (t.start route.fromRoot t.cwd) route.names

/-- The directory and the name a path stands for, whatever is there. -/
def locate (route : Route Name) : Option (Nat × Name) :=
  match route.names.getLast?, t.walk t.limit (t.start route.fromRoot t.cwd) route.names.dropLast with
  | some name, some (.directory dir) => some (dir, name)
  | _, _ => none

/-- The tree in which some entries are files. -/
def overlay (new : Nat → Name → Option Nat) : Tree Name where
  entry dir name :=
    match new dir name with
    | some inode => some (.file inode)
    | none => t.entry dir name
  root := t.root
  cwd := t.cwd
  limit := t.limit

/-- The tree from which some entries are missing. -/
def without (marked : Nat → Name → Bool) : Tree Name :=
  { t with entry := fun dir name => if marked dir name then none else t.entry dir name }

/-! ### Meeting marked entries -/

/-- How a walk goes when some entries are marked. -/
inductive Meeting (Name : Type) where
  | lost
  | ends (place : Place)
  /-- The walk comes to a marked entry, with names left to look up behind it. -/
  | meets (dir : Nat) (name : Name) (rest : List Name)

/-- The walk goes on behind a marked entry. -/
def Meeting.through : Meeting Name → Bool
  | .meets _ _ (_ :: _) => true
  | _ => false

variable (marked : Nat → Name → Bool)

/-- `scan` up to the first marked entry. -/
def scanMeet (follow : Nat → List Name → Meeting Name) : Nat → List Name → Meeting Name
  | dir, [] => .ends (.directory dir)
  | dir, name :: rest =>
      if marked dir name then .meets dir name rest
      else
        match t.entry dir name with
        | none => .lost
        | some (.file inode) => if rest = [] then .ends (.file inode) else .lost
        | some (.directory id) => scanMeet follow id rest
        | some (.link target) => follow (t.start target.fromRoot dir) (target.names ++ rest)

/-- `walk` up to the first marked entry. -/
def meet : Nat → Nat → List Name → Meeting Name
  | 0 => t.scanMeet marked fun _ _ => .lost
  | limit + 1 => t.scanMeet marked (meet limit)

/-- `find` up to the first marked entry. -/
def findMeet (route : Route Name) : Meeting Name :=
  t.meet marked t.limit (t.start route.fromRoot t.cwd) route.names

/-- Where a walk ends once the entries it may meet are files. -/
def Meeting.after (new : Nat → Name → Option Nat) : Meeting Name → Option Place
  | .lost => none
  | .ends place => some place
  | .meets dir name [] => (new dir name).map .file
  | .meets _ _ (_ :: _) => none

/-- Where a walk ends once the entries it may meet are missing. -/
def Meeting.left : Meeting Name → Option Place
  | .ends place => some place
  | .lost | .meets _ _ _ => none

/-- The entries an overlay has a file for. -/
def marks (new : Nat → Name → Option Nat) (dir : Nat) (name : Name) : Bool := (new dir name).isSome

end

variable {t : Tree Name} {new : Nat → Name → Option Nat} {marked : Nat → Name → Bool}

/-! ### What replacing entries does -/

theorem scan_overlay {follow : Nat → List Name → Option Place}
    {followMeet : Nat → List Name → Meeting Name}
    (hfollow : ∀ dir names, follow dir names = (followMeet dir names).after new) (dir : Nat)
    (names : List Name) :
    (t.overlay new).scan follow dir names =
      (t.scanMeet (marks new) followMeet dir names).after new := by
  induction names generalizing dir with
  | nil => rfl
  | cons name rest ih =>
      cases hnew : new dir name with
      | some inode =>
          cases rest with
          | nil => simp [scan, scanMeet, overlay, marks, hnew, Meeting.after]
          | cons next more => simp [scan, scanMeet, overlay, marks, hnew, Meeting.after]
      | none =>
          simp only [scan, scanMeet, overlay, marks, hnew, Option.isSome_none, Bool.false_eq_true,
            if_false]
          cases t.entry dir name with
          | none => rfl
          | some entry =>
              cases entry with
              | file inode =>
                  by_cases hrest : rest = []
                  · simp [hrest, Meeting.after]
                  · simp [hrest, Meeting.after]
              | directory id => exact ih id
              | link target => exact hfollow _ _

/-- Once some entries are files, a walk ends where the first of them that it meets says. -/
theorem walk_overlay (limit dir : Nat) (names : List Name) :
    (t.overlay new).walk limit dir names = (t.meet (marks new) limit dir names).after new := by
  induction limit generalizing dir names with
  | zero => exact @scan_overlay _ t new _ (fun _ _ => .lost) (fun _ _ => rfl) dir names
  | succ limit ih => exact scan_overlay (fun dir names => ih dir names) dir names

theorem find_overlay (route : Route Name) :
    (t.overlay new).find route = (t.findMeet (marks new) route).after new :=
  walk_overlay _ _ _

/-! ### What removing entries does -/

theorem scan_without {follow : Nat → List Name → Option Place}
    {followMeet : Nat → List Name → Meeting Name}
    (hfollow : ∀ dir names, follow dir names = (followMeet dir names).left) (dir : Nat)
    (names : List Name) :
    (t.without marked).scan follow dir names = (t.scanMeet marked followMeet dir names).left := by
  induction names generalizing dir with
  | nil => rfl
  | cons name rest ih =>
      simp only [scan, scanMeet, without]
      by_cases hmark : marked dir name = true
      · rw [if_pos hmark, if_pos hmark]
        rfl
      · rw [if_neg hmark, if_neg hmark]
        cases t.entry dir name with
        | none => rfl
        | some entry =>
            cases entry with
            | file inode =>
                by_cases hrest : rest = []
                · simp [hrest, Meeting.left]
                · simp [hrest, Meeting.left]
            | directory id => exact ih id
            | link target => exact hfollow _ _

/-- Once some entries are missing, a walk ends where it did if it meets none of them, and nowhere
otherwise. -/
theorem walk_without (limit dir : Nat) (names : List Name) :
    (t.without marked).walk limit dir names = (t.meet marked limit dir names).left := by
  induction limit generalizing dir names with
  | zero => exact @scan_without _ t marked _ (fun _ _ => .lost) (fun _ _ => rfl) dir names
  | succ limit ih => exact scan_without (fun dir names => ih dir names) dir names

variable {names : List Name}

theorem scan_mono {follow follow' : Nat → List Name → Option Place} {place : Place}
    (hfollow : ∀ dir names, follow dir names = some place → follow' dir names = some place)
    {dir : Nat} (h : t.scan follow dir names = some place) :
    t.scan follow' dir names = some place := by
  induction names generalizing dir with
  | nil => exact h
  | cons name rest ih =>
      simp only [scan] at h ⊢
      cases hentry : t.entry dir name with
      | none =>
          rw [hentry] at h
          cases h
      | some entry =>
          rw [hentry] at h
          cases entry with
          | file inode => exact h
          | directory id => exact ih h
          | link target => exact hfollow _ _ h

/-- More links to follow do not change where a walk ends. -/
theorem walk_mono {limit limit' dir : Nat} {place : Place}
    (h : t.walk limit dir names = some place) (hle : limit ≤ limit') :
    t.walk limit' dir names = some place := by
  induction limit generalizing limit' dir names with
  | zero =>
      cases limit' with
      | zero => exact h
      | succ limit' => exact scan_mono (fun _ _ hnone => by cases hnone) h
  | succ limit ih =>
      cases limit' with
      | zero => exact absurd hle (Nat.not_succ_le_zero limit)
      | succ limit' => exact scan_mono (fun _ _ h => ih h (Nat.le_of_succ_le_succ hle)) h

/-- What a meeting says about the walk in the tree as it is. -/
def Meeting.Tells (t : Tree Name) (marked : Nat → Name → Bool) (limit : Nat)
    (walked : Option Place) : Meeting Name → Prop
  | .lost => walked = none
  | .ends place => walked = some place
  | .meets dir name rest =>
      marked dir name = true ∧ ∃ left ≤ limit, walked = t.walk left dir (name :: rest)

theorem Meeting.Tells.mono {limit limit' : Nat} {walked : Option Place} {m : Meeting Name}
    (h : m.Tells t marked limit walked) (hle : limit ≤ limit') : m.Tells t marked limit' walked := by
  cases m with
  | lost => exact h
  | ends place => exact h
  | meets dir name rest =>
      obtain ⟨hmark, left, hleft, hwalked⟩ := h
      exact ⟨hmark, left, Nat.le_trans hleft hle, hwalked⟩

theorem scanMeet_tells {limit : Nat} {follow : Nat → List Name → Option Place}
    {followMeet : Nat → List Name → Meeting Name}
    (hfollow : ∀ dir names, (followMeet dir names).Tells t marked limit (follow dir names))
    (hwalk : ∀ dir names, t.walk limit dir names = t.scan follow dir names) (dir : Nat)
    (names : List Name) :
    (t.scanMeet marked followMeet dir names).Tells t marked limit (t.scan follow dir names) := by
  induction names generalizing dir with
  | nil => rfl
  | cons name rest ih =>
      unfold scanMeet
      by_cases hmark : marked dir name = true
      · rw [if_pos hmark]
        exact ⟨hmark, limit, Nat.le_refl limit, (hwalk dir (name :: rest)).symm⟩
      · rw [if_neg hmark, scan]
        cases t.entry dir name with
        | none => rfl
        | some entry =>
            cases entry with
            | file inode =>
                by_cases hrest : rest = []
                · simp [hrest, Meeting.Tells]
                · simp [hrest, Meeting.Tells]
            | directory id => exact ih id
            | link target => exact hfollow _ _

theorem meet_tells (limit dir : Nat) (names : List Name) :
    (t.meet marked limit dir names).Tells t marked limit (t.walk limit dir names) := by
  induction limit generalizing dir names with
  | zero =>
      exact @scanMeet_tells _ t marked 0 _ (fun _ _ => .lost) (fun _ _ => rfl) (fun _ _ => rfl) _ _
  | succ limit ih =>
      exact scanMeet_tells (fun dir names => (ih dir names).mono (Nat.le_succ limit))
        (fun _ _ => rfl) dir names

variable {route : Route Name}

/-- Without some of its entries a tree leads no path anywhere else. -/
theorem find_of_without {place : Place}
    (h : (t.without marked).find route = some place) : t.find route = some place := by
  rw [find, walk_without] at h
  have htells := @meet_tells _ t marked t.limit (t.start route.fromRoot t.cwd) route.names
  change (t.meet marked t.limit (t.start route.fromRoot t.cwd) route.names).left = some place at h
  cases hmeet : t.meet marked t.limit (t.start route.fromRoot t.cwd) route.names with
  | lost =>
      rw [hmeet] at h
      cases h
  | ends found =>
      rw [hmeet] at h htells
      cases h
      exact htells
  | meets dir name rest =>
      rw [hmeet] at h
      cases h

/-! ### Longer paths -/

/-- What is known of a walk is known of it with more names behind. -/
def Meeting.Extends (t : Tree Name) (marked : Nat → Name → Bool) (limit : Nat) (more : List Name) :
    Meeting Name → Meeting Name → Prop
  | .lost, longer => longer = .lost
  | .ends (.file _), longer => more ≠ [] → longer = .lost
  | .ends (.directory dir), longer => ∃ left ≤ limit, longer = t.meet marked left dir more
  | .meets dir name rest, longer => longer = .meets dir name (rest ++ more)

theorem Meeting.Extends.mono {limit limit' : Nat} {more : List Name} {longer m : Meeting Name}
    (h : m.Extends t marked limit more longer) (hle : limit ≤ limit') :
    m.Extends t marked limit' more longer := by
  cases m with
  | lost => exact h
  | meets dir name rest => exact h
  | ends place =>
      cases place with
      | file inode => exact h
      | directory dir =>
          obtain ⟨left, hleft, hlonger⟩ := h
          exact ⟨left, Nat.le_trans hleft hle, hlonger⟩

theorem scanMeet_extends {limit : Nat} {followMeet : Nat → List Name → Meeting Name}
    {more : List Name}
    (hfollow : ∀ dir names,
      (followMeet dir names).Extends t marked limit more (followMeet dir (names ++ more)))
    (hmeet : ∀ dir names, t.meet marked limit dir names = t.scanMeet marked followMeet dir names)
    (dir : Nat) (names : List Name) :
    (t.scanMeet marked followMeet dir names).Extends t marked limit more
      (t.scanMeet marked followMeet dir (names ++ more)) := by
  induction names generalizing dir with
  | nil => exact ⟨limit, Nat.le_refl limit, (hmeet dir more).symm⟩
  | cons name rest ih =>
      simp only [List.cons_append, scanMeet]
      by_cases hmark : marked dir name = true
      · rw [if_pos hmark, if_pos hmark]
        rfl
      · rw [if_neg hmark, if_neg hmark]
        cases t.entry dir name with
        | none => rfl
        | some entry =>
            cases entry with
            | file inode =>
                by_cases hrest : rest = []
                · by_cases hmore : more = []
                  · simp [hrest, hmore, Meeting.Extends]
                  · simp [hrest, hmore, Meeting.Extends]
                · simp [hrest, Meeting.Extends]
            | directory id => exact ih id
            | link target =>
                have hnext := hfollow (t.start target.fromRoot dir) (target.names ++ rest)
                rw [List.append_assoc] at hnext
                exact hnext

theorem meet_extends (limit dir : Nat) (names more : List Name) :
    (t.meet marked limit dir names).Extends t marked limit more
      (t.meet marked limit dir (names ++ more)) := by
  induction limit generalizing dir names with
  | zero =>
      exact @scanMeet_extends _ t marked 0 (fun _ _ => .lost) _ (fun _ _ => rfl) (fun _ _ => rfl)
        _ _
  | succ limit ih =>
      exact scanMeet_extends (fun dir names => (ih dir names).mono (Nat.le_succ limit))
        (fun _ _ => rfl) dir names

variable {name : Name}

theorem entry_of_walk {limit dir inode : Nat}
    (h : t.walk limit dir [name] = some (.file inode))
    (hlink : ∀ target, t.entry dir name ≠ some (.link target)) :
    t.entry dir name = some (.file inode) := by
  have hscan : ∀ {follow : Nat → List Name → Option Place},
      t.scan follow dir [name] = some (.file inode) → t.entry dir name = some (.file inode) := by
    intro follow hscan
    simp only [scan, if_true] at hscan
    cases hentry : t.entry dir name with
    | none =>
        rw [hentry] at hscan
        cases hscan
    | some entry =>
        rw [hentry] at hscan
        cases entry with
        | file found =>
            cases hscan
            rfl
        | directory id => cases hscan
        | link target => exact absurd hentry (hlink target)
  cases limit with
  | zero => exact hscan h
  | succ limit => exact hscan h

/-- A path of a directory's names and one more stands for that name in the directory. -/
theorem locate_snoc {fromRoot : Bool} {target : Nat × Name} :
    t.locate { fromRoot, names := names ++ [name] } = some target ↔
      ∃ dir, t.walk t.limit (t.start fromRoot t.cwd) names = some (.directory dir) ∧
        target = (dir, name) := by
  unfold locate
  rw [List.getLast?_concat, List.dropLast_concat]
  cases t.walk t.limit (t.start fromRoot t.cwd) names with
  | none => simp
  | some place =>
      cases place with
      | file inode => simp
      | directory dir => simp [eq_comm]

/-- A walk over more names passes the directory the first of them lead to. -/
theorem walk_append {limit dir : Nat} {names more : List Name} :
    (∀ d, t.walk limit dir names = some (.directory d) →
      ∃ left ≤ limit, t.walk limit dir (names ++ more) = t.walk left d more) ∧
    (∀ place, more ≠ [] → t.walk limit dir (names ++ more) = some place →
      ∃ d, t.walk limit dir names = some (.directory d)) := by
  have hwalk : ∀ limit dir names,
      t.walk limit dir names = (t.meet (marks fun _ _ => none) limit dir names).after
        fun _ _ => none := fun limit dir names => @walk_overlay _ t (fun _ _ => none) limit dir names
  have htells := @meet_tells _ t (marks fun _ _ => none) limit dir names
  have hextends := @meet_extends _ t (marks fun _ _ => none) limit dir names more
  rw [hwalk limit dir (names ++ more)]
  cases hmeet : t.meet (marks fun _ _ => none) limit dir names with
  | lost =>
      rw [hmeet] at htells hextends
      constructor
      · intro d hd
        rw [htells] at hd
        cases hd
      · intro place _ hplace
        rw [hextends] at hplace
        cases hplace
  | ends place =>
      rw [hmeet] at htells hextends
      cases place with
      | file inode =>
          constructor
          · intro d hd
            rw [htells] at hd
            cases hd
          · intro place hmore hplace
            rw [hextends hmore] at hplace
            cases hplace
      | directory d =>
          obtain ⟨left, hleft, hlonger⟩ := hextends
          constructor
          · intro d' hd'
            rw [htells] at hd'
            cases hd'
            exact ⟨left, hleft, by rw [hlonger, ← hwalk]⟩
          · exact fun _ _ _ => ⟨d, htells⟩
  | meets found name rest =>
      rw [hmeet] at htells
      cases htells.1

/-- A path stands for the last of its names in the directory the others lead to. -/
theorem locate_eq_some_iff {dir : Nat} :
    t.locate route = some (dir, name) ↔ ∃ names, route.names = names ++ [name] ∧
      t.walk t.limit (t.start route.fromRoot t.cwd) names = some (.directory dir) := by
  rcases route with ⟨fromRoot, names⟩
  obtain rfl | ⟨front, last, rfl⟩ := List.eq_nil_or_concat names
  · simp [locate]
  · rw [List.concat_eq_append, locate_snoc]
    constructor
    · rintro ⟨d, hwalk, heq⟩
      obtain ⟨rfl, rfl⟩ := Prod.mk.inj heq
      exact ⟨front, rfl, hwalk⟩
    · rintro ⟨names, heq, hwalk⟩
      obtain ⟨rfl, hlast⟩ := List.append_inj' heq rfl
      obtain ⟨rfl, -⟩ := List.cons.inj hlast
      exact ⟨dir, hwalk, rfl⟩

/-- A path that stands for a directory leads to it. -/
theorem find_of_locate {dir id : Nat}
    (h : t.locate route = some (dir, name)) (hentry : t.entry dir name = some (.directory id)) :
    t.find route = some (.directory id) := by
  obtain ⟨names, hnames, hwalk⟩ := locate_eq_some_iff.mp h
  have hlonger := @walk_append _ t t.limit (t.start route.fromRoot t.cwd) names [name]
  obtain ⟨left, -, hrest⟩ := hlonger.1 dir hwalk
  rw [find, hnames, hrest]
  cases left with
  | zero => simp [walk, scan, hentry]
  | succ left => simp [walk, scan, hentry]

/-- The walk to the directory of a path, when no marked entry is on the way to it. -/
theorem meet_of_locate {dir : Nat} (h : t.locate route = some (dir, name)) :
    (∃ front, route.names = front ++ [name] ∧
      t.meet marked t.limit (t.start route.fromRoot t.cwd) front = .ends (.directory dir)) ∨
      (t.findMeet marked route).through = true := by
  obtain ⟨front, hnames, hwalk⟩ := locate_eq_some_iff.mp h
  have htells := @meet_tells _ t marked t.limit (t.start route.fromRoot t.cwd) front
  have hextends := @meet_extends _ t marked t.limit (t.start route.fromRoot t.cwd) front [name]
  rw [hwalk] at htells
  cases hmeet : t.meet marked t.limit (t.start route.fromRoot t.cwd) front with
  | lost =>
      rw [hmeet] at htells
      cases htells
  | ends place =>
      rw [hmeet] at htells
      cases htells
      exact Or.inl ⟨front, hnames, hmeet⟩
  | meets other found rest =>
      rw [hmeet] at hextends
      refine Or.inr ?_
      rw [findMeet, hnames, hextends]
      cases rest with
      | nil => rfl
      | cons next more => rfl

/-- The last step to a path, when no marked entry is on the way to its directory. -/
theorem meet_locate {dir : Nat} (h : t.locate route = some (dir, name)) :
    (∃ left ≤ t.limit, t.findMeet marked route = t.meet marked left dir [name]) ∨
      (t.findMeet marked route).through = true := by
  obtain ⟨front, hnames, hmeet⟩ | hthrough := @meet_of_locate _ t marked _ _ _ h
  · have hextends := @meet_extends _ t marked t.limit (t.start route.fromRoot t.cwd) front [name]
    rw [hmeet, ← hnames] at hextends
    exact Or.inl hextends
  · exact Or.inr hthrough

theorem overlay_walk_eq (route : Route Name) (names : List Name) :
    (t.overlay new).walk (t.overlay new).limit
        ((t.overlay new).start route.fromRoot (t.overlay new).cwd) names =
      (t.meet (marks new) t.limit (t.start route.fromRoot t.cwd) names).after new :=
  walk_overlay _ _ _

/-- A path that can be located among new files stands for the same entry as before. -/
theorem locate_of_overlay {dir : Nat}
    (h : (t.overlay new).locate route = some (dir, name)) : t.locate route = some (dir, name) := by
  unfold locate at h ⊢
  cases hlast : route.names.getLast? with
  | none =>
      rw [hlast] at h
      cases h
  | some last =>
      have htells := @meet_tells _ t (marks new) t.limit (t.start route.fromRoot t.cwd) route.names.dropLast
      rw [hlast, overlay_walk_eq] at h
      cases hmeet : t.meet (marks new) t.limit (t.start route.fromRoot t.cwd) route.names.dropLast with
      | lost =>
          rw [hmeet] at h
          cases h
      | ends place =>
          rw [hmeet] at h htells
          rw [htells]
          exact h
      | meets other found rest =>
          rw [hmeet] at h
          cases rest with
          | nil =>
              cases hother : new other found with
              | none => simp [Meeting.after, hother] at h
              | some inode => simp [Meeting.after, hother] at h
          | cons next more => cases h

theorem scanMeet_ends_of_fewer {fewer : Nat → Name → Bool}
    {follow follow' : Nat → List Name → Meeting Name} {place : Place}
    (hfewer : ∀ dir name, fewer dir name = true → marked dir name = true)
    (hfollow : ∀ dir names, follow dir names = .ends place → follow' dir names = .ends place)
    {dir : Nat} (h : t.scanMeet marked follow dir names = .ends place) :
    t.scanMeet fewer follow' dir names = .ends place := by
  induction names generalizing dir with
  | nil => exact h
  | cons name rest ih =>
      unfold scanMeet at h ⊢
      by_cases hmark : marked dir name = true
      · rw [if_pos hmark] at h
        cases h
      · rw [if_neg hmark] at h
        rw [if_neg fun hf => hmark (hfewer dir name hf)]
        cases hentry : t.entry dir name with
        | none =>
            rw [hentry] at h
            cases h
        | some entry =>
            rw [hentry] at h
            cases entry with
            | file inode => exact h
            | directory id => exact ih h
            | link target => exact hfollow _ _ h

/-- A walk that meets no marked entry meets none when fewer are marked. -/
theorem meet_ends_of_fewer {fewer : Nat → Name → Bool} {limit dir : Nat}
    {place : Place} (hfewer : ∀ dir name, fewer dir name = true → marked dir name = true)
    (h : t.meet marked limit dir names = .ends place) :
    t.meet fewer limit dir names = .ends place := by
  induction limit generalizing dir names with
  | zero => exact scanMeet_ends_of_fewer hfewer (fun _ _ hlost => by cases hlost) h
  | succ limit ih => exact scanMeet_ends_of_fewer hfewer (fun _ _ hends => ih hends) h

/-- A path that goes behind no marked entry is located as before among files for some of them. -/
theorem locate_overlay {dir : Nat}
    (h : t.locate route = some (dir, name)) (hnot : (t.findMeet marked route).through = false)
    (hnew : ∀ dir name, marks new dir name = true → marked dir name = true) :
    (t.overlay new).locate route = some (dir, name) := by
  obtain ⟨front, hnames, hmeet⟩ | hthrough := @meet_of_locate _ t marked _ _ _ h
  · refine locate_eq_some_iff.mpr ⟨front, hnames, ?_⟩
    rw [overlay_walk_eq, meet_ends_of_fewer hnew hmeet]
    rfl
  · rw [hthrough] at hnot
    cases hnot

theorem scan_file {follow : Nat → List Name → Option Place} {inode : Nat}
    (hfollow : ∀ dir names, follow dir names = some (.file inode) →
      ∃ d n, t.entry d n = some (.file inode))
    {dir : Nat} (h : t.scan follow dir names = some (.file inode)) :
    ∃ d n, t.entry d n = some (.file inode) := by
  induction names generalizing dir with
  | nil => cases h
  | cons name rest ih =>
      simp only [scan] at h
      cases hentry : t.entry dir name with
      | none =>
          rw [hentry] at h
          cases h
      | some entry =>
          rw [hentry] at h
          cases entry with
          | file found =>
              dsimp only at h
              by_cases hrest : rest = []
              · rw [if_pos hrest] at h
                cases h
                exact ⟨dir, name, hentry⟩
              · rw [if_neg hrest] at h
                cases h
          | directory id => exact ih h
          | link target => exact hfollow _ _ h

theorem walk_file {limit dir inode : Nat}
    (h : t.walk limit dir names = some (.file inode)) :
    ∃ d n, t.entry d n = some (.file inode) := by
  induction limit generalizing dir names with
  | zero => exact scan_file (fun _ _ hnone => by cases hnone) h
  | succ limit ih => exact scan_file (fun _ _ h => ih h) h

end Tree

end HermesNode.Links
