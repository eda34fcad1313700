/-
Module: HermesNode.Lib.Copies
Purpose: Files behind directories with links, and copying some of them in order: each is read where
  its path leads at that moment and put, as a file of its own, in place of whatever entry its
  target stands for. Contents are never written into, so a hard link keeps what it has. Copying
  goes through, and every target gets the bytes its source had at the beginning, when no source
  meets an entry replaced before it and no target goes behind a replaced entry.
Trusted boundary: human-reviewed spec (POSIX `open`, `read` and `rename` of a finished file)
Main exports: Files, Files.read, Files.copyAll_replaced
-/
import HermesNode.Lib.Links
import Mathlib.Data.List.Nodup

namespace HermesNode.Links

variable {Name Data : Type}

structure Files (Name Data : Type) where
  tree : Tree Name
  content : Nat → Data
  /-- The next inode to be handed out. -/
  next : Nat
  bounded : ∀ dir name inode, tree.entry dir name = some (.file inode) → inode < next

namespace Files

/-- The entries that a list of copies replaces. -/
def targets (fs : Files Name Data) (copies : List (Route Name × Route Name)) : List (Nat × Name) :=
  copies.filterMap fun copy => fs.tree.locate copy.2

theorem targets_append (fs : Files Name Data) (xs ys : List (Route Name × Route Name)) :
    fs.targets (xs ++ ys) = fs.targets xs ++ fs.targets ys := List.filterMap_append

variable {copies : List (Route Name × Route Name)}

theorem mem_targets {fs : Files Name Data} {copy : Route Name × Route Name} {target : Nat × Name}
    (hmem : copy ∈ copies) (h : fs.tree.locate copy.2 = some target) :
    target ∈ fs.targets copies := List.mem_filterMap.mpr ⟨copy, hmem, h⟩

section

variable [DecidableEq Name]

/-- What can be read at a path. -/
def read (fs : Files Name Data) (route : Route Name) : Option Data :=
  match fs.tree.find route with
  | some (.file inode) => some (fs.content inode)
  | _ => none

/-- One entry becomes a file. -/
def single (at_ : Nat × Name) (inode dir : Nat) (name : Name) : Option Nat :=
  if (dir, name) = at_ then some inode else none

/-- `rename` of a finished file over a path. It replaces a file and a link, and no directory. -/
def put (fs : Files Name Data) (route : Route Name) (data : Data) : Option (Files Name Data) :=
  match fs.tree.locate route with
  | none => none
  | some target =>
      match fs.tree.entry target.1 target.2 with
      | some (.directory _) => none
      | _ =>
          some {
            tree := fs.tree.overlay (single target fs.next)
            content := Function.update fs.content fs.next data
            next := fs.next + 1
            bounded := by
              intro dir name inode h
              simp only [Tree.overlay, single] at h
              by_cases hat : (dir, name) = target
              · rw [if_pos hat] at h
                cases h
                exact Nat.lt_succ_self _
              · rw [if_neg hat] at h
                exact Nat.lt_succ_of_lt (fs.bounded dir name inode h) }

def copy (fs : Files Name Data) (source target : Route Name) : Option (Files Name Data) :=
  (fs.read source).bind (fs.put target)

/-- The copies in order. -/
def copyAll : Files Name Data → List (Route Name × Route Name) → Option (Files Name Data)
  | fs, [] => some fs
  | fs, (source, target) :: rest => (fs.copy source target).bind fun fs' => fs'.copyAll rest

theorem copyAll_append (fs : Files Name Data) (xs ys : List (Route Name × Route Name)) :
    fs.copyAll (xs ++ ys) = (fs.copyAll xs).bind fun fs' => fs'.copyAll ys := by
  induction xs generalizing fs with
  | nil => rfl
  | cons copy xs ih =>
      simp only [List.cons_append, copyAll, ih, Option.bind_assoc]

/-- The entries of a list, marked. -/
def among (entries : List (Nat × Name)) (dir : Nat) (name : Name) : Bool :=
  decide ((dir, name) ∈ entries)

variable {fs fs' : Files Name Data} {new : Nat → Name → Option Nat} {entries : List (Nat × Name)}

/-! ### What a list of copies leaves -/

/-- `fs'` is `fs` with some entries replaced by files of their own. -/
structure Replaced (fs fs' : Files Name Data) (new : Nat → Name → Option Nat)
    (entries : List (Nat × Name)) : Prop where
  tree : fs'.tree = fs.tree.overlay new
  marks : Tree.marks new = among entries
  next_le : fs.next ≤ fs'.next
  content : ∀ inode < fs.next, fs'.content inode = fs.content inode
  below : ∀ dir name inode, new dir name = some inode → inode < fs'.next

theorem Replaced.nothing (fs : Files Name Data) : Replaced fs fs (fun _ _ => none) [] where
  tree := rfl
  marks := by
    funext dir name
    simp [Tree.marks, among]
  next_le := Nat.le_refl _
  content _ _ := rfl
  below _ _ _ h := by cases h

theorem put_eq_some {route : Route Name} {data : Data} (h : fs.put route data = some fs') :
    ∃ target, fs.tree.locate route = some target ∧
      (∀ id, fs.tree.entry target.1 target.2 ≠ some (.directory id)) ∧
      fs'.tree = fs.tree.overlay (single target fs.next) ∧
      fs'.content = Function.update fs.content fs.next data ∧ fs'.next = fs.next + 1 := by
  unfold put at h
  cases hlocate : fs.tree.locate route with
  | none =>
      rw [hlocate] at h
      cases h
  | some target =>
      rw [hlocate] at h
      dsimp only at h
      split at h
      · cases h
      · rename_i hentry
        cases h
        exact ⟨target, rfl, hentry, rfl, rfl, rfl⟩

theorem put_of_locate {route : Route Name} {target : Nat × Name}
    (hlocate : fs.tree.locate route = some target)
    (hentry : ∀ id, fs.tree.entry target.1 target.2 ≠ some (.directory id)) (data : Data) :
    (fs.put route data).isSome = true := by
  unfold put
  rw [hlocate]
  dsimp only
  split
  · rename_i id hid
    exact absurd hid (hentry id)
  · rfl

theorem Replaced.put {fs₂ : Files Name Data} (h : Replaced fs fs' new entries) {route : Route Name}
    {data : Data} (hput : fs'.put route data = some fs₂) :
    ∃ target, fs.tree.locate route = some target ∧
      Replaced fs fs₂ (fun dir name => (single target fs'.next dir name).or (new dir name))
        (entries ++ [target]) ∧
      fs₂.content = Function.update fs'.content fs'.next data := by
  obtain ⟨target, hlocate, hentry, htree, hcontent, hnext⟩ := put_eq_some hput
  refine ⟨target, ?_, ?_, hcontent⟩
  · rw [h.tree] at hlocate
    exact Tree.locate_of_overlay hlocate
  · constructor
    · rw [htree, h.tree]
      simp only [Tree.overlay, Tree.mk.injEq, and_true]
      funext dir name
      unfold single
      by_cases hat : (dir, name) = target
      · rw [if_pos hat]
        rfl
      · rw [if_neg hat]
        rfl
    · funext dir name
      have hold : Tree.marks new dir name = among entries dir name := by rw [h.marks]
      unfold Tree.marks at hold
      simp only [Tree.marks, Option.isSome_or, hold, among, single, List.mem_append,
        List.mem_singleton, Bool.decide_or]
      by_cases hat : (dir, name) = target
      · rw [if_pos hat, Option.isSome_some, Bool.true_or, decide_eq_true hat, Bool.or_true]
      · rw [if_neg hat, Option.isSome_none, Bool.false_or, decide_eq_false hat, Bool.or_false]
    · rw [hnext]
      exact Nat.le_succ_of_le h.next_le
    · intro inode hlt
      have hne : inode ≠ fs'.next := Nat.ne_of_lt (Nat.lt_of_lt_of_le hlt h.next_le)
      rw [hcontent, Function.update_of_ne hne, h.content inode hlt]
    · intro dir name inode hnew
      rw [hnext]
      unfold single at hnew
      by_cases hat : (dir, name) = target
      · rw [if_pos hat] at hnew
        cases hnew
        exact Nat.lt_succ_self _
      · rw [if_neg hat] at hnew
        exact Nat.lt_succ_of_lt (h.below dir name inode hnew)

/-- Whatever the copies were, all they did is replace the entries of their targets. -/
theorem Replaced.copyAll {fs₂ : Files Name Data} (h : Replaced fs fs' new entries)
    (hcopy : fs'.copyAll copies = some fs₂) :
    ∃ new', Replaced fs fs₂ new' (entries ++ fs.targets copies) := by
  induction copies generalizing fs' new entries with
  | nil =>
      cases hcopy
      exact ⟨new, by simpa [targets] using h⟩
  | cons copy rest ih =>
      obtain ⟨source, route⟩ := copy
      obtain ⟨fs₁, hfirst, hrest⟩ := Option.bind_eq_some_iff.mp hcopy
      obtain ⟨data, _, hput⟩ := Option.bind_eq_some_iff.mp hfirst
      obtain ⟨target, hlocate, hreplaced, _⟩ := h.put hput
      obtain ⟨new', hnew'⟩ := ih hreplaced hrest
      refine ⟨new', ?_⟩
      have htargets : fs.targets ((source, route) :: rest) = target :: fs.targets rest := by
        simp [targets, hlocate]
      rw [htargets]
      simpa using hnew'

theorem copyAll_replaced (hcopy : fs.copyAll copies = some fs') :
    ∃ new, Replaced fs fs' new (fs.targets copies) := by
  have h := (Replaced.nothing fs).copyAll hcopy
  simpa using h

/-! ### Reading afterwards -/

section

variable (h : Replaced fs fs' new entries) {route : Route Name}

include h

theorem Replaced.read_through (hthrough : (fs.tree.findMeet (among entries) route).through = true) :
    fs'.read route = none := by
  rw [read, h.tree, Tree.find_overlay, h.marks]
  cases hmeet : fs.tree.findMeet (among entries) route with
  | lost => rfl
  | ends place =>
      rw [hmeet] at hthrough
      cases hthrough
  | meets dir name rest =>
      cases rest with
      | nil =>
          rw [hmeet] at hthrough
          cases hthrough
      | cons next more => rfl

theorem Replaced.read_meets {dir inode : Nat} {name : Name}
    (hmeet : fs.tree.findMeet (among entries) route = .meets dir name [])
    (hnew : new dir name = some inode) : fs'.read route = some (fs'.content inode) := by
  rw [read, h.tree, Tree.find_overlay, h.marks, hmeet]
  simp [Tree.Meeting.after, hnew]

theorem Replaced.read_ends {place : Place}
    (hmeet : fs.tree.findMeet (among entries) route = .ends place) :
    fs'.read route = fs.read route := by
  have hfind : fs.tree.find route = some place := by
    have htells := @Tree.meet_tells _ fs.tree (among entries) fs.tree.limit
      (fs.tree.start route.fromRoot fs.tree.cwd) route.names
    rw [← Tree.findMeet, hmeet] at htells
    exact htells
  unfold read
  rw [h.tree, Tree.find_overlay, h.marks, hmeet, hfind]
  cases place with
  | directory id => rfl
  | file inode =>
      obtain ⟨dir, name, hentry⟩ := Tree.walk_file hfind
      have hlt := fs.bounded dir name inode hentry
      simp [Tree.Meeting.after, h.content inode hlt]

end

/-! ### Copies that go through -/

/-- No copy gets in the way of another one. -/
structure Harmless (fs : Files Name Data) (copies : List (Route Name × Route Name)) : Prop where
  located : ∀ copy ∈ copies, ∃ target, fs.tree.locate copy.2 = some target ∧
    ∀ id, fs.tree.entry target.1 target.2 ≠ some (.directory id)
  distinct : (fs.targets copies).Nodup
  readable : ∀ copy ∈ copies, (fs.read copy.1).isSome = true
  /-- A source meets no entry replaced before it is read. -/
  sources : ∀ before copy after, copies = before ++ copy :: after →
    ∃ place, fs.tree.findMeet (among (fs.targets before)) copy.1 = .ends place
  /-- No target goes behind a replaced entry. -/
  reach : ∀ copy ∈ copies, (fs.tree.findMeet (among (fs.targets copies)) copy.2).through = false

/-- Every target of a list of copies has what its source had at the beginning. -/
def Holds (fs fs' : Files Name Data) (new : Nat → Name → Option Nat)
    (copies : List (Route Name × Route Name)) : Prop :=
  ∀ copy ∈ copies, ∀ target, fs.tree.locate copy.2 = some target →
    ∃ inode, new target.1 target.2 = some inode ∧ fs.read copy.1 = some (fs'.content inode)

theorem Holds.put {fs₂ : Files Name Data} {before : List (Route Name × Route Name)}
    {copy : Route Name × Route Name} {target : Nat × Name} {data : Data}
    (h : Holds fs fs' new before) (hrep : Replaced fs fs' new (fs.targets before))
    (hlocate : fs.tree.locate copy.2 = some target) (hnot : target ∉ fs.targets before)
    (hdata : fs.read copy.1 = some data)
    (hcontent : fs₂.content = Function.update fs'.content fs'.next data) :
    Holds fs fs₂ (fun dir name => (single target fs'.next dir name).or (new dir name))
      (before ++ [copy]) := by
  intro other hmem found hfound
  rcases List.mem_append.mp hmem with hbefore | hthis
  · obtain ⟨inode, hinode, hread⟩ := h other hbefore found hfound
    have hne : (found.1, found.2) ≠ target := by
      rintro rfl
      exact hnot (mem_targets hbefore hfound)
    have hlt := hrep.below _ _ _ hinode
    refine ⟨inode, by simp [single, hne, hinode], ?_⟩
    rw [hcontent, Function.update_of_ne (Nat.ne_of_lt hlt)]
    exact hread
  · rw [List.mem_singleton.mp hthis] at hfound ⊢
    rw [hlocate] at hfound
    cases hfound
    refine ⟨fs'.next, by simp [single], ?_⟩
    rw [hcontent, Function.update_self, hdata]

/-- The copy that comes after `before` goes through. -/
theorem Harmless.step {before after : List (Route Name × Route Name)}
    {copy : Route Name × Route Name} (h : fs.Harmless (before ++ copy :: after))
    (hrep : Replaced fs fs' new (fs.targets before)) (hholds : Holds fs fs' new before) :
    ∃ fs₂ new', fs'.copy copy.1 copy.2 = some fs₂ ∧
      Replaced fs fs₂ new' (fs.targets (before ++ [copy])) ∧ Holds fs fs₂ new' (before ++ [copy]) := by
  have hmem : copy ∈ before ++ copy :: after := by simp
  obtain ⟨target, hlocate, hentry⟩ := h.located copy hmem
  obtain ⟨place, hends⟩ := h.sources before copy after rfl
  obtain ⟨data, hdata⟩ := Option.isSome_iff_exists.mp (h.readable copy hmem)
  have hread : fs'.read copy.1 = some data := by rw [hrep.read_ends hends, hdata]
  have hfewer : ∀ dir name, Tree.marks new dir name = true →
      among (fs.targets (before ++ copy :: after)) dir name = true := by
    intro dir name hmark
    rw [hrep.marks] at hmark
    rw [targets_append]
    simp only [among, decide_eq_true_eq] at hmark ⊢
    exact List.mem_append_left _ hmark
  have hlocate' : fs'.tree.locate copy.2 = some target := by
    rw [hrep.tree]
    exact Tree.locate_overlay hlocate (h.reach copy hmem) hfewer
  have hentry' : ∀ id, fs'.tree.entry target.1 target.2 ≠ some (.directory id) := by
    intro id hid
    rw [hrep.tree] at hid
    simp only [Tree.overlay] at hid
    cases hnew : new target.1 target.2 with
    | none =>
        rw [hnew] at hid
        exact hentry id hid
    | some inode =>
        rw [hnew] at hid
        cases hid
  obtain ⟨fs₂, hput⟩ := Option.isSome_iff_exists.mp (put_of_locate hlocate' hentry' data)
  obtain ⟨found, hfound, hrep', hcontent⟩ := hrep.put hput
  rw [hlocate] at hfound
  cases hfound
  have htargets : fs.targets (before ++ [copy]) = fs.targets before ++ [target] := by
    rw [targets_append]
    simp [targets, hlocate]
  have hnot : target ∉ fs.targets before := by
    have hdistinct := h.distinct
    rw [targets_append] at hdistinct
    have hhere : target ∈ fs.targets (copy :: after) := mem_targets (by simp) hlocate
    exact fun hin => (List.nodup_append.mp hdistinct).2.2 target hin target hhere rfl
  have hcopy : fs'.copy copy.1 copy.2 = some fs₂ := by
    rw [Files.copy, hread]
    exact hput
  rw [htargets]
  exact ⟨fs₂, _, hcopy, hrep', hholds.put hrep hlocate hnot hdata hcontent⟩

theorem Harmless.copyRest {before rest : List (Route Name × Route Name)}
    (h : fs.Harmless (before ++ rest)) (hrep : Replaced fs fs' new (fs.targets before))
    (hholds : Holds fs fs' new before) :
    ∃ fs₂ new', fs'.copyAll rest = some fs₂ ∧
      Replaced fs fs₂ new' (fs.targets (before ++ rest)) ∧ Holds fs fs₂ new' (before ++ rest) := by
  induction rest generalizing before fs' new with
  | nil => exact ⟨fs', new, rfl, by simpa using hrep, by simpa using hholds⟩
  | cons copy after ih =>
      obtain ⟨fs₁, new₁, hcopy, hrep₁, hholds₁⟩ := h.step hrep hholds
      have hsplit : before ++ copy :: after = (before ++ [copy]) ++ after := by simp
      rw [hsplit] at h ⊢
      obtain ⟨fs₂, new₂, hrest, hrep₂, hholds₂⟩ := ih h hrep₁ hholds₁
      refine ⟨fs₂, new₂, ?_, hrep₂, hholds₂⟩
      rw [Files.copyAll, hcopy]
      exact hrest

/-- Copies that do not get in each other's way go through, and their targets have what their
sources had. -/
theorem Harmless.copyAll (h : fs.Harmless copies) :
    ∃ fs' new, fs.copyAll copies = some fs' ∧ Replaced fs fs' new (fs.targets copies) ∧
      Holds fs fs' new copies :=
  @Harmless.copyRest _ _ _ fs fs _ [] copies h (Replaced.nothing fs) (by simp [Holds])

end

end Files

end HermesNode.Links
