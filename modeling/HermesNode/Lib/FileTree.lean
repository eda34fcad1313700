/-
Module: HermesNode.Lib.FileTree
Purpose: Following a path through directories the way a kernel does: segment by segment, each from a
  directory, with links followed where an entry is looked up. A path that looks one name up behind a
  directory ends at that entry. The last part builds trees in which every name can be looked up, to
  tell paths apart.
Trusted boundary: human-reviewed spec (POSIX pathname resolution, without limits and permissions)
Main exports: FileTree, FileTree.walk, fullTree_walk_home, fullTree_resolve
-/
import HermesNode.Lib.Relative

namespace HermesNode

/-- Directories and what can be reached from them. -/
structure FileTree where
  Node : Type
  top : Node
  /-- Where relative paths start. -/
  cwd : Node
  isDir : Node → Bool
  /-- What an entry of a directory leads to; a link leads where it points. -/
  child : Node → Bytes → Option Node
  /-- Where `..` leads. -/
  up : Node → Node

/-- Empty segments and dots stay where they are. -/
def skips (seg : Bytes) : Bool := seg == [] || seg == dot

/-- The segments that are looked up. -/
def lookups (segs : List Bytes) : List Bytes := segs.filter fun seg => !skips seg

variable {segs : List Bytes}

namespace FileTree

variable (t : FileTree)

def step (d : t.Node) (seg : Bytes) : Option t.Node :=
  if t.isDir d = false then none
  else if skips seg then some d
  else if seg = dotDot then some (t.up d)
  else t.child d seg

def walk : t.Node → List Bytes → Option t.Node
  | d, [] => some d
  | d, seg :: segs => (t.step d seg).bind fun next => walk next segs

/-- Where a path leads. -/
def resolve (p : Bytes) : Option t.Node :=
  if p = [] then none else t.walk (if isAbsolute p then t.top else t.cwd) (splitSlash p)

/-- A node that must be a directory. -/
def asDirectory (n : t.Node) : Option t.Node := if t.isDir n then some n else none

variable {t}

theorem walk_append (d : t.Node) (xs ys : List Bytes) :
    t.walk d (xs ++ ys) = (t.walk d xs).bind fun n => t.walk n ys := by
  induction xs generalizing d with
  | nil => rfl
  | cons seg xs ih =>
      rw [List.cons_append, walk, walk]
      cases t.step d seg with
      | none => rfl
      | some next => exact ih next

/-- Segments that stay where they are ask for a directory, if there are any. -/
theorem walk_skips (h : ∀ seg ∈ segs, skips seg = true) (d : t.Node) :
    t.walk d segs = if segs = [] then some d else t.asDirectory d := by
  induction segs with
  | nil => rfl
  | cons seg segs ih =>
      have hrest := ih fun s hs => h s (List.mem_cons_of_mem _ hs)
      have hskip := h seg List.mem_cons_self
      rw [if_neg (List.cons_ne_nil seg segs), walk]
      unfold step asDirectory
      cases hdir : t.isDir d with
      | false => simp
      | true =>
          rw [hskip]
          simp only [Bool.true_eq_false, if_false, if_true, Option.bind_some]
          rw [hrest]
          unfold asDirectory
          rw [hdir]
          simp

/-- What stands in front of the one lookup of a path and behind it. -/
theorem split_lookup {name : Bytes} (h : lookups segs = [name]) :
    ∃ front back, segs = front ++ name :: back ∧ (∀ seg ∈ front, skips seg = true) ∧
      skips name = false ∧ ∀ seg ∈ back, skips seg = true := by
  obtain ⟨front, back, hsegs, hfront, hname, hback⟩ := List.filter_eq_cons_iff.mp h
  refine ⟨front, back, hsegs, ?_, by simpa using hname, ?_⟩
  · intro seg hseg
    simpa using hfront seg hseg
  · intro seg hseg
    have hnone := List.filter_eq_nil_iff.mp hback seg hseg
    simpa using hnone

/-- A path with one lookup leads to that entry of the directory it starts in; behind a last segment
that is not the name the entry must be a directory. -/
theorem walk_entry {name : Bytes} (h : lookups segs = [name])
    (hname : name ≠ dotDot) {d : t.Node} (hdir : t.isDir d = true) :
    t.walk d segs = (t.child d name).bind fun n =>
      if skips (segs.getLast?.getD []) then t.asDirectory n else some n := by
  obtain ⟨front, back, rfl, hfront, hplain, hback⟩ := split_lookup h
  have hstart : t.walk d front = some d := by
    rw [walk_skips hfront]
    unfold asDirectory
    rw [hdir]
    simp
  have hstep : t.step d name = t.child d name := by
    unfold step
    simp [hdir, hplain, hname]
  have hlast : skips ((front ++ name :: back).getLast?.getD []) = !decide (back = []) := by
    rw [List.getLast?_append_of_ne_nil _ (List.cons_ne_nil name back)]
    cases hb : back.getLast? with
    | none =>
        rw [List.getLast?_eq_none_iff.mp hb]
        simpa using hplain
    | some last =>
        have hmem := List.mem_of_getLast? hb
        have hne : back ≠ [] := List.ne_nil_of_mem hmem
        rw [List.getLast?_cons, hb]
        simpa [hne] using hback last hmem
  rw [walk_append, hstart, Option.bind_some, walk, hstep, hlast]
  congr 1
  funext n
  rw [walk_skips hback]
  by_cases hb : back = []
  · simp [hb]
  · simp [hb]

end FileTree

/-! ### Trees in which every name can be looked up -/

/-- Every name leads on from every directory, to a place of its own. `home` lies in the top
directory; every other entry is a link, and `..` behind one is a new place too. -/
def fullTree (home : Bytes) (files : List (List Bytes)) : FileTree where
  Node := List Bytes
  top := []
  cwd := []
  isDir d := !files.contains d
  child d name := some (d ++ [name])
  up d := if d = [] ∨ d = [home] then [] else d ++ [dotDot]

section

variable {home : Bytes} {files : List (List Bytes)}

/-- A place is spelled by segments that were followed. -/
theorem fullTree_walk_mem {d n : List Bytes}
    (h : (fullTree home files).walk d segs = some n) {x : Bytes} (hx : x ∈ n) :
    x ∈ segs ∨ x ∈ d := by
  induction segs generalizing d with
  | nil =>
      cases h
      exact Or.inr hx
  | cons seg segs ih =>
      obtain ⟨next, hstep, hrest⟩ := Option.bind_eq_some_iff.mp h
      cases ih hrest with
      | inl hin => exact Or.inl (List.mem_cons_of_mem _ hin)
      | inr hnext =>
          unfold FileTree.step at hstep
          split at hstep
          · cases hstep
          · split at hstep
            · cases hstep
              exact Or.inr hnext
            · split at hstep
              · rename_i hdd
                cases hstep
                unfold fullTree at hnext
                dsimp only at hnext
                split at hnext
                · cases hnext
                · cases List.mem_append.mp hnext with
                  | inl hd => exact Or.inr hd
                  | inr hlast =>
                      rw [List.mem_singleton.mp hlast, hdd]
                      exact Or.inl List.mem_cons_self
              · cases hstep
                cases List.mem_append.mp hnext with
                | inl hd => exact Or.inr hd
                | inr hlast =>
                    rw [List.mem_singleton.mp hlast]
                    exact Or.inl List.mem_cons_self

/-- Behind a link no place is reached twice: a walk that comes back has looked nothing up. -/
theorem fullTree_walk_behind {d n : List Bytes} (hne : d ≠ [])
    (hhome : d ≠ [home]) (h : (fullTree home files).walk d segs = some n) :
    d.length ≤ n.length ∧ (d.length = n.length → n = d ∧ lookups segs = []) := by
  induction segs generalizing d with
  | nil =>
      cases h
      exact ⟨Nat.le_refl _, fun _ => ⟨rfl, rfl⟩⟩
  | cons seg segs ih =>
      obtain ⟨next, hstep, hrest⟩ := Option.bind_eq_some_iff.mp h
      have hcases : (next = d ∧ skips seg = true) ∨ ∃ x, next = d ++ [x] := by
        unfold FileTree.step at hstep
        split at hstep
        · cases hstep
        · split at hstep
          · rename_i hskip
            cases hstep
            exact Or.inl ⟨rfl, hskip⟩
          · split at hstep
            · cases hstep
              have hup : (fullTree home files).up d = d ++ [dotDot] := by
                unfold fullTree
                simp [hne, hhome]
              exact Or.inr ⟨dotDot, hup⟩
            · cases hstep
              exact Or.inr ⟨seg, rfl⟩
      rcases hcases with ⟨rfl, hskip⟩ | ⟨x, rfl⟩
      · obtain ⟨hle, hback⟩ := ih hne hhome hrest
        refine ⟨hle, ?_⟩
        intro hlength
        obtain ⟨hsame, hnone⟩ := hback hlength
        refine ⟨hsame, ?_⟩
        unfold lookups at hnone ⊢
        rw [List.filter_cons_of_neg (by simp [hskip]), hnone]
      · have hlonger : (d ++ [x]).length = d.length + 1 := by simp
        have hother : d ++ [x] ≠ [home] := by
          intro heq
          have hlen := congrArg List.length heq
          rw [hlonger, List.length_singleton] at hlen
          exact hne (List.length_eq_zero_iff.mp (by omega))
        obtain ⟨hle, _⟩ := ih (by simp) hother hrest
        rw [hlonger] at hle
        exact ⟨by omega, fun hlength => by omega⟩

/-- From `home`, without naming it, an entry of it is reached only by looking up its name and
nothing else. -/
theorem fullTree_walk_home {name : Bytes} (hfresh : home ∉ segs)
    (h : (fullTree home files).walk [home] segs = some [home, name]) :
    lookups segs = [name] ∧ name ≠ dotDot := by
  induction segs with
  | nil => cases h
  | cons seg segs ih =>
      have hrest : home ∉ segs := fun hin => hfresh (List.mem_cons_of_mem _ hin)
      obtain ⟨next, hstep, hwalk⟩ := Option.bind_eq_some_iff.mp h
      unfold FileTree.step at hstep
      split at hstep
      · cases hstep
      · split at hstep
        · rename_i hskip
          cases hstep
          obtain ⟨hone, hname⟩ := ih hrest hwalk
          refine ⟨?_, hname⟩
          unfold lookups at hone ⊢
          rw [List.filter_cons_of_neg (by simp [hskip]), hone]
        · rename_i hplain
          split at hstep
          · -- above `home` the way back is lost
            cases hstep
            have hup : (fullTree home files).up [home] = [] := by
              unfold fullTree
              simp
            rw [hup] at hwalk
            cases fullTree_walk_mem hwalk (x := home) (by simp) with
            | inl hin => exact absurd hin hrest
            | inr hnil => cases hnil
          · rename_i hdd
            cases hstep
            have hbehind := fullTree_walk_behind (d := [home, seg]) (by simp) (by simp) hwalk
            obtain ⟨hsame, hnone⟩ := hbehind.2 rfl
            cases hsame
            refine ⟨?_, hdd⟩
            unfold lookups at hnone ⊢
            rw [List.filter_cons_of_pos (by simpa using hplain), hnone]

/-- Names lead to the place they spell. -/
theorem fullTree_walk_names (h : Names segs)
    (hdirs : ∀ front name rest, segs = front ++ name :: rest → front ∉ files) :
    (fullTree home files).walk [] segs = some segs := by
  have hgeneral : ∀ (d rest : List Bytes), d ++ rest = segs →
      (fullTree home files).walk d rest = some segs := by
    intro d rest
    induction rest generalizing d with
    | nil =>
        intro heq
        rw [List.append_nil] at heq
        rw [← heq]
        rfl
    | cons name rest ih =>
        intro heq
        have hname := h.plain name (by rw [← heq]; simp)
        have hskip : skips name = false := by simp [skips, hname.1, hname.2.1]
        have hdir : (fullTree home files).isDir d = true := by
          have hnot := hdirs d name rest heq.symm
          simpa [fullTree] using hnot
        have hstep : (fullTree home files).step d name = some (d ++ [name]) := by
          unfold FileTree.step
          simp [hdir, hskip, hname.2.2]
          rfl
        have hwalk : (fullTree home files).walk d (name :: rest) =
            ((fullTree home files).step d name).bind
              fun next => (fullTree home files).walk next rest := rfl
        rw [hwalk, hstep]
        exact ih (d ++ [name]) (by simpa using heq)
  exact hgeneral [] segs rfl

/-- An absolute path of names leads to the place it spells. -/
theorem fullTree_resolve {segs : List Bytes} (h : Names segs) (hne : segs ≠ [])
    (hdirs : ∀ front name rest, segs = front ++ name :: rest → front ∉ files) :
    (fullTree home files).resolve (absPath segs) = some segs := by
  have htop : (fullTree home files).isDir [] = true := by
    obtain ⟨name, rest, hsegs⟩ := List.exists_cons_of_ne_nil hne
    have hnot := hdirs [] name rest hsegs
    simpa [fullTree] using hnot
  have hstep : (fullTree home files).step [] [] = some [] := by
    unfold FileTree.step
    rw [htop]
    rfl
  have hwalk : (fullTree home files).walk [] ([] :: segs) = some segs := by
    have hfirst : (fullTree home files).walk [] ([] :: segs) =
        ((fullTree home files).step [] []).bind
          fun next => (fullTree home files).walk next segs := rfl
    rw [hfirst, hstep]
    exact fullTree_walk_names h hdirs
  have hpath : absPath segs ≠ [] := List.cons_ne_nil _ _
  unfold FileTree.resolve
  rw [if_neg hpath, splitSlash_absPath h hne]
  exact hwalk

/-- A walk along names, if it succeeds, adds them. -/
theorem fullTree_walk_eq (h : Names segs) {d n : List Bytes}
    (hwalk : (fullTree home files).walk d segs = some n) : n = d ++ segs := by
  induction segs generalizing d with
  | nil =>
      cases hwalk
      simp
  | cons name rest ih =>
      obtain ⟨next, hstep, hrest⟩ := Option.bind_eq_some_iff.mp hwalk
      have hname := h.plain name (by simp)
      have hskip : skips name = false := by simp [skips, hname.1, hname.2.1]
      have hnext : next = d ++ [name] := by
        unfold FileTree.step at hstep
        split at hstep
        · cases hstep
        · rw [hskip, if_neg hname.2.2] at hstep
          cases hstep
          rfl
      subst hnext
      have hsame := ih (@Names.right [name] rest h) hrest
      rw [hsame]
      simp

end

end HermesNode
