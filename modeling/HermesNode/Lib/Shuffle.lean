/-
Module: HermesNode.Lib.Shuffle
Purpose: Lists of actions in families. Two lists that hold the same actions of each family in the same
  order are shuffles of each other. Where actions of different families commute, shuffles have the same
  effect. Actions that edit a record slot by slot commute where they agree on every slot both edit.
Trusted boundary: none
Main exports: Shuffled, foldl_shuffled, Edit, Edit.runAll_comm
-/
import Mathlib.Data.List.Basic
import Mathlib.Data.List.Count
import Mathlib.Logic.Function.Basic

namespace HermesNode

variable {Action Family State : Type} [DecidableEq Family]

/-- Each family's actions come in the same order. -/
def Shuffled (family : Action → Family) (first second : List Action) : Prop :=
  ∀ k, first.filter (fun a => decide (family a = k)) = second.filter fun a => decide (family a = k)

variable {family : Action → Family} {a : Action} {first second : List Action}

/-- The first action of a list is the first one of its family in a shuffle. -/
theorem Shuffled.split (h : Shuffled family (a :: first) second) :
    ∃ before behind, second = before ++ a :: behind ∧ (∀ b ∈ before, family b ≠ family a) ∧
      Shuffled family first (before ++ behind) := by
  have hown := h (family a)
  rw [List.filter_cons_of_pos (by simp)] at hown
  rcases List.filter_eq_cons_iff.mp hown.symm with ⟨before, behind, rfl, hbefore, -, hrest⟩
  have hother : ∀ b ∈ before, family b ≠ family a := by
    intro b hb
    simpa using hbefore b hb
  refine ⟨before, behind, rfl, hother, fun k => ?_⟩
  by_cases hk : family a = k
  · subst hk
    have hnone : before.filter (fun b => decide (family b = family a)) = [] := by
      rw [List.filter_eq_nil_iff]
      intro b hb
      simpa using hother b hb
    rw [List.filter_append, hnone, List.nil_append]
    exact hrest.symm
  · have hsame := h k
    rw [List.filter_cons_of_neg (by simpa using hk), List.filter_append,
      List.filter_cons_of_neg (by simpa using hk)] at hsame
    rw [List.filter_append]
    exact hsame

theorem Shuffled.perm (h : Shuffled family first second) : first.Perm second := by
  induction first generalizing second with
  | nil =>
      cases second with
      | nil => exact .nil
      | cons b second =>
          have hown := h (family b)
          rw [List.filter_nil, List.filter_cons_of_pos (by simp)] at hown
          cases hown
  | cons a first ih =>
      rcases h.split with ⟨before, behind, rfl, -, hrest⟩
      exact ((ih hrest).cons a).trans List.perm_middle.symm

section

variable {act : State → Action → State}
  (hcomm : ∀ a b s, family a ≠ family b → act (act s a) b = act (act s b) a)

include hcomm

omit [DecidableEq Family] in
theorem foldl_past {before : List Action} (hother : ∀ b ∈ before, family b ≠ family a) (s : State) :
    act (before.foldl act s) a = before.foldl act (act s a) := by
  induction before generalizing s with
  | nil => rfl
  | cons b before ih =>
      rw [List.foldl_cons, ih (fun c hc => hother c (List.mem_cons_of_mem b hc)), List.foldl_cons,
        hcomm b a s (hother b List.mem_cons_self)]

theorem foldl_shuffled (h : Shuffled family first second) (s : State) :
    first.foldl act s = second.foldl act s := by
  induction first generalizing second s with
  | nil =>
      cases h.perm.nil_eq
      rfl
  | cons a first ih =>
      rcases h.split with ⟨before, behind, rfl, hother, hrest⟩
      rw [List.foldl_cons, ih hrest, List.foldl_append, List.foldl_append, List.foldl_cons,
        foldl_past hcomm hother]

end

/-! ### Edits of a record -/

/-- A change of one slot, which looks at nothing else. -/
structure Edit {Slot : Type} (Content : Slot → Type) where
  slot : Slot
  change : Content slot → Content slot

namespace Edit

variable {Slot : Type} [DecidableEq Slot] {Content : Slot → Type}

def run (record : ∀ i, Content i) (edit : Edit Content) : ∀ i, Content i :=
  Function.update record edit.slot (edit.change (record edit.slot))

def runAll (record : ∀ i, Content i) (edits : List (Edit Content)) : ∀ i, Content i :=
  edits.foldl run record

variable {record : ∀ i, Content i} {edit other : Edit Content} {edits others : List (Edit Content)}

theorem run_comm (h : edit.slot = other.slot → edit = other) (record : ∀ i, Content i) :
    run (run record edit) other = run (run record other) edit := by
  by_cases hslot : edit.slot = other.slot
  · rw [h hslot]
  · unfold run
    rw [Function.update_of_ne (Ne.symm hslot), Function.update_of_ne hslot,
      Function.update_comm hslot]

theorem runAll_run (h : ∀ e ∈ edits, e.slot = other.slot → e = other) (record : ∀ i, Content i) :
    run (runAll record edits) other = runAll (run record other) edits := by
  induction edits generalizing record with
  | nil => rfl
  | cons e edits ih =>
      change run (runAll (run record e) edits) other = runAll (run (run record other) e) edits
      rw [ih fun c hc => h c (List.mem_cons_of_mem e hc), run_comm (h e List.mem_cons_self)]

/-- Edits that agree on the slots they share can be made in either order. -/
theorem runAll_comm (h : ∀ e ∈ edits, ∀ o ∈ others, e.slot = o.slot → e = o)
    (record : ∀ i, Content i) :
    runAll (runAll record edits) others = runAll (runAll record others) edits := by
  induction others generalizing record with
  | nil => rfl
  | cons o others ih =>
      change runAll (run (runAll record edits) o) others =
        runAll (runAll (run record o) others) edits
      rw [runAll_run fun e he => h e he o List.mem_cons_self,
        ih fun e he c hc => h e he c (List.mem_cons_of_mem o hc)]

end Edit

end HermesNode
