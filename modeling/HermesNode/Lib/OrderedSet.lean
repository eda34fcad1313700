/-
Module: HermesNode.Lib.OrderedSet
Purpose: `std::set` with a comparator of its own, as the list of its elements in order. Insertion and
  removal find their place with the comparator alone: an element that is neither below nor above the
  key stands for it. Where the comparator tells the elements apart, both touch the key and no other
  element.
Trusted boundary: human-reviewed spec (`std::set::insert` and `std::set::erase`)
Main exports: setInsert, setErase, mem_setErase, setErase_sorted
-/
import Mathlib.Data.List.Basic
import Mathlib.Order.Basic

namespace HermesNode

variable {α : Type}

/-- `set.insert(x)`: nothing changes when an equivalent element is there. -/
def setInsert (less : α → α → Bool) (x : α) : List α → List α
  | [] => [x]
  | y :: ys =>
      if less y x then y :: setInsert less x ys
      else if less x y then x :: y :: ys
      else y :: ys

/-- `set.erase(x)`: the equivalent element goes, whichever it is. -/
def setErase (less : α → α → Bool) (x : α) : List α → List α
  | [] => []
  | y :: ys =>
      if less y x then y :: setErase less x ys
      else if less x y then y :: ys
      else ys

/-- The elements stand in the order of the comparator. -/
def SetSorted (less : α → α → Bool) (xs : List α) : Prop := xs.Pairwise fun a b => less a b = true

/-- The comparator tells `x` apart from every other element. -/
def Apart (less : α → α → Bool) (x : α) (xs : List α) : Prop :=
  ∀ y ∈ xs, y ≠ x → less y x = true ∨ less x y = true

variable {less : α → α → Bool} {x : α} {xs : List α}

theorem Apart.tail {y : α} {ys : List α} (h : Apart less x (y :: ys)) : Apart less x ys :=
  fun z hz => h z (List.mem_cons_of_mem y hz)

theorem mem_of_mem_setInsert {z : α} (h : z ∈ setInsert less x xs) : z = x ∨ z ∈ xs := by
  induction xs with
  | nil => simpa [setInsert] using h
  | cons y ys ih =>
      rw [setInsert] at h
      split at h
      · rcases List.mem_cons.mp h with rfl | hrest
        · exact Or.inr List.mem_cons_self
        · rcases ih hrest with heq | hmem
          · exact Or.inl heq
          · exact Or.inr (List.mem_cons_of_mem y hmem)
      · split at h
        · simpa using h
        · exact Or.inr h

theorem mem_setInsert (hapart : Apart less x xs) (hnew : x ∉ xs) {z : α} :
    z ∈ setInsert less x xs ↔ z = x ∨ z ∈ xs := by
  refine ⟨mem_of_mem_setInsert, ?_⟩
  induction xs with
  | nil =>
      intro h
      simpa [setInsert] using h
  | cons y ys ih =>
      have hne : y ≠ x := fun heq => hnew (heq ▸ List.mem_cons_self)
      intro h
      rw [setInsert]
      split
      · rcases h with rfl | hmem
        · exact List.mem_cons_of_mem y
            (ih hapart.tail (fun hin => hnew (List.mem_cons_of_mem y hin)) (Or.inl rfl))
        · rcases List.mem_cons.mp hmem with rfl | hin
          · exact List.mem_cons_self
          · exact List.mem_cons_of_mem y
              (ih hapart.tail (fun hin => hnew (List.mem_cons_of_mem y hin)) (Or.inr hin))
      · rename_i hnot
        rcases hapart y List.mem_cons_self hne with hlt | hgt
        · exact absurd hlt hnot
        · rw [if_pos hgt]
          exact List.mem_cons.mpr h

theorem setInsert_sorted (htrans : ∀ a b c, less a b = true → less b c = true → less a c = true)
    (h : SetSorted less xs) : SetSorted less (setInsert less x xs) := by
  induction xs with
  | nil => exact List.pairwise_singleton _ _
  | cons y ys ih =>
      rcases List.pairwise_cons.mp h with ⟨hy, hys⟩
      rw [setInsert]
      split
      · rename_i hlt
        refine List.pairwise_cons.mpr ⟨?_, ih hys⟩
        intro z hz
        rcases mem_of_mem_setInsert hz with rfl | hin
        · exact hlt
        · exact hy z hin
      · split
        · rename_i hgt
          refine List.pairwise_cons.mpr ⟨?_, h⟩
          intro z hz
          rcases List.mem_cons.mp hz with rfl | hin
          · exact hgt
          · exact htrans x y z hgt (hy z hin)
        · exact h

theorem setErase_sublist : (setErase less x xs).Sublist xs := by
  induction xs with
  | nil => exact List.Sublist.refl _
  | cons y ys ih =>
      rw [setErase]
      split
      · exact ih.cons_cons y
      · split
        · exact List.Sublist.refl _
        · exact List.sublist_cons_self y ys

theorem setErase_sorted (h : SetSorted less xs) : SetSorted less (setErase less x xs) :=
  List.Pairwise.sublist setErase_sublist h

theorem mem_setErase (hirrefl : ∀ a, less a a = false) (h : SetSorted less xs)
    (hapart : Apart less x xs) {z : α} :
    z ∈ setErase less x xs ↔ z ∈ xs ∧ z ≠ x := by
  induction xs with
  | nil => simp [setErase]
  | cons y ys ih =>
      rcases List.pairwise_cons.mp h with ⟨hy, hys⟩
      rw [setErase]
      by_cases heq : y = x
      · -- everything behind the element is above it
        subst heq
        rw [if_neg (by simp [hirrefl]), if_neg (by simp [hirrefl])]
        constructor
        · intro hz
          refine ⟨List.mem_cons_of_mem y hz, ?_⟩
          rintro rfl
          have hself := hy z hz
          rw [hirrefl] at hself
          cases hself
        · rintro ⟨hz, hne⟩
          exact (List.mem_cons.mp hz).resolve_left hne
      · split
        · rw [List.mem_cons, ih hys hapart.tail, List.mem_cons]
          constructor
          · rintro (rfl | ⟨hin, hne⟩)
            · exact ⟨Or.inl rfl, heq⟩
            · exact ⟨Or.inr hin, hne⟩
          · rintro ⟨rfl | hin, hne⟩
            · exact Or.inl rfl
            · exact Or.inr ⟨hin, hne⟩
        · rename_i hnot
          rcases hapart y List.mem_cons_self heq with hlt | hgt
          · exact absurd hlt hnot
          · rw [if_pos hgt]
            refine ⟨fun hz => ⟨hz, ?_⟩, fun hz => hz.1⟩
            rintro rfl
            rcases List.mem_cons.mp hz with hhead | hin
            · exact heq hhead.symm
            · exact absurd (hy z hin) hnot

theorem SetSorted.nodup (hirrefl : ∀ a, less a a = false) (h : SetSorted less xs) : xs.Nodup := by
  apply h.imp
  rintro a _ hlt rfl
  rw [hirrefl] at hlt
  cases hlt

/-- A comparator that agrees on the elements keeps them in order. -/
theorem SetSorted.congr {less' : α → α → Bool} (h : SetSorted less xs)
    (heq : ∀ a ∈ xs, ∀ b ∈ xs, less' a b = less a b) : SetSorted less' xs := by
  apply List.Pairwise.imp_of_mem _ h
  intro a b ha hb hlt
  rw [heq a ha b hb]
  exact hlt

end HermesNode
