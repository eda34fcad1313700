/-
Module: HermesNode.Lib.Occurrences
Purpose: Where a list stands in another one. A search forward answers with the first position that
  passes from a start on, a search backward with the last one up to a stop; each answer is unique. A
  list written with a fixed number of elements for each item stands in another one at the positions
  the items stand at.
Trusted boundary: none
Main exports: Occurs, IsFirst, IsLast, occurs_flatMap_iff
-/
import Mathlib.Data.List.Basic

namespace HermesNode

/-! ### Occurrences -/

section

variable {α β : Type}

/-- `needle` stands in `haystack` from position `i` on. -/
def Occurs (haystack needle : List α) (i : Nat) : Prop :=
  i + needle.length ≤ haystack.length ∧ (haystack.drop i).take needle.length = needle

instance [DecidableEq α] (haystack needle : List α) (i : Nat) :
    Decidable (Occurs haystack needle i) :=
  inferInstanceAs (Decidable (_ ∧ _))

theorem Occurs.le {haystack needle : List α} {i : Nat} (h : Occurs haystack needle i) :
    i ≤ haystack.length - needle.length := by
  have hfits := h.1
  omega

/-- An empty list stands at every position, the end included. -/
theorem occurs_nil {haystack : List α} {i : Nat} :
    Occurs haystack [] i ↔ i ≤ haystack.length := by
  simp [Occurs]

theorem occurs_singleton {haystack : List α} {a : α} {i : Nat} :
    Occurs haystack [a] i ↔ haystack[i]? = some a := by
  unfold Occurs
  rw [List.length_singleton]
  constructor
  · intro h
    obtain ⟨hfits, htake⟩ := h
    have hhead : ((haystack.drop i).take 1)[0]? = some a := by
      rw [htake]
      rfl
    simpa [List.getElem?_take, List.getElem?_drop] using hhead
  · intro h
    obtain ⟨hlt, hget⟩ := List.getElem?_eq_some_iff.mp h
    refine ⟨by omega, ?_⟩
    rw [List.drop_eq_getElem_cons hlt, hget]
    rfl

/-- A list does not reach behind the end of a part that holds the window. -/
theorem occurs_take {haystack needle : List α} {i n : Nat} (h : i + needle.length ≤ n) :
    Occurs (haystack.take n) needle i ↔ Occurs haystack needle i := by
  have hwindow : min needle.length (n - i) = needle.length := by omega
  unfold Occurs
  rw [List.length_take, List.drop_take, List.take_take, hwindow]
  constructor
  · intro hocc
    have hfits := hocc.1
    exact ⟨by omega, hocc.2⟩
  · intro hocc
    have hfits := hocc.1
    exact ⟨by omega, hocc.2⟩

/-! ### Items of a fixed width -/

variable {f : α → List β} {w : Nat}

theorem length_flatMap_width (hw : ∀ a, (f a).length = w) (xs : List α) :
    (xs.flatMap f).length = w * xs.length := by
  induction xs with
  | nil => rfl
  | cons x xs ih =>
      rw [List.flatMap_cons, List.length_append, hw, ih, List.length_cons, Nat.mul_succ]
      omega

theorem drop_flatMap_width (hw : ∀ a, (f a).length = w) (xs : List α) (k : Nat) :
    (xs.flatMap f).drop (w * k) = (xs.drop k).flatMap f := by
  induction xs generalizing k with
  | nil => simp
  | cons x xs ih =>
      cases k with
      | zero => rfl
      | succ k =>
          have hsplit : w * (k + 1) = (f x).length + w * k := by
            rw [hw, Nat.mul_succ]
            omega
          rw [List.flatMap_cons, hsplit, List.drop_length_add_append, ih, List.drop_succ_cons]

theorem take_flatMap_width (hw : ∀ a, (f a).length = w) (xs : List α) (k : Nat) :
    (xs.flatMap f).take (w * k) = (xs.take k).flatMap f := by
  induction xs generalizing k with
  | nil => simp
  | cons x xs ih =>
      cases k with
      | zero => simp
      | succ k =>
          have hsplit : w * (k + 1) = (f x).length + w * k := by
            rw [hw, Nat.mul_succ]
            omega
          rw [List.flatMap_cons, hsplit, List.take_length_add_append, ih, List.take_succ_cons,
            List.flatMap_cons]

/-- What is written for distinct lists of items is distinct. -/
theorem flatMap_width_injective (hw : ∀ a, (f a).length = w) (hpos : 0 < w)
    (hf : Function.Injective f) : Function.Injective (List.flatMap f) := by
  intro xs ys h
  induction xs generalizing ys with
  | nil =>
      have hlength := congrArg List.length h
      rw [length_flatMap_width hw, length_flatMap_width hw, List.length_nil, Nat.mul_zero] at hlength
      have hnil : ys.length = 0 := by
        rcases Nat.mul_eq_zero.mp hlength.symm with hzero | hzero
        · omega
        · exact hzero
      exact (List.eq_nil_of_length_eq_zero hnil).symm
  | cons x xs ih =>
      cases ys with
      | nil =>
          have hlength := congrArg List.length h
          rw [List.flatMap_cons, List.length_append, hw] at hlength
          simp at hlength
          omega
      | cons y ys =>
          rw [List.flatMap_cons, List.flatMap_cons] at h
          obtain ⟨hhead, htail⟩ := List.append_inj h (by rw [hw, hw])
          rw [hf hhead, ih htail]

/-- The written lists stand in each other where the items do. -/
theorem occurs_flatMap_iff (hw : ∀ a, (f a).length = w) (hpos : 0 < w)
    (hf : Function.Injective f) {haystack needle : List α} {k : Nat} :
    Occurs (haystack.flatMap f) (needle.flatMap f) (w * k) ↔ Occurs haystack needle k := by
  unfold Occurs
  rw [length_flatMap_width hw, length_flatMap_width hw, drop_flatMap_width hw,
    take_flatMap_width hw, (flatMap_width_injective hw hpos hf).eq_iff, ← Nat.mul_add,
    Nat.mul_le_mul_left_iff hpos]

end

/-! ### The first and the last position -/

section

variable {P : Nat → Prop}

/-- The first position from `start` on that passes, if there is one. -/
def IsFirst (P : Nat → Prop) (start : Nat) : Option Nat → Prop
  | some i => start ≤ i ∧ P i ∧ ∀ j, start ≤ j → P j → i ≤ j
  | none => ∀ j, start ≤ j → ¬ P j

/-- The last position up to `stop` that passes, if there is one. -/
def IsLast (P : Nat → Prop) (stop : Nat) : Option Nat → Prop
  | some i => i ≤ stop ∧ P i ∧ ∀ j, j ≤ stop → P j → j ≤ i
  | none => ∀ j, j ≤ stop → ¬ P j

/-- Two starts that the same positions follow find the same. -/
theorem IsFirst.congr {start start' : Nat} {a : Option Nat}
    (hsame : ∀ j, P j → (start ≤ j ↔ start' ≤ j)) (h : IsFirst P start a) :
    IsFirst P start' a := by
  cases a with
  | none => exact fun j hj hP => h j ((hsame j hP).mpr hj) hP
  | some i =>
      exact ⟨(hsame i h.2.1).mp h.1, h.2.1, fun j hj hP => h.2.2 j ((hsame j hP).mpr hj) hP⟩

theorem IsLast.congr {stop stop' : Nat} {a : Option Nat}
    (hsame : ∀ j, P j → (j ≤ stop ↔ j ≤ stop')) (h : IsLast P stop a) : IsLast P stop' a := by
  cases a with
  | none => exact fun j hj hP => h j ((hsame j hP).mpr hj) hP
  | some i =>
      exact ⟨(hsame i h.2.1).mp h.1, h.2.1, fun j hj hP => h.2.2 j ((hsame j hP).mpr hj) hP⟩

end

end HermesNode
