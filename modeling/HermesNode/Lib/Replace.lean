/-
Module: HermesNode.Lib.Replace
Purpose: Replacing every occurrence of a pattern, from the left and without overlaps. The text comes
  back as it was exactly when the pattern does not occur in it or replaces itself.
Trusted boundary: none
Main exports: replaceAll, replaceAll_append, replaceAll_eq_self_iff
-/
import Mathlib.Data.List.Infix

namespace HermesNode

section

variable {α : Type} [DecidableEq α] {pattern replacement : List α}

/-- The replacement of what follows, `skip` elements of which belong to an occurrence. -/
def replaceFrom (pattern replacement : List α) : Nat → List α → List α
  | _, [] => []
  | skip + 1, _ :: rest => replaceFrom pattern replacement skip rest
  | 0, a :: rest =>
      if pattern <+: a :: rest then
        replacement ++ replaceFrom pattern replacement (pattern.length - 1) rest
      else a :: replaceFrom pattern replacement 0 rest

def replaceAll (pattern replacement text : List α) : List α :=
  replaceFrom pattern replacement 0 text

theorem replaceFrom_eq (skip : Nat) (text : List α) :
    replaceFrom pattern replacement skip text =
      replaceAll pattern replacement (text.drop skip) := by
  induction skip generalizing text with
  | zero => rfl
  | succ skip ih =>
      cases text with
      | nil => rfl
      | cons a rest => exact ih rest

theorem replaceAll_cons {a : α} {rest : List α} (h : ¬ pattern <+: a :: rest) :
    replaceAll pattern replacement (a :: rest) = a :: replaceAll pattern replacement rest := by
  rw [replaceAll, replaceFrom, if_neg h]
  rfl

/-- An occurrence at the start is replaced, and the text goes on behind it. -/
theorem replaceAll_append (hpattern : pattern ≠ []) (rest : List α) :
    replaceAll pattern replacement (pattern ++ rest) =
      replacement ++ replaceAll pattern replacement rest := by
  cases pattern with
  | nil => exact absurd rfl hpattern
  | cons a pattern =>
      have hfront : a :: pattern <+: a :: (pattern ++ rest) := List.prefix_append (a :: pattern) rest
      rw [List.cons_append, replaceAll, replaceFrom, if_pos hfront, replaceFrom_eq]
      simp

theorem replaceAll_eq_self_of_absent {text : List α} (h : ¬ pattern <:+: text) :
    replaceAll pattern replacement text = text := by
  induction text with
  | nil => rfl
  | cons a rest ih =>
      rw [replaceAll_cons fun hfront => h hfront.isInfix,
        ih fun hoccurs => h (hoccurs.trans (List.suffix_cons a rest).isInfix)]

/-- What a text with an occurrence is made of, as its replacement goes through it. -/
theorem exists_append_of_infix (replacement : List α) {text : List α} (h : pattern <:+: text) :
    ∃ before rest, text = before ++ (pattern ++ rest) ∧
      replaceAll pattern replacement text =
        before ++ replaceAll pattern replacement (pattern ++ rest) := by
  induction text with
  | nil =>
      have hnil := List.infix_nil.mp h
      exact ⟨[], [], by simp [hnil], by simp [hnil]⟩
  | cons a text ih =>
      by_cases hfront : pattern <+: a :: text
      · obtain ⟨rest, hrest⟩ := hfront
        exact ⟨[], rest, by simp [hrest], by simp [hrest]⟩
      · obtain ⟨before, rest, htext, hreplaced⟩ :=
          ih ((List.infix_cons_iff.mp h).resolve_left hfront)
        exact ⟨a :: before, rest, by simp [htext], by rw [replaceAll_cons hfront, hreplaced]; rfl⟩

theorem replaceAll_self (hpattern : pattern ≠ []) (text : List α) :
    replaceAll pattern pattern text = text := by
  induction hn : text.length using Nat.strong_induction_on generalizing text with
  | _ n ih =>
      by_cases hoccurs : pattern <:+: text
      · obtain ⟨before, rest, rfl, hreplaced⟩ :=
          exists_append_of_infix pattern hoccurs
        have hpos : 0 < pattern.length := List.length_pos_iff.mpr hpattern
        have hshort : rest.length < n := by
          rw [List.length_append, List.length_append] at hn
          omega
        rw [hreplaced, replaceAll_append hpattern, ih rest.length hshort rest rfl]
      · exact replaceAll_eq_self_of_absent hoccurs

/-- A replacement that is not shorter than the pattern does not shorten the text, and one that is
not longer does not lengthen it. -/
theorem replaceAll_length (replacement : List α) (hpattern : pattern ≠ []) (text : List α) :
    (pattern.length ≤ replacement.length →
      text.length ≤ (replaceAll pattern replacement text).length) ∧
    (replacement.length ≤ pattern.length →
      (replaceAll pattern replacement text).length ≤ text.length) := by
  induction hn : text.length using Nat.strong_induction_on generalizing text with
  | _ n ih =>
      by_cases hoccurs : pattern <:+: text
      · obtain ⟨before, rest, rfl, hreplaced⟩ :=
          exists_append_of_infix replacement hoccurs
        have hpos : 0 < pattern.length := List.length_pos_iff.mpr hpattern
        rw [List.length_append, List.length_append] at hn
        have hrest := ih rest.length (by omega) rest rfl
        rw [hreplaced, replaceAll_append hpattern]
        simp only [List.length_append]
        omega
      · rw [replaceAll_eq_self_of_absent hoccurs]
        omega

/-- The text comes back exactly when nothing in it is replaced by something else. -/
theorem replaceAll_eq_self_iff (hpattern : pattern ≠ []) {text : List α} :
    replaceAll pattern replacement text = text ↔ ¬ pattern <:+: text ∨ replacement = pattern := by
  constructor
  · intro hself
    by_cases hoccurs : pattern <:+: text
    · obtain ⟨before, rest, rfl, hreplaced⟩ :=
        exists_append_of_infix replacement hoccurs
      rw [hreplaced, replaceAll_append hpattern] at hself
      have hbehind := List.append_cancel_left hself
      have hlength := congrArg List.length hbehind
      have hrest := replaceAll_length replacement hpattern rest
      simp only [List.length_append] at hlength
      exact Or.inr (List.append_inj hbehind (by omega)).1
    · exact Or.inl hoccurs
  · rintro (hoccurs | rfl)
    · exact replaceAll_eq_self_of_absent hoccurs
    · exact replaceAll_self hpattern text

end

end HermesNode
