/-
Module: HermesNode.Lib.Search
Purpose: Lower-bound binary search whose comparison may fail. The search narrows `[lo, hi)` by
  asking `less mid`; the comparison is an `Option`, so a search over a mapped file has no value
  as soon as one probe leaves the file. With a comparison that has a value on every index in
  range the search has one too, and with a monotone comparison it finds the boundary.
Trusted boundary: none
Main exports: lowerBound, lowerBound_isSome, lowerBound_spec
-/
import Mathlib.Data.List.Basic

namespace HermesNode

/-- The loop `while (lo < hi)` with its midpoint probe. The fuel bounds the iterations; `hi - lo`
is always enough because every probe shortens the interval. -/
def lowerBoundLoop (less : Nat → Option Bool) : Nat → Nat → Nat → Option Nat
  | 0, lo, _ => some lo
  | fuel + 1, lo, hi =>
      if lo < hi then
        let mid := lo + (hi - lo) / 2
        match less mid with
        | none => none
        | some true => lowerBoundLoop less fuel (mid + 1) hi
        | some false => lowerBoundLoop less fuel lo mid
      else some lo

/-- First index of `[0, n)` at which `less` no longer holds. -/
def lowerBound (less : Nat → Option Bool) (n : Nat) : Option Nat :=
  lowerBoundLoop less n 0 n

/-- Every probe stays below `hi`, so a comparison defined there makes the search defined. -/
theorem lowerBoundLoop_isSome {less : Nat → Option Bool} {n : Nat}
    (hless : ∀ i < n, ∃ b, less i = some b) :
    ∀ {fuel lo hi : Nat}, hi ≤ n → lo ≤ hi →
      ∃ k, lowerBoundLoop less fuel lo hi = some k ∧ k ≤ n := by
  intro fuel
  induction fuel with
  | zero =>
      intro lo hi hhi hle
      exact ⟨lo, rfl, by omega⟩
  | succ fuel ih =>
      intro lo hi hhi hle
      by_cases hlt : lo < hi
      · have hmid : lo + (hi - lo) / 2 < n := by omega
        obtain ⟨b, hb⟩ := hless _ hmid
        simp only [lowerBoundLoop, if_pos hlt, hb]
        cases b with
        | true => exact ih hhi (by omega)
        | false => exact ih (by omega) (by omega)
      · exact ⟨lo, by simp [lowerBoundLoop, hlt], by omega⟩

theorem lowerBound_isSome {less : Nat → Option Bool} {n : Nat}
    (hless : ∀ i < n, ∃ b, less i = some b) : ∃ k, lowerBound less n = some k ∧ k ≤ n :=
  lowerBoundLoop_isSome hless (Nat.le_refl n) (Nat.zero_le n)

/-- Loop invariant: everything before `lo` is less, everything from `hi` on is not. -/
theorem lowerBoundLoop_spec {p : Nat → Bool} {less : Nat → Option Bool} {n : Nat}
    (hless : ∀ i < n, less i = some (p i))
    (hmono : ∀ i j, i ≤ j → j < n → p j = true → p i = true) :
    ∀ {fuel lo hi k : Nat}, hi - lo ≤ fuel → hi ≤ n → lo ≤ hi →
      (∀ i < lo, p i = true) → (∀ i, hi ≤ i → i < n → p i = false) →
      lowerBoundLoop less fuel lo hi = some k →
      (∀ i < k, p i = true) ∧ (∀ i, k ≤ i → i < n → p i = false) := by
  intro fuel
  induction fuel with
  | zero =>
      intro lo hi k hfuel hhi hle hbelow habove hk
      have hlohi : lo = hi := by omega
      simp only [lowerBoundLoop, Option.some.injEq] at hk
      subst hk
      exact ⟨hbelow, hlohi ▸ habove⟩
  | succ fuel ih =>
      intro lo hi k hfuel hhi hle hbelow habove hk
      by_cases hlt : lo < hi
      · have hmid : lo + (hi - lo) / 2 < n := by omega
        simp only [lowerBoundLoop, if_pos hlt, hless _ hmid] at hk
        cases hp : p (lo + (hi - lo) / 2) with
        | true =>
            rw [hp] at hk
            refine ih (by omega) hhi (by omega) (fun i hi' => ?_) habove hk
            exact hmono i _ (by omega) hmid hp
        | false =>
            rw [hp] at hk
            refine ih (by omega) (by omega) (by omega) hbelow (fun i hi' hin => ?_) hk
            -- an index past the midpoint cannot be less: monotonicity would make the midpoint so
            by_contra hne
            have htrue : p i = true := by simpa using hne
            rw [hmono _ i hi' hin htrue] at hp
            exact Bool.noConfusion hp
      · simp only [lowerBoundLoop, if_neg hlt, Option.some.injEq] at hk
        subst hk
        exact ⟨hbelow, fun i hi' => habove i (by omega)⟩

/-- The search returns the boundary of a monotone comparison. -/
theorem lowerBound_spec {p : Nat → Bool} {less : Nat → Option Bool} {n k : Nat}
    (hless : ∀ i < n, less i = some (p i))
    (hmono : ∀ i j, i ≤ j → j < n → p j = true → p i = true)
    (hk : lowerBound less n = some k) :
    (∀ i < k, p i = true) ∧ (∀ i, k ≤ i → i < n → p i = false) :=
  lowerBoundLoop_spec hless hmono (by omega) (Nat.le_refl n) (Nat.zero_le n)
    (fun i hi => absurd hi (Nat.not_lt_zero i)) (fun i hi hin => absurd hin (by omega)) hk

end HermesNode
