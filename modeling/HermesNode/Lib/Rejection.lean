/-
Module: HermesNode.Lib.Rejection
Purpose: Rejection sampling by counting. A source is a type whose values enumerate the numbers below
  some bound. A draw is accepted below a limit and reduced by a modulus: where the limit is a multiple of
  the modulus, every remainder comes from the same number of draws.
Trusted boundary: none
Main exports: Rejection.Enumerates, Rejection.reduce, Rejection.card_accepted,
  Rejection.lt_two_mul_limit
-/
import Mathlib.Algebra.Order.Group.Nat
import Mathlib.Data.Fintype.Card
import Mathlib.Order.Interval.Finset.Nat

namespace HermesNode.Rejection

/-- The values of `Draw` stand for the numbers below `bound`, each for one and each number for a value. -/
structure Enumerates {Draw : Type} (read : Draw → Nat) (bound : Nat) : Prop where
  injective : Function.Injective read
  lt : ∀ d, read d < bound
  surjective : ∀ x, x < bound → ∃ d, read d = x

/-- The remainder of an accepted number. -/
def reduce (limit modulus x : Nat) : Option Nat :=
  if x < limit then some (x % modulus) else none

variable {limit modulus x i : Nat}

theorem reduce_eq_some_iff : reduce limit modulus x = some i ↔ x < limit ∧ x % modulus = i := by
  simp [reduce]

theorem reduce_isSome : (reduce limit modulus x).isSome ↔ x < limit := by
  simp only [reduce]
  split <;> simp_all

/-- Below `k` times the modulus every remainder stands `k` times. -/
theorem card_mod_eq (k : Nat) (hi : i < modulus) :
    ((Finset.range (modulus * k)).filter fun x => x % modulus = i).card = k := by
  have hinj : Function.Injective fun j => i + modulus * j := by
    intro a b hab
    exact Nat.eq_of_mul_eq_mul_left (Nat.zero_lt_of_lt hi) (Nat.add_left_cancel hab)
  have himage : (Finset.range (modulus * k)).filter (fun x => x % modulus = i) =
      (Finset.range k).image fun j => i + modulus * j := by
    ext x
    simp only [Finset.mem_filter, Finset.mem_range, Finset.mem_image]
    constructor
    · rintro ⟨hlt, hmod⟩
      refine ⟨x / modulus, Nat.div_lt_of_lt_mul hlt, ?_⟩
      rw [← hmod]
      exact Nat.mod_add_div x modulus
    · rintro ⟨j, hj, rfl⟩
      have hrow : modulus * j + modulus ≤ modulus * k := Nat.mul_le_mul_left modulus hj
      refine ⟨by omega, ?_⟩
      rw [Nat.add_mul_mod_self_left, Nat.mod_eq_of_lt hi]
  rw [himage, Finset.card_image_of_injective _ hinj, Finset.card_range]

section

variable {Draw : Type} [Fintype Draw] {read : Draw → Nat} {bound : Nat}

/-- Draws are counted by the numbers they stand for. -/
theorem Enumerates.card_filter (h : Enumerates read bound) (p : Nat → Prop) [DecidablePred p] :
    (Finset.univ.filter fun d => p (read d)).card = ((Finset.range bound).filter p).card := by
  refine Finset.card_nbij read ?_ h.injective.injOn ?_
  · intro d hd
    exact Finset.mem_filter.mpr ⟨Finset.mem_range.mpr (h.lt d), (Finset.mem_filter.mp hd).2⟩
  · intro x hx
    rcases Finset.mem_filter.mp (Finset.mem_coe.mp hx) with ⟨hlt, hp⟩
    rcases h.surjective x (Finset.mem_range.mp hlt) with ⟨d, rfl⟩
    exact ⟨d, by simpa using hp, rfl⟩

/-- There are as many draws as numbers. -/
theorem Enumerates.card (h : Enumerates read bound) : Fintype.card Draw = bound := by
  simpa using h.card_filter fun _ => True

variable {k : Nat}

/-- Every remainder comes from the same number of accepted draws. -/
theorem card_reduce (h : Enumerates read bound) (hle : modulus * k ≤ bound) (hi : i < modulus) :
    (Finset.univ.filter fun d => reduce (modulus * k) modulus (read d) = some i).card = k := by
  rw [h.card_filter fun x => reduce (modulus * k) modulus x = some i]
  refine Eq.trans (congrArg Finset.card ?_) (card_mod_eq k hi)
  ext x
  simp only [Finset.mem_filter, Finset.mem_range, reduce_eq_some_iff]
  constructor
  · rintro ⟨-, hlt, hmod⟩
    exact ⟨hlt, hmod⟩
  · rintro ⟨hlt, hmod⟩
    exact ⟨Nat.lt_of_lt_of_le hlt hle, hlt, hmod⟩

/-- As many draws are accepted as numbers lie below the limit. -/
theorem card_accepted (h : Enumerates read bound) (hle : limit ≤ bound) :
    (Finset.univ.filter fun d => (reduce limit modulus (read d)).isSome).card = limit := by
  rw [h.card_filter fun x => (reduce limit modulus x).isSome = true]
  refine Eq.trans (congrArg Finset.card ?_) (Finset.card_range limit)
  ext x
  simp only [Finset.mem_filter, Finset.mem_range, reduce_isSome]
  exact ⟨fun hx => hx.2, fun hx => ⟨Nat.lt_of_lt_of_le hx hle, hx⟩⟩

end

/-- The largest multiple of the modulus up to some number. -/
theorem sub_mod_eq_mul_div (top modulus : Nat) : top - top % modulus = modulus * (top / modulus) := by
  have hsplit := Nat.mod_add_div top modulus
  omega

/-- It is more than half of the number. -/
theorem lt_two_mul_limit {top : Nat} (hpos : 0 < modulus) (hle : modulus ≤ top) :
    top < 2 * (top - top % modulus) := by
  have hmod : top % modulus < modulus := Nat.mod_lt top hpos
  have hfull : modulus ≤ top - top % modulus := by
    rw [sub_mod_eq_mul_div]
    exact Nat.le_mul_of_pos_right modulus (Nat.div_pos hle hpos)
  omega

/-- It is half of the next number only where the modulus is. -/
theorem two_mul_limit_eq_iff {top : Nat} (hpos : 0 < modulus) (hle : modulus ≤ top) :
    2 * (top - top % modulus) = top + 1 ↔ 2 * modulus = top + 1 := by
  have hmod : top % modulus < modulus := Nat.mod_lt top hpos
  constructor
  · intro hhalf
    have hfull : modulus ≤ top - top % modulus := by
      rw [sub_mod_eq_mul_div]
      exact Nat.le_mul_of_pos_right modulus (Nat.div_pos hle hpos)
    omega
  · intro hhalf
    have htop : top % modulus = top - modulus := by
      rw [Nat.mod_eq_sub_mod hle, Nat.mod_eq_of_lt (by omega)]
    omega

end HermesNode.Rejection
