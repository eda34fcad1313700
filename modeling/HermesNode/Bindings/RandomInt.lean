/-
Module: HermesNode.Bindings.RandomInt
Purpose: The integers `randomInt` draws. A draw of 48 bits is accepted below the largest multiple of the
  range up to 2^48 - 1, so that every integer of the range is the image of equally many draws. More
  than half of all draws are accepted, save for the range of 2^47, which leaves out one half.
Trusted boundary: human-reviewed spec (transcribed from `libjs/shims/crypto.js` and
  `libjs-node/internal/buffer.js`); what `randomFillSync` writes is a parameter
Main exports: readUInt48BE, attempt, randomInt_uniform
-/
import HermesNode.Bindings.Crypto
import HermesNode.Lib.Rejection
import Mathlib.Data.Fintype.BigOperators
import Mathlib.Data.FinEnum

namespace HermesNode.Bindings

open Rejection

/-! ### The arguments -/

/-- An argument of `randomInt`: a Number without a fraction, or a value that is no safe integer. -/
inductive IntArgument where
  | undefined
  | function
  | integer (n : Int)
  | other (truthy : Bool)
deriving Repr, DecidableEq

def IntArgument.truthy : IntArgument → Bool
  | .undefined => false
  | .function => true
  | .integer n => n ≠ 0
  | .other truthy => truthy

/-- `Number.isSafeInteger`. -/
def IntArgument.safeInteger : IntArgument → Option Int
  | .integer n => if -(2 ^ 53 - 1) ≤ n ∧ n ≤ 2 ^ 53 - 1 then some n else none
  | _ => none

/-! ### The draws -/

/-- What `randomFillSync` writes over the six bytes. -/
abbrev Draw := Fin 6 → UInt8

def readUInt48BE (buf : Draw) : Nat :=
  ((buf 0).toNat * 2 ^ 8 + (buf 1).toNat) * 2 ^ 32 + (buf 2).toNat * 2 ^ 24 +
    (buf 3).toNat * 2 ^ 16 + (buf 4).toNat * 2 ^ 8 + (buf 5).toNat

def RAND_MAX : Nat := 0xFFFFFFFFFFFF

def randLimit (range : Nat) : Nat := RAND_MAX - RAND_MAX % range

/-- One turn of the loop, `none` where the draw is rejected. -/
def attempt (min : Int) (range : Nat) (buf : Draw) : Option Int :=
  let x := readUInt48BE buf
  if x < randLimit range then some ((x % range : Nat) + min) else none

/-- The loop around such a turn, `none` where it is still drawing at the end of the draws. -/
def drawLoop (turn : Draw → Option Int) : List Draw → Option Int
  | [] => none
  | buf :: draws =>
      match turn buf with
      | some n => some n
      | none => drawLoop turn draws

/-- How the integer is handed out. -/
inductive Delivery where
  | returned (n : Int)
  | nextTick (n : Int)
deriving Repr, DecidableEq

def deliver (callback : IntArgument) (n : Int) : Delivery :=
  if callback.truthy then .nextTick n else .returned n

/-- `randomInt(max)`, `randomInt(max, cb)`, `randomInt(min, max)`, `randomInt(min, max, cb)`. -/
def randomInt (draws : List Draw) (min max callback : IntArgument) :
    Except CryptoError (Option Delivery) :=
  let (min, max, callback) :=
    if max = .undefined ∨ max = .function then (IntArgument.integer 0, min, max)
    else (min, max, callback)
  match min.safeInteger with
  | none => .error ⟨.typeError, none, "min must be a safe integer"⟩
  | some min =>
      match max.safeInteger with
      | none => .error ⟨.typeError, none, "max must be a safe integer"⟩
      | some max =>
          if max ≤ min then .error ⟨.rangeError, none, "max must be greater than min"⟩
          else if max - min > 0xFFFFFFFFFFFF then
            .error ⟨.rangeError, none, "max - min must be <= 2^48 - 1"⟩
          else .ok ((drawLoop (attempt min (max - min).toNat) draws).map (deliver callback))

/-! ### Every number of 48 bits is one draw -/

theorem readUInt48BE_injective : Function.Injective readUInt48BE := by
  intro a b hab
  have h0 := (a 0).toNat_lt
  have h1 := (a 1).toNat_lt
  have h2 := (a 2).toNat_lt
  have h3 := (a 3).toNat_lt
  have h4 := (a 4).toNat_lt
  have h5 := (a 5).toNat_lt
  have g0 := (b 0).toNat_lt
  have g1 := (b 1).toNat_lt
  have g2 := (b 2).toNat_lt
  have g3 := (b 3).toNat_lt
  have g4 := (b 4).toNat_lt
  have g5 := (b 5).toNat_lt
  simp only [readUInt48BE] at hab
  funext i
  apply UInt8.toNat_inj.mp
  match i with
  | 0 => omega
  | 1 => omega
  | 2 => omega
  | 3 => omega
  | 4 => omega
  | 5 => omega

theorem readUInt48BE_lt (buf : Draw) : readUInt48BE buf < 2 ^ 48 := by
  have h0 := (buf 0).toNat_lt
  have h1 := (buf 1).toNat_lt
  have h2 := (buf 2).toNat_lt
  have h3 := (buf 3).toNat_lt
  have h4 := (buf 4).toNat_lt
  have h5 := (buf 5).toNat_lt
  simp only [readUInt48BE]
  omega

/-- The bytes of a number, the highest first. -/
def bytesOf (x : Nat) : Draw := fun i => UInt8.ofNat (x / 256 ^ (5 - i.val))

theorem readUInt48BE_bytesOf {x : Nat} (hx : x < 2 ^ 48) : readUInt48BE (bytesOf x) = x := by
  simp [readUInt48BE, bytesOf]
  omega

theorem readUInt48BE_enumerates : Enumerates readUInt48BE (2 ^ 48) where
  injective := readUInt48BE_injective
  lt := readUInt48BE_lt
  surjective x hx := ⟨bytesOf x, readUInt48BE_bytesOf hx⟩

theorem card_draw : Fintype.card Draw = 2 ^ 48 := readUInt48BE_enumerates.card

/-! ### What the loop draws -/

variable {min max : Int} {range : Nat}

theorem attempt_eq_reduce (buf : Draw) :
    attempt min range buf =
      (reduce (randLimit range) range (readUInt48BE buf)).map fun i : Nat => (i : Int) + min := by
  simp only [attempt, reduce]
  by_cases hlt : readUInt48BE buf < randLimit range
  · simp only [if_pos hlt, Option.map_some]
  · simp only [if_neg hlt, Option.map_none]

theorem attempt_eq_some_iff {buf : Draw} {n : Int} :
    attempt min range buf = some n ↔
      ∃ i, reduce (randLimit range) range (readUInt48BE buf) = some i ∧ (i : Int) + min = n := by
  rw [attempt_eq_reduce, Option.map_eq_some_iff]

/-- An accepted draw stands for an integer from `min` on and below `max`. -/
theorem attempt_mem {buf : Draw} {n : Int} (hpos : 0 < range) (h : attempt min range buf = some n) :
    min ≤ n ∧ n < min + range := by
  rcases attempt_eq_some_iff.mp h with ⟨i, hi, rfl⟩
  have hmod := (reduce_eq_some_iff.mp hi).2
  have hlt : i < range := hmod ▸ Nat.mod_lt _ hpos
  omega

theorem randLimit_eq_mul (range : Nat) : randLimit range = range * (RAND_MAX / range) := by
  rw [randLimit, sub_mod_eq_mul_div]

theorem randLimit_le (range : Nat) : randLimit range ≤ 2 ^ 48 := by
  have h : randLimit range ≤ RAND_MAX := by
    rw [randLimit]
    exact Nat.sub_le _ _
  exact Nat.le_trans h (by decide)

/-- Every integer of the range is the image of equally many draws. -/
theorem card_attempt {n : Int} (hlow : min ≤ n) (hhigh : n < min + range) :
    (Finset.univ.filter fun buf => attempt min range buf = some n).card = RAND_MAX / range := by
  have hlimit : range * (RAND_MAX / range) ≤ 2 ^ 48 := randLimit_eq_mul range ▸ randLimit_le range
  have hcard := card_reduce readUInt48BE_enumerates hlimit (i := (n - min).toNat) (by omega)
  rw [← hcard]
  refine congrArg Finset.card (Finset.filter_congr ?_)
  intro buf _
  rw [attempt_eq_some_iff, randLimit_eq_mul]
  constructor
  · rintro ⟨i, hi, hn⟩
    have hvalue : (n - min).toNat = i := by omega
    rw [hvalue]
    exact hi
  · intro hi
    exact ⟨(n - min).toNat, hi, by omega⟩

/-- The draws the loop accepts. -/
def accepted (min : Int) (range : Nat) : Finset Draw :=
  Finset.univ.filter fun buf => (attempt min range buf).isSome

theorem card_accepted_draws : (accepted min range).card = randLimit range := by
  have hcard : (Finset.univ.filter fun buf =>
      (reduce (randLimit range) range (readUInt48BE buf)).isSome).card = randLimit range :=
    card_accepted readUInt48BE_enumerates (randLimit_le range)
  rw [← hcard]
  refine congrArg Finset.card (Finset.filter_congr ?_)
  intro buf _
  rw [attempt_eq_reduce, Option.isSome_map]

/-- The loop ends with the first draw that is accepted. -/
theorem drawLoop_eq_findSome? (turn : Draw → Option Int) (draws : List Draw) :
    drawLoop turn draws = draws.findSome? turn := by
  induction draws with
  | nil => rfl
  | cons buf draws ih =>
      simp only [drawLoop, List.findSome?_cons]
      cases turn buf with
      | some n => rfl
      | none => exact ih

/-- On safe integers in order, and no farther apart than a draw can tell, the loop is reached. -/
theorem randomInt_integers {callback : IntArgument} {draws : List Draw}
    (hmin : (IntArgument.integer min).safeInteger = some min)
    (hmax : (IntArgument.integer max).safeInteger = some max)
    (hlt : min < max) (hrange : max - min ≤ 2 ^ 48 - 1) :
    randomInt draws (.integer min) (.integer max) callback =
      .ok ((drawLoop (attempt min (max - min).toNat) draws).map (deliver callback)) := by
  have hkeep : ¬(IntArgument.integer max = .undefined ∨ IntArgument.integer max = .function) := by
    simp
  have horder : ¬ max ≤ min := by omega
  have hfit : ¬ max - min > 0xFFFFFFFFFFFF := by omega
  simp only [randomInt, if_neg hkeep, hmin, hmax, if_neg horder, if_neg hfit]

/-- `randomInt` is uniform: every integer of the range comes from the same positive number of draws,
nothing else is produced, and at least half of the draws are accepted, which is exactly half for the
range of 2^47 only. -/
theorem randomInt_uniform
    (hmin : (IntArgument.integer min).safeInteger = some min)
    (hmax : (IntArgument.integer max).safeInteger = some max)
    (hlt : min < max) (hrange : max - min ≤ 2 ^ 48 - 1) :
    (∃ k, 0 < k ∧ ∀ n, min ≤ n → n < max →
      (Finset.univ.filter fun buf => attempt min (max - min).toNat buf = some n).card = k) ∧
    (∀ buf n, attempt min (max - min).toNat buf = some n → min ≤ n ∧ n < max) ∧
    (∀ draws callback, randomInt draws (.integer min) (.integer max) callback =
      .ok ((draws.findSome? (attempt min (max - min).toNat)).map (deliver callback))) ∧
    Fintype.card Draw = 2 ^ 48 ∧
    Fintype.card Draw ≤ 2 * (accepted min (max - min).toNat).card ∧
    (2 * (accepted min (max - min).toNat).card = Fintype.card Draw ↔ max - min = 2 ^ 47) := by
  have hpos : 0 < (max - min).toNat := by omega
  have hfit : (max - min).toNat ≤ RAND_MAX := by
    have htop : RAND_MAX = 2 ^ 48 - 1 := rfl
    omega
  refine ⟨⟨RAND_MAX / (max - min).toNat, Nat.div_pos hfit hpos, ?_⟩, ?_, ?_, card_draw, ?_, ?_⟩
  · intro n hlow hhigh
    exact card_attempt hlow (by omega)
  · intro buf n h
    have hmem := attempt_mem hpos h
    omega
  · intro draws callback
    rw [randomInt_integers hmin hmax hlt hrange, drawLoop_eq_findSome?]
  · have hhalf : RAND_MAX < 2 * randLimit (max - min).toNat := by
      rw [randLimit]
      exact lt_two_mul_limit hpos hfit
    rw [card_draw, card_accepted_draws]
    exact hhalf
  · have hhalf : 2 * randLimit (max - min).toNat = RAND_MAX + 1 ↔ 2 * (max - min).toNat = RAND_MAX + 1 := by
      rw [randLimit]
      exact two_mul_limit_eq_iff hpos hfit
    rw [card_draw, card_accepted_draws]
    refine hhalf.trans ?_
    have htop : RAND_MAX = 2 ^ 48 - 1 := rfl
    omega

theorem randomInt_die : ∃ k, 0 < k ∧ ∀ n, 1 ≤ n → n < 7 →
    (Finset.univ.filter fun buf => attempt 1 6 buf = some n).card = k :=
  (@randomInt_uniform 1 7 (by decide) (by decide) (by decide) (by decide)).1

/-- Of the draws for a range of 2^47, as many are rejected as accepted. -/
theorem randomInt_rejects_half :
    ¬ Fintype.card Draw < 2 * (accepted 0 ((2 : Int) ^ 47 - 0).toNat).card := by
  rw [card_draw, card_accepted_draws]
  decide

end HermesNode.Bindings
