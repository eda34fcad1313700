/-
Module: HermesNode.Lib.CString
Purpose: Two functions of the C library on strings. `strrchr` cuts a text at the last place a character
  stands at. `strtol` reads blanks, a sign and digits, ignores what follows them, and stops at the ends
  of its range.
Trusted boundary: human-reviewed spec (the C standard's, in base 10, with a `long` of 64 bits)
Main exports: CString.strrchr, CString.strtol, CString.Reading.strtol_eq, CString.exists_reading
-/
import HermesNode.Lib.Buffer
import Mathlib.Data.List.TakeWhile

namespace HermesNode.CString

/-! ### The last place of a character -/

/-- What stands before and behind the last `c`. -/
def strrchr (c : UInt8) : Bytes → Option (Bytes × Bytes)
  | [] => none
  | x :: rest =>
      match strrchr c rest with
      | some (before, behind) => some (x :: before, behind)
      | none => if x = c then some ([], rest) else none

theorem strrchr_eq_none_iff {c : UInt8} {text : Bytes} : strrchr c text = none ↔ c ∉ text := by
  induction text with
  | nil => simp [strrchr]
  | cons x rest ih =>
      cases hrest : strrchr c rest with
      | some cut =>
          have hin : c ∈ rest := by
            by_contra hnot
            rw [ih.mpr hnot] at hrest
            cases hrest
          simp [strrchr, hrest, hin]
      | none =>
          have hnot := ih.mp hrest
          by_cases hx : x = c
          · simp [strrchr, hrest, hx]
          · simp [strrchr, hrest, hx, hnot, Ne.symm hx]

theorem strrchr_append {c : UInt8} (before : Bytes) {behind : Bytes} (h : c ∉ behind) :
    strrchr c (before ++ c :: behind) = some (before, behind) := by
  induction before with
  | nil => simp [strrchr, strrchr_eq_none_iff.mpr h]
  | cons x before ih => simp [strrchr, ih]

theorem strrchr_eq_some_iff {c : UInt8} {text before behind : Bytes} :
    strrchr c text = some (before, behind) ↔ text = before ++ c :: behind ∧ c ∉ behind := by
  constructor
  · intro h
    induction text generalizing before with
    | nil => simp [strrchr] at h
    | cons x rest ih =>
        cases hrest : strrchr c rest with
        | some cut =>
            rcases cut with ⟨b, a⟩
            simp only [strrchr, hrest, Option.some.injEq, Prod.mk.injEq] at h
            rcases h with ⟨rfl, rfl⟩
            rcases ih hrest with ⟨rfl, hnot⟩
            exact ⟨rfl, hnot⟩
        | none =>
            simp only [strrchr, hrest] at h
            split at h
            · rename_i hx
              simp only [Option.some.injEq, Prod.mk.injEq] at h
              rcases h with ⟨rfl, rfl⟩
              exact ⟨by rw [hx]; rfl, strrchr_eq_none_iff.mp hrest⟩
            · cases h
  · rintro ⟨rfl, hnot⟩
    exact strrchr_append before hnot

/-! ### Numbers -/

/-- `isspace`. -/
def isSpace (c : UInt8) : Bool := c == 32 || (9 ≤ c && c ≤ 13)

def isDigit (c : UInt8) : Bool := 48 ≤ c && c ≤ 57

/-- The number digits stand for. -/
def decimalValue (digits : Bytes) : Nat := digits.foldl (fun n c => n * 10 + (c.toNat - 48)) 0

def LONG_MAX : Int := 2 ^ 63 - 1

def LONG_MIN : Int := -(2 ^ 63)

/-- A number beyond the range is the end of it. -/
def saturate (n : Int) : Int := max LONG_MIN (min LONG_MAX n)

/-- The sign that may stand at the front, and what follows it. -/
def takeSign : Bytes → Bool × Bytes
  | 45 :: rest => (true, rest)
  | 43 :: rest => (false, rest)
  | rest => (false, rest)

/-- `strtol(text, nullptr, 10)`. -/
def strtol (text : Bytes) : Int :=
  let (negative, rest) := takeSign (text.dropWhile isSpace)
  let n : Int := decimalValue (rest.takeWhile isDigit)
  saturate (if negative then -n else n)

/-- A text is digits only, and their number is `n`. -/
def IsDecimal (text : Bytes) (n : Nat) : Prop :=
  text ≠ [] ∧ (∀ c ∈ text, isDigit c = true) ∧ decimalValue text = n

/-- A text starts with a number: blanks, a sign and digits. What follows them is no digit. -/
structure Reading (text : Bytes) (negative : Bool) (n : Nat) where
  blanks : Bytes
  sign : Bytes
  digits : Bytes
  rest : Bytes
  split : text = blanks ++ (sign ++ (digits ++ rest))
  blanks_space : ∀ c ∈ blanks, isSpace c = true
  sign_eq : if negative then sign = [45] else sign = [] ∨ sign = [43]
  decimal : IsDecimal digits n
  rest_head : ∀ c ∈ rest.head?, isDigit c = false

theorem isSpace_of_isDigit {c : UInt8} (h : isDigit c = true) : isSpace c = false := by
  simp only [isDigit, Bool.and_eq_true, decide_eq_true_eq] at h
  simp only [isSpace, Bool.or_eq_false_iff, beq_eq_false_iff_ne, Bool.and_eq_false_iff,
    decide_eq_false_iff_not]
  refine ⟨?_, Or.inr ?_⟩
  · rintro rfl
    exact absurd h.1 (by decide)
  · intro hle
    exact absurd (UInt8.le_trans h.1 hle) (by decide)

theorem takeSign_digits {c : UInt8} {rest : Bytes} (h : isDigit c = true) :
    takeSign (c :: rest) = (false, c :: rest) := by
  unfold takeSign
  split
  · rename_i heq
    simp only [List.cons.injEq] at heq
    rw [heq.1] at h
    exact absurd h (by decide)
  · rename_i heq
    simp only [List.cons.injEq] at heq
    rw [heq.1] at h
    exact absurd h (by decide)
  · rfl

variable {text : Bytes} {negative : Bool} {n : Nat}

theorem Reading.strtol_eq (h : Reading text negative n) :
    strtol text = saturate (if negative then -(n : Int) else n) := by
  rcases h with ⟨blanks, sign, digits, rest, rfl, hblanks, hsign, ⟨hne, hdigits, rfl⟩, hrest⟩
  cases digits with
  | nil => exact absurd rfl hne
  | cons d digits =>
      have hd : isDigit d = true := hdigits d List.mem_cons_self
      have hrun : ((d :: digits) ++ rest).takeWhile isDigit = d :: digits := by
        rw [List.takeWhile_append_of_pos hdigits]
        cases rest with
        | nil => simp
        | cons c rest => simp [hrest c rfl]
      have hfront : (sign ++ ((d :: digits) ++ rest)).dropWhile isSpace =
          sign ++ ((d :: digits) ++ rest) := by
        cases negative with
        | true =>
            subst hsign
            rfl
        | false =>
            rcases hsign with rfl | rfl
            · simp [isSpace_of_isDigit hd]
            · rfl
      have hsigned : takeSign (sign ++ ((d :: digits) ++ rest)) = (negative, (d :: digits) ++ rest) := by
        cases negative with
        | true =>
            subst hsign
            rfl
        | false =>
            rcases hsign with rfl | rfl
            · exact takeSign_digits hd
            · rfl
      simp only [strtol, List.dropWhile_append_of_pos hblanks, hfront, hsigned, hrun]

theorem takeSign_split {tail rest : Bytes} (h : takeSign tail = (negative, rest)) :
    ∃ sign, tail = sign ++ rest ∧
      if negative then sign = [45] else sign = [] ∨ sign = [43] := by
  unfold takeSign at h
  split at h
  · cases h
    exact ⟨[45], rfl, rfl⟩
  · cases h
    exact ⟨[43], rfl, Or.inr rfl⟩
  · cases h
    exact ⟨[], rfl, Or.inl rfl⟩

theorem exists_reading (h : strtol text ≠ 0) : ∃ negative n, Nonempty (Reading text negative n) := by
  cases hsigned : takeSign (text.dropWhile isSpace) with
  | mk negative tail =>
      rcases takeSign_split hsigned with ⟨sign, hsplit, hsign⟩
      have hne : tail.takeWhile isDigit ≠ [] := by
        intro hempty
        apply h
        simp only [strtol, hsigned, hempty]
        cases negative <;> rfl
      refine ⟨negative, _, ⟨{
        blanks := text.takeWhile isSpace
        sign := sign
        digits := tail.takeWhile isDigit
        rest := tail.dropWhile isDigit
        split := ?_
        blanks_space := fun c hc => List.mem_takeWhile_imp hc
        sign_eq := hsign
        decimal := ⟨hne, fun c hc => List.mem_takeWhile_imp hc, rfl⟩
        rest_head := ?_ }⟩⟩
      · rw [List.takeWhile_append_dropWhile, ← hsplit, List.takeWhile_append_dropWhile]
      · intro c hc
        have hnot := List.head?_dropWhile_not isDigit tail
        rw [Option.mem_def] at hc
        simpa [hc] using hnot

/-- Digits read as their number, as far as that is in range. -/
theorem strtol_of_isDecimal (h : IsDecimal text n) : strtol text = saturate n := by
  have hreading : Reading text false n := {
    blanks := []
    sign := []
    digits := text
    rest := []
    split := by simp
    blanks_space := by simp
    sign_eq := Or.inl rfl
    decimal := h
    rest_head := by simp }
  exact hreading.strtol_eq

/-- The end of the range lies beyond every smaller bound. -/
theorem saturate_lt_iff {m k : Int} (hlow : LONG_MIN < k) (hhigh : k ≤ LONG_MAX) :
    saturate m < k ↔ m < k := by
  simp only [saturate, LONG_MIN, LONG_MAX] at *
  omega

theorem le_saturate_iff {m k : Int} (hlow : LONG_MIN < k) (hhigh : k ≤ LONG_MAX) :
    k ≤ saturate m ↔ k ≤ m := by
  simp only [saturate, LONG_MIN, LONG_MAX] at *
  omega

end HermesNode.CString
