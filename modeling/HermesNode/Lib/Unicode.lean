/-
Module: HermesNode.Lib.Unicode
Purpose: JavaScript strings as UTF-16 code units, and UTF-8 decoding into them the way the Encoding
  standard does it: a byte that cannot continue the sequence it stands in ends it with one U+FFFD and
  starts anew. Decoding a text in two parts gives the same string when the second part starts with a
  byte that continues nothing, or when nothing is pending after the first.
Trusted boundary: human-reviewed spec (UTF-8 decoder with maximal-subpart replacement)
Main exports: JsString, utf16Of, decodeUtf8_append_settled, settled_tails
-/
import HermesNode.Lib.Text

namespace HermesNode

/-- A JavaScript string: its UTF-16 code units. -/
abbrev JsString := List UInt16

/-- The code units of a code point. -/
def utf16Of (codePoint : Nat) : JsString :=
  if codePoint < 0x10000 then [UInt16.ofNat codePoint]
  else
    [UInt16.ofNat (0xD800 + (codePoint - 0x10000) / 0x400),
      UInt16.ofNat (0xDC00 + (codePoint - 0x10000) % 0x400)]

/-- The replacement character. -/
def replacement : UInt16 := 0xFFFD

/-- A sequence that lacks bytes, with the range of the next one. -/
structure Pending where
  needed : Nat
  lower : Nat
  upper : Nat
  codePoint : Nat
  needed_pos : 0 < needed
  needed_le : needed ≤ 3
  lower_ge : 0x80 ≤ lower
  upper_le : upper ≤ 0xBF

/-- A byte where no sequence is pending. -/
def utf8Start (b : UInt8) : Option Pending × JsString :=
  let n := b.toNat
  if n < 0x80 then (none, [UInt16.ofNat n])
  else if 0xC2 ≤ n ∧ n ≤ 0xDF then
    (some ⟨1, 0x80, 0xBF, n % 32, by decide, by decide, by decide, by decide⟩, [])
  else if n = 0xE0 then (some ⟨2, 0xA0, 0xBF, 0, by decide, by decide, by decide, by decide⟩, [])
  else if n = 0xED then (some ⟨2, 0x80, 0x9F, 13, by decide, by decide, by decide, by decide⟩, [])
  else if 0xE1 ≤ n ∧ n ≤ 0xEF then
    (some ⟨2, 0x80, 0xBF, n % 16, by decide, by decide, by decide, by decide⟩, [])
  else if n = 0xF0 then (some ⟨3, 0x90, 0xBF, 0, by decide, by decide, by decide, by decide⟩, [])
  else if n = 0xF4 then (some ⟨3, 0x80, 0x8F, 4, by decide, by decide, by decide, by decide⟩, [])
  else if 0xF1 ≤ n ∧ n ≤ 0xF3 then
    (some ⟨3, 0x80, 0xBF, n % 8, by decide, by decide, by decide, by decide⟩, [])
  else (none, [replacement])

/-- A byte behind a pending sequence continues it, or replaces it and starts anew. -/
def utf8Step (s : Option Pending) (b : UInt8) : Option Pending × JsString :=
  match s with
  | none => utf8Start b
  | some p =>
      if p.lower ≤ b.toNat ∧ b.toNat ≤ p.upper then
        let codePoint := p.codePoint * 64 + b.toNat % 64
        if h : 1 < p.needed then
          (some ⟨p.needed - 1, 0x80, 0xBF, codePoint, Nat.sub_pos_of_lt h,
            Nat.le_trans (Nat.sub_le _ _) p.needed_le, by decide, by decide⟩, [])
        else (none, utf16Of codePoint)
      else ((utf8Start b).1, replacement :: (utf8Start b).2)

/-- The string of some bytes behind a pending sequence, and what is pending after them. -/
def utf8Run (s : Option Pending) : Bytes → Option Pending × JsString
  | [] => (s, [])
  | b :: bs =>
      let next := utf8Step s b
      ((utf8Run next.1 bs).1, next.2 ++ (utf8Run next.1 bs).2)

/-- What is pending at the end is replaced. -/
def utf8Finish : Option Pending → JsString
  | none => []
  | some _ => [replacement]

/-- The string of some bytes. -/
def decodeUtf8 (bs : Bytes) : JsString :=
  (utf8Run none bs).2 ++ utf8Finish (utf8Run none bs).1

theorem utf8Run_append (s : Option Pending) (as bs : Bytes) :
    utf8Run s (as ++ bs) =
      ((utf8Run (utf8Run s as).1 bs).1, (utf8Run s as).2 ++ (utf8Run (utf8Run s as).1 bs).2) := by
  induction as generalizing s with
  | nil => rfl
  | cons a as ih => simp [utf8Run, ih]

/-- Nothing is pending after the bytes. -/
def Settled (bs : Bytes) : Prop := (utf8Run none bs).1 = none

theorem decodeUtf8_append_settled {as : Bytes} (h : Settled as) (bs : Bytes) :
    decodeUtf8 (as ++ bs) = decodeUtf8 as ++ decodeUtf8 bs := by
  unfold Settled at h
  simp [decodeUtf8, utf8Run_append, h, utf8Finish]

/-- A byte that continues nothing starts anew. -/
theorem utf8Step_lead (s : Option Pending) {b : UInt8} (h : isTail b = false) :
    utf8Step s b = ((utf8Start b).1, utf8Finish s ++ (utf8Start b).2) := by
  cases s with
  | none => rfl
  | some p =>
      have hout : ¬ (p.lower ≤ b.toNat ∧ b.toNat ≤ p.upper) := by
        intro hin
        have htail : isTail b = true := by
          simp only [isTail, Bool.and_eq_true, decide_eq_true_eq]
          exact ⟨Nat.le_trans p.lower_ge hin.1, Nat.le_trans hin.2 p.upper_le⟩
        rw [htail] at h
        cases h
      simp [utf8Step, hout, utf8Finish]

theorem decodeUtf8_append_lead (as : Bytes) {b : UInt8} (h : isTail b = false) (bs : Bytes) :
    decodeUtf8 (as ++ b :: bs) = decodeUtf8 as ++ decodeUtf8 (b :: bs) := by
  simp [decodeUtf8, utf8Run_append, utf8Run, utf8Step_lead _ h, utf8Finish]

/-! ### When nothing is pending -/

/-- How many bytes a pending sequence lacks. -/
def lacking : Option Pending → Nat
  | none => 0
  | some p => p.needed

theorem lacking_le (s : Option Pending) : lacking s ≤ 3 := by
  cases s with
  | none => decide
  | some p => exact p.needed_le

theorem utf8Start_tail {b : UInt8} (h : isTail b = true) : (utf8Start b).1 = none := by
  simp only [isTail, Bool.and_eq_true, decide_eq_true_eq] at h
  unfold utf8Start
  dsimp only
  have hlow : ¬ b.toNat < 0x80 := by omega
  have hhigh : ¬ (0xC2 ≤ b.toNat ∧ b.toNat ≤ 0xDF) := by omega
  rw [if_neg hlow, if_neg hhigh, if_neg (by omega), if_neg (by omega), if_neg (by omega),
    if_neg (by omega), if_neg (by omega), if_neg (by omega)]

/-- A continuation byte shortens what is lacking, or ends it. -/
theorem lacking_tail (s : Option Pending) {b : UInt8} (h : isTail b = true) :
    lacking (utf8Step s b).1 ≤ lacking s - 1 := by
  cases s with
  | none =>
      have hnone : (utf8Step none b).1 = none := utf8Start_tail h
      rw [hnone]
      exact Nat.le_refl _
  | some p =>
      unfold utf8Step
      dsimp only
      split
      · split
        · exact Nat.le_refl _
        · exact Nat.zero_le _
      · rw [utf8Start_tail h]
        exact Nat.zero_le _

theorem settled_run {s : Option Pending} {ts : Bytes} (hts : ∀ b ∈ ts, isTail b = true)
    (hlength : lacking s ≤ ts.length) : (utf8Run s ts).1 = none := by
  induction ts generalizing s with
  | nil =>
      cases s with
      | none => rfl
      | some p => exact absurd p.needed_pos (Nat.not_lt.mpr hlength)
  | cons b ts ih =>
      rw [utf8Run]
      apply ih (fun c hc => hts c (List.mem_cons_of_mem b hc))
      have hless := lacking_tail s (hts b List.mem_cons_self)
      rw [List.length_cons] at hlength
      omega

/-- Enough continuation bytes settle any text. -/
theorem settled_tails {as ts : Bytes} (hts : ∀ b ∈ ts, isTail b = true)
    (hlength : lacking (utf8Run none as).1 ≤ ts.length) : Settled (as ++ ts) := by
  unfold Settled
  rw [utf8Run_append]
  exact settled_run hts hlength

theorem lacking_lead (as : Bytes) {b : UInt8} (h : isTail b = false) :
    (utf8Run none (as ++ [b])).1 = (utf8Start b).1 := by
  rw [utf8Run_append]
  simp [utf8Run, utf8Step_lead _ h]

end HermesNode
