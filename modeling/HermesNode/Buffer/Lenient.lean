/-
Module: HermesNode.Buffer.Lenient
Purpose: Base64 the way Node's Buffer reads it, beside the decoder of the binding. Node takes digits of
  both alphabets up to the first `=` and skips everything else; the binding fails on a whole string for
  one such character, knows one alphabet at a time, and reads the low bytes of the code units. Where it
  accepts a string the digits it reads are Node's and those of code units that are no bytes.
Trusted boundary: human-reviewed spec (the lenient decoder of Node's Buffer)
Main exports: lenientDigits, lenientDecode, decodesLeniently_iff
-/
import Mathlib.Data.List.TakeWhile
import HermesNode.Buffer.Codecs

namespace HermesNode.Buffer

open Fs (EncodingOps)
open StringDecoder (Encoding)
open Streams (latin1Bytes)

/-! ### Node's decoder -/

/-- The digit of a character, in either alphabet. -/
def lenientValue (c : UInt16) : Option Nat :=
  let n := c.toNat
  if 65 ≤ n ∧ n ≤ 90 then some (n - 65)
  else if 97 ≤ n ∧ n ≤ 122 then some (n - 71)
  else if 48 ≤ n ∧ n ≤ 57 then some (n + 4)
  else if n = 43 ∨ n = 45 then some 62
  else if n = 47 ∨ n = 95 then some 63
  else none

/-- The digits in front of the first `=`. -/
def lenientDigits (s : JsString) : List Nat := (s.takeWhile (· != 61)).filterMap lenientValue

def lenientDecode (s : JsString) : Bytes := bytesOfDigits (lenientDigits s)

/-! ### The binding's -/

/-- `BASE64` or `BASE64URL`. -/
def base64Encoding (url : Bool) : Encoding := if url then .base64url else .base64

/-- `base64Write` or `base64urlWrite`. -/
def base64Ops (url : Bool) : EncodingOps := if url then .base64url else .base64

/-- The code units in front of the padding and the spaces at the end, which go by their low bytes. -/
def bodyUnits (s : JsString) : JsString := s.take (stripPadding (latin1Bytes s)).1.length

/-- The digits that the binding reads. -/
def lowDigits (url : Bool) (s : JsString) : List Nat :=
  digits url (stripPadding (latin1Bytes s)).1

/-- The code units that are no bytes but have a digit for their low byte. -/
def wideDigits (url : Bool) (s : JsString) : JsString :=
  (bodyUnits s).filter fun c => 0x100 ≤ c.toNat && toBase64Value url c.toUInt8 ≤ 63

inductive Use where
  | write
  | search
  | fill
deriving Repr, DecidableEq

/-- The bytes that are written, searched for or filled with are those of Node's decoder. -/
def DecodesLeniently (url : Bool) (s : JsString) : Use → Prop
  | .write => ∀ maxLength, (base64Ops url).write simdutfBase64 s maxLength =
      (lenientDecode s).take maxLength
  | .search => needleBytes s (base64Encoding url) = lenientDecode s
  | .fill => pattern (.string s) (base64Encoding url) = lenientDecode s

/-- When they are. For a string the binding accepts, no code unit beyond a byte may pass for a digit,
except for one that adds a single digit behind whole groups, as no byte comes of it; a fill takes no
such remainder. For any other string, Node must find less than a byte of digits. -/
def Agrees (url : Bool) (s : JsString) : Use → Prop
  | .write | .search =>
      if Accepted url (latin1Bytes s) then
        wideDigits url s = [] ∨ (lenientDigits s).length % 4 = 0 ∧
          ∃ x, lowDigits url s = lenientDigits s ++ [x]
      else (lenientDigits s).length ≤ 1
  | .fill =>
      if Accepted url (latin1Bytes s) ∧ (lowDigits url s).length % 4 ≠ 1 then wideDigits url s = []
      else (lenientDigits s).length ≤ 1

/-! ### Body and padding -/

theorem trimSpaces_split (input : Bytes) :
    ∃ spaces, input = trimSpaces input ++ spaces ∧ ∀ c ∈ spaces, isAsciiWhiteSpace c = true := by
  refine ⟨(input.reverse.takeWhile isAsciiWhiteSpace).reverse, ?_, ?_⟩
  · unfold trimSpaces
    rw [← List.reverse_append, List.takeWhile_append_dropWhile, List.reverse_reverse]
  · intro c hc
    exact List.mem_takeWhile_imp (List.mem_reverse.mp hc)

theorem stripPadding_split (input : Bytes) :
    ∃ behind, input = (stripPadding input).1 ++ behind ∧
      ∀ c ∈ behind, isAsciiWhiteSpace c = true ∨ c = 0x3D := by
  obtain ⟨spaces, hsplit, hspaces⟩ := trimSpaces_split input
  have hlast : ∀ {bs : Bytes}, bs.getLast? = some 0x3D → bs = bs.dropLast ++ [0x3D] := by
    intro bs h
    rw [List.dropLast_append_getLast? 0x3D h]
  unfold stripPadding
  simp only
  split
  · rename_i hone
    obtain ⟨spaces', hsplit', hspaces'⟩ := trimSpaces_split (trimSpaces input).dropLast
    split
    · rename_i htwo
      refine ⟨0x3D :: (spaces' ++ 0x3D :: spaces), ?_, ?_⟩
      · conv_lhs => rw [hsplit, hlast hone, hsplit', hlast htwo]
        simp
      · intro c hc
        simp only [List.mem_cons, List.mem_append] at hc
        obtain rfl | hc | rfl | hc := hc
        · exact Or.inr rfl
        · exact Or.inl (hspaces' c hc)
        · exact Or.inr rfl
        · exact Or.inl (hspaces c hc)
    · refine ⟨spaces' ++ 0x3D :: spaces, ?_, ?_⟩
      · conv_lhs => rw [hsplit, hlast hone, hsplit']
        simp
      · intro c hc
        simp only [List.mem_cons, List.mem_append] at hc
        obtain hc | rfl | hc := hc
        · exact Or.inl (hspaces' c hc)
        · exact Or.inr rfl
        · exact Or.inl (hspaces c hc)
  · exact ⟨spaces, hsplit, fun c hc => Or.inl (hspaces c hc)⟩

/-! ### Digits of code units -/

/-- The digit of the low byte of a code unit. -/
def lowValue (url : Bool) (c : UInt16) : Option Nat :=
  if toBase64Value url c.toUInt8 ≤ 63 then some (toBase64Value url c.toUInt8) else none

theorem bodyUnits_split (s : JsString) :
    ∃ behind, s = bodyUnits s ++ behind ∧
      latin1Bytes (bodyUnits s) = (stripPadding (latin1Bytes s)).1 ∧
      ∀ c ∈ behind, isAsciiWhiteSpace c.toUInt8 = true ∨ c.toUInt8 = 0x3D := by
  obtain ⟨behind, hsplit, hbehind⟩ := stripPadding_split (latin1Bytes s)
  refine ⟨s.drop (stripPadding (latin1Bytes s)).1.length, (List.take_append_drop _ _).symm, ?_, ?_⟩
  · unfold bodyUnits
    conv_rhs => rw [← @List.take_left _ (stripPadding (latin1Bytes s)).1 behind, ← hsplit]
    exact List.map_take
  · intro c hc
    have hdrop : latin1Bytes (s.drop (stripPadding (latin1Bytes s)).1.length) = behind := by
      conv_rhs => rw [← @List.drop_left _ (stripPadding (latin1Bytes s)).1 behind, ← hsplit]
      exact List.map_drop
    apply hbehind
    rw [← hdrop]
    exact List.mem_map_of_mem hc

theorem lowDigits_eq (url : Bool) (s : JsString) :
    lowDigits url s = (bodyUnits s).filterMap (lowValue url) := by
  obtain ⟨_, _, hbody, _⟩ := bodyUnits_split s
  unfold lowDigits
  rw [← hbody]
  generalize bodyUnits s = units
  induction units with
  | nil => rfl
  | cons c units ih =>
      rw [latin1Bytes, List.map_cons, digits_cons, List.filterMap_cons, lowValue]
      change _ = _ at ih
      split
      · rw [← ih]
        rfl
      · exact ih

/-- A byte that is a digit of one alphabet, or a space, is the same to Node. -/
theorem lenientValue_byte {url : Bool} {c : UInt16} (hc : c.toNat < 0x100)
    (h : toBase64Value url c.toUInt8 ≤ 64) : lenientValue c = lowValue url c := by
  have hall : ∀ url, ∀ n : Fin 256, toBase64Value url (UInt16.ofNat n).toUInt8 ≤ 64 →
      lenientValue (UInt16.ofNat n) = lowValue url (UInt16.ofNat n) := by
    decide +kernel
  have hn := hall url ⟨c.toNat, hc⟩
  simp only [UInt16.ofNat_toNat] at hn
  exact hn h

theorem lenientValue_wide {c : UInt16} (hc : 0x100 ≤ c.toNat) : lenientValue c = none := by
  unfold lenientValue
  simp only
  rw [if_neg (by omega), if_neg (by omega), if_neg (by omega), if_neg (by omega),
    if_neg (by omega)]

/-- Spaces and padding are no digits. -/
theorem lenientValue_behind {c : UInt16}
    (h : isAsciiWhiteSpace c.toUInt8 = true ∨ c.toUInt8 = 0x3D) : lenientValue c = none := by
  by_cases hc : c.toNat < 0x100
  · have hall : ∀ n : Fin 256, (isAsciiWhiteSpace (UInt16.ofNat n).toUInt8 = true ∨
        (UInt16.ofNat n).toUInt8 = 0x3D) → lenientValue (UInt16.ofNat n) = none := by
      decide +kernel
    have hn := hall ⟨c.toNat, hc⟩
    simp only [UInt16.ofNat_toNat] at hn
    exact hn h
  · exact lenientValue_wide (by omega)

/-- The code units of the body of a string that the binding accepts. -/
theorem Accepted.unit {url : Bool} {s : JsString} (h : Accepted url (latin1Bytes s)) {c : UInt16}
    (hc : c ∈ bodyUnits s) : toBase64Value url c.toUInt8 ≤ 64 := by
  obtain ⟨_, _, hbody, _⟩ := bodyUnits_split s
  apply h.symbols
  rw [← hbody]
  exact List.mem_map_of_mem hc

/-- Of a string that the binding accepts, Node reads the digits of the body that are bytes. -/
theorem lenientDigits_body {url : Bool} {s : JsString} (h : Accepted url (latin1Bytes s)) :
    lenientDigits s = (bodyUnits s).filterMap lenientValue := by
  obtain ⟨behind, hsplit, _, hbehind⟩ := bodyUnits_split s
  have hpadding : ∀ url, ¬ toBase64Value url (61 : UInt16).toUInt8 ≤ 64 := by decide
  have hbody : ∀ c ∈ bodyUnits s, (c != 61) = true := by
    intro c hc
    rw [bne_iff_ne]
    rintro rfl
    exact hpadding url (h.unit hc)
  have hnone : (behind.takeWhile (· != 61)).filterMap lenientValue = [] := by
    rw [List.filterMap_eq_nil_iff]
    intro c hc
    exact lenientValue_behind (hbehind c ((List.takeWhile_sublist _).subset hc))
  unfold lenientDigits
  conv_lhs => rw [hsplit]
  rw [List.takeWhile_append_of_pos hbody, List.filterMap_append, hnone, List.append_nil]

/-- The digits that the binding reads and Node does not are those of wide code units. -/
theorem wide_digits {url : Bool} {units : JsString}
    (h : ∀ c ∈ units, toBase64Value url c.toUInt8 ≤ 64) :
    List.Sublist (units.filterMap lenientValue) (units.filterMap (lowValue url)) ∧
      (units.filterMap (lowValue url)).length = (units.filterMap lenientValue).length +
        (units.filter fun c => 0x100 ≤ c.toNat && toBase64Value url c.toUInt8 ≤ 63).length := by
  induction units with
  | nil => exact ⟨List.Sublist.refl _, rfl⟩
  | cons c units ih =>
      obtain ⟨hsub, hlength⟩ := ih fun d hd => h d (List.mem_cons_of_mem _ hd)
      have hc := h c List.mem_cons_self
      rw [List.filterMap_cons, List.filterMap_cons, List.filter_cons]
      by_cases hwide : 0x100 ≤ c.toNat
      · rw [lenientValue_wide hwide]
        by_cases hdigit : toBase64Value url c.toUInt8 ≤ 63
        · rw [lowValue, if_pos hdigit, if_pos (by simp [hwide, hdigit])]
          simp only [List.length_cons]
          exact ⟨hsub.cons _, by omega⟩
        · rw [lowValue, if_neg hdigit, if_neg (by simp [hdigit])]
          exact ⟨hsub, hlength⟩
      · rw [lenientValue_byte (by omega) hc, if_neg (by simp [hwide])]
        cases lowValue url c with
        | none => exact ⟨hsub, hlength⟩
        | some d =>
            simp only [List.length_cons]
            exact ⟨hsub.cons_cons _, by omega⟩

/-- The two readings of an accepted string give the same bytes exactly in these cases. -/
theorem accepted_iff {url : Bool} {s : JsString} (h : Accepted url (latin1Bytes s)) :
    bytesOfDigits (lowDigits url s) = lenientDecode s ↔
      wideDigits url s = [] ∨ (lenientDigits s).length % 4 = 0 ∧
        ∃ x, lowDigits url s = lenientDigits s ++ [x] := by
  obtain ⟨hsub, hlength⟩ := wide_digits fun c hc => h.unit hc
  rw [← lenientDigits_body h, ← lowDigits_eq] at hsub hlength
  have hsame : lowDigits url s = lenientDigits s ↔ wideDigits url s = [] := by
    unfold wideDigits
    rw [← List.length_eq_zero_iff]
    constructor
    · intro heq
      rw [heq] at hlength
      omega
    · exact fun hzero => (hsub.eq_of_length (by omega)).symm
  rw [lenientDecode, bytesOfDigits_eq_iff hsub fun e he => digits_lt he, hsame]

/-- No bytes come of one digit. -/
theorem lenientDecode_eq_nil (s : JsString) :
    [] = lenientDecode s ↔ (lenientDigits s).length ≤ 1 := by
  rw [eq_comm, ← List.length_eq_zero_iff, lenientDecode, bytesOfDigits_length]
  omega

/-! ### The uses -/

theorem decoded_iff (url : Bool) (s : JsString) :
    (base64Decode url (latin1Bytes s)).2 = lenientDecode s ↔ Agrees url s .write := by
  rw [base64Decode_spec]
  unfold Agrees
  split
  · rename_i haccepted
    exact accepted_iff haccepted
  · exact lenientDecode_eq_nil s

theorem needleBytes_base64 (url : Bool) (s : JsString) :
    needleBytes s (base64Encoding url) = (base64Decode url (latin1Bytes s)).2 := by
  cases url <;> rfl

/-- A fill takes no string with a remainder. -/
theorem pattern_base64 (url : Bool) (s : JsString) :
    pattern (.string s) (base64Encoding url) =
      if Accepted url (latin1Bytes s) ∧ (lowDigits url s).length % 4 ≠ 1 then
        bytesOfDigits (lowDigits url s)
      else [] := by
  have hpattern : pattern (.string s) (base64Encoding url) =
      if (base64Decode url (latin1Bytes s)).1 < 0 then []
      else (base64Decode url (latin1Bytes s)).2 := by
    cases url <;> rfl
  rw [hpattern, base64Decode_spec]
  change _ = if _ ∧ (digits url (stripPadding (latin1Bytes s)).1).length % 4 ≠ 1 then
    bytesOfDigits (digits url (stripPadding (latin1Bytes s)).1) else []
  by_cases haccepted : Accepted url (latin1Bytes s)
  · by_cases hone : (digits url (stripPadding (latin1Bytes s)).1).length % 4 = 1
    · simp [haccepted, hone]
    · simp [haccepted, hone]
  · simp [haccepted]

theorem write_base64 (url : Bool) (s : JsString) (maxLength : Nat) :
    (base64Ops url).write simdutfBase64 s maxLength =
      ((base64Decode url (latin1Bytes s)).2).take maxLength := by
  rw [← base64Decode_bytes]
  cases url <;> rfl

/-- Two byte strings are the same if all their parts are. -/
theorem take_eq_iff {as bs : Bytes} : (∀ n, as.take n = bs.take n) ↔ as = bs := by
  constructor
  · intro h
    have hall := h (max as.length bs.length)
    rwa [List.take_of_length_le (Nat.le_max_left _ _),
      List.take_of_length_le (Nat.le_max_right _ _)] at hall
  · rintro rfl n
    rfl

/-- The binding decodes a string as Node does exactly where the two agree on its digits. -/
theorem decodesLeniently_iff (url : Bool) (s : JsString) (use : Use) :
    DecodesLeniently url s use ↔ Agrees url s use := by
  cases use with
  | write =>
      simp only [DecodesLeniently, write_base64]
      rw [take_eq_iff]
      exact decoded_iff url s
  | search =>
      rw [DecodesLeniently, needleBytes_base64]
      exact decoded_iff url s
  | fill =>
      rw [DecodesLeniently, pattern_base64, Agrees]
      split
      · rename_i h
        refine (accepted_iff h.1).trans ⟨fun hsame => ?_, Or.inl⟩
        obtain hwide | ⟨hgroups, x, hlonger⟩ := hsame
        · exact hwide
        · have hwhole := h.2
          rw [hlonger, List.length_append, List.length_singleton] at hwhole
          omega
      · exact lenientDecode_eq_nil s

/-- `buf.base64Write('YWJj*')`: Node skips the `*` and writes `abc`, the binding writes nothing. -/
theorem base64Write_stray :
    writeCall .base64 [0, 0, 0] [89, 87, 74, 106, 42] [] 0 = some (.returns 0 [0, 0, 0]) ∧
      lenientDecode [89, 87, 74, 106, 42] = [97, 98, 99] ∧
      ¬ DecodesLeniently false [89, 87, 74, 106, 42] .write :=
  ⟨by decide, by decide, fun h => absurd (h 3) (by decide)⟩

end HermesNode.Buffer
