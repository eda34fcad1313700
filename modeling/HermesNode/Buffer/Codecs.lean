/-
Module: HermesNode.Buffer.Codecs
Purpose: The write methods of the `buffer` binding beside its slice methods. Two helpers read the
  arguments of a write; the static one computes the room behind the offset without a check of the
  offset. A write changes nothing outside the window behind its offset, stops in front of a character
  or code unit that does not fit, and restores the bytes that a slice was made of.
Trusted boundary: human-reviewed spec (transcribed from `lib/bindings/node_buffer.cpp`)
Main exports: Outcome, getWriteStaticArgs, codecs_exact
-/
import HermesNode.Buffer.SliceRange
import HermesNode.Encoding.EncodeInto

namespace HermesNode.Buffer

open Fs (EncodingOps hexDecode hexVal trimPartialUtf8 fromEnd isTail_iff)
open StringDecoder (Encoding slice convert makeHexString makeUtf16String)
open Streams (utf8Bytes latin1Bytes ucs2Bytes)
open HermesNode.Encoding (encodingOf Scalars)

/-! ### The arguments -/

/-- `offset` and `maxLength` of a `WriteStaticArgs` or `WriteMethodArgs`. -/
structure WriteArgs where
  offset : Nat
  maxLength : Nat
deriving Repr, DecidableEq

/-- How a write ends: with a RangeError, or with what it returns and the buffer it leaves. -/
inductive Outcome where
  | throws
  | returns (written : UInt32) (after : Bytes)
deriving Repr, DecidableEq

/-- Both helpers, from the length of the buffer and the arguments behind the string. There is no value
where the room behind the offset wraps around. -/
def windowArgs (length : Nat) (args : CallArgs) (stack : UInt32) : Option WriteArgs := do
  let offset := requestedStart args stack
  let room ← sizeSub length offset
  let maxLength := ((endArg args stack).map UInt32.toNat).getD room
  some ⟨offset, min maxLength room⟩

def getWriteStaticArgs (length : Nat) (args : CallArgs) (stack : UInt32) : Option WriteArgs :=
  windowArgs length args stack

/-- The helper of the methods checks the offset; there are no arguments where it throws. -/
def getWriteMethodArgs (length : Nat) (args : CallArgs) (stack : UInt32) :
    Option (Option WriteArgs) :=
  if length < requestedStart args stack then some none
  else (windowArgs length args stack).map some

/-! ### The callbacks -/

/-- The end of every callback: nothing for an empty window, else the bytes as far as they fit. -/
def writeWindow (buf : Bytes) (s : JsString) (ops : EncodingOps) (args : WriteArgs) :
    Option Outcome :=
  if args.maxLength = 0 then some (.returns 0 buf)
  else
    let data := ops.write simdutfBase64 s args.maxLength
    (writeBytes buf args.offset data).map fun after => .returns (UInt32.ofNat data.length) after

/-- `asciiWriteStatic`, `latin1WriteStatic` and `utf8WriteStatic`. -/
def writeStatic (ops : EncodingOps) (buf : Bytes) (s : JsString) (args : CallArgs)
    (stack : UInt32) : Option Outcome :=
  (getWriteStaticArgs buf.length args stack).bind (writeWindow buf s ops)

/-- `hexWrite`, `base64Write`, `base64urlWrite` and `ucs2Write`. -/
def writeMethod (ops : EncodingOps) (buf : Bytes) (s : JsString) (args : CallArgs)
    (stack : UInt32) : Option Outcome :=
  (getWriteMethodArgs buf.length args stack).bind fun read =>
    match read with
    | none => some .throws
    | some args => writeWindow buf s ops args

/-- The write of an encoding, with the arguments behind the string. -/
def writeCall (ops : EncodingOps) (buf : Bytes) (s : JsString) (args : CallArgs)
    (stack : UInt32) : Option Outcome :=
  match ops with
  | .ascii | .latin1 | .utf8 => writeStatic ops buf s args stack
  | .hex | .base64 | .base64url | .ucs2 | .utf16le => writeMethod ops buf s args stack

/-- The write that belongs to a slice; `BUFFER` has neither. -/
def writeOps : Encoding → Option EncodingOps
  | .ascii => some .ascii
  | .latin1 => some .latin1
  | .utf8 => some .utf8
  | .hex => some .hex
  | .base64 => some .base64
  | .base64url => some .base64url
  | .ucs2 => some .ucs2
  | .buffer => none

/-! ### Windows -/

/-- The requested maximum, where there is one, and the room behind the offset. -/
def window (length : Nat) (args : CallArgs) (stack : UInt32) : Nat :=
  min (((endArg args stack).map UInt32.toNat).getD (length - requestedStart args stack))
    (length - requestedStart args stack)

/-- The write has put some bytes of the string behind the offset, as many as it returns and the window
holds: whole characters in UTF-8 and whole code units in UTF-16. -/
structure Windowed (ops : EncodingOps) (before : Bytes) (s : JsString) (args : CallArgs)
    (stack : UInt32) (written : UInt32) (after data : Bytes) : Prop where
  count : written.toNat = data.length
  bound : data.length ≤ window before.length args stack
  changed : after = patch before (requestedStart args stack) data
  characters : ops = .utf8 → ∃ k, data = encodingOf ((codePoints s).take k)
  units : ops = .ucs2 ∨ ops = .utf16le → ∃ k, data = ucs2Bytes (s.take k)

theorem window_le (length : Nat) (args : CallArgs) (stack : UInt32) :
    window length args stack ≤ length - requestedStart args stack := Nat.min_le_right _ _

/-- With the offset inside the buffer both helpers give the window behind it. -/
theorem writeCall_eq {buf : Bytes} {args : CallArgs} {stack : UInt32}
    (h : requestedStart args stack ≤ buf.length) (ops : EncodingOps) (s : JsString) :
    writeCall ops buf s args stack =
      writeWindow buf s ops ⟨requestedStart args stack, window buf.length args stack⟩ := by
  have hwindow : windowArgs buf.length args stack =
      some ⟨requestedStart args stack, window buf.length args stack⟩ := by
    simp only [windowArgs, sizeSub, if_pos h]
    rfl
  have hmethod : getWriteMethodArgs buf.length args stack =
      some (some ⟨requestedStart args stack, window buf.length args stack⟩) := by
    unfold getWriteMethodArgs
    rw [if_neg (by omega), hwindow]
    rfl
  cases ops <;> simp only [writeCall, writeStatic, writeMethod, getWriteStaticArgs, hwindow, hmethod,
    Option.bind_some]

/-! ### Whole characters -/

/-- The bytes of a code point: a lead byte that tells how many follow it. -/
theorem utf8Char_shape {cp : Nat} (h : IsScalar cp) :
    (∃ a, utf8Char cp = [a]) ∨
    (∃ a b, utf8Char cp = [a, b] ∧ 0xC0 ≤ a.toNat) ∨
    (∃ a b c, utf8Char cp = [a, b, c] ∧ 0xE0 ≤ a.toNat ∧ isTail b = true) ∨
    ∃ a b c d, utf8Char cp = [a, b, c, d] ∧ 0xF0 ≤ a.toNat ∧ isTail b = true ∧ isTail c = true := by
  unfold IsScalar at h
  unfold utf8Char utf8Of
  split
  · exact Or.inl ⟨_, rfl⟩
  split
  · refine Or.inr (Or.inl ⟨_, _, rfl, ?_⟩)
    rw [UInt8.toNat_ofNat']
    omega
  split
  · refine Or.inr (Or.inr (Or.inl ⟨_, _, _, rfl, ?_, Fs.isTail_ofNat _⟩))
    rw [UInt8.toNat_ofNat']
    omega
  · refine Or.inr (Or.inr (Or.inr ⟨_, _, _, _, rfl, ?_, Fs.isTail_ofNat _, Fs.isTail_ofNat _⟩))
    rw [UInt8.toNat_ofNat']
    omega

theorem fromEnd_append (whole rev : Bytes) (i : Nat) :
    fromEnd (whole ++ rev.reverse) i = ((rev ++ whole.reverse).getD i 0).toNat := by
  unfold fromEnd
  rw [List.reverse_append, List.reverse_reverse]

theorem trim_one (whole : Bytes) {a : UInt8} (ha : 0xC0 ≤ a.toNat) :
    trimPartialUtf8 (whole ++ [a]) = whole.length := by
  have hlast : fromEnd (whole ++ [a]) 0 = a.toNat := fromEnd_append whole [a] 0
  unfold trimPartialUtf8
  rw [hlast, if_pos ha, List.length_append]
  rfl

theorem trim_two (whole : Bytes) {a b : UInt8} (ha : 0xE0 ≤ a.toNat) (hb : isTail b = true) :
    trimPartialUtf8 (whole ++ [a, b]) = whole.length := by
  have hlast : fromEnd (whole ++ [a, b]) 0 = b.toNat := fromEnd_append whole [b, a] 0
  have hlead : fromEnd (whole ++ [a, b]) 1 = a.toNat := fromEnd_append whole [b, a] 1
  rw [isTail_iff] at hb
  unfold trimPartialUtf8
  rw [hlast, hlead, if_neg (by omega), if_pos ha, List.length_append]
  rfl

theorem trim_three (whole : Bytes) {a b c : UInt8} (ha : 0xF0 ≤ a.toNat) (hb : isTail b = true)
    (hc : isTail c = true) : trimPartialUtf8 (whole ++ [a, b, c]) = whole.length := by
  have hlast : fromEnd (whole ++ [a, b, c]) 0 = c.toNat := fromEnd_append whole [c, b, a] 0
  have hmiddle : fromEnd (whole ++ [a, b, c]) 1 = b.toNat := fromEnd_append whole [c, b, a] 1
  have hlead : fromEnd (whole ++ [a, b, c]) 2 = a.toNat := fromEnd_append whole [c, b, a] 2
  rw [isTail_iff] at hb hc
  unfold trimPartialUtf8
  rw [hlast, hmiddle, hlead, if_neg (by omega), if_neg (by omega), if_pos ha, List.length_append]
  rfl

theorem trimPartialUtf8_partial {cp : Nat} (h : IsScalar cp) (whole : Bytes) {j : Nat}
    (hpos : 0 < j) (hj : j < (utf8Char cp).length) :
    trimPartialUtf8 (whole ++ (utf8Char cp).take j) = whole.length := by
  obtain ⟨a, hchar⟩ | ⟨a, b, hchar, ha⟩ | ⟨a, b, c, hchar, ha, hb⟩ |
    ⟨a, b, c, d, hchar, ha, hb, hc⟩ := utf8Char_shape h
  · rw [hchar] at hj
    simp only [List.length_cons, List.length_nil] at hj
    omega
  · rw [hchar] at hj ⊢
    simp only [List.length_cons, List.length_nil] at hj
    obtain rfl : j = 1 := by omega
    exact trim_one whole ha
  · rw [hchar] at hj ⊢
    simp only [List.length_cons, List.length_nil] at hj
    obtain rfl | rfl : j = 1 ∨ j = 2 := by omega
    · exact trim_one whole (by omega)
    · exact trim_two whole ha hb
  · rw [hchar] at hj ⊢
    simp only [List.length_cons, List.length_nil] at hj
    obtain rfl | rfl | rfl : j = 1 ∨ j = 2 ∨ j = 3 := by omega
    · exact trim_one whole (by omega)
    · exact trim_two whole (by omega) hb
    · exact trim_three whole ha hb hc

/-- A cut through the UTF-8 of some code points goes behind whole ones and through one at most. -/
theorem encodingOf_cut {points : List (Option Nat)} (h : Scalars points) (m : Nat) :
    ∃ k, (encodingOf points).take m = encodingOf (points.take k) ∨
      ∃ cp j, IsScalar cp ∧ 0 < j ∧ j < (utf8Char cp).length ∧
        (encodingOf points).take m = encodingOf (points.take k) ++ (utf8Char cp).take j := by
  induction points generalizing m with
  | nil => exact ⟨0, Or.inl (by simp [encodingOf])⟩
  | cons point points ih =>
      have hcp := h point List.mem_cons_self
      rw [HermesNode.Encoding.encodingOf_cons, List.take_append]
      by_cases hm : m < (utf8Char (point.getD 0xFFFD)).length
      · have hnone : (encodingOf points).take (m - (utf8Char (point.getD 0xFFFD)).length) = [] := by
          rw [Nat.sub_eq_zero_of_le (by omega), List.take_zero]
        rw [hnone, List.append_nil]
        by_cases hzero : m = 0
        · exact ⟨0, Or.inl (by rw [hzero]; rfl)⟩
        · exact ⟨0, Or.inr ⟨_, m, hcp, by omega, hm, rfl⟩⟩
      · obtain ⟨k, hcut⟩ := ih (fun p hp => h p (List.mem_cons_of_mem _ hp))
          (m - (utf8Char (point.getD 0xFFFD)).length)
        refine ⟨k + 1, ?_⟩
        rw [List.take_of_length_le (by omega), List.take_succ_cons,
          HermesNode.Encoding.encodingOf_cons]
        obtain hcut | ⟨cp, j, hcp', hpos, hj, hcut⟩ := hcut
        · exact Or.inl (by rw [hcut])
        · exact Or.inr ⟨cp, j, hcp', hpos, hj, by rw [hcut, List.append_assoc]⟩

/-- What is left of a cut after trimming is whole code points. -/
theorem write_utf8 (s : JsString) (m : Nat) :
    ∃ k, EncodingOps.write simdutfBase64 s m .utf8 = encodingOf ((codePoints s).take k) := by
  obtain ⟨k, hcut⟩ := encodingOf_cut (HermesNode.Encoding.scalars_codePoints s) m
  refine ⟨k, ?_⟩
  change ((utf8Bytes s).take m).take (trimPartialUtf8 ((utf8Bytes s).take m)) = _
  rw [HermesNode.Encoding.utf8Bytes_eq]
  obtain hcut | ⟨cp, j, hcp, hpos, hj, hcut⟩ := hcut
  · have hwhole : trimPartialUtf8 (encodingOf ((codePoints s).take k)) =
        (encodingOf ((codePoints s).take k)).length := by
      unfold encodingOf
      rw [List.flatMap_def]
      apply Fs.trimPartialUtf8_flatten
      intro chunk hchunk
      obtain ⟨point, hpoint, rfl⟩ := List.mem_map.mp hchunk
      have hscalar := HermesNode.Encoding.scalars_codePoints s point (List.mem_of_mem_take hpoint)
      unfold IsScalar at hscalar
      exact Fs.sequence_utf8Of (by omega)
    rw [hcut, hwhole, List.take_length]
  · rw [hcut, trimPartialUtf8_partial hcp _ hpos hj, List.take_left]

/-! ### What fits into a window -/

/-- What is left of a cut through the code units is whole ones. -/
theorem write_ucs2 (s : JsString) (m : Nat) {ops : EncodingOps} (h : ops = .ucs2 ∨ ops = .utf16le) :
    ∃ k, ops.write simdutfBase64 s m = ucs2Bytes (s.take k) := by
  refine ⟨min (s.length * 2) m / 2, ?_⟩
  have hwrite : ops.write simdutfBase64 s m =
      (ucs2Bytes s).take (2 * (min (s.length * 2) m / 2)) := by
    rw [Nat.mul_comm 2]
    obtain rfl | rfl := h <;> rfl
  rw [hwrite]
  exact @take_flatMap_width _ _ _ 2 (fun _ => rfl) s _

theorem hexDecode_length_le (input : Bytes) (dstLen : Nat) :
    (hexDecode input dstLen).length ≤ dstLen := by
  rw [hexDecode_take input (m := dstLen) (Or.inr (Nat.le_refl _)), List.length_take]
  exact Nat.min_le_left _ _

theorem write_length_le (s : JsString) (m : Nat) (ops : EncodingOps) :
    (ops.write simdutfBase64 s m).length ≤ m := by
  have htake : ∀ bs : Bytes, (bs.take m).length ≤ m := fun bs => by
    rw [List.length_take]
    exact Nat.min_le_left _ _
  have hucs2 : ((ucs2Bytes s).take (min (s.length * 2) m / 2 * 2)).length ≤ m := by
    rw [List.length_take]
    omega
  cases ops with
  | utf8 =>
      change (((utf8Bytes s).take m).take _).length ≤ m
      rw [List.length_take]
      exact Nat.le_trans (Nat.min_le_right _ _) (htake _)
  | ucs2 => exact hucs2
  | utf16le => exact hucs2
  | latin1 => exact htake _
  | ascii => exact htake _
  | base64 => exact htake _
  | base64url => exact htake _
  | hex => exact hexDecode_length_le _ _

/-- A write with its offset in the buffer. -/
theorem writeCall_windowed {buf : Buf} {args : CallArgs} {stack : UInt32}
    (h : requestedStart args stack ≤ buf.bytes.length) (ops : EncodingOps) (s : JsString) :
    ∃ written after data, writeCall ops buf.bytes s args stack = some (.returns written after) ∧
      Windowed ops buf.bytes s args stack written after data := by
  have hmax := buf.length_le
  have hroom := window_le buf.bytes.length args stack
  rw [writeCall_eq h, writeWindow]
  simp only
  by_cases hempty : window buf.bytes.length args stack = 0
  · rw [if_pos hempty]
    refine ⟨0, buf.bytes, [], rfl, rfl, Nat.zero_le _, patch_nil.symm, ?_, ?_⟩
    · exact fun _ => ⟨0, rfl⟩
    · exact fun _ => ⟨0, rfl⟩
  · have hlength := write_length_le s (window buf.bytes.length args stack) ops
    rw [if_neg hempty, writeBytes_eq (by omega), Option.map_some]
    refine ⟨_, _, _, rfl, ?_, hlength, rfl, ?_, ?_⟩
    · unfold kMaxLength at hmax
      rw [UInt32.toNat_ofNat', Nat.mod_eq_of_lt (by omega)]
    · rintro rfl
      exact write_utf8 s _
    · exact write_ucs2 s _

/-! ### Round trips -/

theorem utf8Bytes_decodeUtf8 {data : Bytes} (h : isUtf8 data = true) :
    utf8Bytes (decodeUtf8 data) = data := by
  obtain ⟨cps, hcps, rfl⟩ := isUtf8_points h
  rw [decodeUtf8_chars hcps, HermesNode.Encoding.utf8Bytes_eq, codePoints_flatMap hcps]
  simp [encodingOf, List.flatMap_map]

theorem latin1Bytes_units (data : Bytes) : latin1Bytes (data.map UInt8.toUInt16) = data := by
  unfold latin1Bytes
  rw [List.map_map]
  exact List.map_id'' UInt8.toUInt8_toUInt16 data

/-- The code units of some bytes stand for the whole pairs of them. -/
theorem ucs2Bytes_makeUtf16String (data : Bytes) :
    ucs2Bytes (makeUtf16String data) = data.take (data.length / 2 * 2) := by
  fun_induction makeUtf16String data with
  | case1 a b rest ih =>
      have ha := a.toNat_lt
      have hb := b.toNat_lt
      have hpairs : (rest.length + 1 + 1) / 2 * 2 = rest.length / 2 * 2 + 1 + 1 := by omega
      have hunit : (UInt16.ofNat (a.toNat + 256 * b.toNat)).toNat = a.toNat + 256 * b.toNat := by
        rw [UInt16.toNat_ofNat', Nat.mod_eq_of_lt (by omega)]
      rw [Fs.ucs2Bytes_cons, ih, hunit, List.length_cons, List.length_cons, hpairs,
        List.take_succ_cons, List.take_succ_cons]
      rw [ofNat_eq_of_mod (b := a) (by omega), ofNat_eq_of_mod (b := b) (by omega)]
  | case2 data hshort =>
      match data, hshort with
      | [], _ => rfl
      | [a], _ => simp [ucs2Bytes]
      | a :: b :: rest, hshort => exact absurd rfl (hshort a b rest)

theorem hexVal_digit : ∀ d < 16, hexVal (hexDigit d).toUInt16.toUInt8 = some d := by
  decide

theorem hexDecode_makeHexString {data : Bytes} {m : Nat} (h : data.length ≤ m) :
    hexDecode (latin1Bytes (makeHexString data)) m = data := by
  induction data generalizing m with
  | nil => simp [makeHexString, latin1Bytes, hexDecode]
  | cons b data ih =>
      rw [List.length_cons] at h
      cases m with
      | zero => omega
      | succ m =>
          have hb := b.toNat_lt
          have htext : latin1Bytes (makeHexString (b :: data)) =
              (hexDigit (b.toNat / 16)).toUInt16.toUInt8 ::
                (hexDigit (b.toNat % 16)).toUInt16.toUInt8 :: latin1Bytes (makeHexString data) := by
            simp [makeHexString, latin1Bytes]
          rw [htext, hexDecode, hexVal_digit _ (by omega), hexVal_digit _ (by omega),
            ih (by omega)]
          simp only
          rw [ofNat_eq_of_mod (b := b) (by omega)]

/-- What the write makes of a slice. -/
theorem write_convert {enc : Encoding} {ops : EncodingOps} {data : Bytes} {s : JsString}
    (hops : writeOps enc = some ops) (hascii : enc ≠ .ascii)
    (hutf8 : enc = .utf8 → isUtf8 data = true) (hucs2 : enc = .ucs2 → data.length % 2 = 0)
    (hs : convert data enc = some s) {m : Nat} (hm : data.length ≤ m) :
    ops.write simdutfBase64 s m = data := by
  cases enc with
  | ascii => exact absurd rfl hascii
  | buffer => cases hops
  | latin1 =>
      cases hops
      cases hs
      change (latin1Bytes (data.map UInt8.toUInt16)).take m = data
      rw [latin1Bytes_units, List.take_of_length_le hm]
  | utf8 =>
      cases hops
      cases hs
      have hbytes := utf8Bytes_decodeUtf8 (hutf8 rfl)
      have htrim := Fs.trimPartialUtf8_utf8Bytes (decodeUtf8 data)
      change ((utf8Bytes (decodeUtf8 data)).take m).take
        (trimPartialUtf8 ((utf8Bytes (decodeUtf8 data)).take m)) = data
      have hall : (utf8Bytes (decodeUtf8 data)).take m = utf8Bytes (decodeUtf8 data) :=
        List.take_of_length_le (by rw [hbytes]; exact hm)
      rw [hall, htrim, List.take_length, hbytes]
  | hex =>
      cases hops
      cases hs
      change hexDecode (latin1Bytes (StringDecoder.hexEncode data)) m = data
      rw [StringDecoder.hexEncode_eq, hexDecode_makeHexString hm]
  | base64 =>
      cases hops
      cases hs
      change (Fs.base64Decode simdutfBase64 false _).take m = data
      rw [base64Decode_bytes, StringDecoder.base64Encode, base64Decode_encode,
        List.take_of_length_le hm]
  | base64url =>
      cases hops
      cases hs
      change (Fs.base64Decode simdutfBase64 true _).take m = data
      rw [base64Decode_bytes, StringDecoder.base64Encode, base64Decode_encode,
        List.take_of_length_le hm]
  | ucs2 =>
      cases hops
      cases hs
      have hbytes := ucs2Bytes_makeUtf16String data
      rw [List.take_of_length_le (by have heven := hucs2 rfl; omega)] at hbytes
      have hlength := congrArg List.length hbytes
      rw [Fs.ucs2Bytes_length] at hlength
      change (ucs2Bytes (StringDecoder.ucs2Slice data)).take
        (min ((StringDecoder.ucs2Slice data).length * 2) m / 2 * 2) = data
      rw [StringDecoder.ucs2Slice_eq, hbytes, List.take_of_length_le (by omega)]

/-- A slice of all of some bytes, written where there is room for them. -/
theorem writeCall_slice {enc : Encoding} {ops : EncodingOps} {data : Bytes} {s : JsString}
    (hops : writeOps enc = some ops) (hascii : enc ≠ .ascii)
    (hutf8 : enc = .utf8 → isUtf8 data = true) (hucs2 : enc = .ucs2 → data.length % 2 = 0)
    (hs : slice enc data none none = some s) (buf : Buf) {args : CallArgs} {stack : UInt32}
    (hoffset : requestedStart args stack ≤ buf.bytes.length)
    (hroom : data.length ≤ window buf.bytes.length args stack) :
    writeCall ops buf.bytes s args stack = some (.returns (UInt32.ofNat data.length)
      (patch buf.bytes (requestedStart args stack) data)) := by
  have hwindow := window_le buf.bytes.length args stack
  have hwhole := @StringDecoder.slice_whole data none none ⟨rfl, Nat.le_refl _⟩ enc
  rw [hs] at hwhole
  have hwrite : ∀ m, data.length ≤ m → ops.write simdutfBase64 s m = data := by
    intro m hm
    cases data with
    | nil =>
        have hnil : convert [] enc = some [] := by
          cases enc with
          | buffer => cases hops
          | _ => rfl
        have hempty : some s = some [] := hwhole.trans (if_pos rfl)
        exact write_convert hops hascii hutf8 hucs2 (hnil.trans hempty.symm) hm
    | cons b rest =>
        rw [if_neg (by simp)] at hwhole
        exact write_convert hops hascii hutf8 hucs2 hwhole.symm hm
  rw [writeCall_eq hoffset, writeWindow]
  simp only
  by_cases hempty : window buf.bytes.length args stack = 0
  · have hnone : data = [] := List.eq_nil_of_length_eq_zero (by omega)
    subst hnone
    rw [if_pos hempty, patch_nil]
    rfl
  · rw [if_neg hempty, hwrite _ hroom, writeBytes_eq (by omega), Option.map_some]

/-- Slices and writes. What a slice makes of some bytes, well formed in its encoding, is written back
as these bytes wherever there is room for them; and a write of any string with its offset in the buffer
stays in its window and cuts no character or code unit. -/
theorem codecs_exact :
    (∀ enc ops data s, writeOps enc = some ops → enc ≠ .ascii →
      (enc = .utf8 → isUtf8 data = true) → (enc = .ucs2 → data.length % 2 = 0) →
      slice enc data none none = some s →
      ∀ (buf : Buf) args stack, requestedStart args stack ≤ buf.bytes.length →
        data.length ≤ window buf.bytes.length args stack →
        writeCall ops buf.bytes s args stack = some (.returns (UInt32.ofNat data.length)
          (patch buf.bytes (requestedStart args stack) data))) ∧
    ∀ ops (buf : Buf) s args stack, requestedStart args stack ≤ buf.bytes.length →
      ∃ written after data,
        writeCall ops buf.bytes s args stack = some (.returns written after) ∧
          Windowed ops buf.bytes s args stack written after data :=
  ⟨fun _ _ _ _ hops hascii hutf8 hucs2 hs buf _ _ hoffset hroom =>
      writeCall_slice hops hascii hutf8 hucs2 hs buf hoffset hroom,
    fun ops _ s _ _ hoffset => writeCall_windowed hoffset ops s⟩

/-- An `é` of two bytes behind one byte of four, and cut where there is room for one. -/
theorem codecs_exact_accent :
    writeCall .utf8 [0, 0, 0, 0] [0xE9] [some 1] 0 =
        some (.returns 2 (patch [0, 0, 0, 0] 1 [0xC3, 0xA9])) ∧
      ∃ written after data,
        writeCall .utf8 [0, 0, 0, 0] [0xE9] [some 3] 0 = some (.returns written after) ∧
          Windowed .utf8 [0, 0, 0, 0] [0xE9] [some 3] 0 written after data :=
  ⟨codecs_exact.1 .utf8 .utf8 [0xC3, 0xA9] [0xE9] rfl (by decide) (by decide) (by decide) (by decide)
      ⟨[0, 0, 0, 0], by decide⟩ [some 1] 0 (by decide) (by decide),
    codecs_exact.2 .utf8 ⟨[0, 0, 0, 0], by decide⟩ [0xE9] [some 3] 0 (by decide)⟩

end HermesNode.Buffer
