/-
Module: HermesNode.Fs.Encodings
Purpose: The bytes of `Buffer.from(string, encoding)`, and when the UTF-8 of a string is a prefix of
  them. For `latin1` and `ascii` it is for ASCII strings, for `hex` and `base64` for the empty string,
  and for UTF-16 for an ASCII character with nothing but zeros behind it.
Trusted boundary: human-reviewed spec (transcribed from `libjs-node/buffer.js`,
  `lib/bindings/node_buffer.cpp` and `trim_partial_utf8` and `maximal_binary_length_from_base64` of
  simdutf; its base64 decoder is a parameter, the string getters of Node-API are as documented)
Main exports: EncodingOps, getEncodingOps, utf8_prefix_iff, raw_eq_payload_iff
-/
import HermesNode.Streams.Writes

namespace HermesNode.Fs

open Streams (utf8Bytes latin1Bytes ucs2Bytes utf8Bytes_length utf8Bytes_ascii
  utf8Bytes_eq_latin1_iff)

/-! ### Encodings -/

/-- The entries of `encodingOps`. -/
inductive EncodingOps where
  | utf8
  | ucs2
  | utf16le
  | latin1
  | ascii
  | base64
  | base64url
  | hex
deriving Repr, DecidableEq

def getEncodingOps (encoding : String) : Option EncodingOps :=
  match encoding.toLower with
  | "utf8" | "utf-8" => some .utf8
  | "ucs2" | "ucs-2" => some .ucs2
  | "utf16le" | "utf-16le" => some .utf16le
  | "latin1" | "binary" => some .latin1
  | "ascii" => some .ascii
  | "base64" => some .base64
  | "base64url" => some .base64url
  | "hex" => some .hex
  | _ => none

/-! ### Writing a string -/

/-- The byte in front of the last `i`, 0 where there is none. -/
def fromEnd (bs : Bytes) (i : Nat) : Nat := (bs.reverse.getD i 0).toNat

/-- `trim_partial_utf8`: a character at the end that lacks bytes is left out. -/
def trimPartialUtf8 (bs : Bytes) : Nat :=
  if 0xC0 ≤ fromEnd bs 0 then bs.length - 1
  else if 0xE0 ≤ fromEnd bs 1 then bs.length - 2
  else if 0xF0 ≤ fromEnd bs 2 then bs.length - 3
  else bs.length

def hexVal (c : UInt8) : Option Nat :=
  if 0x30 ≤ c ∧ c ≤ 0x39 then some (c.toNat - 0x30)
  else if 0x61 ≤ c ∧ c ≤ 0x66 then some (c.toNat - 0x61 + 10)
  else if 0x41 ≤ c ∧ c ≤ 0x46 then some (c.toNat - 0x41 + 10)
  else none

/-- At most `dstLen` pairs of hexadecimal digits, as far as there are any. -/
def hexDecode : Bytes → Nat → Bytes
  | high :: low :: rest, dstLen + 1 =>
      match hexVal high, hexVal low with
      | some hi, some lo => UInt8.ofNat (hi * 16 + lo) :: hexDecode rest dstLen
      | _, _ => []
  | _, _ => []

def maximalBinaryLengthFromBase64 (input : Bytes) : Nat :=
  let padding :=
    if input.reverse[0]? = some 0x3D then if input.reverse[1]? = some 0x3D then 2 else 1 else 0
  let actual := input.length - padding
  if actual % 4 ≤ 1 then actual / 4 * 3 else actual / 4 * 3 + actual % 4 - 1

/-- `base64_to_binary_safe`, with the URL alphabet or the default one. There is no value for an
invalid character; the bytes before a remainder are one. -/
abbrev Base64ToBinary := Bool → Bytes → Option Bytes

/-- No more is decoded than the buffer was made for. -/
def Base64ToBinary.Bounded (simdutf : Base64ToBinary) : Prop :=
  ∀ url input out, simdutf url input = some out →
    out.length ≤ maximalBinaryLengthFromBase64 input

def base64Decode (simdutf : Base64ToBinary) (url : Bool) (input : Bytes) : Bytes :=
  (simdutf url input).getD []

section

variable (simdutf : Base64ToBinary)

/-- `buf.utf8Write` and the others into `maxLength` bytes: what is written. -/
def EncodingOps.write (s : JsString) (maxLength : Nat) : EncodingOps → Bytes
  | .utf8 =>
      let copied := (utf8Bytes s).take maxLength
      copied.take (trimPartialUtf8 copied)
  | .ucs2 | .utf16le => (ucs2Bytes s).take (min (s.length * 2) maxLength / 2 * 2)
  | .latin1 | .ascii => (latin1Bytes s).take maxLength
  | .base64 => (base64Decode simdutf false (latin1Bytes s)).take maxLength
  | .base64url => (base64Decode simdutf true (latin1Bytes s)).take maxLength
  | .hex => hexDecode (latin1Bytes s) maxLength

def base64ByteLength (s : JsString) : Nat :=
  let bytes := if s[s.length - 1]? = some 0x3D then s.length - 1 else s.length
  let bytes := if 1 < bytes ∧ s[bytes - 1]? = some 0x3D then bytes - 1 else bytes
  bytes * 3 / 4

def EncodingOps.byteLength (s : JsString) : EncodingOps → Nat
  | .utf8 => (utf8Bytes s).length
  | .ucs2 | .utf16le => s.length * 2
  | .latin1 | .ascii => s.length
  | .base64 | .base64url => base64ByteLength s
  | .hex => s.length / 2

/-- The bytes a string is written into: four for each code unit while that is less than half of the
pool, `maxLength`. -/
def roomFor (maxLength : Nat) (s : JsString) (ops : EncodingOps) : Nat :=
  if maxLength ≤ s.length then ops.byteLength s
  else if maxLength ≤ s.length * 4 then ops.byteLength s
  else s.length * 4

def fromStringFast (maxLength : Nat) (s : JsString) (ops : EncodingOps) : Bytes :=
  ops.write simdutf s (roomFor maxLength s ops)

/-- The encoding of a string; `none` is an argument that is no string. -/
def opsOf (encoding : Option String) : Option EncodingOps :=
  match encoding with
  | none | some "" | some "utf8" => some .utf8
  | some encoding => getEncodingOps encoding

/-- `Buffer.from(string, encoding)`; an unknown encoding throws. -/
def fromString (maxLength : Nat) (s : JsString) (encoding : Option String) : Option Bytes :=
  (opsOf encoding).map fun ops => if s = [] then [] else fromStringFast simdutf maxLength s ops

end

/-! ### UTF-8 -/

theorem utf8Bytes_nil : utf8Bytes [] = [] := rfl

theorem utf8Bytes_singleton (c : UInt16) :
    utf8Bytes [c] = (utf8Of ((unitPoint c).getD 0xFFFD)).map UInt8.ofNat := by
  simp [utf8Bytes, codePoints]

theorem utf8Bytes_pair {c d : UInt16} (h : (isHighSurrogate c && isLowSurrogate d) = true)
    (rest : JsString) : utf8Bytes (c :: d :: rest) =
      (utf8Of (0x10000 + (c.toNat - 0xD800) * 0x400 + (d.toNat - 0xDC00))).map UInt8.ofNat ++
        utf8Bytes rest := by
  unfold utf8Bytes
  rw [codePoints, if_pos h, List.flatMap_cons, Option.getD_some]

/-- A code unit in front that starts no pair. -/
theorem utf8Bytes_cons {c : UInt16} {rest : JsString}
    (h : ∀ d ∈ rest.head?, (isHighSurrogate c && isLowSurrogate d) = false) :
    utf8Bytes (c :: rest) = utf8Bytes [c] ++ utf8Bytes rest := by
  cases rest with
  | nil => simp [utf8Bytes_nil]
  | cons d rest =>
      have hpair := h d rfl
      rw [utf8Bytes_singleton]
      unfold utf8Bytes
      rw [codePoints, if_neg (by simp [hpair]), List.flatMap_cons]

theorem not_surrogate_of_lt {c : UInt16} (h : c.toNat < 0xD800) :
    isHighSurrogate c = false ∧ isLowSurrogate c = false := by
  simp only [isHighSurrogate, isLowSurrogate, Bool.and_eq_false_iff, decide_eq_false_iff_not]
  omega

theorem utf8Bytes_cons_ascii {c : UInt16} (h : c < 0x80) (rest : JsString) :
    utf8Bytes (c :: rest) = c.toUInt8 :: utf8Bytes rest := by
  have hlt : c.toNat < 0x80 := UInt16.lt_iff_toNat_lt.mp h
  have hplain := not_surrogate_of_lt (show c.toNat < 0xD800 by omega)
  rw [utf8Bytes_cons (by simp [hplain.1]), utf8Bytes_ascii (by simpa using h)]
  rfl

/-- The bytes of a character: a lead byte, then continuation bytes. -/
inductive Sequence : Bytes → Prop where
  | one {a : UInt8} : a.toNat < 0x80 → Sequence [a]
  | two {a b : UInt8} : 0x80 ≤ a.toNat → a.toNat < 0xE0 → isTail b = true → Sequence [a, b]
  | three {a b c : UInt8} : 0x80 ≤ a.toNat → a.toNat < 0xF0 → isTail b = true → isTail c = true →
      Sequence [a, b, c]
  | four {a b c d : UInt8} : 0x80 ≤ a.toNat → isTail b = true → isTail c = true →
      isTail d = true → Sequence [a, b, c, d]

theorem isTail_iff (b : UInt8) : isTail b = true ↔ 0x80 ≤ b.toNat ∧ b.toNat ≤ 0xBF := by
  simp only [isTail, Bool.and_eq_true, decide_eq_true_eq]

theorem isTail_ofNat (n : Nat) : isTail (UInt8.ofNat (0x80 + n % 64)) = true := by
  rw [isTail_iff, UInt8.toNat_ofNat']
  omega

theorem sequence_utf8Of {cp : Nat} (h : cp < 0x110000) :
    Sequence ((utf8Of cp).map UInt8.ofNat) := by
  unfold utf8Of
  split
  · rename_i hone
    apply Sequence.one
    rw [UInt8.toNat_ofNat']
    omega
  · split
    · rename_i htwo
      have hlead : (UInt8.ofNat (0xC0 + cp / 64)).toNat = 0xC0 + cp / 64 := by
        rw [UInt8.toNat_ofNat']
        omega
      exact Sequence.two (by omega) (by omega) (isTail_ofNat _)
    · split
      · rename_i hthree
        have hlead : (UInt8.ofNat (0xE0 + cp / 4096)).toNat = 0xE0 + cp / 4096 := by
          rw [UInt8.toNat_ofNat']
          omega
        exact Sequence.three (by omega) (by omega) (isTail_ofNat _) (isTail_ofNat _)
      · have hlead : (UInt8.ofNat (0xF0 + cp / 262144)).toNat = 0xF0 + cp / 262144 := by
          rw [UInt8.toNat_ofNat']
          omega
        exact Sequence.four (by omega) (isTail_ofNat _) (isTail_ofNat _) (isTail_ofNat _)

/-- A string is written character by character. -/
theorem utf8Bytes_sequences (s : JsString) :
    ∃ chunks : List Bytes, utf8Bytes s = chunks.flatten ∧ ∀ chunk ∈ chunks, Sequence chunk := by
  refine ⟨(codePoints s).map fun point => (utf8Of (point.getD 0xFFFD)).map UInt8.ofNat, ?_, ?_⟩
  · exact List.flatMap_def
  intro chunk hchunk
  obtain ⟨point, hpoint, hbytes⟩ := List.mem_map.mp hchunk
  rw [← hbytes]
  apply sequence_utf8Of
  cases point with
  | none => decide
  | some cp =>
      have hscalar := codePoints_scalar hpoint
      unfold IsScalar at hscalar
      rw [Option.getD_some]
      omega

/-- Behind whole characters there is nothing to trim. -/
theorem trimPartialUtf8_flatten {chunks : List Bytes} (h : ∀ chunk ∈ chunks, Sequence chunk) :
    trimPartialUtf8 chunks.flatten = chunks.flatten.length := by
  have hends : fromEnd chunks.flatten 0 < 0xC0 ∧ fromEnd chunks.flatten 1 < 0xE0 ∧
      fromEnd chunks.flatten 2 < 0xF0 := by
    induction chunks using List.reverseRecOn with
    | nil => decide
    | append_singleton chunks chunk ih =>
        have hprev := ih fun c hc => h c (List.mem_append_left _ hc)
        have hlast := h chunk (by simp)
        unfold fromEnd at hprev ⊢
        rw [List.flatten_append, List.reverse_append]
        generalize chunks.flatten.reverse = behind at hprev
        cases hlast with
        | one ha =>
            simp only [List.flatten_singleton, List.reverse_singleton, List.singleton_append,
              List.getD_cons_zero, List.getD_cons_succ]
            omega
        | two ha hlead hb =>
            rw [isTail_iff] at hb
            simp only [List.flatten_singleton, List.reverse_cons, List.reverse_nil, List.nil_append,
              List.cons_append, List.getD_cons_zero, List.getD_cons_succ]
            omega
        | three ha hlead hb hc =>
            rw [isTail_iff] at hb hc
            simp only [List.flatten_singleton, List.reverse_cons, List.reverse_nil, List.nil_append,
              List.cons_append, List.getD_cons_zero, List.getD_cons_succ]
            omega
        | four ha hb hc hd =>
            rw [isTail_iff] at hb hc hd
            simp only [List.flatten_singleton, List.reverse_cons, List.reverse_nil, List.nil_append,
              List.cons_append, List.getD_cons_zero, List.getD_cons_succ]
            omega
  unfold trimPartialUtf8
  rw [if_neg (by omega), if_neg (by omega), if_neg (by omega)]

theorem trimPartialUtf8_utf8Bytes (s : JsString) :
    trimPartialUtf8 (utf8Bytes s) = (utf8Bytes s).length := by
  obtain ⟨chunks, hchunks, hall⟩ := utf8Bytes_sequences s
  rw [hchunks]
  exact trimPartialUtf8_flatten hall

theorem utf8Of_length_le (cp : Nat) :
    (utf8Of cp).length ≤ 4 ∧ (cp < 0x10000 → (utf8Of cp).length ≤ 3) := by
  unfold utf8Of
  split
  · exact ⟨by simp, fun _ => by simp⟩
  · split
    · exact ⟨by simp, fun _ => by simp⟩
    · split
      · exact ⟨by simp, fun _ => by simp⟩
      · rename_i hlarge
        exact ⟨by simp, fun hsmall => absurd hsmall hlarge⟩

/-- A code unit takes three bytes at most. -/
theorem utf8Bytes_length_le (s : JsString) : (utf8Bytes s).length ≤ 3 * s.length := by
  have hunit : ∀ c : UInt16, (utf8Bytes [c]).length ≤ 3 := by
    intro c
    have hlt : (unitPoint c).getD 0xFFFD < 0x10000 := by
      unfold unitPoint
      split
      · decide
      · exact c.toNat_lt
    rw [utf8Bytes_singleton, List.length_map]
    exact (utf8Of_length_le _).2 hlt
  induction s using codePoints.induct with
  | case1 => decide
  | case2 c => exact hunit c
  | case3 c d rest hpair ih =>
      have hpoint := (utf8Of_length_le
        (0x10000 + (c.toNat - 0xD800) * 0x400 + (d.toNat - 0xDC00))).1
      rw [utf8Bytes_pair hpair, List.length_append, List.length_map]
      simp only [List.length_cons]
      omega
  | case4 c d rest hpair ih =>
      have hfirst := hunit c
      rw [utf8Bytes_cons (by simpa using hpair), List.length_append]
      simp only [List.length_cons] at ih ⊢
      omega

/-! ### UTF-8 and UTF-16 -/

theorem ucs2Bytes_cons (c : UInt16) (s : JsString) :
    ucs2Bytes (c :: s) = UInt8.ofNat (c.toNat % 256) :: UInt8.ofNat (c.toNat / 256) :: ucs2Bytes s :=
  rfl

theorem ucs2Bytes_append (s t : JsString) : ucs2Bytes (s ++ t) = ucs2Bytes s ++ ucs2Bytes t :=
  List.flatMap_append

theorem ucs2Bytes_length (s : JsString) : (ucs2Bytes s).length = 2 * s.length := by
  induction s with
  | nil => rfl
  | cons c s ih =>
      rw [ucs2Bytes_cons]
      simp only [List.length_cons, ih]
      omega

/-- A character beyond ASCII: a byte beyond ASCII, then continuation bytes. -/
theorem utf8Of_beyond {cp : Nat} (hlow : 0x80 ≤ cp) (hhigh : cp < 0x110000) :
    ∃ a b tails, (utf8Of cp).map UInt8.ofNat = a :: b :: tails ∧ 0x80 ≤ a.toNat ∧
      isTail b = true ∧ ∀ x ∈ tails, isTail x = true := by
  have hsequence := sequence_utf8Of hhigh
  have hlength := (Streams.utf8Of_length cp).2
  rw [← List.length_map UInt8.ofNat] at hlength
  generalize (utf8Of cp).map UInt8.ofNat = bytes at hsequence hlength
  cases hsequence with
  | one ha => exact absurd (hlength rfl).1 (by omega)
  | two ha hlead hb => exact ⟨_, _, [], rfl, ha, hb, by simp⟩
  | three ha hlead hb hc => exact ⟨_, _, [_], rfl, ha, hb, by simpa using hc⟩
  | four ha hb hc hd => exact ⟨_, _, [_, _], rfl, ha, hb, by simp [hc, hd]⟩

theorem utf8Bytes_singleton_beyond {c : UInt16} (h : 0x80 ≤ c.toNat) :
    ∃ a b tails, utf8Bytes [c] = a :: b :: tails ∧ 0x80 ≤ a.toNat ∧ isTail b = true ∧
      ∀ x ∈ tails, isTail x = true := by
  have hlt := c.toNat_lt
  rw [utf8Bytes_singleton]
  unfold unitPoint
  split
  · exact utf8Of_beyond (by decide) (by decide)
  · exact utf8Of_beyond h (by simpa using Nat.lt_trans hlt (by decide))

theorem pair_beyond {c d : UInt16} (h : (isHighSurrogate c && isLowSurrogate d) = true)
    (rest : JsString) : ∃ a b tails, utf8Bytes (c :: d :: rest) = a :: b :: tails ++ utf8Bytes rest ∧
      0x80 ≤ a.toNat ∧ isTail b = true ∧ (∀ x ∈ tails, isTail x = true) ∧ tails.length = 2 := by
  have hsurrogates := h
  have hd := d.toNat_lt
  simp only [isHighSurrogate, isLowSurrogate, Bool.and_eq_true, decide_eq_true_eq] at hsurrogates
  rw [utf8Bytes_pair h]
  generalize hcp : 0x10000 + (c.toNat - 0xD800) * 0x400 + (d.toNat - 0xDC00) = cp
  have hlength : (utf8Of cp).length = 4 := by
    unfold utf8Of
    rw [if_neg (by omega), if_neg (by omega), if_neg (by omega)]
    rfl
  obtain ⟨a, b, tails, hbytes, ha, hb, htails⟩ := @utf8Of_beyond cp (by omega) (by omega)
  rw [← List.length_map UInt8.ofNat, hbytes] at hlength
  refine ⟨a, b, tails, by rw [hbytes], ha, hb, htails, ?_⟩
  simp only [List.length_cons] at hlength
  omega

/-- The first two bytes of a string that starts beyond ASCII. -/
theorem utf8Bytes_head {c : UInt16} (h : 0x80 ≤ c.toNat) (rest : JsString) :
    ∃ a b bs, utf8Bytes (c :: rest) = a :: b :: bs ∧ 0x80 ≤ a.toNat ∧ isTail b = true := by
  cases rest with
  | nil =>
      obtain ⟨a, b, tails, hbytes, ha, hb, _⟩ := utf8Bytes_singleton_beyond h
      exact ⟨a, b, tails, hbytes, ha, hb⟩
  | cons d rest =>
      cases hpair : isHighSurrogate c && isLowSurrogate d with
      | true =>
          obtain ⟨a, b, tails, hbytes, ha, hb, _⟩ := pair_beyond hpair rest
          exact ⟨a, b, tails ++ utf8Bytes rest, hbytes, ha, hb⟩
      | false =>
          obtain ⟨a, b, tails, hbytes, ha, hb, _⟩ := utf8Bytes_singleton_beyond h
          refine ⟨a, b, tails ++ utf8Bytes (d :: rest), ?_, ha, hb⟩
          rw [utf8Bytes_cons (by simpa using hpair), hbytes]
          rfl

/-- A first byte beyond ASCII and tails are all beyond ASCII. -/
theorem sequence_beyond {a b : UInt8} {tails : Bytes} (ha : 0x80 ≤ a.toNat) (hb : isTail b = true)
    (htails : ∀ x ∈ tails, isTail x = true) : ∀ x ∈ a :: b :: tails, 0x80 ≤ x.toNat := by
  intro x hx
  rcases List.mem_cons.mp hx with rfl | hx
  · exact ha
  · rcases List.mem_cons.mp hx with rfl | hx
    · exact ((isTail_iff _).mp hb).1
    · exact ((isTail_iff _).mp (htails x hx)).1

/-- Every byte of characters beyond ASCII is beyond ASCII, and there are two for each code unit. -/
theorem utf8Bytes_beyond {s : JsString} (h : ∀ c ∈ s, 0x80 ≤ c.toNat) :
    (∀ x ∈ utf8Bytes s, 0x80 ≤ x.toNat) ∧ 2 * s.length ≤ (utf8Bytes s).length := by
  induction s using codePoints.induct with
  | case1 => exact ⟨fun x hx => (List.not_mem_nil hx).elim, Nat.le_refl _⟩
  | case2 c =>
      obtain ⟨a, b, tails, hbytes, ha, hb, htails⟩ := utf8Bytes_singleton_beyond (h c (by simp))
      rw [hbytes]
      exact ⟨sequence_beyond ha hb htails, by simp⟩
  | case3 c d rest hpair ih =>
      obtain ⟨a, b, tails, hbytes, ha, hb, htails, hlength⟩ := pair_beyond hpair rest
      have hrest := ih fun x hx => h x (by simp [hx])
      rw [hbytes]
      constructor
      · intro x hx
        rcases List.mem_append.mp hx with hx | hx
        · exact sequence_beyond ha hb htails x hx
        · exact hrest.1 x hx
      · simp only [List.length_append, List.length_cons, hlength]
        omega
  | case4 c d rest hpair ih =>
      obtain ⟨a, b, tails, hbytes, ha, hb, htails⟩ := utf8Bytes_singleton_beyond (h c (by simp))
      have hrest := ih fun x hx => h x (List.mem_cons_of_mem _ hx)
      rw [utf8Bytes_cons (by simpa using hpair), hbytes]
      constructor
      · intro x hx
        rcases List.mem_append.mp hx with hx | hx
        · exact sequence_beyond ha hb htails x hx
        · exact hrest.1 x hx
      · simp only [List.length_append, List.length_cons] at hrest ⊢
        omega

/-- An ASCII character ends what stands in front of it. -/
theorem utf8Bytes_append_ascii (s : JsString) {a : UInt16} (ha : a < 0x80) (t : JsString) :
    utf8Bytes (s ++ a :: t) = utf8Bytes s ++ utf8Bytes (a :: t) := by
  have hlow : isLowSurrogate a = false :=
    (not_surrogate_of_lt (Nat.lt_trans (UInt16.lt_iff_toNat_lt.mp ha) (by decide))).2
  induction s using codePoints.induct with
  | case1 => rfl
  | case2 c => exact utf8Bytes_cons (by simp [hlow])
  | case3 c d rest hpair ih =>
      rw [List.cons_append, List.cons_append, utf8Bytes_pair hpair, utf8Bytes_pair hpair, ih,
        List.append_assoc]
  | case4 c d rest hpair ih =>
      rw [List.cons_append, utf8Bytes_cons (by simpa using hpair), ih, ← List.append_assoc,
        ← utf8Bytes_cons (by simpa using hpair)]

/-- Behind some zeros, UTF-8 goes on along UTF-16 only with zeros. -/
theorem zeros_of_prefix {t : JsString} {k : Nat}
    (h : utf8Bytes t <+: List.replicate (k + 1) 0 ++ ucs2Bytes t) : ∀ d ∈ t, d = 0 := by
  induction t generalizing k with
  | nil => exact fun d hd => (List.not_mem_nil hd).elim
  | cons d t ih =>
      rw [List.replicate_succ, List.cons_append] at h
      have hsmall : d < 0x80 := by
        by_contra hlarge
        have hlarge : 0x80 ≤ d.toNat := Nat.le_of_not_lt fun hlt =>
          hlarge (UInt16.lt_iff_toNat_lt.mpr hlt)
        obtain ⟨a, b, bs, hbytes, ha, _⟩ := utf8Bytes_head hlarge t
        rw [hbytes] at h
        rw [(List.cons_prefix_cons.mp h).1] at ha
        exact absurd ha (by decide)
      rw [utf8Bytes_cons_ascii hsmall] at h
      obtain ⟨hhead, hrest⟩ := List.cons_prefix_cons.mp h
      have hzero : d = 0 := by
        have hlt : d.toNat < 0x80 := UInt16.lt_iff_toNat_lt.mp hsmall
        have hnat := congrArg UInt8.toNat hhead
        rw [UInt16.toNat_toUInt8, UInt8.toNat_zero] at hnat
        apply UInt16.toNat_inj.mp
        rw [UInt16.toNat_zero]
        omega
      have hmore : utf8Bytes t <+: List.replicate (k + 1 + 1) 0 ++ ucs2Bytes t := by
        rw [hzero, ucs2Bytes_cons] at hrest
        rw [List.replicate_succ', List.replicate_succ', List.append_assoc, List.append_assoc]
        exact hrest
      intro x hx
      rcases List.mem_cons.mp hx with rfl | hx
      · exact hzero
      · exact ih hmore x hx

theorem ucs2Bytes_zeros {t : JsString} (h : ∀ d ∈ t, d = 0) :
    ucs2Bytes t = List.replicate (2 * t.length) 0 := by
  rw [List.eq_replicate_of_mem h]
  induction t with
  | nil => rfl
  | cons d t ih =>
      have hrest := ih fun x hx => h x (List.mem_cons_of_mem _ hx)
      rw [List.length_cons, List.replicate_succ, ucs2Bytes_cons, hrest, List.length_replicate,
        List.length_cons, List.length_replicate]
      rfl

/-- Three bytes for the first code unit are too many: UTF-8 runs out of UTF-16 before the next ASCII
character, or into it. -/
theorem not_utf8_prefix_ucs2 {c : UInt16} (hc : 0x80 ≤ c.toNat) (rest : JsString) :
    ¬ utf8Bytes (c :: rest) <+: ucs2Bytes (c :: rest) := by
  intro h
  -- the second byte is the high byte of the first code unit
  have hhigh : 0x80 ≤ c.toNat / 256 ∧ c.toNat / 256 ≤ 0xBF := by
    obtain ⟨a, b, bs, hbytes, _, hb⟩ := utf8Bytes_head hc rest
    rw [hbytes, ucs2Bytes_cons] at h
    have hsecond := (List.cons_prefix_cons.mp (List.cons_prefix_cons.mp h).2).1
    rw [hsecond, isTail_iff, UInt8.toNat_ofNat'] at hb
    have hlt := c.toNat_lt
    omega
  have hplain := not_surrogate_of_lt (show c.toNat < 0xD800 by omega)
  obtain ⟨beyond, behind, hrest, hbeyond, hbehind⟩ : ∃ beyond behind, rest = beyond ++ behind ∧
      (∀ d ∈ beyond, 0x80 ≤ d.toNat) ∧ ∀ a ∈ behind.head?, a < 0x80 := by
    refine ⟨rest.takeWhile (0x80 ≤ ·), rest.dropWhile (0x80 ≤ ·),
      List.takeWhile_append_dropWhile.symm, ?_, ?_⟩
    · intro d hd
      have hpasses := List.all_eq_true.mp (@List.all_takeWhile _ (decide <| 0x80 ≤ ·) rest) d hd
      exact UInt16.le_iff_toNat_le.mp (of_decide_eq_true hpasses)
    · intro a ha
      have hfails := List.head?_dropWhile_not (fun d : UInt16 => decide (0x80 ≤ d)) rest
      rw [Option.mem_def.mp ha] at hfails
      simpa using hfails
  have hlong : 2 * (c :: beyond).length + 1 ≤ (utf8Bytes (c :: beyond)).length := by
    have hthree : (utf8Bytes [c]).length = 3 := by
      rw [utf8Bytes_singleton, unitPoint, if_neg (by simp [hplain])]
      unfold utf8Of
      rw [Option.getD_some, if_neg (by omega), if_neg (by omega), if_pos c.toNat_lt]
      rfl
    have hmore := (utf8Bytes_beyond hbeyond).2
    rw [utf8Bytes_cons (by simp [hplain]), List.length_append, hthree, List.length_cons]
    omega
  have hall := (utf8Bytes_beyond (s := c :: beyond) (by simpa [hc] using hbeyond)).1
  have hshort := ucs2Bytes_length (c :: beyond)
  cases behind with
  | nil =>
      rw [List.append_nil] at hrest
      rw [hrest] at h
      have hle := h.length_le
      omega
  | cons a behind =>
      have ha : a < 0x80 := hbehind a rfl
      rw [hrest, ← List.cons_append, utf8Bytes_append_ascii _ ha, ucs2Bytes_append,
        ucs2Bytes_cons] at h
      have hutf8 := (List.prefix_append _ _).trans h
      have hucs2 : ucs2Bytes (c :: beyond) ++ [UInt8.ofNat (a.toNat % 256)] <+:
          ucs2Bytes (c :: beyond) ++ UInt8.ofNat (a.toNat % 256) ::
            UInt8.ofNat (a.toNat / 256) :: ucs2Bytes behind := by
        apply (List.prefix_append_right_inj _).mpr
        exact List.cons_prefix_cons.mpr ⟨rfl, List.nil_prefix⟩
      have hinside := List.prefix_of_prefix_length_le hucs2 hutf8 (by
        rw [List.length_append, List.length_singleton]
        omega)
      have hbyte := hall _ (hinside.subset (List.mem_append_right _ (List.mem_singleton_self _)))
      have hlt : a.toNat < 0x80 := UInt16.lt_iff_toNat_lt.mp ha
      rw [UInt8.toNat_ofNat'] at hbyte
      omega

/-- UTF-8 runs along UTF-16 only for an ASCII character and zeros behind it. -/
theorem utf8_prefix_ucs2_iff (c : UInt16) (rest : JsString) :
    utf8Bytes (c :: rest) <+: ucs2Bytes (c :: rest) ↔ c < 0x80 ∧ ∀ d ∈ rest, d = 0 := by
  constructor
  · intro h
    have hsmall : c < 0x80 := by
      by_contra hlarge
      exact not_utf8_prefix_ucs2 (Nat.le_of_not_lt fun hlt =>
        hlarge (UInt16.lt_iff_toNat_lt.mpr hlt)) rest h
    have hlt : c.toNat < 0x80 := UInt16.lt_iff_toNat_lt.mp hsmall
    rw [utf8Bytes_cons_ascii hsmall, ucs2Bytes_cons, Nat.div_eq_of_lt (by omega)] at h
    exact ⟨hsmall, zeros_of_prefix (k := 0) (List.cons_prefix_cons.mp h).2⟩
  · rintro ⟨hsmall, hzeros⟩
    have hlt : c.toNat < 0x80 := UInt16.lt_iff_toNat_lt.mp hsmall
    have hrest : utf8Bytes rest = List.replicate rest.length 0 := by
      rw [utf8Bytes_ascii fun d hd => by rw [hzeros d hd]; decide]
      unfold latin1Bytes
      rw [List.eq_replicate_of_mem hzeros, List.map_replicate, List.length_replicate]
      rfl
    have hlow : UInt8.ofNat (c.toNat % 256) = c.toUInt8 := by
      apply UInt8.toNat_inj.mp
      rw [UInt8.toNat_ofNat', UInt16.toNat_toUInt8]
      omega
    rw [utf8Bytes_cons_ascii hsmall, ucs2Bytes_cons, hlow, Nat.div_eq_of_lt (by omega), hrest,
      ucs2Bytes_zeros hzeros]
    apply List.cons_prefix_cons.mpr
    refine ⟨rfl, ?_⟩
    have hzero : UInt8.ofNat 0 :: List.replicate (2 * rest.length) 0 =
        List.replicate (2 * rest.length + 1) (0 : UInt8) := rfl
    rw [hzero, List.prefix_replicate_iff, List.length_replicate]
    exact ⟨by omega, rfl⟩

/-! ### What a string is written as -/

/-- The strings whose UTF-8 is a prefix of their bytes in the encoding. -/
def Utf8Fits (ops : EncodingOps) (s : JsString) : Prop :=
  match ops with
  | .utf8 => True
  | .latin1 | .ascii => ∀ c ∈ s, c < 0x80
  | .ucs2 | .utf16le => ∀ c rest, s = c :: rest → c < 0x80 ∧ ∀ d ∈ rest, d = 0
  | .base64 | .base64url | .hex => s = []

section

variable (simdutf : Base64ToBinary) (maxLength : Nat) (s : JsString)

theorem roomFor_le {ops : EncodingOps} {n : Nat} (hlength : n ≤ ops.byteLength s)
    (hunits : n ≤ s.length * 4) : n ≤ roomFor maxLength s ops := by
  unfold roomFor
  split
  · exact hlength
  · split
    · exact hlength
    · exact hunits

theorem fromStringFast_utf8 : fromStringFast simdutf maxLength s .utf8 = utf8Bytes s := by
  have hle := utf8Bytes_length_le s
  have hroom := roomFor_le maxLength s (Nat.le_refl (EncodingOps.byteLength s .utf8))
    (by simp only [EncodingOps.byteLength]; omega)
  simp only [fromStringFast, EncodingOps.write]
  rw [List.take_of_length_le hroom, trimPartialUtf8_utf8Bytes, List.take_length]

theorem take_ucs2Bytes {ops : EncodingOps} (h : ops.byteLength s = s.length * 2) :
    (ucs2Bytes s).take (min (s.length * 2) (roomFor maxLength s ops) / 2 * 2) = ucs2Bytes s := by
  have hroom := roomFor_le maxLength s (Nat.le_of_eq h.symm) (by omega)
  apply List.take_of_length_le
  rw [ucs2Bytes_length, Nat.min_eq_left hroom]
  omega

theorem take_latin1Bytes {ops : EncodingOps} (h : ops.byteLength s = s.length) :
    (latin1Bytes s).take (roomFor maxLength s ops) = latin1Bytes s := by
  apply List.take_of_length_le
  rw [latin1Bytes, List.length_map]
  exact roomFor_le maxLength s (Nat.le_of_eq h.symm) (by omega)

theorem hexDecode_length (input : Bytes) (dstLen : Nat) :
    2 * (hexDecode input dstLen).length ≤ input.length := by
  induction input, dstLen using hexDecode.induct with
  | case1 high low rest dstLen hi lo hhi hlo ih =>
      simp only [hexDecode, hhi, hlo, List.length_cons]
      omega
  | case2 high low rest dstLen hinvalid =>
      unfold hexDecode
      split
      · rename_i hlo hhi
        exact absurd hhi (hinvalid _ _ hlo)
      · simp
  | case3 input dstLen hother =>
      unfold hexDecode
      split
      · exact absurd rfl (hother _ _ _ _ rfl)
      · simp

theorem maximalBinaryLength_le (input : Bytes) :
    4 * maximalBinaryLengthFromBase64 input ≤ 3 * input.length := by
  have hactual : ∀ n ≤ input.length,
      4 * (if n % 4 ≤ 1 then n / 4 * 3 else n / 4 * 3 + n % 4 - 1) ≤ 3 * input.length := by
    intro n hn
    split
    · omega
    · omega
  exact hactual _ (Nat.sub_le _ _)

variable {simdutf}

theorem base64Decode_length (hbounded : simdutf.Bounded) (url : Bool) (input : Bytes) :
    4 * (base64Decode simdutf url input).length ≤ 3 * input.length := by
  have hmaximal := maximalBinaryLength_le input
  unfold base64Decode
  cases hout : simdutf url input with
  | none => simp
  | some out =>
      have hle := hbounded url input out hout
      rw [Option.getD_some]
      omega

/-- UTF-8 does not fit where fewer bytes than code units are written. -/
theorem not_prefix_of_short {bs : Bytes} (h : bs.length < s.length) :
    ¬ utf8Bytes s <+: bs := by
  intro hprefix
  have hle := hprefix.length_le
  have hlong := (utf8Bytes_length s).1
  omega

theorem take_base64_length (hbounded : simdutf.Bounded) (url : Bool) (hs : s ≠ []) (n : Nat) :
    ((base64Decode simdutf url (latin1Bytes s)).take n).length < s.length := by
  have hpos := List.length_pos_iff.mpr hs
  have hdecoded := base64Decode_length hbounded url (latin1Bytes s)
  rw [latin1Bytes, List.length_map] at hdecoded
  rw [List.length_take]
  have hmin := Nat.min_le_right n (base64Decode simdutf url (latin1Bytes s)).length
  unfold latin1Bytes at hmin ⊢
  omega

/-- For every string, its UTF-8 is a prefix of what `Buffer.from` gives for the encoding exactly when
it fits. -/
theorem utf8_prefix_iff (hbounded : simdutf.Bounded) (ops : EncodingOps) :
    (utf8Bytes s <+: if s = [] then [] else fromStringFast simdutf maxLength s ops) ↔
      Utf8Fits ops s := by
  by_cases hs : s = []
  · subst hs
    cases ops with
    | utf8 | base64 | base64url | hex => simp [Utf8Fits, utf8Bytes_nil]
    | latin1 | ascii | ucs2 | utf16le => simp [Utf8Fits, utf8Bytes_nil]
  · rw [if_neg hs]
    cases ops with
    | utf8 =>
        rw [fromStringFast_utf8]
        simp [Utf8Fits]
    | ucs2 | utf16le =>
        cases s with
        | nil => exact absurd rfl hs
        | cons c rest =>
            simp only [fromStringFast, EncodingOps.write]
            rw [take_ucs2Bytes maxLength _ rfl, utf8_prefix_ucs2_iff]
            simp [Utf8Fits]
    | latin1 | ascii =>
        simp only [fromStringFast, EncodingOps.write]
        rw [take_latin1Bytes maxLength _ rfl]
        unfold Utf8Fits
        simp only
        rw [← utf8Bytes_eq_latin1_iff]
        constructor
        · intro hprefix
          apply hprefix.eq_of_length_le
          rw [latin1Bytes, List.length_map]
          exact (utf8Bytes_length s).1
        · intro hsame
          exact hsame ▸ List.prefix_refl _
    | base64 | base64url =>
        simp only [fromStringFast, EncodingOps.write]
        refine ⟨fun hprefix => ?_, fun hnil => absurd hnil hs⟩
        exact absurd hprefix (not_prefix_of_short s (take_base64_length s hbounded _ hs _))
    | hex =>
        simp only [fromStringFast, EncodingOps.write]
        refine ⟨fun hprefix => ?_, fun hnil => absurd hnil hs⟩
        have hpos := List.length_pos_iff.mpr hs
        have hshort := hexDecode_length (latin1Bytes s) (roomFor maxLength s .hex)
        have hunits : (latin1Bytes s).length = s.length := List.length_map _
        exact absurd hprefix (not_prefix_of_short s (by omega))

end

end HermesNode.Fs

namespace HermesNode.Streams

/-! ### The batches of a stream -/

theorem hexBytes_length (s : JsString) : 2 * (hexBytes s).length ≤ s.length := by
  induction s using hexBytes.induct with
  | case1 high low rest b hbyte ih =>
      simp only [hexBytes, hbyte, List.length_cons]
      omega
  | case2 high low rest hnone => simp [hexBytes, hnone]
  | case3 s hshort => simp [hexBytes]

/-- The strings that mean the UTF-8 which a batch writes for them. -/
theorem raw_eq_payload_iff (base64 : JsString → Bytes) (s : JsString)
    (encoding : StringDecoder.Encoding) :
    (Chunk.string s encoding).raw = (Chunk.string s encoding).payload base64 ↔
      match encoding with
      | .utf8 | .buffer => True
      | .latin1 | .ascii => ∀ c ∈ s, c < 0x80
      | .ucs2 | .hex => s = []
      | .base64 | .base64url => utf8Bytes s = base64 s := by
  unfold Chunk.raw Chunk.payload bytesOf
  have hlong := (utf8Bytes_length s).1
  cases encoding with
  | utf8 | buffer => simp
  | latin1 | ascii => exact utf8Bytes_eq_latin1_iff s
  | base64 | base64url => exact Iff.rfl
  | hex =>
      have hhex := hexBytes_length s
      constructor
      · intro (h : utf8Bytes s = hexBytes s)
        rw [h] at hlong
        exact List.eq_nil_of_length_eq_zero (by omega)
      · rintro rfl
        rfl
  | ucs2 =>
      constructor
      · intro (h : utf8Bytes s = ucs2Bytes s)
        cases s with
        | nil => rfl
        | cons c rest =>
            obtain ⟨hc, hrest⟩ := (Fs.utf8_prefix_ucs2_iff c rest).mp (h ▸ List.prefix_rfl)
            have hascii : ∀ d ∈ c :: rest, d < 0x80 := by
              refine List.forall_mem_cons.mpr ⟨hc, fun d hd => ?_⟩
              rw [hrest d hd]
              decide
            have hlength := congrArg List.length h
            rw [utf8Bytes_ascii hascii, Fs.ucs2Bytes_length, latin1Bytes, List.length_map] at hlength
            simp only [List.length_cons] at hlength
            omega
      · rintro rfl
        rfl

end HermesNode.Streams
