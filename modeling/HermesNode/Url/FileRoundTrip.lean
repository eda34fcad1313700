/-
Module: HermesNode.Url.FileRoundTrip
Purpose: A path through `pathToFileURL` and `fileURLToPath`. The two encoders and the decoder undo each
  other, so what comes out are the segments that the URL parser keeps of the path as it was given. They
  are those of the resolved path where a count along them comes out even, unless the parser drops
  control characters at the end or reads a host.
Trusted boundary: human-reviewed spec (`path.resolve`, behind which a trailing separator is kept)
Main exports: absolutePath, RoundTrips, file_url_iff
-/
import HermesNode.Lib.Text
import HermesNode.Buffer.Codecs
import HermesNode.Url.FileUrl

namespace HermesNode.Url

open Streams (utf8Bytes)

/-! ### Paths -/

/-- `path.resolve(cwd, p)`, and the separator at the end of `p`. -/
def absolutePath (cwd p : Bytes) : Bytes :=
  let resolved := posixResolve cwd p
  if endsInSlash p && !endsInSlash resolved then resolved ++ [slash] else resolved

/-- `fileURLToPath(pathToFileURL(p))` is the absolute path of `p`. -/
def RoundTrips (ada : AdaParse) (cwd : Bytes) (p : JsString) : Prop :=
  ∃ ctx path, pathToFileURL ada p = some ctx ∧ fileURLToPath ada (.url ctx) = some path ∧
    isWellFormed path = true ∧ utf8Bytes path = absolutePath cwd (utf8Bytes p)

/-- The host and the segments that the URL parser reads off a path behind `file://`. -/
def pathOf (host : Bytes → Option Bytes) (p : Bytes) : Option (Bytes × List Bytes) :=
  let name := p.takeWhile (· != slash)
  let segments := splitSlash ((p.dropWhile (· != slash)).drop 1)
  if isNormalizedDriveLetter name then some ([], splitSlash p)
  else if name = [] then some ([], segments)
  else (host (name.flatMap (encodePathChar false))).map fun name =>
    (if name = ascii "localhost" then [] else name, segments)

/-- A control character that is not escaped. -/
def isDropped (b : UInt8) : Bool := b < 0x20 && !([0x00, 0x09, 0x0A, 0x0D] : Bytes).contains b

/-- The count along the segments of an absolute path comes out even. -/
def LevelPath (p : Bytes) : Prop :=
  Level (splitSlash (p.drop 1)).dropLast ((splitSlash (p.drop 1)).getLast (splitSlash_ne_nil _))

/-- A path comes back: it does not end in a control character that is dropped, and if it is absolute
its count comes out even. If it is relative, the parser must read no host off it, and the segments be
those of the resolved path for once. -/
structure Survives (host : Bytes → Option Bytes) (cwd p : Bytes) : Prop where
  kept : ∀ b ∈ p.getLast?, isDropped b = false
  absolute : isAbsolute p = true → LevelPath p
  relative : isAbsolute p = false → ∃ segments, pathOf host p = some ([], segments) ∧
    serializePath (removeDots [] segments) = absolutePath cwd p

/-! ### Escapes -/

/-- A byte as a percent sign and two upper-case digits. -/
def escape (b : UInt8) : Bytes := (percentByte b.toNat).map UInt16.toUInt8

/-- An encoding that writes a byte as it is or escapes it. -/
structure Escaping (encode : UInt8 → Bytes) : Prop where
  byte : ∀ b, encode b = [b] ∧ b ≠ 37 ∨ encode b = escape b
  plain : ∀ b, b = slash ∨ b = 46 ∨ b = 58 ∨ isAsciiAlpha b = true → encode b = [b]
  bar : encode 124 = escape 124

/-- The bytes of a path in the path of its URL. -/
def pathCode (b : UInt8) : Bytes := (encodePathChar false b).flatMap encodePathByte

/-- The bytes that `encodePathChars` escapes. -/
def escapedBytes : List UInt8 :=
  [0x00, 0x09, 0x0A, 0x0D, 0x20, 0x22, 0x23, 0x25, 0x3F, 0x5B, 0x5C, 0x5D, 0x5E, 0x7C, 0x7E]

theorem lookup_map {α β : Type} [BEq α] [LawfulBEq α] (f : α → β) (xs : List α) (a : α) :
    (xs.map fun x => (x, f x)).lookup a = if xs.contains a then some (f a) else none := by
  induction xs with
  | nil => rfl
  | cons x xs ih =>
      rw [List.map_cons, List.lookup_cons, ih, List.contains_cons]
      cases hax : a == x with
      | true => simp [eq_of_beq hax]
      | false => rw [Bool.false_or]

theorem encodePathChar_eq (b : UInt8) :
    encodePathChar false b = if escapedBytes.contains b then escape b else [b] := by
  have htable : pathEscapes = escapedBytes.map fun b => (b, escape b) := rfl
  rw [encodePathChar, Bool.false_and, if_neg Bool.false_ne_true, htable, lookup_map]
  split <;> rfl

theorem hexDigit_byte : ∀ d < 16, (upperHexDigit d).toUInt8 ≠ slash ∧
    ¬ (upperHexDigit d).toUInt8 ≤ 0x20 ∧ (upperHexDigit d).toUInt8.toNat < 0x80 ∧
    inPathSet (upperHexDigit d).toUInt8 = false ∧ (upperHexDigit d).toUInt8 ∉ reservedBytes := by
  decide

theorem escape_byte {b c : UInt8} (h : c ∈ escape b) :
    c ≠ slash ∧ ¬ c ≤ 0x20 ∧ c.toNat < 0x80 ∧ inPathSet c = false ∧ c ∉ reservedBytes := by
  have hb := b.toNat_lt
  have hcases : c = 37 ∨ c = (upperHexDigit (b.toNat / 16)).toUInt8 ∨
      c = (upperHexDigit (b.toNat % 16)).toUInt8 := by
    simpa [escape, percentByte] using h
  obtain rfl | rfl | rfl := hcases
  · decide
  · exact hexDigit_byte _ (by omega)
  · exact hexDigit_byte _ (by omega)

theorem pathCode_eq (b : UInt8) :
    pathCode b = if escapedBytes.contains b || inPathSet b then escape b else [b] := by
  unfold pathCode
  rw [encodePathChar_eq]
  cases escapedBytes.contains b with
  | true =>
      have hsame : ∀ c ∈ escape b, encodePathByte c = [c] := fun c hc => by
        rw [encodePathByte, (escape_byte hc).2.2.2.1, if_neg Bool.false_ne_true]
      rw [if_pos rfl, List.flatMap_congr hsame, List.flatMap_singleton']
      rfl
  | false =>
      rw [if_neg Bool.false_ne_true, List.flatMap_singleton, Bool.false_or]
      rfl

theorem escaping_of {encode : UInt8 → Bytes} {escaped : UInt8 → Bool}
    (hencode : ∀ b, encode b = if escaped b then escape b else [b]) (hpercent : escaped 37 = true)
    (hbar : escaped 124 = true) (hslash : escaped slash = false) (hdot : escaped 46 = false)
    (hcolon : escaped 58 = false) (halpha : ∀ b, isAsciiAlpha b = true → escaped b = false) :
    Escaping encode where
  byte b := by
    rw [hencode]
    split
    · exact Or.inr rfl
    · rename_i hnot
      refine Or.inl ⟨rfl, ?_⟩
      rintro rfl
      exact hnot hpercent
  plain b hb := by
    have hnot : escaped b = false := by
      obtain rfl | rfl | rfl | hb := hb
      · exact hslash
      · exact hdot
      · exact hcolon
      · exact halpha b hb
    rw [hencode, hnot]
    rfl
  bar := by rw [hencode, hbar, if_pos rfl]

theorem isAsciiAlpha_plain : ∀ b, isAsciiAlpha b = true →
    escapedBytes.contains b = false ∧ inPathSet b = false :=
  StringDecoder.forall_bytes (by decide +kernel)

theorem escaping_encodePathChar : Escaping (encodePathChar false) :=
  escaping_of encodePathChar_eq (by decide) (by decide) (by decide) (by decide) (by decide)
    fun b hb => (isAsciiAlpha_plain b hb).1

theorem escaping_pathCode : Escaping pathCode :=
  escaping_of pathCode_eq (by decide) (by decide) (by decide) (by decide) (by decide) fun b hb => by
    rw [(isAsciiAlpha_plain b hb).1, (isAsciiAlpha_plain b hb).2]
    rfl

/-- The URL has no byte but ASCII ones, and a slash is not escaped. -/
theorem pathCode_byte (b : UInt8) :
    pathCode b = [b] ∧ b ≠ 37 ∧ b < 0x80 ∨ pathCode b = escape b ∧ b ≠ slash := by
  have hset : inPathSet b = false → b < 0x80 := by
    intro hclear
    simp only [inPathSet, Bool.or_eq_false_iff, decide_eq_false_iff_not] at hclear
    exact UInt8.lt_of_le_of_lt (UInt8.not_lt.mp hclear.1.2) (by decide)
  rw [pathCode_eq]
  split
  · rename_i hescaped
    refine Or.inr ⟨rfl, ?_⟩
    rintro rfl
    exact absurd hescaped (by decide)
  · rename_i hplain
    rw [Bool.not_eq_true, Bool.or_eq_false_iff] at hplain
    refine Or.inl ⟨rfl, ?_, hset hplain.2⟩
    rintro rfl
    exact absurd hplain.1 (by decide)

theorem hexDigit_unit : ∀ d < 16, (upperHexDigit d).toUInt8.toUInt16 = upperHexDigit d := by decide

theorem percentDecode_escape_append (b : UInt8) (rest : Bytes) :
    percentDecode (escape b ++ rest) = b :: percentDecode rest := by
  have hb := b.toNat_lt
  change percentDecode (37 :: (upperHexDigit (b.toNat / 16)).toUInt8 ::
    (upperHexDigit (b.toNat % 16)).toUInt8 :: rest) = _
  rw [percentDecode, if_pos rfl, hexDigit_unit _ (by omega), hexDigit_unit _ (by omega),
    hexByte_percent hb, UInt8.ofNat_toNat]

theorem splitSlash_free_append {x : Bytes} (h : slash ∉ x) {rest seg : Bytes} {segs : List Bytes}
    (hrest : splitSlash rest = seg :: segs) : splitSlash (x ++ rest) = (x ++ seg) :: segs := by
  induction x with
  | nil => exact hrest
  | cons c x ih =>
      have hc : c ≠ slash := fun heq => h (heq ▸ List.mem_cons_self)
      rw [List.cons_append, splitSlash, if_neg hc, ih fun hin => h (List.mem_cons_of_mem _ hin)]
      rfl

namespace Escaping

variable {encode : UInt8 → Bytes} (h : Escaping encode)
include h

theorem decode (bs : Bytes) : percentDecode (bs.flatMap encode) = bs := by
  induction bs with
  | nil => rfl
  | cons b bs ih =>
      rw [List.flatMap_cons]
      obtain ⟨hliteral, hne⟩ | hescape := h.byte b
      · rw [hliteral, List.singleton_append, percentDecode_cons hne, ih]
      · rw [hescape, percentDecode_escape_append, ih]

theorem injective {bs cs : Bytes} (heq : bs.flatMap encode = cs.flatMap encode) : bs = cs := by
  rw [← h.decode bs, heq, h.decode]

theorem free {b : UInt8} (hb : b ≠ slash) : slash ∉ encode b := by
  obtain ⟨hliteral, -⟩ | hescape := h.byte b
  · rw [hliteral, List.mem_singleton]
    exact hb.symm
  · rw [hescape]
    exact fun hin => (escape_byte hin).1 rfl

/-- The separators stay where they are. -/
theorem split (bs : Bytes) :
    splitSlash (bs.flatMap encode) = (splitSlash bs).map fun seg => seg.flatMap encode := by
  induction bs with
  | nil => rfl
  | cons b bs ih =>
      rw [List.flatMap_cons]
      by_cases hb : b = slash
      · rw [hb, h.plain slash (Or.inl rfl), List.singleton_append, splitSlash, if_pos rfl, splitSlash,
          if_pos rfl, ih]
        rfl
      · obtain ⟨seg, segs, hsplit⟩ := List.exists_cons_of_ne_nil (splitSlash_ne_nil bs)
        rw [hsplit, List.map_cons] at ih
        rw [splitSlash_free_append (h.free hb) ih, splitSlash, if_neg hb, hsplit]
        rfl

theorem takeWhile (bs : Bytes) :
    (bs.flatMap encode).takeWhile (· != slash) = (bs.takeWhile (· != slash)).flatMap encode := by
  induction bs with
  | nil => rfl
  | cons b bs ih =>
      rw [List.flatMap_cons]
      by_cases hb : b = slash
      · simp [hb, h.plain slash (Or.inl rfl)]
      · have hfree : ∀ c ∈ encode b, (c != slash) = true := fun c hc => by
          rw [bne_iff_ne]
          rintro rfl
          exact h.free hb hc
        rw [List.takeWhile_append_of_pos hfree, ih, List.takeWhile_cons_of_pos (by simpa using hb),
          List.flatMap_cons]

theorem dropWhile (bs : Bytes) :
    ((bs.flatMap encode).dropWhile (· != slash)).drop 1 =
      ((bs.dropWhile (· != slash)).drop 1).flatMap encode := by
  induction bs with
  | nil => rfl
  | cons b bs ih =>
      rw [List.flatMap_cons]
      by_cases hb : b = slash
      · simp [hb, h.plain slash (Or.inl rfl)]
      · have hfree : ∀ c ∈ encode b, (c != slash) = true := fun c hc => by
          rw [bne_iff_ne]
          rintro rfl
          exact h.free hb hc
        rw [List.dropWhile_append_of_pos hfree, ih, List.dropWhile_cons_of_pos (by simpa using hb)]

theorem eq_nil {bs : Bytes} : bs.flatMap encode = [] ↔ bs = [] :=
  ⟨fun hnil => h.injective hnil, fun hnil => by rw [hnil]; rfl⟩

/-- A drive letter is written as it is, and the encoding leaves no other one. -/
theorem drive (bs : Bytes) :
    isDriveLetter (bs.flatMap encode) = isNormalizedDriveLetter bs := by
  rw [Bool.eq_iff_iff, isDriveLetter_iff, isNormalizedDriveLetter_iff]
  constructor
  · rintro ⟨a, b, hbuffer, halpha, hb⟩
    have hshort : percentDecode [a, b] = [a, b] := by simp [percentDecode]
    have hdecode := h.decode bs
    rw [hbuffer, hshort] at hdecode
    subst hdecode
    obtain rfl | rfl := hb
    · exact ⟨a, rfl, halpha⟩
    · -- The other spelling is escaped.
      rw [List.flatMap_cons, h.plain a (Or.inr (Or.inr (Or.inr halpha))), List.flatMap_cons,
        h.bar] at hbuffer
      exact absurd (congrArg List.length hbuffer) (by simp [escape, percentByte])
  · rintro ⟨a, rfl, halpha⟩
    refine ⟨a, 58, ?_, halpha, Or.inl rfl⟩
    rw [List.flatMap_cons, h.plain a (Or.inr (Or.inr (Or.inr halpha))), List.flatMap_cons,
      h.plain 58 (Or.inr (Or.inr (Or.inl rfl)))]
    rfl

theorem normalized (bs : Bytes) :
    isNormalizedDriveLetter (bs.flatMap encode) = isNormalizedDriveLetter bs := by
  rw [Bool.eq_iff_iff]
  constructor
  · intro hdrive
    obtain ⟨a, hbuffer, halpha⟩ := isNormalizedDriveLetter_iff.mp hdrive
    rw [← h.drive bs, isDriveLetter_iff]
    exact ⟨a, 58, hbuffer, halpha, Or.inl rfl⟩
  · intro hdrive
    obtain ⟨a, rfl, halpha⟩ := isNormalizedDriveLetter_iff.mp hdrive
    refine isNormalizedDriveLetter_iff.mpr ⟨a, ?_, halpha⟩
    rw [List.flatMap_cons, h.plain a (Or.inr (Or.inr (Or.inr halpha))), List.flatMap_cons,
      h.plain 58 (Or.inr (Or.inr (Or.inl rfl)))]
    rfl

/-- A segment of some spellings, where the first one is written as it is. -/
theorem contains {spellings : List Bytes} {seg : Bytes}
    (hdecode : ∀ x ∈ spellings, percentDecode x = seg) (hself : seg.flatMap encode ∈ spellings)
    (bs : Bytes) : spellings.contains (bs.flatMap encode) = true ↔ bs = seg := by
  rw [List.contains_iff_mem]
  constructor
  · intro hin
    rw [← h.decode bs]
    exact hdecode _ hin
  · rintro rfl
    exact hself

end Escaping

/-! ### The segments of the URL -/

/-- A segment in the path of a URL. -/
def codeSegment (seg : Bytes) : Bytes := seg.flatMap pathCode

def encodeSegment (seg : Bytes) : Bytes := seg.flatMap (encodePathChar false)

theorem codeSegment_eq (seg : Bytes) :
    (encodeSegment seg).flatMap encodePathByte = codeSegment seg := by
  rw [encodeSegment, List.flatMap_assoc]
  rfl

theorem shorten_code (path : List Bytes) :
    shorten (path.map codeSegment) = (shorten path).map codeSegment := by
  match path with
  | [] => rfl
  | [drive] =>
      rw [List.map_singleton, shorten_singleton, shorten_singleton, codeSegment,
        escaping_pathCode.normalized]
      split <;> rfl
  | top :: next :: rest => rfl

theorem doubleDots_code (seg : Bytes) :
    doubleDots.contains (codeSegment seg) = true ↔ seg = dotDot :=
  escaping_pathCode.contains (by decide) (by decide) seg

theorem singleDots_code (seg : Bytes) :
    singleDots.contains (codeSegment seg) = true ↔ seg = dot :=
  escaping_pathCode.contains (by decide) (by decide) seg

theorem set_drive {seg : Bytes} (h : isDriveLetter (codeSegment seg) = true) :
    (codeSegment seg).set 1 58 = codeSegment seg := by
  rw [codeSegment, escaping_pathCode.drive, isNormalizedDriveLetter_iff] at h
  obtain ⟨a, rfl, halpha⟩ := h
  rw [codeSegment, List.flatMap_cons,
    escaping_pathCode.plain a (Or.inr (Or.inr (Or.inr halpha))), List.flatMap_cons,
    escaping_pathCode.plain 58 (Or.inr (Or.inr (Or.inl rfl)))]
  rfl

theorem pathStep_code (isLast : Bool) (path : List Bytes) (seg : Bytes) :
    pathStep isLast (path.map codeSegment) (encodeSegment seg) =
      (if isLast = true ∧ (seg = dot ∨ seg = dotDot) then [] :: dotStep path seg
        else dotStep path seg).map codeSegment := by
  have hdots : dotDot ≠ dot := by decide
  unfold pathStep
  rw [codeSegment_eq]
  dsimp only
  by_cases hdotDot : seg = dotDot
  · rw [if_pos ((doubleDots_code seg).mpr hdotDot), shorten_code, dotStep, if_pos hdotDot]
    cases isLast <;> simp [hdotDot, codeSegment]
  rw [if_neg fun hin => hdotDot ((doubleDots_code seg).mp hin)]
  by_cases hdot : seg = dot
  · rw [if_pos ((singleDots_code seg).mpr hdot), dotStep, if_neg hdotDot, if_pos hdot]
    cases isLast <;> simp [hdot, codeSegment]
  · have hplain : ¬ (isLast = true ∧ (seg = dot ∨ seg = dotDot)) :=
      fun hlast => hlast.2.elim hdot hdotDot
    rw [if_neg fun hin => hdot ((singleDots_code seg).mp hin), dotStep, if_neg hdotDot, if_neg hdot,
      if_neg hplain]
    split
    · rename_i hdrive
      rw [set_drive (Bool.and_eq_true_iff.mp hdrive).2]
      rfl
    · rfl

theorem pathState_encode (path segs : List Bytes) :
    pathState (path.map codeSegment) (segs.map encodeSegment) =
      (removeDots path segs).map codeSegment := by
  induction segs generalizing path with
  | nil => rfl
  | cons seg segs ih =>
      cases segs with
      | nil =>
          rw [List.map_singleton, pathState, pathStep_code, removeDots]
          simp
      | cons next rest =>
          rw [List.map_cons, List.map_cons, pathState, pathStep_code]
          simp only [Bool.false_eq_true, false_and, if_false]
          exact ih (dotStep path seg)

theorem serializePath_code (path : List Bytes) :
    serializePath (path.map codeSegment) = codeSegment (serializePath path) := by
  have hslash : pathCode slash = [slash] := by decide
  unfold serializePath
  rw [← List.map_reverse]
  induction path.reverse with
  | nil => rfl
  | cons seg segs ih =>
      rw [List.map_cons, List.flatMap_cons, ih, List.flatMap_cons]
      simp only [codeSegment, List.cons_append, List.flatMap_cons, List.flatMap_append, hslash,
        List.nil_append]

/-! ### Encoding and decoding -/

theorem codeUnits_append (as bs : Bytes) :
    codeUnits (as ++ bs) = codeUnits as ++ codeUnits bs := List.map_append

theorem codeUnits_escape (b : UInt8) : codeUnits (escape b) = percentByte b.toNat := by
  have hb := b.toNat_lt
  change [37, (upperHexDigit (b.toNat / 16)).toUInt8.toUInt16,
    (upperHexDigit (b.toNat % 16)).toUInt8.toUInt16] = _
  rw [hexDigit_unit _ (by omega), hexDigit_unit _ (by omega)]
  rfl

theorem ascii_char {b : UInt8} (h : b < 0x80) :
    IsScalar b.toNat ∧ utf8Char b.toNat = [b] ∧ utf16Of b.toNat = [b.toUInt16] := by
  have hlt : b.toNat < 0x80 := UInt8.lt_iff_toNat_lt.mp h
  refine ⟨Or.inl (by omega), ?_, ?_⟩
  · rw [utf8Char, utf8Of, if_pos hlt, List.map_singleton, UInt8.ofNat_toNat]
  · rw [utf16Of, if_pos (by omega), UInt16.ofNat_uInt8ToNat]

theorem decodeFrom_code (pending : Option Pending) (bs : Bytes) :
    decodeFrom pending (codeUnits (codeSegment bs)) = strictFrom pending bs := by
  induction bs generalizing pending with
  | nil => rfl
  | cons b bs ih =>
      rw [codeSegment, List.flatMap_cons, codeUnits_append]
      obtain ⟨hliteral, hne, hascii⟩ | ⟨hescape, -⟩ := pathCode_byte b
      · obtain ⟨hscalar, hchar, hunits⟩ := ascii_char hascii
        have hunit : b.toUInt16 ≠ 37 := fun heq => hne (UInt8.toUInt16_inj.mp heq)
        rw [hliteral]
        change decodeFrom pending (b.toUInt16 :: codeUnits (codeSegment bs)) = _
        cases pending with
        | none =>
            have hbytes := strictFrom_char hscalar bs
            rw [hchar, hunits] at hbytes
            rw [decodeFrom_literal hunit, ih]
            exact hbytes.symm
        | some p =>
            have hbytes := @strictFrom_pending_char p _ hscalar bs
            rw [hchar] at hbytes
            rw [decodeFrom.eq_def]
            simp only [if_neg hunit, Option.isSome_some, if_true]
            exact hbytes.symm
      · rw [hescape, codeUnits_escape, decodeFrom_percentByte pending b.toNat_lt, UInt8.ofNat_toNat,
          strictFrom]
        simp only [← ih]
        rfl

theorem hasEncodedSlash_cons {c : UInt16} (h : c ≠ 0x25) (rest : JsString) :
    hasEncodedSlash (c :: rest) = hasEncodedSlash rest := by
  match rest with
  | [] => rfl
  | [d] => rfl
  | d :: e :: rest => simp [hasEncodedSlash, h]

theorem hasEncodedSlash_escape {b : UInt8} (hb : b ≠ slash) (rest : JsString) :
    hasEncodedSlash (percentByte b.toNat ++ rest) = hasEncodedSlash rest := by
  have hdigits : ∀ d < 16, upperHexDigit d ≠ 0x25 ∧ (upperHexDigit d = 0x32 → d = 2) ∧
      (upperHexDigit d ||| 0x20 = 0x66 → d = 15) := by decide +kernel
  have hlt := b.toNat_lt
  obtain ⟨hhigh, htwo, -⟩ := hdigits (b.toNat / 16) (by omega)
  obtain ⟨hlow, -, hfifteen⟩ := hdigits (b.toNat % 16) (by omega)
  change hasEncodedSlash (0x25 :: upperHexDigit (b.toNat / 16) ::
    upperHexDigit (b.toNat % 16) :: rest) = _
  rw [hasEncodedSlash, hasEncodedSlash_cons hhigh, hasEncodedSlash_cons hlow]
  simp only [beq_self_eq_true, Bool.true_and, Bool.or_eq_right_iff_imp, Bool.and_eq_true,
    beq_iff_eq]
  rintro ⟨hseconds, hthirds⟩
  have hslash : b.toNat = slash.toNat := by
    have hh := htwo hseconds
    have hl := hfifteen hthirds
    change b.toNat = 47
    omega
  exact absurd (UInt8.toNat_inj.mp hslash) hb

theorem hasEncodedSlash_code (bs : Bytes) :
    hasEncodedSlash (codeUnits (codeSegment bs)) = false := by
  induction bs with
  | nil => rfl
  | cons b bs ih =>
      rw [codeSegment, List.flatMap_cons, codeUnits_append]
      obtain ⟨hliteral, hne, -⟩ | ⟨hescape, hslash⟩ := pathCode_byte b
      · have hunit : b.toUInt16 ≠ 0x25 := fun heq => hne (UInt8.toUInt16_inj.mp heq)
        rw [hliteral]
        exact (hasEncodedSlash_cons hunit _).trans ih
      · rw [hescape, codeUnits_escape, hasEncodedSlash_escape hslash]
        exact ih

theorem isUtf8_strict (bs : Bytes) : isUtf8 bs = (strictFrom none bs).isSome := by
  rw [strictFrom_eq]
  cases isUtf8 bs <;> rfl

theorem isUtf8_char {cp : Nat} (h : IsScalar cp) (rest : Bytes) :
    isUtf8 (utf8Char cp ++ rest) = isUtf8 rest := by
  rw [isUtf8_strict, strictFrom_char h, Option.isSome_map, ← isUtf8_strict]

theorem isUtf8_ascii_append {as : Bytes} (h : ∀ b ∈ as, b.toNat < 0x80) (rest : Bytes) :
    isUtf8 (as ++ rest) = isUtf8 rest := by
  induction as with
  | nil => rfl
  | cons a as ih =>
      rw [List.cons_append, isUtf8_ascii (h a List.mem_cons_self),
        ih fun b hb => h b (List.mem_cons_of_mem _ hb)]

/-- What `encodePathChar` makes of ASCII bytes and others. -/
theorem encodePathChar_byte (b : UInt8) :
    (b < 0x80 → ∀ c ∈ encodePathChar false b, c.toNat < 0x80) ∧
    (0x80 ≤ b → encodePathChar false b = [b]) ∧
    ∀ c ∈ encodePathChar false b, c ∉ reservedBytes := by
  rw [encodePathChar_eq]
  split
  · rename_i hescaped
    refine ⟨fun _ c hc => (escape_byte hc).2.2.1, fun hle => ?_, fun c hc => (escape_byte hc).2.2.2.2⟩
    have hascii : escapedBytes.all (! 0x80 ≤ ·) = true := by decide
    have hb := List.all_eq_true.mp hascii b (List.contains_iff_mem.mp hescaped)
    rw [decide_eq_true hle] at hb
    cases hb
  · rename_i hplain
    have hreserved : reservedBytes.all escapedBytes.contains = true := by decide
    refine ⟨fun hlt c hc => ?_, fun _ => rfl, fun c hc hin => ?_⟩
    · rw [List.mem_singleton.mp hc]
      exact UInt8.lt_iff_toNat_lt.mp hlt
    · rw [List.mem_singleton.mp hc] at hin
      exact hplain (List.all_eq_true.mp hreserved b hin)

theorem isUtf8_encodeSegment {bs : Bytes} (h : isUtf8 bs = true) :
    isUtf8 (encodeSegment bs) = true := by
  obtain ⟨cps, hcps, rfl⟩ := isUtf8_points h
  clear h
  unfold encodeSegment
  induction cps with
  | nil => rfl
  | cons cp cps ih =>
      have hcp := hcps cp List.mem_cons_self
      have ih := ih fun d hd => hcps d (List.mem_cons_of_mem _ hd)
      rw [List.flatMap_cons, List.flatMap_append]
      by_cases hascii : cp < 0x80
      · have hbyte : (UInt8.ofNat cp).toNat < 0x80 := by
          rw [UInt8.toNat_ofNat']
          omega
        have hchar : utf8Char cp = [UInt8.ofNat cp] := by rw [utf8Char, utf8Of, if_pos hascii]; rfl
        rw [hchar, List.flatMap_singleton, isUtf8_ascii_append]
        · exact ih
        · exact (encodePathChar_byte _).1 (UInt8.lt_iff_toNat_lt.mpr hbyte)
      · -- The bytes of another character stay as they are.
        have hsame : (utf8Char cp).flatMap (encodePathChar false) = utf8Char cp := by
          have hbytes : ∀ b ∈ utf8Char cp, encodePathChar false b = [b] := by
            intro b hb
            obtain ⟨n, hn, rfl⟩ := List.mem_map.mp hb
            have hrange := utf8Of_bytes hcp hn
            apply (encodePathChar_byte _).2.1
            rw [UInt8.le_iff_toNat_le, UInt8.toNat_ofNat']
            change 0x80 ≤ _
            omega
          rw [List.flatMap_congr hbytes, List.flatMap_singleton']
        rw [hsame, isUtf8_char hcp]
        exact ih

/-! ### What the parser reads -/

/-- A path without the control characters at its end that are dropped. -/
def trimPath (p : Bytes) : Bytes := p.rdropWhile isDropped

theorem encodePathChar_dropped (b : UInt8) :
    encodePathChar false b = [b] ∧ decide (b ≤ 0x20) = isDropped b ∨
    encodePathChar false b = escape b ∧ isDropped b = false := by
  have hsame : ∀ b, escapedBytes.contains b = false → decide (b ≤ 0x20) = isDropped b :=
    StringDecoder.forall_bytes (by decide +kernel)
  have hkept : escapedBytes.any isDropped = false := by decide
  rw [encodePathChar_eq]
  split
  · rename_i hescaped
    have hb := List.any_eq_false.mp hkept b (List.contains_iff_mem.mp hescaped)
    exact Or.inr ⟨rfl, Bool.not_eq_true _ ▸ hb⟩
  · rename_i hplain
    exact Or.inl ⟨rfl, hsame b (Bool.not_eq_true _ ▸ hplain)⟩

theorem escape_last (b : UInt8) : ∃ front c, escape b = front ++ [c] ∧ ¬ c ≤ 0x20 :=
  ⟨[37, (upperHexDigit (b.toNat / 16)).toUInt8], _, rfl,
    (hexDigit_byte (b.toNat % 16) (by omega)).2.1⟩

theorem trimEnd_encode (p : Bytes) : trimEnd (encodeSegment p) = encodeSegment (trimPath p) := by
  unfold trimEnd trimPath encodeSegment
  induction p using List.reverseRecOn with
  | nil => rfl
  | append_singleton p b ih =>
      rw [List.flatMap_append, List.flatMap_singleton]
      obtain ⟨hliteral, hsame⟩ | ⟨hescape, hkept⟩ := encodePathChar_dropped b
      · rw [hliteral, List.rdropWhile_concat, List.rdropWhile_concat, ← hsame, ih]
        split
        · rfl
        · rw [List.flatMap_append, List.flatMap_singleton, hliteral]
      · obtain ⟨front, c, hlast, hc⟩ := escape_last b
        rw [hescape, hlast, ← List.append_assoc, List.rdropWhile_concat_neg _ _ _ (by simpa using hc),
          List.rdropWhile_concat_neg _ _ _ (by simp [hkept]), List.flatMap_append,
          List.flatMap_singleton, hescape, hlast, List.append_assoc]

theorem fileText_encode (host : Bytes → Option Bytes) (p : Bytes) :
    fileText host (encodeSegment p) =
      (pathOf host p).map fun found => (found.1, found.2.map encodeSegment) := by
  unfold fileText pathOf encodeSegment
  dsimp only
  rw [escaping_encodePathChar.takeWhile, escaping_encodePathChar.dropWhile,
    escaping_encodePathChar.drive, escaping_encodePathChar.split, escaping_encodePathChar.split]
  simp only [escaping_encodePathChar.eq_nil]
  split
  · rfl
  split
  · rfl
  · rw [Option.map_map]
    rfl

variable {host : Bytes → Option Bytes}

theorem pathOf_name {p name : Bytes} {segments : List Bytes}
    (h : pathOf host p = some (name, segments)) : name ≠ ascii "localhost" := by
  unfold pathOf at h
  dsimp only at h
  split at h
  · cases h
    decide
  split at h
  · cases h
    decide
  · obtain ⟨name', -, heq⟩ := Option.map_eq_some_iff.mp h
    cases heq
    split
    · decide
    · assumption

theorem foreignHost_codeUnits {name : Bytes} (h : name ≠ ascii "localhost") :
    foreignHost (some (codeUnits name)) = false ↔ name = [] := by
  cases name with
  | nil => simp [foreignHost, codeUnits]
  | cons c name =>
      have hne : codeUnits (c :: name) ≠ codeUnits (ascii "localhost") := fun heq =>
        h (List.map_injective_iff.mpr (fun _ _ => UInt8.toUInt16_inj.mp) heq)
      simpa [foreignHost, codeUnits] using hne

variable {p : Bytes}

theorem isUtf8_behind (h : isUtf8 p = true) :
    isUtf8 ((p.dropWhile (· != slash)).drop 1) = true := by
  have hsplit := List.takeWhile_append_dropWhile (p := (· != slash)) (l := p)
  cases hdrop : p.dropWhile (· != slash) with
  | nil => rfl
  | cons c rest =>
      have hc : c = slash := by
        have hhead := List.head_dropWhile_not (p := (· != slash)) (l := p) (by simp [hdrop])
        simpa [hdrop] using hhead
      rw [hdrop, hc] at hsplit
      rw [← hsplit, isUtf8_split slash_ascii] at h
      exact (Bool.and_eq_true_iff.mp h).2

/-- The segments that are read are those of an end of the path. -/
theorem pathOf_suffix {p name : Bytes} {segments : List Bytes}
    (h : pathOf host p = some (name, segments)) :
    ∃ s, s <:+ p ∧ segments = splitSlash s ∧ (isUtf8 p = true → isUtf8 s = true) := by
  have hbehind : (p.dropWhile (· != slash)).drop 1 <:+ p :=
    (List.drop_suffix _ _).trans (List.dropWhile_suffix _)
  unfold pathOf at h
  dsimp only at h
  split at h
  · cases h
    exact ⟨p, List.suffix_rfl, rfl, id⟩
  split at h
  · cases h
    exact ⟨_, hbehind, rfl, isUtf8_behind⟩
  · obtain ⟨name', -, heq⟩ := Option.map_eq_some_iff.mp h
    cases heq
    exact ⟨_, hbehind, rfl, isUtf8_behind⟩

theorem isUtf8_trimPath (h : isUtf8 p = true) : isUtf8 (trimPath p) = true := by
  have hdropped : ∀ b, isDropped b = true → b.toNat < 0x80 := by
    intro b hb
    have hlt : b < 0x20 := by
      simp only [isDropped, Bool.and_eq_true, decide_eq_true_eq] at hb
      exact hb.1
    have hnat : b.toNat < 0x20 := UInt8.lt_iff_toNat_lt.mp hlt
    omega
  have hsplit : p.rdropWhile isDropped ++ p.rtakeWhile isDropped = p :=
    List.rdropWhile_append_rtakeWhile
  cases htaken : p.rtakeWhile isDropped with
  | nil =>
      rw [htaken, List.append_nil] at hsplit
      rwa [trimPath, hsplit]
  | cons c rest =>
      have hc : isDropped c = true :=
        List.mem_rtakeWhile_imp (by rw [htaken]; exact List.mem_cons_self)
      rw [htaken] at hsplit
      rw [← hsplit, isUtf8_split (hdropped c hc)] at h
      exact (Bool.and_eq_true_iff.mp h).1

theorem exists_snoc (p : Bytes) : ∃ front last, splitSlash p = front ++ [last] :=
  ⟨_, _, (List.dropLast_append_getLast (splitSlash_ne_nil p)).symm⟩

/-- The path that is left of some segments is as well encoded as they are. -/
theorem isUtf8_removeDots {s : Bytes} (h : isUtf8 s = true) :
    isUtf8 (serializePath (removeDots [] (splitSlash s))) = true := by
  obtain ⟨front, last, hsplit⟩ := exists_snoc s
  obtain ⟨top, rest, hpath, -⟩ := removeDots_last front last
  rw [hsplit, serializePath_absPath (by rw [hpath]; exact List.cons_ne_nil _ _), absPath,
    isUtf8_ascii slash_ascii, isUtf8_joinSlash, List.all_eq_true]
  intro seg hseg
  obtain rfl | hin := removeDots_mem (List.mem_reverse.mp hseg)
  · rfl
  · exact isUtf8_segment h (hsplit ▸ hin)

/-! ### What comes back -/

theorem isUtf8_wellFormed {p : JsString} (h : isWellFormed p = true) :
    isUtf8 (utf8Bytes p) = true := by
  obtain ⟨cps, rfl, hcps⟩ := isWellFormed_iff.mp h
  clear h
  induction cps with
  | nil => rfl
  | cons cp cps ih =>
      rw [List.flatMap_cons, utf8Bytes_point (hcps cp List.mem_cons_self),
        isUtf8_char (hcps cp List.mem_cons_self)]
      exact ih fun d hd => hcps d (List.mem_cons_of_mem _ hd)

/-- The path of a `file:` URL whose segments come from an encoded path. -/
theorem fileURLToPath_file (ada : AdaParse) {ctx : UrlContext} {name path : Bytes}
    (hfile : ctx.IsFile name (codeSegment path)) (hname : name ≠ ascii "localhost")
    (hpath : isUtf8 path = true) :
    fileURLToPath ada (.url ctx) = if name = [] then some (decodeUtf8 path) else none := by
  have hdecode : decodeURIComponent (codeUnits (codeSegment path)) = some (decodeUtf8 path) := by
    rw [decodeURIComponent, decodeFrom_code, strictFrom_eq, if_pos hpath]
  simp only [fileURLToPath, PathArg.props, PathArg.isURL, UrlContext.props, Option.bind_eq_bind,
    Option.bind_some, Bool.not_true, Bool.false_and, Bool.false_eq_true, if_false, hfile.hostname,
    hfile.pathname, hasEncodedSlash_code, hdecode]
  by_cases hnil : name = []
  · rw [if_pos hnil, if_neg (by rw [(foreignHost_codeUnits hname).mpr hnil]; exact Bool.false_ne_true)]
  · rw [if_neg hnil, if_pos]
    rw [← Bool.not_eq_false, foreignHost_codeUnits hname]
    exact hnil

/-- What comes back of a path: the segments that the parser reads and keeps. -/
theorem roundTrips_path {ada : AdaParse} (h : ada.Standard host)
    (cwd : Bytes) {p : JsString} (hp : isWellFormed p = true) :
    RoundTrips ada cwd p ↔ ∃ segments, pathOf host (trimPath (utf8Bytes p)) = some ([], segments) ∧
      serializePath (removeDots [] segments) = absolutePath cwd (utf8Bytes p) := by
  have hutf8 := isUtf8_wellFormed hp
  have hbytes : ∀ b ∈ encodeSegment (utf8Bytes p), b ∉ reservedBytes := by
    intro b hb
    obtain ⟨c, -, hc⟩ := List.mem_flatMap.mp hb
    exact (encodePathChar_byte c).2.2 b hc
  have htext := fileText_encode host (trimPath (utf8Bytes p))
  rw [← trimEnd_encode] at htext
  unfold RoundTrips pathToFileURL encodePathChars
  change (∃ ctx path, ada (fileScheme ++ encodeSegment (utf8Bytes p)) = some ctx ∧ _) ↔ _
  cases hpath : pathOf host (trimPath (utf8Bytes p)) with
  | none =>
      rw [hpath] at htext
      rw [h.failure _ (isUtf8_encodeSegment hutf8) hbytes htext]
      simp
  | some found =>
      obtain ⟨name, segments⟩ := found
      rw [hpath] at htext
      obtain ⟨ctx, hctx, hfile⟩ := h.parse _ (isUtf8_encodeSegment hutf8) hbytes _ _ htext
      have hstate := pathState_encode [] segments
      rw [List.map_nil] at hstate
      rw [hstate, serializePath_code] at hfile
      obtain ⟨s, -, rfl, hsegments⟩ := pathOf_suffix hpath
      have hleft := isUtf8_removeDots (hsegments (isUtf8_trimPath hutf8))
      have hback := fileURLToPath_file ada hfile (pathOf_name hpath) hleft
      simp only [hctx, Option.some.injEq, exists_and_left, exists_eq_left', hback, Prod.mk.injEq]
      by_cases hname : name = []
      · simp [hname, decodeUtf8_wellFormed, Buffer.utf8Bytes_decodeUtf8 hleft]
      · simp [hname]

/-! ### Ends of paths -/

variable {last : Bytes}

theorem getLast?_joinSlash (front : List Bytes) (h : last ≠ []) :
    (joinSlash (front ++ [last])).getLast? = last.getLast? := by
  by_cases hfront : front = []
  · subst hfront
    rfl
  · rw [joinSlash_snoc hfront, List.getLast?_append_of_ne_nil _ (List.cons_ne_nil _ _)]
    obtain ⟨c, rest, rfl⟩ := List.exists_cons_of_ne_nil h
    rw [List.getLast?_cons_cons]

theorem getLast?_absPath (front : List Bytes) (last : Bytes) :
    (absPath (front ++ [last])).getLast? = if last = [] then some slash else last.getLast? := by
  split
  · rename_i hlast
    subst hlast
    by_cases hfront : front = []
    · subst hfront
      rfl
    · rw [absPath, joinSlash_snoc hfront, ← List.cons_append, List.getLast?_concat]
  · rename_i hlast
    have hjoin := getLast?_joinSlash front hlast
    rw [absPath, ← hjoin]
    cases hbody : joinSlash (front ++ [last]) with
    | nil =>
        rw [hbody, List.getLast?_nil, eq_comm, List.getLast?_eq_none_iff] at hjoin
        exact absurd hjoin hlast
    | cons c rest => rw [List.getLast?_cons_cons]

/-- The last segment of a path has its last byte, unless that is a separator. -/
theorem getLast?_split {p front : List _} (hsplit : splitSlash p = front ++ [last])
    {c : UInt8} (hc : p.getLast? = some c) (hslash : c ≠ slash) :
    last ≠ [] ∧ last.getLast? = some c := by
  rw [← joinSlash_splitSlash p, hsplit] at hc
  have hne : last ≠ [] := by
    rintro rfl
    by_cases hfront : front = []
    · subst hfront
      cases hc
    · rw [joinSlash_snoc hfront, List.getLast?_concat] at hc
      exact hslash (Option.some.inj hc).symm
  rw [getLast?_joinSlash front hne] at hc
  exact ⟨hne, hc⟩

theorem normalizeString_last (absolute : Bool) {front : List Bytes}
    (hsplit : splitSlash p = front ++ [last] ++ [[]])
    (hlast : last ≠ [] ∧ last ≠ dot ∧ last ≠ dotDot) :
    (normalizeString absolute p).getLast? = last.getLast? := by
  have hkept : ((splitSlash p).foldl (normalStep absolute) []).reverse =
      (front.foldl (normalStep absolute) []).reverse ++ [last] := by
    rw [hsplit]
    simp [normalStep, hlast]
  rw [normalizeString, hkept]
  exact getLast?_joinSlash _ hlast.1

/-- `path.resolve` keeps a last segment that is a name. -/
theorem posixResolve_last (cwd : Bytes) {front : List Bytes}
    (hsplit : splitSlash p = front ++ [last]) (hlast : last ≠ [] ∧ last ≠ dot ∧ last ≠ dotDot) :
    (posixResolve cwd p).getLast? = last.getLast? := by
  have hsingle : ∀ seg : Bytes, front ++ [last] = [seg] → last = seg := fun seg heq =>
    List.mem_singleton.mp (heq ▸ List.mem_append_right front List.mem_cons_self)
  have hempty : p.isEmpty = false := by
    cases p with
    | nil => exact absurd (hsingle [] hsplit.symm) hlast.1
    | cons c p => rfl
  have hnot : (p == dot) = false := by
    rw [beq_eq_false_iff_ne]
    rintro rfl
    exact hlast.2.1 (hsingle dot (hsplit.symm.trans (by decide)))
  have hend : splitSlash (p ++ [slash]) = front ++ [last] ++ [[]] := by
    rw [splitSlash_append, hsplit, splitSlash]
  -- Behind the separator a body that is not empty ends in the segment as well.
  have hroot : ∀ body : Bytes, body.getLast? = last.getLast? →
      (slash :: body).getLast? = last.getLast? ∧ body.isEmpty = false := by
    intro body hbody
    cases body with
    | nil =>
        rw [List.getLast?_nil, eq_comm, List.getLast?_eq_none_iff] at hbody
        exact absurd hbody hlast.1
    | cons c body => exact ⟨by rw [List.getLast?_cons_cons, hbody], rfl⟩
  unfold posixResolve
  simp only [hempty, hnot, Bool.or_self, Bool.false_and, Bool.false_eq_true, if_false]
  cases habs : isAbsolute p with
  | true =>
      simp only [Bool.true_or, if_true]
      exact (hroot _ (normalizeString_last true hend hlast)).1
  | false =>
      have hbehind : splitSlash (cwd ++ slash :: (p ++ [slash])) =
          splitSlash cwd ++ front ++ [last] ++ [[]] := by
        rw [splitSlash_append, hend]
        simp
      simp only [Bool.false_or, Bool.false_eq_true, if_false]
      have hbody := normalizeString_last (isAbsolute cwd) hbehind hlast
      split
      · exact (hroot _ hbody).1
      · rw [(hroot _ hbody).2]
        exact hbody

theorem isDropped_plain {c : UInt8} (hlast : last.getLast? = some c)
    (hc : isDropped c = true) : last ≠ [] ∧ last ≠ dot ∧ last ≠ dotDot := by
  refine ⟨?_, ?_, ?_⟩
  · rintro rfl
    cases hlast
  · rintro rfl
    cases hlast
    exact absurd hc (by decide)
  · rintro rfl
    cases hlast
    exact absurd hc (by decide)

/-- A control character that is dropped does not come back. -/
theorem dropped_absolutePath (cwd : Bytes) {c : UInt8} (hp : p.getLast? = some c)
    (hc : isDropped c = true) : (absolutePath cwd p).getLast? = some c := by
  have hslash : c ≠ slash := by
    rintro rfl
    exact absurd hc (by decide)
  obtain ⟨front, last, hsplit⟩ := exists_snoc p
  obtain ⟨-, hlast⟩ := getLast?_split hsplit hp hslash
  have hend : endsInSlash p = false := by
    rw [endsInSlash, hp]
    simpa using hslash
  rw [absolutePath, hend]
  simp only [Bool.false_and, Bool.false_eq_true, if_false]
  rw [posixResolve_last cwd hsplit (isDropped_plain hlast hc), hlast]

/-- What is left of the segments of an end of a path ends in a separator, or as the path does. -/
theorem removeDots_getLast? {s p : Bytes} (hs : s <:+ p) :
    (serializePath (removeDots [] (splitSlash s))).getLast? = some slash ∨
    (serializePath (removeDots [] (splitSlash s))).getLast? = p.getLast? := by
  obtain ⟨front, last, hsplit⟩ := exists_snoc s
  obtain ⟨top, rest, hpath, htop⟩ := removeDots_last front last
  rw [hsplit, hpath, serializePath_absPath (List.cons_ne_nil _ _), List.reverse_cons,
    getLast?_absPath]
  split
  · exact Or.inl rfl
  · rename_i hne
    obtain rfl := htop.resolve_left hne
    refine Or.inr ?_
    obtain ⟨before, rfl⟩ := hs
    have hjoin := getLast?_joinSlash front hne
    rw [← hsplit, joinSlash_splitSlash] at hjoin
    have hs : s ≠ [] := by
      rintro rfl
      rw [List.getLast?_nil, eq_comm, List.getLast?_eq_none_iff] at hjoin
      exact hne hjoin
    rw [List.getLast?_append_of_ne_nil _ hs, hjoin]

theorem trimPath_getLast? {c : UInt8} (h : (trimPath p).getLast? = some c) :
    isDropped c = false := by
  have hne : p.rdropWhile isDropped ≠ [] := by
    intro hnil
    rw [trimPath, hnil] at h
    cases h
  have hlast := List.rdropWhile_last_not isDropped p hne
  rw [trimPath, List.getLast?_eq_some_getLast hne, Option.some.injEq] at h
  rw [h] at hlast
  exact Bool.not_eq_true _ ▸ hlast

theorem kept_of_path {cwd p : Bytes} {segments : List Bytes}
    (hpath : pathOf host (trimPath p) = some ([], segments))
    (hsame : serializePath (removeDots [] segments) = absolutePath cwd p) :
    ∀ b ∈ p.getLast?, isDropped b = false := by
  intro c hc
  rw [← Bool.not_eq_true]
  intro hdropped
  have hback := dropped_absolutePath cwd hc hdropped
  obtain ⟨s, hs, rfl, -⟩ := pathOf_suffix hpath
  rw [← hsame] at hback
  obtain hslash | hlast := removeDots_getLast? hs
  · rw [hback] at hslash
    cases hslash
    exact absurd hdropped (by decide)
  · rw [hback] at hlast
    rw [trimPath_getLast? hlast.symm] at hdropped
    cases hdropped

theorem trimPath_eq (h : ∀ b ∈ p.getLast?, isDropped b = false) : trimPath p = p := by
  rw [trimPath, List.rdropWhile_eq_self_iff]
  intro hne
  rw [h _ (List.getLast?_eq_some_getLast hne)]
  exact Bool.false_ne_true

/-! ### Absolute paths -/

theorem absPath_snoc_nil {segs : List Bytes} (h : segs ≠ []) :
    absPath segs ++ [slash] = absPath (segs ++ [[]]) := by
  rw [absPath, absPath, joinSlash_snoc h]
  rfl

theorem absolutePath_segments (cwd : Bytes) {front : List Bytes}
    (hsplit : splitSlash p = front ++ [last]) :
    absolutePath cwd (slash :: p) = absPath (resolvedSegments front last).reverse := by
  have hfree : ∀ seg ∈ splitSlash p, slash ∉ seg := fun _ => slash_not_mem_of_mem_splitSlash
  have hend : endsInSlash (slash :: p) = decide (last = []) := by
    have hpath : slash :: p = absPath (front ++ [last]) := by
      rw [← hsplit, absPath, joinSlash_splitSlash]
    rw [endsInSlash, hpath, getLast?_absPath]
    split
    · rename_i hlast
      simp [hlast]
    · rename_i hlast
      have hnot : last.getLast? ≠ some slash := fun hsome =>
        hfree last (by rw [hsplit]; simp) (List.mem_of_getLast? hsome)
      simp [hlast, hnot]
  have hkept : (splitSlash p).foldl (normalStep true) [] =
      normalStep true (front.foldl (normalStep true) []) last := by
    rw [hsplit, List.foldl_append]
    rfl
  have hnames : Names ((splitSlash p).foldl (normalStep true) []) :=
    (segmentWalk_split p).names
  unfold absolutePath resolvedSegments
  rw [posixResolve_absolute, hend]
  dsimp only
  rw [hkept] at hnames ⊢
  by_cases hlast : last = []
  · rw [normalStep_stay (Or.inl hlast)] at hnames ⊢
    simp only [hlast, decide_true, Bool.true_and, if_true, List.reverse_cons]
    by_cases hroot : front.foldl (normalStep true) [] = []
    · rw [hroot]
      rfl
    · have hne : (front.foldl (normalStep true) []).reverse ≠ [] :=
        fun hnil => hroot (List.reverse_eq_nil_iff.mp hnil)
      rw [absPath_not_endsInSlash hnames.reverse hne, Bool.not_false, if_pos rfl,
        absPath_snoc_nil hne]
  · simp only [hlast, decide_false, Bool.false_and, Bool.false_eq_true, if_false]
    split
    · rename_i hroot
      rw [hroot]
      rfl
    · rfl

theorem resolvedSegments_mem {front : List Bytes} {last seg : Bytes}
    (hfree : ∀ seg ∈ front ++ [last], slash ∉ seg) (h : seg ∈ resolvedSegments front last) :
    slash ∉ seg := by
  have hfront : Names (front.foldl (normalStep true) []) :=
    (segmentWalk_of names_nil fun s hs => hfree s (List.mem_append_left _ hs)).names
  have hall : Names (normalStep true (front.foldl (normalStep true) []) last) := by
    have hnames := (segmentWalk_of names_nil hfree).names
    rwa [List.foldl_append] at hnames
  unfold resolvedSegments at h
  dsimp only at h
  split at h
  · obtain rfl | hin := List.mem_cons.mp h
    · exact List.not_mem_nil
    · exact hfront.free seg hin
  split at h
  · rw [List.mem_singleton.mp h]
    exact List.not_mem_nil
  · exact hall.free seg h

theorem resolvedSegments_ne_nil (front : List Bytes) (last : Bytes) :
    resolvedSegments front last ≠ [] := by
  unfold resolvedSegments
  dsimp only
  split
  · exact List.cons_ne_nil _ _
  split
  · exact List.cons_ne_nil _ _
  · assumption

/-- The URL of an absolute path has the resolved path exactly if the count comes out even. -/
theorem levelPath_iff (cwd p : Bytes) :
    serializePath (removeDots [] (splitSlash p)) = absolutePath cwd (slash :: p) ↔
      LevelPath (slash :: p) := by
  obtain ⟨front, last, hsplit⟩ := exists_snoc p
  have hfree : ∀ seg ∈ front ++ [last], slash ∉ seg := by
    rw [← hsplit]
    exact fun _ => slash_not_mem_of_mem_splitSlash
  have hne : removeDots [] (front ++ [last]) ≠ [] := by
    obtain ⟨top, rest, hpath, -⟩ := removeDots_last front last
    rw [hpath]
    exact List.cons_ne_nil _ _
  have hurl : ∀ seg ∈ removeDots [] (front ++ [last]), slash ∉ seg := by
    intro seg hseg
    obtain rfl | hin := removeDots_mem hseg
    · exact List.not_mem_nil
    · exact hfree seg hin
  have hlevel : LevelPath (slash :: p) ↔ Level front last := by
    unfold LevelPath
    simp only [List.drop_one, List.tail_cons, hsplit, List.dropLast_concat, List.getLast_concat]
  rw [hlevel, ← removeDots_iff, hsplit, absolutePath_segments cwd hsplit, serializePath_absPath hne]
  constructor
  · intro heq
    apply List.reverse_injective
    apply joinSlash_inj
    · exact fun hnil => hne (List.reverse_eq_nil_iff.mp hnil)
    · exact fun hnil => resolvedSegments_ne_nil front last (List.reverse_eq_nil_iff.mp hnil)
    · exact fun seg hseg => hurl seg (List.mem_reverse.mp hseg)
    · exact fun seg hseg => resolvedSegments_mem hfree (List.mem_reverse.mp hseg)
    · exact (List.cons.inj heq).2
  · intro heq
    rw [heq]

theorem pathOf_absolute (host : Bytes → Option Bytes) (p : Bytes) :
    pathOf host (slash :: p) = some ([], splitSlash p) := by
  simp [pathOf, isNormalizedDriveLetter]

/-- A path comes back exactly if it survives. -/
theorem roundTrips_iff {ada : AdaParse} (h : ada.Standard host)
    (cwd : Bytes) {p : JsString} (hp : isWellFormed p = true) :
    RoundTrips ada cwd p ↔ Survives host cwd (utf8Bytes p) := by
  rw [roundTrips_path h cwd hp]
  constructor
  · rintro ⟨segments, hpath, hsame⟩
    have hkept := kept_of_path hpath hsame
    rw [trimPath_eq hkept] at hpath
    refine ⟨hkept, fun habs => ?_, fun _ => ⟨segments, hpath, hsame⟩⟩
    cases hbytes : utf8Bytes p with
    | nil =>
        rw [hbytes] at habs
        cases habs
    | cons c rest =>
        rw [hbytes] at habs hpath hsame
        obtain rfl : c = slash := by simpa [isAbsolute] using habs
        rw [pathOf_absolute] at hpath
        cases hpath
        exact (levelPath_iff cwd rest).mp hsame
  · rintro ⟨hkept, habsolute, hrelative⟩
    rw [trimPath_eq hkept]
    by_cases habs : isAbsolute (utf8Bytes p) = true
    · have hlevel := habsolute habs
      cases hbytes : utf8Bytes p with
      | nil =>
          rw [hbytes] at habs
          cases habs
      | cons c rest =>
          rw [hbytes] at habs hlevel
          obtain rfl : c = slash := by simpa [isAbsolute] using habs
          exact ⟨splitSlash rest, pathOf_absolute host rest, (levelPath_iff cwd rest).mpr hlevel⟩
    · exact hrelative (Bool.not_eq_true _ ▸ habs)

/-! ### A binding that knows one host -/

/-- A host parser of `localhost` alone. -/
def onlyLocalhost (name : Bytes) : Option Bytes :=
  if name = ascii "localhost" then some name else none

/-- The components of a `file:` URL without a host. -/
def fileContext (path : Bytes) : UrlContext :=
  { href := codeUnits (fileScheme ++ path)
    search_start := kOmittedSigned
    hash_start := kOmittedSigned
    scheme_type := 6
    protocol_end := 5
    host_start := 7
    host_end := 7
    pathname_start := 7 }

/-- A parser of `file:` URLs, with the path of the standard. -/
def parseFile (input : Bytes) : Option UrlContext :=
  if fileScheme.isPrefixOf input then
    (fileText onlyLocalhost (trimEnd (input.drop 7))).map fun found =>
      fileContext (serializePath (pathState [] found.2))
  else none

theorem fileContext_isFile (path : Bytes) : (fileContext path).IsFile [] path where
  protocol := rfl
  hostname := by
    have hhead : (codeUnits (fileScheme ++ path)).take 7 = codeUnits fileScheme := rfl
    have hnone : ∀ start, 7 ≤ start → slice (fileContext path).href start 7 = [] := by
      intro start hstart
      change ((codeUnits (fileScheme ++ path)).take 7).drop start = []
      rw [hhead]
      exact List.drop_eq_nil_of_le hstart
    unfold UrlContext.hostname
    split
    · exact hnone 8 (by decide)
    · exact hnone 7 (by decide)
  pathname := by
    unfold UrlContext.pathname slice
    simp only [fileContext, ne_eq, not_true_eq_false, if_false, List.take_length]
    rfl

theorem standard_parseFile : AdaParse.Standard parseFile onlyLocalhost where
  parse text _ _ name segments htext := by
    have hname : name = [] := by
      unfold fileText at htext
      dsimp only at htext
      split at htext
      · cases htext
        rfl
      split at htext
      · cases htext
        rfl
      · obtain ⟨host, hhost, heq⟩ := Option.map_eq_some_iff.mp htext
        unfold onlyLocalhost at hhost
        split at hhost
        · rename_i hlocal
          cases hhost
          cases heq
          exact if_pos hlocal
        · cases hhost
    subst hname
    refine ⟨fileContext (serializePath (pathState [] segments)), ?_, fileContext_isFile _⟩
    change (fileText onlyLocalhost (trimEnd text)).map _ = _
    rw [htext]
    rfl
  failure text _ _ htext := by
    change (fileText onlyLocalhost (trimEnd text)).map _ = _
    rw [htext]
    rfl

/-- File URLs and paths: a path comes back exactly if it survives, and `fileURLToPath` returns for local
files alone exactly where something refuses the other URLs. -/
theorem file_url_iff {ada : AdaParse} {host : Bytes → Option Bytes} (h : ada.Standard host) :
    (∀ (cwd : Bytes) (p : JsString), isWellFormed p = true →
      (RoundTrips ada cwd p ↔ Survives host cwd (utf8Bytes p))) ∧
    ∀ arg : PathArg, ReturnsForFiles ada arg ↔ FileOrRefused ada arg :=
  ⟨fun cwd _ hp => roundTrips_iff h cwd hp, returnsForFiles_iff ada⟩

/-- `/a b/100%` comes back. -/
theorem file_url_iff_escapes :
    RoundTrips parseFile (ascii "/w") (codeUnits (ascii "/a b/100%")) :=
  ((file_url_iff standard_parseFile).1 (ascii "/w") _ (by decide)).mpr
    { kept := fun b hb => by
        have hlast : (utf8Bytes (codeUnits (ascii "/a b/100%"))).getLast? = some 37 := by decide
        rw [hlast] at hb
        cases hb
        rfl
      absolute := fun _ => ⟨{ front := ascii "a b", kept := 1, extra := 0 }, by decide, by decide⟩
      relative := fun habs => absurd habs (by decide) }

/-- The components of `http://localhost/x`. -/
def httpContext : UrlContext :=
  { href := codeUnits (ascii "http://localhost/x")
    search_start := kOmittedSigned
    hash_start := kOmittedSigned
    scheme_type := 0
    protocol_end := 5
    host_start := 7
    host_end := 16
    pathname_start := 16 }

/-- `pathToFileURL` leaves the doubled separator of `/a//b` in, and `fileURLToPath` returns `/x` for
`new URL('http://localhost/x')`. -/
theorem file_url_double_slash :
    ¬ RoundTrips parseFile (ascii "/w") (codeUnits (ascii "/a//b")) ∧
      fileURLToPath parseFile (.url httpContext) = some (codeUnits (ascii "/x")) ∧
      ¬ ReturnsForFiles parseFile (.url httpContext) := by
  obtain ⟨hback, hhttp⟩ : (pathToFileURL parseFile (codeUnits (ascii "/a//b"))).bind
      (fun ctx => fileURLToPath parseFile (.url ctx)) = some (codeUnits (ascii "/a//b")) ∧
      fileURLToPath parseFile (.url httpContext) = some (codeUnits (ascii "/x")) := by
    decide +kernel
  refine ⟨?_, hhttp, fun h => ?_⟩
  · rintro ⟨ctx, path, hctx, hpath, -, hbytes⟩
    rw [hctx, Option.bind_some, hpath] at hback
    cases hback
    exact absurd hbytes (by decide)
  · obtain ⟨props, hprops, hfile⟩ := h _ hhttp
    cases hprops
    exact absurd hfile.protocol (by decide)

end HermesNode.Url
