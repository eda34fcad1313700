/-
Module: HermesNode.Url.Form
Purpose: The `application/x-www-form-urlencoded` parse of the URL standard beside `_parseString`, which
  decodes with `decodeURIComponent`. The two agree on a name or value without unpaired surrogates whose
  percent signs all start an escape and whose bytes are UTF-8, and on no other. What `toString` writes
  is parsed back.
Trusted boundary: human-reviewed spec (the urlencoded parser of the URL standard)
Main exports: percentDecode, formDecode, newURLSearchParams_iff, parse_toString
-/
import HermesNode.Lib.Utf8
import HermesNode.Fs.Encodings
import HermesNode.Url.RoundTrip

namespace HermesNode.Url

open Streams (utf8Bytes)
open Fs (utf8Bytes_cons utf8Bytes_cons_ascii)

/-! ### The parse of the standard -/

/-- Percent-decoding of bytes: a percent sign that starts no escape is kept. -/
def percentDecode : Bytes → Bytes
  | b :: high :: low :: rest =>
      if b = 37 then
        match hexByte high.toUInt16 low.toUInt16 with
        | some byte => byte :: percentDecode rest
        | none => b :: percentDecode (high :: low :: rest)
      else b :: percentDecode (high :: low :: rest)
  | bs => bs

/-- A name or value: bytes of which escapes stand for one, read as UTF-8 with replacement. -/
def formDecode (part : JsString) : JsString :=
  decodeUtf8 (percentDecode (utf8Bytes (plusToSpace part)))

/-- The name and the value of a piece, as far as it has one. -/
def parts (piece : JsString) : List JsString :=
  if piece.contains 61 then
    [piece.takeWhile (· != 61), (piece.dropWhile (· != 61)).drop 1]
  else [piece]

def formPiece (piece : JsString) : JsString × JsString :=
  if piece.contains 61 then
    (formDecode (piece.takeWhile (· != 61)), formDecode ((piece.dropWhile (· != 61)).drop 1))
  else (formDecode piece, [])

/-- The pieces between ampersands that are not empty. -/
def pieces (qs : JsString) : List JsString := (qs.splitOn 38).filter fun piece => !piece.isEmpty

def formParse (qs : JsString) : Params := (pieces qs).map formPiece

/-- A query string without its question mark. -/
def withoutMark (init : JsString) : JsString := if init.head? = some 63 then init.drop 1 else init

/-! ### What decodes -/

/-- Every percent sign starts an escape. -/
def escapesComplete : JsString → Bool
  | [] => true
  | c :: rest =>
      if c = 37 then
        match rest with
        | high :: low :: rest => (hexByte high low).isSome && escapesComplete rest
        | _ => false
      else escapesComplete rest

/-- The text has no unpaired surrogate, its percent signs start escapes, and its bytes are UTF-8. -/
def Decodes (text : JsString) : Prop :=
  isWellFormed text = true ∧ escapesComplete text = true ∧
    isUtf8 (percentDecode (utf8Bytes text)) = true

instance (text : JsString) : Decidable (Decodes text) := inferInstanceAs (Decidable (_ ∧ _))

/-! ### Bytes and escapes -/

theorem percentDecode_cons {b : UInt8} (h : b ≠ 37) (rest : Bytes) :
    percentDecode (b :: rest) = b :: percentDecode rest := by
  match rest with
  | [] => simp [percentDecode]
  | [c] => simp [percentDecode]
  | c :: d :: rest => simp [percentDecode, h]

theorem percentDecode_append {bs : Bytes} (h : ∀ b ∈ bs, b ≠ 37) (rest : Bytes) :
    percentDecode (bs ++ rest) = bs ++ percentDecode rest := by
  induction bs with
  | nil => rfl
  | cons b bs ih =>
      rw [List.cons_append, percentDecode_cons (h b List.mem_cons_self),
        ih fun c hc => h c (List.mem_cons_of_mem _ hc), List.cons_append]

theorem toUInt8_toUInt16 {c : UInt16} (h : c < 0x80) : c.toUInt8.toUInt16 = c := by
  have hlt : c.toNat < 0x80 := UInt16.lt_iff_toNat_lt.mp h
  apply UInt16.toNat_inj.mp
  rw [UInt8.toNat_toUInt16, UInt16.toNat_toUInt8]
  omega

theorem percentDecode_escape {high low : UInt16} {b : UInt8} (h : hexByte high low = some b)
    (rest : JsString) :
    percentDecode (utf8Bytes (37 :: high :: low :: rest)) = b :: percentDecode (utf8Bytes rest) := by
  obtain ⟨hhigh, hlow⟩ := hexByte_ascii h
  rw [utf8Bytes_cons_ascii (by decide), utf8Bytes_cons_ascii hhigh, utf8Bytes_cons_ascii hlow]
  have hbyte : (37 : UInt16).toUInt8 = 37 := by decide
  rw [hbyte, percentDecode, if_pos rfl, toUInt8_toUInt16 hhigh, toUInt8_toUInt16 hlow, h]

/-! ### Literal code points -/

theorem utf8Char_ne {cp : Nat} (h : IsScalar cp) (hne : cp ≠ 37) : ∀ b ∈ utf8Char cp, b ≠ 37 := by
  intro b hb heq
  obtain ⟨n, hn, hbyte⟩ := List.mem_map.mp hb
  have hbytes := utf8Of_bytes h hn
  rw [heq] at hbyte
  have htoNat := congrArg UInt8.toNat hbyte
  rw [UInt8.toNat_ofNat'] at htoNat
  have hpercent : (37 : UInt8).toNat = 37 := rfl
  omega

theorem utf16Of_ne {cp : Nat} (h : IsScalar cp) (hne : cp ≠ 37) : ∀ c ∈ utf16Of cp, c ≠ 37 := by
  have hpercent : (37 : UInt16).toNat = 37 := rfl
  unfold IsScalar at h
  intro c hc heq
  unfold utf16Of at hc
  split at hc
  · rw [List.mem_singleton] at hc
    rw [hc] at heq
    have htoNat := congrArg UInt16.toNat heq
    rw [UInt16.toNat_ofNat'] at htoNat
    omega
  · simp only [List.mem_cons, List.not_mem_nil, or_false] at hc
    obtain hc | hc := hc
    · rw [hc] at heq
      have htoNat := congrArg UInt16.toNat heq
      rw [UInt16.toNat_ofNat'] at htoNat
      omega
    · rw [hc] at heq
      have htoNat := congrArg UInt16.toNat heq
      rw [UInt16.toNat_ofNat'] at htoNat
      omega

theorem escapesComplete_append {s : JsString} (h : ∀ c ∈ s, c ≠ 37) (rest : JsString) :
    escapesComplete (s ++ rest) = escapesComplete rest := by
  induction s with
  | nil => rfl
  | cons c s ih =>
      rw [List.cons_append, escapesComplete.eq_def]
      simp only [if_neg (h c List.mem_cons_self)]
      exact ih fun d hd => h d (List.mem_cons_of_mem _ hd)

theorem utf8Bytes_point {cp : Nat} (h : IsScalar cp) (rest : JsString) :
    utf8Bytes (utf16Of cp ++ rest) = utf8Char cp ++ utf8Bytes rest := by
  unfold utf8Bytes
  rw [codePoints_utf16Of h, List.flatMap_cons, Option.getD_some]
  rfl

/-! ### Texts without unpaired surrogates -/

/-- What `decodeURIComponent` does of the bytes that the standard decodes. -/
theorem decodeFrom_bytes {s : JsString} (h : isWellFormed s = true) (pending : Option Pending) :
    decodeFrom pending s =
      if escapesComplete s then strictFrom pending (percentDecode (utf8Bytes s)) else none := by
  induction hn : s.length using Nat.strongRecOn generalizing s pending with
  | ind n ih =>
      match s with
      | [] => rfl
      | c :: rest =>
          rw [List.length_cons] at hn
          by_cases hc : c = 37
          · subst hc
            match rest with
            | [] => simp [decodeFrom, escapesComplete]
            | [d] => simp [decodeFrom, escapesComplete]
            | high :: low :: rest =>
                cases hbyte : hexByte high low with
                | none => simp [decodeFrom, escapesComplete, hbyte]
                | some b =>
                    obtain ⟨hhigh, hlow⟩ := hexByte_ascii hbyte
                    have hrest : isWellFormed rest = true :=
                      by
                      rwa [isWellFormed_ascii_cons (by decide), isWellFormed_ascii_cons hhigh,
                        isWellFormed_ascii_cons hlow] at h
                    rw [percentDecode_escape hbyte, strictFrom]
                    simp only [List.length_cons] at hn
                    have ih := fun pending => ih rest.length (by omega) hrest pending rfl
                    simp only [decodeFrom, escapesComplete, hbyte, if_true, Option.isSome_some,
                      Bool.true_and, Option.bind_eq_bind, Option.bind_some, Option.pure_def, ih]
                    cases utf8Strict pending b with
                    | none => simp
                    | some next =>
                        split
                        · simp [Option.map_eq_bind, Function.comp_def]
                        · simp
          · obtain ⟨cp, behind, hcp, hsplit, hbehind⟩ := isWellFormed_cons h
            have hne : cp ≠ 37 := by
              rintro rfl
              exact hc (List.cons.inj hsplit).1
            rw [hsplit, escapesComplete_append (utf16Of_ne hcp hne), utf8Bytes_point hcp,
              percentDecode_append (utf8Char_ne hcp hne)]
            cases pending with
            | none =>
                have hlength := congrArg List.length hsplit
                have hunits : 0 < (utf16Of cp).length := by
                  unfold utf16Of
                  split <;> exact Nat.succ_pos _
                rw [List.length_cons, List.length_append] at hlength
                rw [decodeFrom_append (utf16Of_ne hcp hne), strictFrom_char hcp,
                  ih behind.length (by omega) hbehind none rfl]
                split <;> rfl
            | some p =>
                rw [strictFrom_pending_char hcp, ← hsplit, decodeFrom.eq_def]
                simp [hc]

/-- `decodeURIComponent` decodes as the standard does where the text decodes, and nowhere else. -/
theorem decodeURIComponent_iff (text : JsString) :
    decodeURIComponent text = some (decodeUtf8 (percentDecode (utf8Bytes text))) ↔
      Decodes text := by
  constructor
  · intro h
    have hwell := (decodeFrom_source (fun p hp => by cases hp) h).1 (decodeUtf8_wellFormed _)
    rw [decodeURIComponent, decodeFrom_bytes hwell, strictFrom_eq] at h
    split at h
    · rename_i hescapes
      split at h
      · rename_i hutf8
        exact ⟨hwell, hescapes, hutf8⟩
      · cases h
    · cases h
  · intro h
    obtain ⟨hwell, hescapes, hutf8⟩ := h
    rw [decodeURIComponent, decodeFrom_bytes hwell, if_pos hescapes, strictFrom_eq, if_pos hutf8]

/-! ### Pieces -/

/-- The names and values that `_parseString` decodes. -/
def PieceDecodes (piece : JsString) : Prop := ∀ part ∈ parts piece, Decodes (plusToSpace part)

instance (piece : JsString) : Decidable (PieceDecodes piece) :=
  inferInstanceAs (Decidable (∀ part ∈ parts piece, _))

theorem parsePair_iff (piece : JsString) :
    parsePair piece = some (formPiece piece) ↔ PieceDecodes piece := by
  unfold parsePair formPiece PieceDecodes parts
  split
  · simp only [List.mem_cons, List.not_mem_nil, or_false, forall_eq_or_imp, forall_eq,
      ← decodeURIComponent_iff, formDecode]
    simp [Option.bind_eq_some_iff]
  · simp only [List.mem_singleton, forall_eq, ← decodeURIComponent_iff, formDecode]
    simp [Option.bind_eq_some_iff]

/-- The list grows at its end. -/
theorem parsePairs_append (list : Params) (ps : List JsString) :
    parsePairs list ps = (list ++ (parsePairs [] ps).1, (parsePairs [] ps).2) := by
  induction ps generalizing list with
  | nil => simp [parsePairs]
  | cons piece ps ih =>
      rw [parsePairs, parsePairs]
      split
      · exact ih list
      · cases parsePair piece with
        | none => simp
        | some pair =>
            simp only
            rw [ih (list ++ [pair]), ih ([] ++ [pair])]
            simp

theorem parsePairs_iff (ps : List JsString) :
    parsePairs [] ps = ((ps.filter fun piece => !piece.isEmpty).map formPiece, false) ↔
      ∀ piece ∈ ps.filter (fun piece => !piece.isEmpty), PieceDecodes piece := by
  induction ps with
  | nil => simp [parsePairs]
  | cons piece ps ih =>
      rw [parsePairs, List.filter_cons]
      cases hempty : piece.isEmpty with
      | true => simpa using ih
      | false =>
          rw [if_neg Bool.false_ne_true, Bool.not_false, if_pos rfl, List.map_cons,
            List.forall_mem_cons, ← ih, ← parsePair_iff]
          cases hpair : parsePair piece with
          | none => simp
          | some pair =>
              simp only [List.nil_append, parsePairs_append [pair] ps, List.singleton_append,
                List.cons.injEq, Option.some.injEq, Prod.ext_iff]
              tauto

theorem parseString_eq (qs : JsString) : parseString [] qs = parsePairs [] (qs.splitOn 38) := by
  unfold parseString
  split
  · rename_i hempty
    rw [List.isEmpty_iff.mp hempty]
    rfl
  · rfl

/-- The constructor answers with the parse of the standard where every name and value decodes, and for
no other string. -/
theorem newURLSearchParams_iff (init : JsString) :
    newURLSearchParams init = some (formParse (withoutMark init)) ↔
      ∀ piece ∈ pieces (withoutMark init), PieceDecodes piece := by
  unfold pieces formParse
  rw [← parsePairs_iff]
  rw [newURLSearchParams_eq, parseString_eq]
  change (let parsed := parsePairs [] ((withoutMark init).splitOn 38)
    if parsed.2 then none else some parsed.1) = _ ↔ _
  obtain ⟨list, threw⟩ := parsePairs [] ((withoutMark init).splitOn 38)
  cases threw with
  | false => simp [pieces]
  | true => simp

/-- `new URLSearchParams('%')` throws. -/
theorem newURLSearchParams_percent :
    newURLSearchParams [37] = none ∧ formParse (withoutMark [37]) = [([37], [])] := by
  decide

example : PieceDecodes [97, 43, 98, 61, 37, 67, 51, 37, 97, 57] := by decide

/-! ### What is written is read -/

/-- A list of well-formed pairs is written, and what is written is parsed to the list. -/
theorem parse_toString {list : Params} (h : WellFormedParams list) :
    ∃ t, paramsToString list = some t ∧ newURLSearchParams t = some list := by
  obtain ⟨pairs, hpairs, rfl⟩ := h.points
  refine ⟨_, paramsToString_form hpairs, ?_⟩
  have hparse := @parseString_formPairs pairs false hpairs
  -- what is written has no question mark in front
  have hmark : (List.intercalate [38] (pairs.map (formPair false))).head? ≠ some 63 := by
    intro hhead
    have hunit := formPairs_units hpairs 63 (List.mem_of_mem_head? hhead)
    exact absurd hunit (by decide)
  simp only [newURLSearchParams, if_neg hmark, hparse]

/-- The pairs `a b` with `&=`, and two empty strings. -/
theorem parse_toString_spaces : ∃ t,
    paramsToString [([97, 32, 98], [38, 61]), ([], [])] = some t ∧
      newURLSearchParams t = some [([97, 32, 98], [38, 61]), ([], [])] :=
  parse_toString (by unfold WellFormedParams; decide)

end HermesNode.Url
