/-
Module: HermesNode.Buffer.Base64
Purpose: The base64 decoder of the `buffer` binding. simdutf reads digits of one alphabet and skips
  spaces; any other character fails the whole string, and so does padding that does not complete the
  last group. A single digit left over is an error that keeps the bytes in front of it. The binding
  clears what was decoded before any other error.
Trusted boundary: human-reviewed spec (transcribed from `base64_to_binary_safe` of the vendored simdutf,
  its portable kernel, and from `lib/bindings/node_buffer.cpp`)
Main exports: toBase64Value, tailDecode, base64Decode_spec, base64Decode_encode
-/
import HermesNode.Lib.Base64
import HermesNode.Fs.Encodings
import HermesNode.StringDecoder.Slices

namespace HermesNode.Buffer

/-! ### simdutf -/

/-- `to_base64_value` and `to_base64_url_value`: a digit, 64 for a space and 255 for anything else. -/
def toBase64Value (url : Bool) (c : UInt8) : Nat :=
  let n := c.toNat
  if 65 ≤ n ∧ n ≤ 90 then n - 65
  else if 97 ≤ n ∧ n ≤ 122 then n - 71
  else if 48 ≤ n ∧ n ≤ 57 then n + 4
  else if n = (if url then 45 else 43) then 62
  else if n = (if url then 95 else 47) then 63
  else if n = 32 ∨ n = 9 ∨ n = 10 ∨ n = 13 ∨ n = 12 then 64
  else 255

/-- The error codes that a loose decoder reports. -/
inductive ErrorCode where
  | SUCCESS
  | INVALID_BASE64_CHARACTER
  | BASE64_INPUT_REMAINDER
deriving Repr, DecidableEq

/-- The error, and the bytes that were written. -/
structure FullResult where
  error : ErrorCode
  output : Bytes
deriving Repr, DecidableEq

/-- `base64_tail_decode`, with the digits of the group it is in. -/
def tailDecode (url : Bool) : List Nat → Bytes → FullResult
  | buffer, [] =>
      match buffer with
      | [_] => ⟨.BASE64_INPUT_REMAINDER, []⟩
      | _ => ⟨.SUCCESS, bytesOfDigits buffer⟩
  | buffer, c :: src =>
      let code := toBase64Value url c
      if code ≤ 63 then
        match buffer with
        | [x, y, z] =>
            let rest := tailDecode url [] src
            ⟨rest.error, tripleBytes x y z code ++ rest.output⟩
        | _ => tailDecode url (buffer ++ [code]) src
      else if 64 < code then ⟨.INVALID_BASE64_CHARACTER, []⟩
      else tailDecode url buffer src

def isAsciiWhiteSpace (c : UInt8) : Bool :=
  c == 0x20 || c == 0x09 || c == 0x0A || c == 0x0D || c == 0x0C

def trimSpaces (input : Bytes) : Bytes := (input.reverse.dropWhile isAsciiWhiteSpace).reverse

/-- The input without the spaces and the padding at its end, and how many characters the padding
has. -/
def stripPadding (input : Bytes) : Bytes × Nat :=
  let input := trimSpaces input
  if input.getLast? = some 0x3D then
    let input := trimSpaces input.dropLast
    if input.getLast? = some 0x3D then (input.dropLast, 2) else (input, 1)
  else (input, 0)

/-- `base64_to_binary_details`. -/
def base64ToBinaryDetails (url : Bool) (input : Bytes) : FullResult :=
  let body := (stripPadding input).1
  let equalsigns := (stripPadding input).2
  if body.isEmpty then
    if 0 < equalsigns then ⟨.INVALID_BASE64_CHARACTER, []⟩ else ⟨.SUCCESS, []⟩
  else
    let r := tailDecode url [] body
    if r.error = .SUCCESS ∧ 0 < equalsigns ∧
        (r.output.length % 3 = 0 ∨ r.output.length % 3 + 1 + equalsigns ≠ 4) then
      ⟨.INVALID_BASE64_CHARACTER, r.output⟩
    else r

/-- `base64_to_binary_safe` into a buffer of `maximal_binary_length_from_base64` bytes. -/
def base64ToBinarySafe (url : Bool) (input : Bytes) : FullResult := base64ToBinaryDetails url input

/-! ### The binding -/

/-- `base64Decode`: what it returns, and the bytes it leaves in its argument. -/
def base64Decode (url : Bool) (input : Bytes) : Int × Bytes :=
  let r := base64ToBinarySafe url input
  match r.error with
  | .SUCCESS => (0, r.output)
  | .BASE64_INPUT_REMAINDER => (-1, r.output)
  | .INVALID_BASE64_CHARACTER => (-2, [])

/-- The decoder where only its bytes count: there are none for an invalid character. -/
def simdutfBase64 : Fs.Base64ToBinary := fun url input =>
  let r := base64ToBinarySafe url input
  if r.error = .INVALID_BASE64_CHARACTER then none else some r.output

theorem base64Decode_bytes (url : Bool) (input : Bytes) :
    Fs.base64Decode simdutfBase64 url input = (base64Decode url input).2 := by
  unfold Fs.base64Decode simdutfBase64 base64Decode
  dsimp only
  cases (base64ToBinarySafe url input).error with
  | SUCCESS => rfl
  | INVALID_BASE64_CHARACTER => rfl
  | BASE64_INPUT_REMAINDER => rfl

/-! ### What is accepted -/

/-- The digits of a text in an alphabet. -/
def digits (url : Bool) (input : Bytes) : List Nat :=
  (input.map (toBase64Value url)).filter (· ≤ 63)

/-- Digits of the alphabet and spaces, with padding at the end only as it completes the last group,
or behind a single digit. -/
structure Accepted (url : Bool) (input : Bytes) : Prop where
  symbols : ∀ c ∈ (stripPadding input).1, toBase64Value url c ≤ 64
  padding : (stripPadding input).2 = 0 ∨ (digits url (stripPadding input).1).length % 4 = 1 ∨
    (digits url (stripPadding input).1).length % 4 + (stripPadding input).2 = 4

instance (url : Bool) (input : Bytes) : Decidable (Accepted url input) :=
  decidable_of_iff
    ((stripPadding input).1.all (toBase64Value url · ≤ 64) = true ∧
      ((stripPadding input).2 = 0 ∨ (digits url (stripPadding input).1).length % 4 = 1 ∨
        (digits url (stripPadding input).1).length % 4 + (stripPadding input).2 = 4))
    ⟨fun h => ⟨by simpa using h.1, h.2⟩, fun h => ⟨by simpa using h.symbols, h.padding⟩⟩

theorem digits_lt {url : Bool} {input : Bytes} {d : Nat} (h : d ∈ digits url input) : d < 64 := by
  have hle : d ≤ 63 := by simpa using (List.mem_filter.mp h).2
  omega

/-- One step over the text: a digit counts and a space does not. -/
theorem digits_cons (url : Bool) (c : UInt8) (src : Bytes) :
    digits url (c :: src) =
      if toBase64Value url c ≤ 63 then toBase64Value url c :: digits url src
      else digits url src := by
  unfold digits
  rw [List.map_cons, List.filter_cons]
  simp only [decide_eq_true_eq]

theorem tailDecode_spec {url : Bool} {buffer : List Nat} {src : Bytes}
    (hbuffer : buffer.length ≤ 3) (hsrc : ∀ c ∈ src, toBase64Value url c ≤ 64) :
    tailDecode url buffer src =
      ⟨if (buffer ++ digits url src).length % 4 = 1 then .BASE64_INPUT_REMAINDER else .SUCCESS,
        bytesOfDigits (buffer ++ digits url src)⟩ := by
  induction src generalizing buffer with
  | nil =>
      have hnone : digits url [] = [] := rfl
      rw [hnone, List.append_nil]
      match buffer, hbuffer with
      | [], _ => simp [tailDecode, bytesOfDigits]
      | [x], _ => simp [tailDecode, bytesOfDigits]
      | [x, y], _ => simp [tailDecode]
      | [x, y, z], _ => simp [tailDecode]
  | cons c src ih =>
      have hrest : ∀ d ∈ src, toBase64Value url d ≤ 64 :=
        fun d hd => hsrc d (List.mem_cons_of_mem _ hd)
      have hc := hsrc c List.mem_cons_self
      rw [digits_cons]
      by_cases hdigit : toBase64Value url c ≤ 63
      · rw [if_pos hdigit]
        match buffer, hbuffer with
        | [], _ =>
            rw [tailDecode.eq_def]
            simp only [if_pos hdigit]
            rw [ih (by simp) hrest]
            rfl
        | [x], _ =>
            rw [tailDecode.eq_def]
            simp only [if_pos hdigit]
            rw [ih (by simp) hrest]
            rfl
        | [x, y], _ =>
            rw [tailDecode.eq_def]
            simp only [if_pos hdigit]
            rw [ih (by simp) hrest]
            rfl
        | [x, y, z], _ =>
            have hmod : (x :: y :: z :: toBase64Value url c :: digits url src).length % 4 =
                (digits url src).length % 4 := by
              simp only [List.length_cons]
              omega
            rw [tailDecode, if_pos hdigit, ih (by simp) hrest]
            simp only [List.nil_append, List.cons_append, bytesOfDigits, hmod]
      · rw [if_neg hdigit, tailDecode.eq_def]
        simp only [if_neg hdigit, if_neg (show ¬ 64 < toBase64Value url c by omega)]
        exact ih hbuffer hrest

theorem tailDecode_invalid {url : Bool} {buffer : List Nat} {src : Bytes}
    (hsrc : ∃ c ∈ src, 64 < toBase64Value url c) :
    (tailDecode url buffer src).error = .INVALID_BASE64_CHARACTER := by
  induction src generalizing buffer with
  | nil =>
      obtain ⟨c, hc, _⟩ := hsrc
      cases hc
  | cons c src ih =>
      rw [tailDecode.eq_def]
      by_cases hinvalid : 64 < toBase64Value url c
      · simp only [if_neg (show ¬ toBase64Value url c ≤ 63 by omega), if_pos hinvalid]
      · have hrest : ∃ d ∈ src, 64 < toBase64Value url d := by
          obtain ⟨d, hd, hlarge⟩ := hsrc
          cases List.mem_cons.mp hd with
          | inl hfirst => exact absurd (hfirst ▸ hlarge) hinvalid
          | inr hlater => exact ⟨d, hlater, hlarge⟩
        simp only [if_neg hinvalid]
        split
        · split
          · exact ih hrest
          · exact ih hrest
        · exact ih hrest

/-- What is accepted gives the bytes of its digits; what is not gives none. -/
theorem base64Decode_spec (url : Bool) (input : Bytes) :
    base64Decode url input =
      if Accepted url input then
        (if (digits url (stripPadding input).1).length % 4 = 1 then -1 else 0,
          bytesOfDigits (digits url (stripPadding input).1))
      else (-2, []) := by
  have hequals : (stripPadding input).2 ≤ 2 := by
    unfold stripPadding
    dsimp only
    split
    · split
      · exact Nat.le_refl 2
      · exact Nat.le_succ 1
    · exact Nat.zero_le 2
  unfold base64Decode base64ToBinarySafe base64ToBinaryDetails
  by_cases hsymbols : ∀ c ∈ (stripPadding input).1, toBase64Value url c ≤ 64
  · have hspec := @tailDecode_spec url [] _ (Nat.zero_le 3) hsymbols
    rw [List.nil_append] at hspec
    have hlength := bytesOfDigits_length_mod (digits url (stripPadding input).1)
    have haccepted : Accepted url input ↔ (stripPadding input).2 = 0 ∨
        (digits url (stripPadding input).1).length % 4 = 1 ∨
        (digits url (stripPadding input).1).length % 4 + (stripPadding input).2 = 4 :=
      ⟨fun h => h.padding, fun h => ⟨hsymbols, h⟩⟩
    by_cases hempty : (stripPadding input).1 = []
    · rw [hempty] at haccepted ⊢
      have hnone : digits url [] = [] := rfl
      rw [hnone, List.length_nil] at haccepted
      by_cases hequal : 0 < (stripPadding input).2
      · rw [if_neg (haccepted.not.mpr (by omega))]
        simp [hequal]
      · rw [if_pos (haccepted.mpr (by omega))]
        simp [hequal, hnone, bytesOfDigits]
    · have hne : (stripPadding input).1.isEmpty = false := by simpa using hempty
      simp only [hne, Bool.false_eq_true, if_false, hspec]
      -- the remainders of the bytes are those of the digits
      by_cases hone : (digits url (stripPadding input).1).length % 4 = 1
      · rw [if_pos (haccepted.mpr (Or.inr (Or.inl hone)))]
        simp [hone]
      · by_cases hpadding : (stripPadding input).2 = 0 ∨
            (digits url (stripPadding input).1).length % 4 + (stripPadding input).2 = 4
        · rw [if_pos (haccepted.mpr (by omega))]
          rw [if_neg (by rw [hlength]; omega)]
          simp [hone]
        · rw [if_neg (haccepted.not.mpr (by omega))]
          rw [if_pos (by simp only [hone, if_false, true_and]; rw [hlength]; omega)]
  · have hinvalid := @tailDecode_invalid url [] (stripPadding input).1 (by simpa using hsymbols)
    have hne : (stripPadding input).1.isEmpty = false := by
      rw [List.isEmpty_eq_false_iff]
      intro hnil
      rw [hnil] at hsymbols
      exact hsymbols (by simp)
    rw [if_neg (fun h : Accepted url input => hsymbols h.symbols)]
    simp only [hne, Bool.false_eq_true, if_false, hinvalid, reduceCtorEq, false_and]

/-! ### The encoder -/

open StringDecoder (makeBase64String base64Digit base64Padding)
open Streams (latin1Bytes)

/-- The encoder writes the digits of the bytes, and padding behind them. -/
theorem makeBase64String_eq (url : Bool) (data : Bytes) :
    makeBase64String url data = (digitsOfBytes data).map (base64Digit url) ++
      base64Padding url ((3 - data.length % 3) % 3) := by
  induction data using digitsOfBytes.induct with
  | case1 a b c rest ih =>
      have hmod : (a :: b :: c :: rest).length % 3 = rest.length % 3 := by
        simp only [List.length_cons]
        omega
      rw [makeBase64String, ih, hmod]
      simp [digitsOfBytes]
  | case2 a b => simp [makeBase64String, digitsOfBytes]
  | case3 a => simp [makeBase64String, digitsOfBytes]
  | case4 => cases url <;> rfl

theorem digitsOfBytes_length_mod (data : Bytes) :
    (digitsOfBytes data).length % 4 = (if data.length % 3 = 0 then 0 else data.length % 3 + 1) := by
  induction data using digitsOfBytes.induct with
  | case1 a b c rest ih =>
      simp only [digitsOfBytes, List.length_append, List.length_cons, List.length_nil] at ih ⊢
      split at ih
      · rw [if_pos (by omega)]
        omega
      · rw [if_neg (by omega)]
        omega
  | case2 a b => simp [digitsOfBytes]
  | case3 a => simp [digitsOfBytes]
  | case4 => simp [digitsOfBytes]

/-- Each digit is read as itself. -/
theorem toBase64Value_digit : ∀ url, ∀ n < 64,
    toBase64Value url (base64Digit url n).toUInt8 = n := by
  decide

theorem trimSpaces_eq {input : Bytes} (h : ∀ c ∈ input.getLast?, isAsciiWhiteSpace c = false) :
    trimSpaces input = input := by
  unfold trimSpaces
  cases hrev : input.reverse with
  | nil => rw [List.reverse_eq_nil_iff.mp hrev]; rfl
  | cons c rest =>
      have hlast : input.getLast? = some c := by
        rw [← List.head?_reverse, hrev]
        rfl
      have hc := h c hlast
      rw [List.dropWhile_cons, if_neg (by simp [hc]), ← hrev, List.reverse_reverse]

/-- A digit is neither a space nor padding. -/
theorem digit_symbol {url : Bool} {c : UInt8} (h : toBase64Value url c ≤ 63) :
    isAsciiWhiteSpace c = false ∧ c ≠ 0x3D := by
  have hall : ∀ url, ∀ n : Fin 256, toBase64Value url (UInt8.ofNat n) ≤ 63 →
      isAsciiWhiteSpace (UInt8.ofNat n) = false ∧ UInt8.ofNat n ≠ 0x3D := by
    decide +kernel
  have hc := hall url ⟨c.toNat, c.toNat_lt⟩
  simp only [UInt8.ofNat_toNat] at hc
  exact hc h

theorem stripPadding_digits {url : Bool} {ds : Bytes} (h : ∀ c ∈ ds, toBase64Value url c ≤ 63)
    {k : Nat} (hk : k ≤ 2) : stripPadding (ds ++ List.replicate k 0x3D) = (ds, k) := by
  have hspace : isAsciiWhiteSpace 0x3D = false := by decide
  have hdigits : ∀ c ∈ ds.getLast?, isAsciiWhiteSpace c = false ∧ c ≠ 0x3D :=
    fun c hc => digit_symbol (h c (List.mem_of_getLast? hc))
  have hlast : ds.getLast? ≠ some 0x3D := fun heq => (hdigits 0x3D heq).2 rfl
  have htrim : trimSpaces ds = ds := trimSpaces_eq fun c hc => (hdigits c hc).1
  have hpadded : ∀ front : Bytes, trimSpaces (front ++ [0x3D]) = front ++ [0x3D] := by
    intro front
    apply trimSpaces_eq
    intro c hc
    rw [List.getLast?_append_of_ne_nil _ (List.cons_ne_nil _ _)] at hc
    cases hc
    exact hspace
  match k, hk with
  | 0, _ =>
      rw [List.replicate_zero, List.append_nil, stripPadding]
      simp only [htrim, if_neg hlast]
  | 1, _ =>
      rw [List.replicate_one, stripPadding]
      simp only [hpadded, List.getLast?_concat, if_true, List.dropLast_concat, htrim, if_neg hlast]
  | 2, _ =>
      have htwo : ds ++ List.replicate 2 0x3D = (ds ++ [0x3D]) ++ [0x3D] := by simp
      rw [htwo, stripPadding]
      simp only [hpadded, List.getLast?_concat, if_true, List.dropLast_concat]

theorem digits_map {url : Bool} {ds : List Nat} (h : ∀ d ∈ ds, d < 64) :
    digits url (ds.map fun d => (base64Digit url d).toUInt8) = ds := by
  induction ds with
  | nil => rfl
  | cons d ds ih =>
      have hd := h d List.mem_cons_self
      rw [List.map_cons, digits_cons, toBase64Value_digit url d hd, if_pos (by omega),
        ih fun e he => h e (List.mem_cons_of_mem _ he)]

theorem base64Decode_encode (url : Bool) (data : Bytes) :
    base64Decode url (latin1Bytes (makeBase64String url data)) = (0, data) := by
  obtain ⟨k, hk, hpadding⟩ : ∃ k, (k = 0 ∨ k = (3 - data.length % 3) % 3) ∧
      latin1Bytes (base64Padding url ((3 - data.length % 3) % 3)) = List.replicate k 0x3D := by
    cases url with
    | true => exact ⟨0, Or.inl rfl, rfl⟩
    | false => exact ⟨_, Or.inr rfl, List.map_replicate⟩
  have htext : latin1Bytes (makeBase64String url data) =
      (digitsOfBytes data).map (fun d => (base64Digit url d).toUInt8) ++ List.replicate k 0x3D := by
    rw [makeBase64String_eq, ← hpadding]
    simp [latin1Bytes]
  have hlt : ∀ d ∈ digitsOfBytes data, d < 64 := fun d hd => digitsOfBytes_lt hd
  have hdigits : ∀ c ∈ (digitsOfBytes data).map (fun d => (base64Digit url d).toUInt8),
      toBase64Value url c ≤ 63 := by
    intro c hc
    obtain ⟨d, hd, rfl⟩ := List.mem_map.mp hc
    have hd := hlt d hd
    rw [toBase64Value_digit url d hd]
    omega
  have hstrip := stripPadding_digits hdigits (show k ≤ 2 by omega)
  have hmod := digitsOfBytes_length_mod data
  have haccepted : Accepted url (latin1Bytes (makeBase64String url data)) := by
    refine ⟨fun c hc => ?_, ?_⟩
    · rw [htext, hstrip] at hc
      exact Nat.le_succ_of_le (hdigits c hc)
    · rw [htext, hstrip, digits_map hlt, hmod]
      simp only
      split <;> omega
  rw [base64Decode_spec, if_pos haccepted, htext, hstrip, digits_map hlt,
    bytesOfDigits_digitsOfBytes, if_neg]
  rw [hmod]
  split <;> omega

end HermesNode.Buffer
