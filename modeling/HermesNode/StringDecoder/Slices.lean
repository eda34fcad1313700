/-
Module: HermesNode.StringDecoder.Slices
Purpose: The slice methods of the `buffer` binding (`asciiSlice` to `ucs2Slice`), which turn a range of
  a buffer into a string, beside a decoder that is given the same bytes in one chunk. They agree in
  every encoding but `ascii`: there the slice masks the high bit of each byte and the decoder, which
  has one case for `ascii` and `latin1`, keeps it.
Trusted boundary: human-reviewed spec (the string constructors of Node-API; simdutf's base64)
Main exports: SliceArgs, getSliceArgs, decoder_agrees_with_slice
-/
import HermesNode.StringDecoder.Chunks

namespace HermesNode.StringDecoder

/-- The range of the buffer a slice method reads. -/
structure SliceArgs where
  start : Nat
  stop : Nat
  deriving DecidableEq, Repr

/-- The range for a buffer of a length: the two optional arguments, as `napi_get_value_uint32` gives
them, with the end moved up to the start and then down to the length. -/
def getSliceArgs (length : Nat) (start stop : Option UInt32) : SliceArgs :=
  ⟨(start.map UInt32.toNat).getD 0,
    min (max ((stop.map UInt32.toNat).getD length) ((start.map UInt32.toNat).getD 0)) length⟩

/-- The bytes of the range. A start behind the end makes `end - start` wrap around: the read leaves
the buffer, and nothing is said of its result. -/
def SliceArgs.bytes (args : SliceArgs) (data : Bytes) : Option Bytes :=
  if args.start ≤ args.stop then some ((data.drop args.start).take (args.stop - args.start))
  else none

/-! ### The seven conversions -/

/-- Each byte without its high bit. -/
def asciiSlice (data : Bytes) : JsString := data.map fun b => (b &&& 0x7F).toUInt16

def latin1Slice (data : Bytes) : JsString := data.map UInt8.toUInt16

def utf8Slice (data : Bytes) : JsString := decodeUtf8 data

/-- `0123456789abcdef`. -/
def kHexChars : List UInt16 := [48, 49, 50, 51, 52, 53, 54, 55, 56, 57, 97, 98, 99, 100, 101, 102]

def hexEncode (data : Bytes) : JsString :=
  data.flatMap fun (c : UInt8) =>
    [kHexChars.getD (c >>> 4).toNat 0, kHexChars.getD (c &&& 0x0F).toNat 0]

/-- `simdutf::binary_to_base64`, which the decoder calls too. -/
def base64Encode (urlSafe : Bool) (data : Bytes) : JsString := makeBase64String urlSafe data

/-- The first `charLen` code units of the bytes, each with its low byte first. -/
def ucs2Units (data : Bytes) (charLen : Nat) : JsString :=
  (List.range charLen).map fun i =>
    UInt16.ofNat ((data.getD (2 * i) 0).toNat + 256 * (data.getD (2 * i + 1) 0).toNat)

def ucs2Slice (data : Bytes) : JsString := ucs2Units data (data.length / 2)

/-- The conversion of the slice method of an encoding; `BUFFER` has no slice method. -/
def convert (data : Bytes) : Encoding → Option JsString
  | .ascii => some (asciiSlice data)
  | .latin1 => some (latin1Slice data)
  | .utf8 => some (utf8Slice data)
  | .hex => some (hexEncode data)
  | .base64 => some (base64Encode false data)
  | .base64url => some (base64Encode true data)
  | .ucs2 => some (ucs2Slice data)
  | .buffer => none

/-- `buf.<encoding>Slice(start, end)`. -/
def slice (enc : Encoding) (data : Bytes) (start stop : Option UInt32) : Option JsString :=
  ((getSliceArgs data.length start stop).bytes data).bind fun range =>
    if range.isEmpty then some [] else convert range enc

/-! ### Ranges -/

/-- The arguments that ask for the whole of a buffer. -/
def WholeBuffer (length : Nat) (start stop : Option UInt32) : Prop :=
  (start.map UInt32.toNat).getD 0 = 0 ∧ length ≤ (stop.map UInt32.toNat).getD length

theorem bytes_whole {data : Bytes} {start stop : Option UInt32}
    (hwhole : WholeBuffer data.length start stop) :
    (getSliceArgs data.length start stop).bytes data = some data := by
  obtain ⟨hstart, hstop⟩ := hwhole
  have hall : min (max ((stop.map UInt32.toNat).getD data.length) 0) data.length =
      data.length := by
    omega
  have hargs : getSliceArgs data.length start stop = ⟨0, data.length⟩ := by
    unfold getSliceArgs
    rw [hstart, hall]
  rw [hargs]
  unfold SliceArgs.bytes
  rw [if_pos (Nat.zero_le _), List.drop_zero, Nat.sub_zero, List.take_length]

theorem slice_whole {data : Bytes} {start stop : Option UInt32}
    (hwhole : WholeBuffer data.length start stop) (enc : Encoding) :
    slice enc data start stop = if data.isEmpty then some [] else convert data enc := by
  unfold slice
  rw [bytes_whole hwhole]
  rfl

/-! ### The two conversions of each encoding -/

/-- Shifting and masking a byte gives its two digits, as dividing it does. -/
theorem kHexChars_byte (c : UInt8) :
    kHexChars.getD (c >>> 4).toNat 0 = (hexDigit (c.toNat / 16)).toUInt16 ∧
      kHexChars.getD (c &&& 0x0F).toNat 0 = (hexDigit (c.toNat % 16)).toUInt16 :=
  forall_bytes (p := fun c => kHexChars.getD (c >>> 4).toNat 0 = (hexDigit (c.toNat / 16)).toUInt16 ∧
    kHexChars.getD (c &&& 0x0F).toNat 0 = (hexDigit (c.toNat % 16)).toUInt16) (by decide +kernel) c

theorem hexEncode_eq (data : Bytes) : hexEncode data = makeHexString data := by
  unfold hexEncode makeHexString
  congr 1
  funext c
  rw [(kHexChars_byte c).1, (kHexChars_byte c).2]

/-- One more code unit at the front. -/
theorem ucs2Units_cons (a b : UInt8) (data : Bytes) (charLen : Nat) :
    ucs2Units (a :: b :: data) (charLen + 1) =
      UInt16.ofNat (a.toNat + 256 * b.toNat) :: ucs2Units data charLen := by
  unfold ucs2Units
  rw [List.range_succ_eq_map, List.map_cons, List.map_map]
  congr 1

/-- A lone last byte is no code unit. -/
theorem ucs2Slice_eq (data : Bytes) : ucs2Slice data = makeUtf16String data := by
  induction data using makeUtf16String.induct with
  | case1 a b rest ih =>
      have hhalf : (a :: b :: rest).length / 2 = rest.length / 2 + 1 := by
        simp only [List.length_cons]
        omega
      unfold ucs2Slice
      rw [hhalf, ucs2Units_cons]
      exact congrArg _ ih
  | case2 data hshort =>
      rcases data with _ | ⟨a, _ | ⟨b, rest⟩⟩
      · rfl
      · simp [ucs2Slice, ucs2Units, makeUtf16String]
      · exact absurd rfl (hshort a b rest)

/-- Masking the high bit keeps exactly the bytes that have none. -/
theorem mask_eq_iff (b : UInt8) : (b &&& 0x7F).toUInt16 = b.toUInt16 ↔ b < 0x80 :=
  forall_bytes (p := fun b => (b &&& 0x7F).toUInt16 = b.toUInt16 ↔ b < 0x80) (by decide +kernel) b

theorem asciiSlice_eq_iff (data : Bytes) :
    asciiSlice data = data.map UInt8.toUInt16 ↔ ∀ b ∈ data, b < 0x80 := by
  unfold asciiSlice
  rw [List.map_inj_left]
  constructor
  · intro h b hb
    exact (mask_eq_iff b).mp (h b hb)
  · intro h b hb
    exact (mask_eq_iff b).mpr (h b hb)

/-- The slice and the decoder's string constructor differ at most in `ascii`. -/
theorem convert_eq_makeString_iff {enc : Encoding} (hsupported : enc.supported = true)
    {data : Bytes} (hdata : data ≠ []) :
    convert data enc = some (makeString enc data) ↔
      (enc = .ascii → ∀ b ∈ data, b < 0x80) := by
  have hne : ¬ data.isEmpty = true := by
    rw [List.isEmpty_iff]
    exact hdata
  unfold makeString
  rw [if_neg hne]
  cases enc with
  | ascii => simp [convert, asciiSlice_eq_iff]
  | latin1 => simp [convert, latin1Slice]
  | utf8 => simp [convert, utf8Slice]
  | hex => simp [convert, hexEncode_eq]
  | base64 => simp [convert, base64Encode]
  | base64url => simp [convert, base64Encode]
  | ucs2 => simp [convert, ucs2Slice_eq]
  | buffer => cases hsupported

/-- A new decoder, given all the bytes in one chunk and flushed, returns what the slice method of its
encoding returns for the whole buffer, unless the encoding is `ascii` and some byte has its high bit
set; then it does not. -/
theorem decoder_agrees_with_slice (enc : Encoding) (hsupported : enc.supported = true)
    (data : Bytes) (start stop : Option UInt32)
    (hwhole : WholeBuffer data.length start stop) :
    slice enc data start stop = some ((Decoder.init enc).run [.decode data, .flush]).2 ↔
      (enc = .ascii → ∀ b ∈ data, b < 0x80) := by
  have hdecoded : ((Decoder.init enc).run [.decode data, .flush]).2 = makeString enc data := by
    have hrun := decodeChunks_spec (d := Decoder.init enc) hsupported (init_wellFormed enc) [data]
    simpa [decodeChunks, Decoder.held, Decoder.init] using hrun
  rw [hdecoded, slice_whole hwhole]
  cases data with
  | nil => simp [makeString]
  | cons b rest =>
      rw [if_neg (by simp)]
      exact convert_eq_makeString_iff hsupported (List.cons_ne_nil b rest)

/-- A text of two ASCII bytes, sliced with both arguments given. -/
theorem ascii_text_agrees :
    slice .ascii [0x48, 0x69] (some 0) (some 2) =
      some ((Decoder.init .ascii).run [.decode [0x48, 0x69], .flush]).2 :=
  (decoder_agrees_with_slice .ascii rfl [0x48, 0x69] (some 0) (some 2)
    ⟨by decide, by decide⟩).mpr (fun _ => by simp)

/-- The byte of an `é` in `latin1`, read as `ascii`: the slice gives `i`, the decoder `é`. -/
theorem ascii_high_byte_differs :
    slice .ascii [0xE9] none none = some [0x69] ∧
      ((Decoder.init .ascii).run [.decode [0xE9], .flush]).2 = [0xE9] ∧
      slice .ascii [0xE9] none none ≠
        some ((Decoder.init .ascii).run [.decode [0xE9], .flush]).2 := by
  decide

end HermesNode.StringDecoder
