/-
Module: HermesNode.StringDecoder.Decoder
Purpose: The `string_decoder` binding: a decoder keeps the bytes of a character that a chunk ends
  inside of, completes it from the next chunk, and looks at the end of each chunk for the next one
  to keep. `decode` gives the string of a chunk and `flush` the string of what is left.
Trusted boundary: human-reviewed spec (the string constructors of Node-API; simdutf's base64)
Main exports: Encoding, Decoder, makeString, Decoder.decodeData
-/
import HermesNode.Lib.Unicode

namespace HermesNode.StringDecoder

/-- `enum Encoding`; `latin1` is also `BINARY`. -/
inductive Encoding where
  | ascii
  | utf8
  | base64
  | ucs2
  | latin1
  | hex
  | buffer
  | base64url
  deriving DecidableEq, Repr

/-- The encodings `new StringDecoder` accepts: `normalizeEncoding` knows no encoding `buffer`. -/
def Encoding.supported (enc : Encoding) : Bool := enc != .buffer

/-- The seven bytes of decoder state. -/
structure Decoder where
  /-- The incomplete character, `kIncompleteCharactersStart` to `kIncompleteCharactersEnd`. -/
  chars : Bytes
  missing : Nat
  buffered : Nat
  encoding : Encoding
  deriving DecidableEq, Repr

/-- `Buffer.alloc(kSize)` with the encoding field set. -/
def Decoder.init (enc : Encoding) : Decoder := ⟨[0, 0, 0, 0], 0, 0, enc⟩

/-! ### Strings of bytes -/

def makeHexString (data : Bytes) : JsString :=
  data.flatMap fun c =>
    [(hexDigit (c.toNat / 16)).toUInt16, (hexDigit (c.toNat % 16)).toUInt16]

/-- A base64 digit. -/
def base64Digit (urlSafe : Bool) (n : Nat) : UInt16 :=
  if n < 26 then UInt16.ofNat (65 + n)
  else if n < 52 then UInt16.ofNat (71 + n)
  else if n < 62 then UInt16.ofNat (n - 4)
  else if n = 62 then (if urlSafe then 45 else 43)
  else (if urlSafe then 95 else 47)

/-- `=` unless the digits are those for URLs. -/
def base64Padding (urlSafe : Bool) (count : Nat) : JsString :=
  if urlSafe then [] else List.replicate count 61

def makeBase64String (urlSafe : Bool) : Bytes → JsString
  | [] => []
  | [a] =>
      [base64Digit urlSafe (a.toNat / 4), base64Digit urlSafe (a.toNat % 4 * 16)]
        ++ base64Padding urlSafe 2
  | [a, b] =>
      [base64Digit urlSafe (a.toNat / 4), base64Digit urlSafe (a.toNat % 4 * 16 + b.toNat / 16),
        base64Digit urlSafe (b.toNat % 16 * 4)] ++ base64Padding urlSafe 1
  | a :: b :: c :: rest =>
      [base64Digit urlSafe (a.toNat / 4), base64Digit urlSafe (a.toNat % 4 * 16 + b.toNat / 16),
        base64Digit urlSafe (b.toNat % 16 * 4 + c.toNat / 64), base64Digit urlSafe (c.toNat % 64)]
        ++ makeBase64String urlSafe rest

/-- `length / 2` little-endian code units. -/
def makeUtf16String : Bytes → JsString
  | a :: b :: rest => UInt16.ofNat (a.toNat + 256 * b.toNat) :: makeUtf16String rest
  | _ => []

def makeString (enc : Encoding) (data : Bytes) : JsString :=
  if data.isEmpty then []
  else
    match enc with
    | .utf8 => decodeUtf8 data
    | .ascii | .latin1 => data.map UInt8.toUInt16
    | .ucs2 => makeUtf16String data
    | .hex => makeHexString data
    | .base64 => makeBase64String false data
    | .base64url => makeBase64String true data
    | .buffer => decodeUtf8 data

/-! ### Finishing the character of the previous chunk -/

/-- `(b & 0xC0) == 0x80`. -/
def continues (b : UInt8) : Bool := b &&& 0xC0 == 0x80

/-- `memcpy` behind the buffered bytes, which then count as buffered. -/
def Decoder.keep (d : Decoder) (bs : Bytes) : Decoder :=
  { d with
    chars := d.chars.take d.buffered ++ bs ++ d.chars.drop (d.buffered + bs.length)
    buffered := d.buffered + bs.length }

/-- The loop over continuation bytes: a byte among those still missing that is none ends the
character with the bytes before it. -/
def Decoder.stopEarly (d : Decoder) (data : Bytes) : Decoder × Bytes :=
  if d.encoding = .utf8 then
    match (data.take d.missing).findIdx? (fun b => !continues b) with
    | some i => ({ d.keep (data.take i) with missing := 0 }, data.drop i)
    | none => (d, data)
  else (d, data)

/-- The bytes that are missing, as far as the chunk has them; once none is missing the string of the
character is `prepend`. -/
def Decoder.fill (d : Decoder) (data : Bytes) : Decoder × Bytes × Option JsString :=
  let foundBytes := min data.length d.missing
  let filled : Decoder := { d.keep (data.take foundBytes) with missing := d.missing - foundBytes }
  if filled.missing = 0 then
    ({ filled with buffered := 0 }, data.drop foundBytes,
      some (makeString d.encoding (filled.chars.take filled.buffered)))
  else (filled, data.drop foundBytes, none)

def Decoder.complete (d : Decoder) (data : Bytes) : Decoder × Bytes × Option JsString :=
  if 0 < d.missing then (d.stopEarly data).1.fill (d.stopEarly data).2 else (d, data, none)

/-! ### The incomplete character at the end -/

/-- How long the character of a lead byte is. -/
def charWidth (b : UInt8) : Option Nat :=
  if b &&& 0xE0 = 0xC0 then some 2
  else if b &&& 0xF0 = 0xE0 then some 3
  else if b &&& 0xF8 = 0xF0 then some 4
  else none

/-- The scan for the start of the last character, over the bytes from the last one on: how many
bytes to keep and how many are missing. -/
def scanBack (missing : Nat) : Nat → Bytes → Nat × Nat
  | buffered, [] => (buffered, missing)
  | buffered, b :: front =>
      if continues b then
        -- Invalid, or no lead byte in the chunk.
        if 4 ≤ buffered + 1 || front.isEmpty then (0, missing)
        else scanBack missing (buffered + 1) front
      else
        match charWidth b with
        | none => (0, missing)
        | some width =>
            if width ≤ buffered + 1 then (0, 0) else (buffered + 1, width - (buffered + 1))

/-- `data[nread - 1]`. -/
def lastByte (data : Bytes) : UInt8 := data.getLast?.getD 0

/-- How many bytes at the end of a chunk are kept and how many are then missing. -/
def Decoder.lookAtEnd (d : Decoder) (data : Bytes) : Nat × Nat :=
  match d.encoding with
  | .utf8 =>
      if lastByte data &&& 0x80 = 0 then (d.buffered, d.missing)
      else scanBack d.missing d.buffered data.reverse
  | .ucs2 =>
      if data.length % 2 = 1 then (1, 1)
      else if lastByte data &&& 0xFC = 0xD8 then (2, 2)
      else (d.buffered, d.missing)
  | .base64 | .base64url =>
      (data.length % 3, if 0 < data.length % 3 then 3 - data.length % 3 else d.missing)
  | _ => (d.buffered, d.missing)

/-- The end of the chunk is copied to the start of the incomplete character and the rest is the
body. -/
def Decoder.holdBack (d : Decoder) (data : Bytes) : Decoder × JsString :=
  let kept := d.lookAtEnd data
  let nread := data.length - kept.1
  ({ d with
      chars := data.drop nread ++ d.chars.drop kept.1
      missing := kept.2
      buffered := kept.1 },
    makeString d.encoding (data.take nread))

/-! ### Decode and flush -/

def Encoding.multibyte : Encoding → Bool
  | .utf8 | .ucs2 | .base64 | .base64url => true
  | _ => false

def Decoder.decodeData (d : Decoder) (data : Bytes) : Decoder × JsString :=
  if d.encoding.multibyte then
    match d.complete data with
    | (d, data, prepend) =>
        if data.isEmpty then (d, prepend.getD [])
        else ((d.holdBack data).1, prepend.getD [] ++ (d.holdBack data).2)
  else (d, makeString d.encoding data)

/-- The lone byte of a code unit is dropped. -/
def Decoder.dropLone (d : Decoder) : Decoder :=
  if d.encoding = .ucs2 ∧ d.buffered % 2 = 1 then
    { d with missing := d.missing - 1, buffered := d.buffered - 1 }
  else d

def Decoder.flushData (d : Decoder) : Decoder × JsString :=
  if d.dropLone.buffered = 0 then (d.dropLone, [])
  else
    ({ d.dropLone with missing := 0, buffered := 0 },
      makeString d.encoding (d.dropLone.chars.take d.dropLone.buffered))

/-- A call on a decoder. -/
inductive Call where
  | decode (data : Bytes)
  | flush

def Decoder.call (d : Decoder) : Call → Decoder × JsString
  | .decode data => d.decodeData data
  | .flush => d.flushData

/-- The state after some calls and the concatenation of what they returned. -/
def Decoder.run (d : Decoder) : List Call → Decoder × JsString
  | [] => (d, [])
  | c :: cs => (((d.call c).1.run cs).1, (d.call c).2 ++ ((d.call c).1.run cs).2)

end HermesNode.StringDecoder
