/-
Module: HermesNode.Resolve.PackageJson
Purpose: The reader of the `"main"` field in `bundle_resolve.cpp`: a top-level-only walk of a JSON
  object. The source keeps an index `i` into the text; here the state is the text from `i` on, so
  that advancing is dropping and every loop shortens its argument.
Trusted boundary: human-reviewed spec (transcribed from `lib/bundle/bundle_resolve.cpp`)
Main exports: readJsonString, skipValue, packageMain
-/
import HermesNode.Lib.Buffer

namespace HermesNode.Resolve

/-- `std::isspace` in the C locale. -/
def isSpace (c : UInt8) : Bool := c == 32 || (9 ≤ c && c ≤ 13)

def skipWs (text : Bytes) : Bytes := text.dropWhile isSpace

def quote : UInt8 := 34

def backslash : UInt8 := 92

/-- The loop of `readJsonString`, from behind the opening quote: the value and the text behind the
closing quote. A backslash keeps the next byte as it is. -/
def readJsonStringLoop : Bytes → Bytes → Option (Bytes × Bytes)
  | [], _ => none
  | [c], value => if c == quote then some (value, []) else none
  | c :: d :: text, value =>
      if c == quote then some (value, d :: text)
      else if c == backslash then readJsonStringLoop text (value ++ [d])
      else readJsonStringLoop (d :: text) (value ++ [c])

/-- Read the string whose opening quote is the first byte of the text. -/
def readJsonString (text : Bytes) : Option (Bytes × Bytes) := readJsonStringLoop text.tail []

/-- The bracket loop of `skipValue`. Only brackets of the value's own type are counted. The fuel
is the length of the text, which every iteration shortens. -/
def skipBracketed (openBracket closeBracket : UInt8) : Nat → Bytes → Int → Option Bytes
  | 0, _, _ => none
  | _ + 1, [], _ => none
  | fuel + 1, d :: text, depth =>
      if d == quote then
        match readJsonString (d :: text) with
        | none => none
        | some (_, rest) => skipBracketed openBracket closeBracket fuel rest depth
      else if d == openBracket then skipBracketed openBracket closeBracket fuel text (depth + 1)
      else if d == closeBracket then
        if depth - 1 = 0 then some text
        else skipBracketed openBracket closeBracket fuel text (depth - 1)
      else skipBracketed openBracket closeBracket fuel text depth

/-- A byte that ends a bare token. -/
def endsToken (c : UInt8) : Bool := c == 44 || c == 125 || c == 93 || isSpace c

/-- Skip one JSON value: the text behind it. -/
def skipValue : Bytes → Option Bytes
  | [] => none
  | c :: text =>
      if c == quote then (readJsonString (c :: text)).map (·.2)
      else if c == 123 then skipBracketed 123 125 (text.length + 1) (c :: text) 0
      else if c == 91 then skipBracketed 91 93 (text.length + 1) (c :: text) 0
      else some ((c :: text).dropWhile fun d => !endsToken d)

/-- The key/value loop of `readPackageMain`. -/
def packageMainLoop : Nat → Bytes → Option Bytes
  | 0, _ => none
  | fuel + 1, text =>
      let text := skipWs text
      -- a byte that is no quote ends the walk: the object's end, or a malformed key
      if text.head? != some quote then none
      else
        match readJsonString text with
        | none => none
        | some (key, rest) =>
            let rest := skipWs rest
            if rest.head? != some 58 then none
            else
              let value := skipWs rest.tail
              if key == ascii "main" then
                if value.head? != some quote then none
                else (readJsonString value).map (·.1)
              else
                match skipValue value with
                | none => none
                | some rest =>
                    let rest := skipWs rest
                    if rest.head? == some 44 then packageMainLoop fuel rest.tail else none

/-- `readPackageMain` on the text of a `package.json`. -/
def packageMain (content : Bytes) : Option Bytes :=
  let text := skipWs content
  if text.head? != some 123 then none else packageMainLoop text.length text.tail

example : packageMain (ascii "\x7b \"description\": \"main\", \"main\": \"lib/a.js\" \x7d") =
    some (ascii "lib/a.js") := by decide

end HermesNode.Resolve
