/-
Module: HermesNode.Url.FileUrl
Purpose: `pathToFileURL` and `fileURLToPath` of the `internal/url` shim, the percent-encoder of the
  `url` binding, and the getters that the second one reads. The first one takes no path apart: what it
  encodes goes behind `file://` as it is. The second one takes URL objects of any scheme.
Trusted boundary: assumed contract (`ada::parse` is a parameter; `AdaParse.Standard` is what the URL
  standard says of texts behind `file://`)
Main exports: UrlContext, AdaParse, returnsForFiles_iff
-/
import HermesNode.Lib.UrlPath
import HermesNode.Url.Form
import Mathlib.Data.List.DropRight

namespace HermesNode.Url

open Streams (utf8Bytes)

/-! ### URL objects -/

/-- `URLContext`, with the components that the getters of the protocol, the host name and the path
read. -/
structure UrlContext extends Context where
  protocol_end : Nat
  host_start : Nat
  host_end : Nat
  pathname_start : Nat
deriving Repr, DecidableEq

/-- `s.slice(start, end)`; the components are no negative numbers. -/
def slice (s : JsString) (start stop : Nat) : JsString := (s.take stop).drop start

/-- The getter of `protocol`. -/
def UrlContext.protocol (ctx : UrlContext) : JsString := slice ctx.href 0 ctx.protocol_end

/-- The getter of `hostname`; the host may start with the `@` behind credentials. -/
def UrlContext.hostname (ctx : UrlContext) : JsString :=
  let startsAt := if ctx.href[ctx.host_start]? = some 0x40 then ctx.host_start + 1 else ctx.host_start
  slice ctx.href startsAt ctx.host_end

/-- The getter of `pathname`. -/
def UrlContext.pathname (ctx : UrlContext) : JsString :=
  let endsAt :=
    if ctx.search_start ≠ kOmittedSigned then ctx.search_start.toNat
    else if ctx.hash_start ≠ kOmittedSigned then ctx.hash_start.toNat
    else ctx.href.length
  slice ctx.href ctx.pathname_start endsAt

/-- `ada::parse` of some bytes; there is no URL on failure. -/
abbrev AdaParse := Bytes → Option UrlContext

/-! ### `pathToFileURL` -/

/-- The escapes of `encodePathChars`. -/
def pathEscapes : List (UInt8 × Bytes) :=
  [(0x00, ascii "%00"), (0x09, ascii "%09"), (0x0A, ascii "%0A"), (0x0D, ascii "%0D"),
    (0x20, ascii "%20"), (0x22, ascii "%22"), (0x23, ascii "%23"), (0x25, ascii "%25"),
    (0x3F, ascii "%3F"), (0x5B, ascii "%5B"), (0x5C, ascii "%5C"), (0x5D, ascii "%5D"),
    (0x5E, ascii "%5E"), (0x7C, ascii "%7C"), (0x7E, ascii "%7E")]

def encodePathChar (isWindows : Bool) (c : UInt8) : Bytes :=
  if isWindows && c == 0x5C then [slash] else (pathEscapes.lookup c).getD [c]

def fileScheme : Bytes := ascii "file://"

def encodePathChars (input : Bytes) (isWindows : Bool) : Bytes :=
  fileScheme ++ input.flatMap (encodePathChar isWindows)

/-- `pathToFileURL`, with the binding behind it. It throws where there is no URL. -/
def pathToFileURL (ada : AdaParse) (filepath : JsString) : Option UrlContext :=
  ada (encodePathChars (utf8Bytes filepath) false)

/-! ### `fileURLToPath` -/

/-- The properties of an argument that `fileURLToPath` reads; there is none where one is undefined. -/
structure UrlProps where
  protocol : Option JsString
  hostname : Option JsString
  pathname : Option JsString
deriving Repr, DecidableEq

/-- An argument of `fileURLToPath`: a string, a `URL`, another value with properties of its own, or
`null` or `undefined`. -/
inductive PathArg where
  | string (path : JsString)
  | url (ctx : UrlContext)
  | object (props : UrlProps)
  | nullish
deriving Repr, DecidableEq

def UrlContext.props (ctx : UrlContext) : UrlProps :=
  { protocol := some ctx.protocol, hostname := some ctx.hostname, pathname := some ctx.pathname }

/-- The argument is a `URL` or becomes one. -/
def PathArg.isURL : PathArg → Bool
  | .string _ | .url _ => true
  | .object _ | .nullish => false

/-- The properties, unless the argument is a string of no URL or has none. -/
def PathArg.props (ada : AdaParse) : PathArg → Option UrlProps
  | .string path => (ada (utf8Bytes path)).map UrlContext.props
  | .url ctx => some ctx.props
  | .object props => some props
  | .nullish => none

def codeUnits (bs : Bytes) : JsString := bs.map UInt8.toUInt16

/-- The loop over the path: some `%` is followed by `2f` or `2F`. -/
def hasEncodedSlash : JsString → Bool
  | a :: b :: c :: rest =>
      (a == 0x25 && b == 0x32 && (c ||| 0x20) == 0x66) || hasEncodedSlash (b :: c :: rest)
  | _ => false

/-- `hostname && hostname !== 'localhost'`. -/
def foreignHost (hostname : Option JsString) : Bool :=
  match hostname with
  | none | some [] => false
  | some name => name != codeUnits (ascii "localhost")

/-- `fileURLToPath`; there is no path where it throws. -/
def fileURLToPath (ada : AdaParse) (arg : PathArg) : Option JsString := do
  let props ← arg.props ada
  if !arg.isURL && props.protocol != some (codeUnits (ascii "file:")) then none
  else if foreignHost props.hostname then none
  else
    let pathname ← props.pathname
    if hasEncodedSlash pathname then none else decodeURIComponent pathname

/-! ### Texts behind `file://` -/

/-- Trailing control characters and spaces of the input go. -/
def trimEnd (text : Bytes) : Bytes := text.rdropWhile (· ≤ 0x20)

/-- The host of the URL of a text behind `file://`, and the segments of its path. The text up to a
slash is the host, unless it is empty or a drive letter; `localhost` is no host. -/
def fileText (host : Bytes → Option Bytes) (text : Bytes) : Option (Bytes × List Bytes) :=
  let name := text.takeWhile (· != slash)
  let segments := splitSlash ((text.dropWhile (· != slash)).drop 1)
  if isDriveLetter name then some ([], splitSlash text)
  else if name = [] then some ([], segments)
  else (host name).map fun name => (if name = ascii "localhost" then [] else name, segments)

/-- A `file:` URL of this host and path. -/
structure UrlContext.IsFile (ctx : UrlContext) (name path : Bytes) : Prop where
  protocol : ctx.protocol = codeUnits (ascii "file:")
  hostname : ctx.hostname = codeUnits name
  pathname : ctx.pathname = codeUnits path

/-- Characters that the parser drops, and those that end a path or separate its segments. -/
def reservedBytes : List UInt8 := [0x09, 0x0A, 0x0D, 0x23, 0x3F, 0x5C]

/-- What the URL standard says of the texts behind `file://` without reserved characters. `host` is its
host parser. -/
structure AdaParse.Standard (ada : AdaParse) (host : Bytes → Option Bytes) : Prop where
  parse : ∀ text, isUtf8 text = true →
    (∀ b ∈ text, b ∉ reservedBytes) →
    ∀ name segments, fileText host (trimEnd text) = some (name, segments) →
      ∃ ctx, ada (fileScheme ++ text) = some ctx ∧
        ctx.IsFile name (serializePath (pathState [] segments))
  failure : ∀ text, isUtf8 text = true →
    (∀ b ∈ text, b ∉ reservedBytes) →
    fileText host (trimEnd text) = none → ada (fileScheme ++ text) = none

/-! ### What `fileURLToPath` returns for -/

/-- A path has a percent-encoded slash. -/
def EncodedSlash (pathname : JsString) : Prop :=
  ∃ front c rest, pathname = front ++ 0x25 :: 0x32 :: c :: rest ∧ (c = 0x46 ∨ c = 0x66)

/-- A `file:` URL without a foreign host, and without an encoded slash in its path. -/
structure UrlProps.IsLocalFile (props : UrlProps) : Prop where
  protocol : props.protocol = some (codeUnits (ascii "file:"))
  hostname : foreignHost props.hostname = false
  pathname : ∀ pathname, props.pathname = some pathname → ¬ EncodedSlash pathname

/-- `fileURLToPath` returns for nothing but a local file. -/
def ReturnsForFiles (ada : AdaParse) (arg : PathArg) : Prop :=
  ∀ path, fileURLToPath ada arg = some path →
    ∃ props, arg.props ada = some props ∧ props.IsLocalFile

/-- A string or `URL` names a `file:` URL, or there is something in it that the other checks refuse. -/
def FileOrRefused (ada : AdaParse) (arg : PathArg) : Prop :=
  arg.isURL = true → ∀ props, arg.props ada = some props →
    props.protocol = some (codeUnits (ascii "file:")) ∨ foreignHost props.hostname = true ∨
      ∀ pathname, props.pathname = some pathname →
        EncodedSlash pathname ∨ decodeURIComponent pathname = none

theorem third_iff (c : UInt16) : (c ||| 0x20) = 0x66 ↔ c = 0x46 ∨ c = 0x66 := by
  have hsmall : ∀ n ≤ 0x66, n ||| 0x20 = 0x66 → n = 0x46 ∨ n = 0x66 := by decide
  constructor
  · intro h
    have hnat : c.toNat ||| 0x20 = 0x66 := congrArg UInt16.toNat h
    have hle : c.toNat ≤ 0x66 := by
      rw [← hnat]
      exact Nat.left_le_or
    obtain hc | hc := hsmall c.toNat hle hnat
    · exact Or.inl (UInt16.toNat_inj.mp hc)
    · exact Or.inr (UInt16.toNat_inj.mp hc)
  · rintro (rfl | rfl)
    · rfl
    · rfl

theorem EncodedSlash.length {pathname : JsString} (h : EncodedSlash pathname) : 3 ≤ pathname.length := by
  obtain ⟨front, d, behind, rfl, -⟩ := h
  simp only [List.length_append, List.length_cons]
  omega

theorem hasEncodedSlash_iff (pathname : JsString) :
    hasEncodedSlash pathname = true ↔ EncodedSlash pathname := by
  induction pathname with
  | nil => exact iff_of_false Bool.false_ne_true fun h => absurd h.length (by decide)
  | cons a tail ih =>
      rcases tail with _ | ⟨b, _ | ⟨c, rest⟩⟩
      · exact iff_of_false Bool.false_ne_true fun h => absurd h.length (by simp)
      · exact iff_of_false Bool.false_ne_true fun h => absurd h.length (by simp)
      rw [hasEncodedSlash, Bool.or_eq_true, ih]
      unfold EncodedSlash
      simp only [Bool.and_eq_true, beq_iff_eq, third_iff]
      constructor
      · rintro (⟨⟨rfl, rfl⟩, hc⟩ | ⟨front, d, behind, heq, hd⟩)
        · exact ⟨[], c, rest, rfl, hc⟩
        · exact ⟨a :: front, d, behind, by rw [heq, List.cons_append], hd⟩
      · rintro ⟨front, d, behind, heq, hd⟩
        cases front with
        | nil =>
            simp only [List.nil_append, List.cons.injEq] at heq
            obtain ⟨rfl, rfl, rfl, rfl⟩ := heq
            exact Or.inl ⟨⟨rfl, rfl⟩, hd⟩
        | cons x front =>
            rw [List.cons_append, List.cons.injEq] at heq
            exact Or.inr ⟨front, d, behind, heq.2, hd⟩

/-- What `fileURLToPath` returns of an argument. -/
theorem fileURLToPath_eq_some {ada : AdaParse} {arg : PathArg} {path : JsString} :
    fileURLToPath ada arg = some path ↔
      ∃ props pathname, arg.props ada = some props ∧
        (arg.isURL = true ∨ props.protocol = some (codeUnits (ascii "file:"))) ∧
        foreignHost props.hostname = false ∧ props.pathname = some pathname ∧
        ¬ EncodedSlash pathname ∧ decodeURIComponent pathname = some path := by
  unfold fileURLToPath
  simp only [Option.bind_eq_bind, Option.bind_eq_some_iff]
  apply exists_congr
  intro props
  rw [exists_and_left]
  apply and_congr_right
  intro _
  cases arg.isURL with
  | true =>
      simp only [Bool.not_true, Bool.false_and, Bool.false_eq_true, if_false, true_or, true_and]
      cases foreignHost props.hostname with
      | true => simp
      | false =>
          simp [Option.bind_eq_some_iff, ← hasEncodedSlash_iff]
  | false =>
      by_cases hprotocol : props.protocol = some (codeUnits (ascii "file:"))
      · cases foreignHost props.hostname with
        | true => simp
        | false => simp [hprotocol, Option.bind_eq_some_iff, ← hasEncodedSlash_iff]
      · simp [hprotocol]

/-- `fileURLToPath` returns for local files alone exactly where a `URL` of another scheme is refused for
something else. -/
theorem returnsForFiles_iff (ada : AdaParse) (arg : PathArg) :
    ReturnsForFiles ada arg ↔ FileOrRefused ada arg := by
  constructor
  · intro h hurl props hprops
    by_cases hhost : foreignHost props.hostname = true
    · exact Or.inr (Or.inl hhost)
    by_cases hpath : ∀ pathname, props.pathname = some pathname →
        EncodedSlash pathname ∨ decodeURIComponent pathname = none
    · exact Or.inr (Or.inr hpath)
    · -- Nothing is refused, so the call returns, and then only for a file.
      simp only [not_forall, not_or] at hpath
      obtain ⟨pathname, hpathname, hslash, hdecodes⟩ := hpath
      obtain ⟨path, hpath⟩ := Option.ne_none_iff_exists'.mp hdecodes
      obtain ⟨props', hprops', hfile⟩ := h path (fileURLToPath_eq_some.mpr
        ⟨props, pathname, hprops, Or.inl hurl, Bool.not_eq_true _ ▸ hhost, hpathname, hslash, hpath⟩)
      rw [hprops] at hprops'
      cases hprops'
      exact Or.inl hfile.protocol
  · intro h path hpath
    obtain ⟨props, pathname, hprops, hscheme, hhost, hpathname, hslash, hdecodes⟩ :=
      fileURLToPath_eq_some.mp hpath
    refine ⟨props, hprops, ?_, hhost, fun pathname' hsame => ?_⟩
    · obtain hurl | hprotocol := hscheme
      · obtain hprotocol | hforeign | hrefused := h hurl props hprops
        · exact hprotocol
        · rw [hhost] at hforeign
          cases hforeign
        · obtain hencoded | hnone := hrefused pathname hpathname
          · exact absurd hencoded hslash
          · rw [hnone] at hdecodes
            cases hdecodes
      · exact hprotocol
    · rw [hpathname] at hsame
      cases hsame
      exact hslash

end HermesNode.Url
