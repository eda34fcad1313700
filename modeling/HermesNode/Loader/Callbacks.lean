/-
Module: HermesNode.Loader.Callbacks
Purpose: The natives behind the loader's `bundle` object: `lookup`, `resolve`, `load` and `natives`
  over the open container. JavaScript strings cross into them as UTF-8 and identities cross back.
  A JavaScript string is its sequence of code units; it is kept here as the WTF-8 bytes of that
  sequence, of which every string has exactly one, so that ASCII prefixes and separators are bytes.
Trusted boundary: human-reviewed spec (transcribed from `lib/bundle/bundle_run.cpp`); the two string
  conversions belong to the engine and are parameters
Main exports: Napi, OpenBundle, edgeTarget, resolveTarget
-/
import HermesNode.Bundle.FileSource
import HermesNode.Lib.Text

namespace HermesNode.Loader

open HermesNode.Bundle Resolve

abbrev JsString := Bytes

/-- The engine's string conversions. -/
structure Napi where
  /-- `napi_get_value_string_utf8`. -/
  toUtf8 : JsString → Bytes
  /-- `napi_create_string_utf8`. -/
  ofUtf8 : Bytes → JsString

/-- What the conversions are documented to do: strings come out as UTF-8, and UTF-8 that goes in
comes out again. Nothing is said about bytes that are not UTF-8 or about lone surrogates. -/
structure Napi.Lawful (napi : Napi) : Prop where
  utf8 : ∀ s, isUtf8 (napi.toUtf8 s) = true
  roundTrip : ∀ b, isUtf8 b = true → napi.toUtf8 (napi.ofUtf8 b) = b

structure OpenBundle where
  reader : BundleReader
  root : Bytes

namespace OpenBundle

variable (napi : Napi) (b : OpenBundle)

def fileSource : BundleFileSource := { reader := b.reader, root := b.root }

/-- The identity of a module, which `open` has checked to be readable. -/
def identity (i : Nat) : Bytes := (b.reader.identity i).getD []

/-- The identity of a module as JavaScript sees it. -/
def spelling (i : Nat) : JsString := napi.ofUtf8 (b.identity i)

/-- `byIdentity.find(identity)`. -/
def indexOf (identity : Bytes) : Option Nat :=
  (List.range b.reader.moduleCount).find? fun i => b.identity i == identity

def isRequirable (i : Nat) : Bool := (b.reader.isRequirable i).getD false

/-- The module index an edge `(importer, specifier)` points at. -/
def edgeTarget (importer specifier : JsString) : Option Nat :=
  (b.indexOf (napi.toUtf8 importer)).bind fun i =>
    (b.reader.lookup (UInt32.ofNat i) (napi.toUtf8 specifier)).join.map (·.toNat)

/-- The module index of a file the resolver found, unless it is packaged for the resolver only. -/
def requirableAt (resolved : Bytes) : Option Nat :=
  ((b.fileSource.identityFor resolved).bind b.indexOf).filter b.isRequirable

/-- The module index `resolveSpecifier` reaches over the container. An entry of `paths` that is no
string is passed over; the first entry that resolves decides. -/
def resolveTarget (importer request : JsString) (paths : Option (List (Option JsString))) :
    Option Nat :=
  let resolveAs (fromFile : Bytes) : Option Bytes :=
    (resolveSpecifier b.fileSource.toFileSource fromFile (napi.toUtf8 request)).target
  let resolved := match paths with
    | none => resolveAs (b.root ++ slash :: napi.toUtf8 importer)
    | some entries => entries.findSome? fun (entry : Option JsString) =>
        entry.bind fun dir => resolveAs (napi.toUtf8 dir ++ ascii "/x")
  resolved.bind b.requirableAt

/-- `bundle.lookup(importer, specifier)`. -/
def bundleLookup (importer specifier : JsString) : Option JsString :=
  (b.edgeTarget napi importer specifier).map (b.spelling napi)

/-- `bundle.resolve(importer, request, paths)`. -/
def bundleResolve (importer request : JsString) (paths : Option (List (Option JsString))) :
    Option JsString :=
  (b.resolveTarget napi importer request paths).map (b.spelling napi)

/-- What `bundle.load` answers: the wrapper function of a JavaScript module, the text of a JSON
module, or one of its refusals. -/
inductive LoadReply where
  | wrapper (moduleIndex : Nat)
  | text (moduleIndex : Nat)
  | noSuchModule
  | resolveOnly
  | nativeAddon
deriving Repr, DecidableEq

/-- `bundle.load(identity)`. -/
def bundleLoad (identity : JsString) : LoadReply :=
  match b.indexOf (napi.toUtf8 identity) with
  | none => .noSuchModule
  | some i =>
      if !b.isRequirable i then .resolveOnly
      else match b.reader.kind i with
        | some .kNative => .nativeAddon
        | some .kJSON => .text i
        | _ => .wrapper i

/-- The module indices of the native rows, in row order. -/
def nativeRows : List Nat :=
  (List.range b.reader.nativeCount).map fun i =>
    ((b.reader.native i).map (·.moduleIndex.toNat)).getD 0

/-- `nativeSidecars[target]`: the table is filled in row order, so the last row of a spelling is the
one that stays. -/
def nativeSidecar (target : JsString) : Option Nat :=
  b.nativeRows.reverse.find? fun i => b.spelling napi i == target

end OpenBundle

end HermesNode.Loader
