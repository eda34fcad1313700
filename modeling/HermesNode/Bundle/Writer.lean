/-
Module: HermesNode.Bundle.Writer
Purpose: `BundleWriter` of `bundle_writer.cpp`: the accumulating calls, string interning, the two
  sorts and the serialization. Casts to `uint32_t` are explicit (`UInt32.ofNat` is the cast modulo
  2^32), so nothing here assumes that a container is small. `serialize` is cut in three, in source
  order: `freeze` sorts and interns, `Frozen.header` computes the layout, `Frozen.emit` appends.
Trusted boundary: human-reviewed spec (transcribed from `lib/bundle/bundle_writer.cpp`)
Main exports: StringTable.internString, BundleWriter, BundleWriter.serialize, Call
-/
import Mathlib.Data.List.Sort
import HermesNode.Bundle.Format

namespace HermesNode.Bundle

/-- Round `n` up to a multiple of `align`. The source masks the low bits off, which is this for
the powers of two it is called with. -/
def alignUp (n align : Nat) : Nat := (n + align - 1) / align * align

/-- `internTable_` and `stringBytes_`. -/
structure StringTable where
  internTable : List (Bytes × UInt32) := []
  stringBytes : Bytes := []
deriving Repr, DecidableEq, Inhabited

namespace StringTable

/-- Intern `s`: its offset in the string table, which grows when `s` is new. -/
def internString (t : StringTable) (s : Bytes) : UInt32 × StringTable :=
  match t.internTable.lookup s with
  | some offset => (offset, t)
  | none =>
      let offset := UInt32.ofNat t.stringBytes.length
      (offset,
        { internTable := (s, offset) :: t.internTable
          stringBytes := t.stringBytes ++ (u32le (UInt32.ofNat s.length) ++ s) })

/-- Intern a list of strings in order. -/
def internAll (t : StringTable) : List Bytes → List UInt32 × StringTable
  | [] => ([], t)
  | s :: ss =>
      let head := t.internString s
      let rest := head.2.internAll ss
      (head.1 :: rest.1, rest.2)

end StringTable

structure PendingModule where
  identityString : UInt32
  kind : ModuleKind
  flags : UInt32
  payload : Bytes
deriving Repr, DecidableEq, Inhabited

structure PendingEdge where
  importer : UInt32
  specifier : Bytes
  target : UInt32
deriving Repr, DecidableEq, Inhabited

structure PendingNative where
  moduleIndex : UInt32
  sidecar : Bytes
  byteLength : UInt32
  digest : Bytes
deriving Repr, DecidableEq, Inhabited

structure BundleWriter where
  modules : List PendingModule := []
  edges : List PendingEdge := []
  preloads : List UInt32 := []
  natives : List PendingNative := []
  vmOptions : List Bytes := []
  strings : StringTable := {}
  entry : UInt32 := 0
  hasEntry : Bool := false
  allowVmOptionsOverride : Bool := false
deriving Repr, DecidableEq, Inhabited

/-- `std::tie(a.importer, a.specifier) < std::tie(b.importer, b.specifier)`. -/
def PendingEdge.less (a b : PendingEdge) : Bool :=
  a.importer < b.importer || (!(b.importer < a.importer) && bytesLt a.specifier b.specifier)

/-- `std::sort` with the edge comparison. Elements the comparison does not separate come in some
order; the producer never records two edges with one key. -/
def sortEdges (edges : List PendingEdge) : List PendingEdge :=
  edges.insertionSort fun a b => b.less a = false

/-- `std::sort` of the natives by module index. -/
def sortNatives (natives : List PendingNative) : List PendingNative :=
  natives.insertionSort fun a b => ¬ b.moduleIndex < a.moduleIndex

namespace BundleWriter

def addModule (w : BundleWriter) (identity : Bytes) (kind : ModuleKind) (flags : UInt32)
    (payload : Bytes) : BundleWriter :=
  let identityString := w.strings.internString identity
  { w with
    strings := identityString.2
    modules := w.modules ++ [{ identityString := identityString.1, kind, flags, payload }] }

def addEdge (w : BundleWriter) (importer : UInt32) (specifier : Bytes) (target : UInt32) :
    BundleWriter :=
  { w with edges := w.edges ++ [{ importer, specifier, target }] }

def addPreload (w : BundleWriter) (moduleIndex : UInt32) : BundleWriter :=
  { w with preloads := w.preloads ++ [moduleIndex] }

def addNative (w : BundleWriter) (moduleIndex : UInt32) (sidecar : Bytes) (byteLength : UInt32)
    (rawDigest : Bytes) : BundleWriter :=
  { w with natives := w.natives ++ [{ moduleIndex, sidecar, byteLength, digest := rawDigest }] }

def addVmOption (w : BundleWriter) (option : Bytes) : BundleWriter :=
  { w with vmOptions := w.vmOptions ++ [option] }

def setAllowVmOptionsOverride (w : BundleWriter) (allow : Bool) : BundleWriter :=
  { w with allowVmOptionsOverride := allow }

def setEntry (w : BundleWriter) (moduleIndex : UInt32) : BundleWriter :=
  { w with entry := moduleIndex, hasEntry := true }

end BundleWriter

/-! ### Serialization -/

/-- Sidecar and digest of each native interned in turn. -/
def internNatives (t : StringTable) :
    List PendingNative → List (UInt32 × UInt32) × StringTable
  | [] => ([], t)
  | n :: ns =>
      let sidecar := t.internString n.sidecar
      let digest := sidecar.2.internString n.digest
      let rest := internNatives digest.2 ns
      ((sidecar.1, digest.1) :: rest.1, rest.2)

/-- The payload offsets of the modules, relative to the payload section, and its total size. -/
def payloadLayout : List PendingModule → Nat → List UInt32 × Nat
  | [], payloadCursor => ([], payloadCursor)
  | m :: ms, payloadCursor =>
      let rest :=
        payloadLayout ms (alignUp (payloadCursor + m.payload.length) kBundlePayloadAlign)
      (UInt32.ofNat payloadCursor :: rest.1, rest.2)

/-- A container whose tables are sorted and whose strings are all interned: what `serialize` has
in hand when it starts to compute offsets. -/
structure Frozen where
  stringBytes : Bytes
  modules : List PendingModule
  edges : List BundleEdgeRecord
  preloads : List UInt32
  natives : List BundleNativeRecord
  vmOptions : List UInt32
  entry : UInt32
  allowVmOptionsOverride : Bool
deriving Repr

namespace Frozen

def moduleTableOffset (f : Frozen) : Nat :=
  alignUp (sizeofBundleHeader + f.stringBytes.length) kTableAlign

def edgeTableOffset (f : Frozen) : Nat :=
  f.moduleTableOffset + f.modules.length * sizeofBundleModuleRecord

def preloadTableOffset (f : Frozen) : Nat :=
  f.edgeTableOffset + f.edges.length * sizeofBundleEdgeRecord

def nativeTableOffset (f : Frozen) : Nat := f.preloadTableOffset + f.preloads.length * 4

def vmOptionsTableOffset (f : Frozen) : Nat :=
  f.nativeTableOffset + f.natives.length * sizeofBundleNativeRecord

def payloadOffset (f : Frozen) : Nat :=
  alignUp (f.vmOptionsTableOffset + f.vmOptions.length * 4) kBundlePayloadAlign

/-- `payloadOffsets` and `payloadSize`. -/
def payloads (f : Frozen) : List UInt32 × Nat := payloadLayout f.modules 0

def header (f : Frozen) (generationTag : UInt32) : BundleHeader where
  formatVersion := kBundleFormatVersion
  generationTag := generationTag
  entryModule := f.entry
  stringsOffset := UInt32.ofNat sizeofBundleHeader
  stringsSize := UInt32.ofNat f.stringBytes.length
  moduleTableOffset := UInt32.ofNat f.moduleTableOffset
  moduleCount := UInt32.ofNat f.modules.length
  edgeTableOffset := UInt32.ofNat f.edgeTableOffset
  edgeCount := UInt32.ofNat f.edges.length
  preloadTableOffset := UInt32.ofNat f.preloadTableOffset
  preloadCount := UInt32.ofNat f.preloads.length
  nativeTableOffset := UInt32.ofNat f.nativeTableOffset
  nativeCount := UInt32.ofNat f.natives.length
  vmOptionsTableOffset := UInt32.ofNat f.vmOptionsTableOffset
  vmOptionsCount := UInt32.ofNat f.vmOptions.length
  containerFlags := if f.allowVmOptionsOverride then kBundleFlagAllowVmOptionsOverride else 0
  payloadOffset := UInt32.ofNat f.payloadOffset
  payloadSize := UInt32.ofNat f.payloads.2

/-- The module records, each with the payload offset computed for it. -/
def moduleRecords (f : Frozen) : List BundleModuleRecord :=
  List.zipWith
    (fun m payloadOffset =>
      { identityString := m.identityString, kind := m.kind.toU32, flags := m.flags, payloadOffset,
        payloadSize := UInt32.ofNat m.payload.length })
    f.modules f.payloads.1

/-- One payload with its padding to the next aligned position. -/
def paddedPayload (m : PendingModule) : Bytes :=
  m.payload ++
    List.replicate (alignUp m.payload.length kBundlePayloadAlign - m.payload.length) 0

/-- The bytes in emission order. Padding is measured against what has been emitted so far. -/
def emit (f : Frozen) (generationTag : UInt32) : Bytes :=
  let out := (f.header generationTag).encode ++ f.stringBytes
  let out := out ++ List.replicate (f.moduleTableOffset - out.length) 0
  let out := out ++ f.moduleRecords.flatMap BundleModuleRecord.encode
  let out := out ++ f.edges.flatMap BundleEdgeRecord.encode
  let out := out ++ f.preloads.flatMap u32le
  let out := out ++ f.natives.flatMap BundleNativeRecord.encode
  let out := out ++ f.vmOptions.flatMap u32le
  let out := out ++ List.replicate (f.payloadOffset - out.length) 0
  out ++ f.modules.flatMap paddedPayload

end Frozen

namespace BundleWriter

/-- Sort the edges and natives and intern every string that is not an identity. Nothing may
append to the string table after this. -/
def freeze (w : BundleWriter) : Frozen × BundleWriter :=
  let edges := sortEdges w.edges
  let specifiers := w.strings.internAll (edges.map (·.specifier))
  let natives := sortNatives w.natives
  let nativeStrings := internNatives specifiers.2 natives
  let options := nativeStrings.2.internAll w.vmOptions
  ({ stringBytes := options.2.stringBytes
     modules := w.modules
     edges := List.zipWith
       (fun e s => { importer := e.importer, specifierString := s, target := e.target })
       edges specifiers.1
     preloads := w.preloads
     natives := List.zipWith
       (fun n s => { moduleIndex := n.moduleIndex, sidecarString := s.1,
                     byteLength := n.byteLength, hashString := s.2 })
       natives nativeStrings.1
     vmOptions := options.1
     entry := w.entry
     allowVmOptionsOverride := w.allowVmOptionsOverride },
    { w with edges, natives, strings := options.2 })

/-- The serialized container and the writer it leaves behind. There is no container without a
module and an entry. -/
def serialize (w : BundleWriter) (generationTag : UInt32) : Bytes × BundleWriter :=
  if w.modules.isEmpty || !w.hasEntry then ([], w)
  else (w.freeze.1.emit generationTag, w.freeze.2)

end BundleWriter

/-! ### Call sequences -/

/-- One call on a writer. -/
inductive Call where
  | addModule (identity : Bytes) (kind : ModuleKind) (flags : UInt32) (payload : Bytes)
  | addEdge (importer : UInt32) (specifier : Bytes) (target : UInt32)
  | addPreload (moduleIndex : UInt32)
  | addNative (moduleIndex : UInt32) (sidecar : Bytes) (byteLength : UInt32) (rawDigest : Bytes)
  | addVmOption (option : Bytes)
  | setAllowVmOptionsOverride (allow : Bool)
  | setEntry (moduleIndex : UInt32)
deriving Repr, DecidableEq

namespace BundleWriter

def call (w : BundleWriter) : Call → BundleWriter
  | .addModule identity kind flags payload => w.addModule identity kind flags payload
  | .addEdge importer specifier target => w.addEdge importer specifier target
  | .addPreload moduleIndex => w.addPreload moduleIndex
  | .addNative moduleIndex sidecar byteLength rawDigest =>
      w.addNative moduleIndex sidecar byteLength rawDigest
  | .addVmOption option => w.addVmOption option
  | .setAllowVmOptionsOverride allow => w.setAllowVmOptionsOverride allow
  | .setEntry moduleIndex => w.setEntry moduleIndex

/-- The writer after a sequence of calls on a new one. -/
def run (calls : List Call) : BundleWriter := calls.foldl call {}

end BundleWriter

end HermesNode.Bundle
