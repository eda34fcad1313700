/-
Module: HermesNode.Bundle.Format
Purpose: The container layout of `bundle_format.h`: the 80-byte header, the module, edge and native
  records, and the string-table entry. Every record is an array of `uint32_t`, so one record is a
  list of words in memory order and reading one is a sequence of word reads.
Trusted boundary: human-reviewed spec (transcribed from `include/.../bundle_format.h`)
Main exports: BundleHeader, BundleModuleRecord, BundleEdgeRecord, BundleNativeRecord
-/
import HermesNode.Lib.Buffer

namespace HermesNode.Bundle

/-- The eight magic bytes of a container. -/
def kBundleMagic : Bytes := ascii "HNBUNDLE"

def kBundleFormatVersion : UInt32 := 5

/-- Every payload entry starts at a multiple of this. -/
def kBundlePayloadAlign : Nat := 8

/-- `alignof(uint32_t)`: the alignment of every table. -/
def kTableAlign : Nat := 4

inductive ModuleKind where
  | kJavaScript
  | kJSON
  | kNative
deriving Repr, DecidableEq, Inhabited

namespace ModuleKind

/-- `static_cast<uint32_t>(kind)`. -/
def toU32 : ModuleKind → UInt32
  | kJavaScript => 0
  | kJSON => 1
  | kNative => 2

/-- The enumerator a stored word names, when it names one. -/
def ofU32? (n : UInt32) : Option ModuleKind :=
  if n = 0 then some kJavaScript
  else if n = 1 then some kJSON
  else if n = 2 then some kNative
  else none

@[simp] theorem ofU32?_toU32 (k : ModuleKind) : ofU32? k.toU32 = some k := by
  cases k <;> rfl

theorem ofU32?_eq_some_iff {n : UInt32} {k : ModuleKind} : ofU32? n = some k ↔ n = k.toU32 := by
  constructor
  · intro h
    unfold ofU32? at h
    split at h
    · cases h; assumption
    · split at h
      · cases h; assumption
      · split at h
        · cases h; assumption
        · cases h
  · rintro rfl
    exact ofU32?_toU32 k

end ModuleKind

/-- Set on a module `require()` may load. -/
def kRequirable : UInt32 := 1

/-- The absence of `kRequirable`: a record only the resolver reads. -/
def kResolveOnly : UInt32 := 0

/-- Set on a container whose recorded VM options may be overridden at run time. -/
def kBundleFlagAllowVmOptionsOverride : UInt32 := 1

/-- Length of a native record's digest in the string table. -/
def kNativeDigestBytes : Nat := 32

/-- `BundleHeader`, after its magic. Offsets are byte offsets from the start of the file. -/
structure BundleHeader where
  formatVersion : UInt32
  generationTag : UInt32
  entryModule : UInt32
  stringsOffset : UInt32
  stringsSize : UInt32
  moduleTableOffset : UInt32
  moduleCount : UInt32
  edgeTableOffset : UInt32
  edgeCount : UInt32
  preloadTableOffset : UInt32
  preloadCount : UInt32
  nativeTableOffset : UInt32
  nativeCount : UInt32
  vmOptionsTableOffset : UInt32
  vmOptionsCount : UInt32
  containerFlags : UInt32
  payloadOffset : UInt32
  payloadSize : UInt32
deriving Repr, DecidableEq, Inhabited

/-- `sizeof(BundleHeader)`: eight magic bytes and eighteen words. -/
def sizeofBundleHeader : Nat := 80

namespace BundleHeader

/-- The header's words in declaration order. -/
def words (h : BundleHeader) : List UInt32 :=
  [h.formatVersion, h.generationTag, h.entryModule, h.stringsOffset, h.stringsSize,
    h.moduleTableOffset, h.moduleCount, h.edgeTableOffset, h.edgeCount, h.preloadTableOffset,
    h.preloadCount, h.nativeTableOffset, h.nativeCount, h.vmOptionsTableOffset, h.vmOptionsCount,
    h.containerFlags, h.payloadOffset, h.payloadSize]

/-- `appendPod(out, header)`. -/
def encode (h : BundleHeader) : Bytes := kBundleMagic ++ wordsLE h.words

/-- The fields of a header, from its words. -/
def ofWords (ws : List UInt32) : BundleHeader where
  formatVersion := ws.getD 0 0
  generationTag := ws.getD 1 0
  entryModule := ws.getD 2 0
  stringsOffset := ws.getD 3 0
  stringsSize := ws.getD 4 0
  moduleTableOffset := ws.getD 5 0
  moduleCount := ws.getD 6 0
  edgeTableOffset := ws.getD 7 0
  edgeCount := ws.getD 8 0
  preloadTableOffset := ws.getD 9 0
  preloadCount := ws.getD 10 0
  nativeTableOffset := ws.getD 11 0
  nativeCount := ws.getD 12 0
  vmOptionsTableOffset := ws.getD 13 0
  vmOptionsCount := ws.getD 14 0
  containerFlags := ws.getD 15 0
  payloadOffset := ws.getD 16 0
  payloadSize := ws.getD 17 0

/-- The header a pointer cast at the start of `data` shows. -/
def read (data : Bytes) : Option BundleHeader := (readWords data 8 18).map ofWords

@[simp] theorem encode_length (h : BundleHeader) : h.encode.length = sizeofBundleHeader := by
  simp only [encode, List.length_append, wordsLE_length]
  rfl

theorem read_of_le {data : Bytes} (hsize : sizeofBundleHeader ≤ data.length) :
    ∃ h, read data = some h := by
  obtain ⟨ws, hws⟩ : ∃ ws, readWords data 8 18 = some ws := readWords_of_le hsize
  exact ⟨ofWords ws, by simp [read, hws]⟩

theorem read_eq {data : Bytes} {h : BundleHeader} (hat : At data 0 h.encode) :
    read data = some h := by
  have hplaced : At data 8 (wordsLE h.words) := hat.right
  have hwords : readWords data 8 18 = some h.words := hplaced.readWords_eq
  simp only [read, hwords, Option.map_some]
  rfl

end BundleHeader

/-- One per packaged module. `identityString` indexes the string table. -/
structure BundleModuleRecord where
  identityString : UInt32
  kind : UInt32
  flags : UInt32
  payloadOffset : UInt32
  payloadSize : UInt32
deriving Repr, DecidableEq, Inhabited

def sizeofBundleModuleRecord : Nat := 20

namespace BundleModuleRecord

def words (m : BundleModuleRecord) : List UInt32 :=
  [m.identityString, m.kind, m.flags, m.payloadOffset, m.payloadSize]

def encode (m : BundleModuleRecord) : Bytes := wordsLE m.words

def ofWords (ws : List UInt32) : BundleModuleRecord where
  identityString := ws.getD 0 0
  kind := ws.getD 1 0
  flags := ws.getD 2 0
  payloadOffset := ws.getD 3 0
  payloadSize := ws.getD 4 0

def read (data : Bytes) (off : Nat) : Option BundleModuleRecord :=
  (readWords data off 5).map ofWords

@[simp] theorem encode_length (m : BundleModuleRecord) :
    m.encode.length = sizeofBundleModuleRecord := by
  simp only [encode, wordsLE_length]
  rfl

theorem read_of_le {data : Bytes} {off : Nat}
    (h : off + sizeofBundleModuleRecord ≤ data.length) : ∃ m, read data off = some m := by
  obtain ⟨ws, hws⟩ : ∃ ws, readWords data off 5 = some ws := readWords_of_le h
  exact ⟨ofWords ws, by simp [read, hws]⟩

theorem read_eq {data : Bytes} {off : Nat} {m : BundleModuleRecord}
    (hat : At data off m.encode) : read data off = some m := by
  have hplaced : At data off (wordsLE m.words) := hat
  have hwords : readWords data off 5 = some m.words := hplaced.readWords_eq
  simp only [read, hwords, Option.map_some]
  rfl

end BundleModuleRecord

/-- One per resolved (importer, specifier) pair, sorted by importer index and then by the bytes
of the specifier. -/
structure BundleEdgeRecord where
  importer : UInt32
  specifierString : UInt32
  target : UInt32
deriving Repr, DecidableEq, Inhabited

def sizeofBundleEdgeRecord : Nat := 12

namespace BundleEdgeRecord

def words (e : BundleEdgeRecord) : List UInt32 := [e.importer, e.specifierString, e.target]

def encode (e : BundleEdgeRecord) : Bytes := wordsLE e.words

def ofWords (ws : List UInt32) : BundleEdgeRecord where
  importer := ws.getD 0 0
  specifierString := ws.getD 1 0
  target := ws.getD 2 0

def read (data : Bytes) (off : Nat) : Option BundleEdgeRecord :=
  (readWords data off 3).map ofWords

@[simp] theorem encode_length (e : BundleEdgeRecord) :
    e.encode.length = sizeofBundleEdgeRecord := by
  simp only [encode, wordsLE_length]
  rfl

theorem read_of_le {data : Bytes} {off : Nat}
    (h : off + sizeofBundleEdgeRecord ≤ data.length) : ∃ e, read data off = some e := by
  obtain ⟨ws, hws⟩ : ∃ ws, readWords data off 3 = some ws := readWords_of_le h
  exact ⟨ofWords ws, by simp [read, hws]⟩

theorem read_eq {data : Bytes} {off : Nat} {e : BundleEdgeRecord}
    (hat : At data off e.encode) : read data off = some e := by
  have hplaced : At data off (wordsLE e.words) := hat
  have hwords : readWords data off 3 = some e.words := hplaced.readWords_eq
  simp only [read, hwords, Option.map_some]
  rfl

end BundleEdgeRecord

/-- One per native module, sorted by module index. -/
structure BundleNativeRecord where
  moduleIndex : UInt32
  sidecarString : UInt32
  byteLength : UInt32
  hashString : UInt32
deriving Repr, DecidableEq, Inhabited

def sizeofBundleNativeRecord : Nat := 16

namespace BundleNativeRecord

def words (n : BundleNativeRecord) : List UInt32 :=
  [n.moduleIndex, n.sidecarString, n.byteLength, n.hashString]

def encode (n : BundleNativeRecord) : Bytes := wordsLE n.words

def ofWords (ws : List UInt32) : BundleNativeRecord where
  moduleIndex := ws.getD 0 0
  sidecarString := ws.getD 1 0
  byteLength := ws.getD 2 0
  hashString := ws.getD 3 0

def read (data : Bytes) (off : Nat) : Option BundleNativeRecord :=
  (readWords data off 4).map ofWords

@[simp] theorem encode_length (n : BundleNativeRecord) :
    n.encode.length = sizeofBundleNativeRecord := by
  simp only [encode, wordsLE_length]
  rfl

theorem read_of_le {data : Bytes} {off : Nat}
    (h : off + sizeofBundleNativeRecord ≤ data.length) : ∃ n, read data off = some n := by
  obtain ⟨ws, hws⟩ : ∃ ws, readWords data off 4 = some ws := readWords_of_le h
  exact ⟨ofWords ws, by simp [read, hws]⟩

theorem read_eq {data : Bytes} {off : Nat} {n : BundleNativeRecord}
    (hat : At data off n.encode) : read data off = some n := by
  have hplaced : At data off (wordsLE n.words) := hat
  have hwords : readWords data off 4 = some n.words := hplaced.readWords_eq
  simp only [read, hwords, Option.map_some]
  rfl

end BundleNativeRecord

/-- `sizeof(BundleStringHeader)`: the length word in front of a string's bytes. -/
def sizeofBundleStringHeader : Nat := 4

end HermesNode.Bundle
