/-
Module: HermesNode.Bundle.Reader
Purpose: `BundleReader` of `bundle_reader.cpp`: the validation pass of `openImpl` and every
  accessor. Each read of the mapping goes through a bounds-checked read, so an accessor that has a
  value touched only bytes of the buffer. Offsets and sums are natural numbers: the source widens
  to 64 bits before adding or multiplying 32-bit fields, and no such sum reaches 2^64.
Trusted boundary: human-reviewed spec (transcribed from `lib/bundle/bundle_reader.cpp`)
Main exports: isValidIdentity, BundleReader, openImpl, BundleReader.open
-/
import HermesNode.Lib.Check
import HermesNode.Lib.Search
import HermesNode.Lib.Segments
import HermesNode.Bundle.Format

namespace HermesNode.Bundle

open Check

/-- `[offset, offset + len)` fits in a buffer of `bufSize` bytes. -/
def inRange (bufSize : Nat) (offset len : UInt32) : Bool :=
  offset.toNat + len.toNat ≤ bufSize

/-- A table of `count` records of `recordSize` bytes at `offset` fits in `bufSize` bytes. -/
def tableInRange (bufSize : Nat) (offset count : UInt32) (recordSize : Nat) : Bool :=
  offset.toNat + count.toNat * recordSize ≤ bufSize

/-- The entry at string index `offset` (its length word and its bytes) lies inside a string table
of `tableSize` bytes that starts at `tableBase`. -/
def validateStringIndex (data : Bytes) (tableBase : Nat) (tableSize offset : UInt32) :
    Option Bool :=
  if offset.toNat + sizeofBundleStringHeader ≤ tableSize.toNat then do
    let length ← readU32 data (tableBase + offset.toNat)
    pure (decide (offset.toNat + sizeofBundleStringHeader + length.toNat ≤ tableSize.toNat))
  else some false

/-- The string at `offset` of the table at `tableBase`. -/
def stringViewAt (data : Bytes) (tableBase : Nat) (offset : UInt32) : Option Bytes := do
  let length ← readU32 data (tableBase + offset.toNat)
  readBytes data (tableBase + offset.toNat + sizeofBundleStringHeader) length.toNat

/-- A path segment an identity may have: not empty, not `.`, not `..`. -/
def isValidSegment (segment : Bytes) : Bool :=
  !(segment.isEmpty || segment == ascii "." || segment == ascii "..")

/-- Safe to use as `root + "/" + identity`: not empty, not absolute, no NUL, and every segment
between its slashes is valid. -/
def isValidIdentity (identity : Bytes) : Bool :=
  !(identity.isEmpty || identity.head? == some slash) && !identity.contains 0 &&
    (splitSlash identity).all isValidSegment

/-- `modules[i]` through the pointer cast. -/
def moduleAt (data : Bytes) (h : BundleHeader) (i : Nat) : Option BundleModuleRecord :=
  BundleModuleRecord.read data (h.moduleTableOffset.toNat + sizeofBundleModuleRecord * i)

/-- `edges[i]`. -/
def edgeAt (data : Bytes) (h : BundleHeader) (i : Nat) : Option BundleEdgeRecord :=
  BundleEdgeRecord.read data (h.edgeTableOffset.toNat + sizeofBundleEdgeRecord * i)

/-- `preloads[i]`. -/
def preloadAt (data : Bytes) (h : BundleHeader) (i : Nat) : Option UInt32 :=
  readU32 data (h.preloadTableOffset.toNat + 4 * i)

/-- `natives[i]`. -/
def nativeAt (data : Bytes) (h : BundleHeader) (i : Nat) : Option BundleNativeRecord :=
  BundleNativeRecord.read data (h.nativeTableOffset.toNat + sizeofBundleNativeRecord * i)

/-- `vmOptions[i]`. -/
def vmOptionAt (data : Bytes) (h : BundleHeader) (i : Nat) : Option UInt32 :=
  readU32 data (h.vmOptionsTableOffset.toNat + 4 * i)

/-- A view over a mapped container: the mapping and the header behind its first bytes. The table
pointers of the source are the header's offsets into `data`. -/
structure BundleReader where
  data : Bytes
  header : BundleHeader
deriving Repr, DecidableEq

/-! ### The validation pass -/

/-- The checks on the header alone, in source order. -/
def checkHeader (size : Nat) (h : BundleHeader) (expectedGeneration : UInt32)
    (enforceGeneration : Bool) : Check Unit := do
  require (h.formatVersion == kBundleFormatVersion)
    ("hermes-node bundle: format version mismatch (bundle was built by " ++
      "an incompatible hermes-node)")
  require (!(enforceGeneration && h.generationTag != expectedGeneration))
    ("hermes-node bundle: built by a different hermes-node build " ++
      "(generation mismatch)")
  require (h.containerFlags &&& ~~~kBundleFlagAllowVmOptionsOverride == 0)
    "hermes-node bundle: container has unknown flags"
  require (inRange size h.stringsOffset h.stringsSize)
    "hermes-node bundle: string table out of range"
  require (tableInRange size h.moduleTableOffset h.moduleCount sizeofBundleModuleRecord)
    "hermes-node bundle: module table out of range"
  require (tableInRange size h.edgeTableOffset h.edgeCount sizeofBundleEdgeRecord)
    "hermes-node bundle: edge table out of range"
  require (tableInRange size h.preloadTableOffset h.preloadCount 4)
    "hermes-node bundle: preload table out of range"
  require (tableInRange size h.nativeTableOffset h.nativeCount sizeofBundleNativeRecord)
    "hermes-node bundle: native table out of range"
  require (tableInRange size h.vmOptionsTableOffset h.vmOptionsCount 4)
    "hermes-node bundle: VM-options table out of range"
  require (inRange size h.payloadOffset h.payloadSize)
    "hermes-node bundle: payload out of range"
  require (h.moduleTableOffset.toNat % kTableAlign == 0 &&
      h.edgeTableOffset.toNat % kTableAlign == 0 &&
      h.preloadTableOffset.toNat % kTableAlign == 0 &&
      h.nativeTableOffset.toNat % kTableAlign == 0 &&
      h.vmOptionsTableOffset.toNat % kTableAlign == 0)
    "hermes-node bundle: table offset is misaligned"
  require (h.moduleCount != 0) "hermes-node bundle: has no modules"
  require (h.entryModule < h.moduleCount)
    "hermes-node bundle: entry module index out of range"

/-- One iteration of the module loop; the state is `seenIdentities`. -/
def checkModule (data : Bytes) (h : BundleHeader) (i : Nat) (seenIdentities : List Bytes) :
    Check (List Bytes) := do
  let m ← load (moduleAt data h i)
  let indexOk ← load
    (validateStringIndex data h.stringsOffset.toNat h.stringsSize m.identityString)
  require indexOk "hermes-node bundle: module identity string out of range"
  let identity ← load (stringViewAt data h.stringsOffset.toNat m.identityString)
  require (isValidIdentity identity) "hermes-node bundle: module has a malformed identity"
  require (!seenIdentities.contains identity) "hermes-node bundle: duplicate module identity"
  require (m.kind == ModuleKind.kJavaScript.toU32 || m.kind == ModuleKind.kJSON.toU32 ||
      m.kind == ModuleKind.kNative.toU32)
    "hermes-node bundle: module has an unknown kind"
  require (m.flags &&& ~~~kRequirable == 0) "hermes-node bundle: module has unknown flags"
  require (inRange h.payloadSize.toNat m.payloadOffset m.payloadSize)
    "hermes-node bundle: module payload out of range"
  -- a native's bytes ship as a sidecar file, never in the container
  require (!(m.kind == ModuleKind.kNative.toU32 && m.payloadSize != 0))
    "hermes-node bundle: native module has a non-empty payload"
  pure (identity :: seenIdentities)

/-- One iteration of the edge loop. -/
def checkEdge (data : Bytes) (h : BundleHeader) (i : Nat) (_ : Unit) : Check Unit := do
  let e ← load (edgeAt data h i)
  require (e.importer < h.moduleCount && e.target < h.moduleCount)
    "hermes-node bundle: edge references an unknown module"
  let indexOk ← load
    (validateStringIndex data h.stringsOffset.toNat h.stringsSize e.specifierString)
  require indexOk "hermes-node bundle: edge specifier string out of range"

/-- One iteration of the preload loop. -/
def checkPreload (data : Bytes) (h : BundleHeader) (i : Nat) (_ : Unit) : Check Unit := do
  let index ← load (preloadAt data h i)
  require (index < h.moduleCount) "hermes-node bundle: preload references an unknown module"
  let m ← load (moduleAt data h index.toNat)
  require (m.flags &&& kRequirable != 0)
    "hermes-node bundle: preload names a non-requirable module"

/-- `i != 0 && natives[i].moduleIndex <= natives[i - 1].moduleIndex` does not hold. -/
def nativeSorted (data : Bytes) (h : BundleHeader) (i : Nat) (row : BundleNativeRecord) :
    Option Bool :=
  match i with
  | 0 => some true
  | prev + 1 => do
      let before ← nativeAt data h prev
      pure (decide (before.moduleIndex < row.moduleIndex))

/-- One iteration of the native-table loop. -/
def checkNative (data : Bytes) (h : BundleHeader) (i : Nat) (_ : Unit) : Check Unit := do
  let row ← load (nativeAt data h i)
  require (row.moduleIndex < h.moduleCount)
    "hermes-node bundle: native table names an unknown module"
  let sorted ← load (nativeSorted data h i row)
  require sorted "hermes-node bundle: native table is not sorted by module index"
  let m ← load (moduleAt data h row.moduleIndex.toNat)
  require (m.kind == ModuleKind.kNative.toU32)
    ("hermes-node bundle: native table names a module that is not " ++ "native")
  let sidecarOk ← load
    (validateStringIndex data h.stringsOffset.toNat h.stringsSize row.sidecarString)
  require sidecarOk "hermes-node bundle: native sidecar string out of range"
  let hashOk ← load
    (validateStringIndex data h.stringsOffset.toNat h.stringsSize row.hashString)
  require hashOk "hermes-node bundle: native hash string out of range"
  let digest ← load (stringViewAt data h.stringsOffset.toNat row.hashString)
  require (digest.length == kNativeDigestBytes)
    ("hermes-node bundle: native digest is not " ++ toString kNativeDigestBytes ++ " bytes")

/-- The inner scan for a native row of module `i`, from row `j` on, stopping at the first. -/
def findNativeRow (data : Bytes) (h : BundleHeader) (i : Nat) : Nat → Nat → Option Bool
  | _, 0 => some false
  | j, count + 1 => do
      let row ← nativeAt data h j
      if row.moduleIndex.toNat = i then some true else findNativeRow data h i (j + 1) count

/-- One iteration of the loop that every native module has a row. -/
def checkNativeRow (data : Bytes) (h : BundleHeader) (i : Nat) (_ : Unit) : Check Unit := do
  let m ← load (moduleAt data h i)
  if m.kind != ModuleKind.kNative.toU32 then pure ()
  else do
    let found ← load (findNativeRow data h i 0 h.nativeCount.toNat)
    require found "hermes-node bundle: native module has no native table entry"

/-- One iteration of the VM-option loop. -/
def checkVmOption (data : Bytes) (h : BundleHeader) (i : Nat) (_ : Unit) : Check Unit := do
  let offset ← load (vmOptionAt data h i)
  let indexOk ← load (validateStringIndex data h.stringsOffset.toNat h.stringsSize offset)
  require indexOk "hermes-node bundle: VM-option string out of range"

/-- The validation chain shared by `open` and `openForInspection`. -/
def openImpl (data : Bytes) (expectedGeneration : UInt32) (enforceGeneration : Bool) :
    Check BundleReader := do
  require (sizeofBundleHeader ≤ data.length)
    "hermes-node bundle: truncated (shorter than the header)"
  let magic ← load (readBytes data 0 8)
  let header ← load (BundleHeader.read data)
  require (magic == kBundleMagic) "hermes-node bundle: not a hermes-node bundle (bad magic)"
  checkHeader data.length header expectedGeneration enforceGeneration
  let _ ← forRange (checkModule data header) 0 header.moduleCount.toNat []
  forRange (checkEdge data header) 0 header.edgeCount.toNat ()
  forRange (checkPreload data header) 0 header.preloadCount.toNat ()
  forRange (checkNative data header) 0 header.nativeCount.toNat ()
  forRange (checkNativeRow data header) 0 header.moduleCount.toNat ()
  forRange (checkVmOption data header) 0 header.vmOptionsCount.toNat ()
  pure { data, header }

/-- `BundleReader::open`. -/
def BundleReader.open (data : Bytes) (expectedGeneration : UInt32) : Check BundleReader :=
  openImpl data expectedGeneration true

/-- `BundleReader::openForInspection`: every structural check, whatever the generation. -/
def BundleReader.openForInspection (data : Bytes) : Check BundleReader := openImpl data 0 false

namespace BundleReader

/-! ### Accessors -/

def stringAt (r : BundleReader) (offset : UInt32) : Option Bytes := do
  let base := r.header.stringsOffset.toNat + offset.toNat
  let length ← readU32 r.data base
  readBytes r.data (base + sizeofBundleStringHeader) length.toNat

/-- The comparison of one probe of `lookup`: `edges_[mid]` sorts before `(importer, specifier)`. -/
def edgeLess (r : BundleReader) (importer : UInt32) (specifier : Bytes) (mid : Nat) :
    Option Bool := do
  let e ← edgeAt r.data r.header mid
  if e.importer != importer then pure (decide (e.importer < importer))
  else do
    let s ← r.stringAt e.specifierString
    pure (bytesLt s specifier)

/-- Binary search for the edge `(importer, specifier)`. -/
def lookup (r : BundleReader) (importer : UInt32) (specifier : Bytes) :
    Option (Option UInt32) := do
  let lo ← lowerBound (r.edgeLess importer specifier) r.header.edgeCount.toNat
  if lo < r.header.edgeCount.toNat then do
    let e ← edgeAt r.data r.header lo
    if e.importer == importer then do
      let s ← r.stringAt e.specifierString
      if s == specifier then pure (some e.target) else pure none
    else pure none
  else pure none

def identity (r : BundleReader) (moduleIndex : Nat) : Option Bytes := do
  let m ← moduleAt r.data r.header moduleIndex
  r.stringAt m.identityString

def payload (r : BundleReader) (moduleIndex : Nat) : Option Bytes := do
  let m ← moduleAt r.data r.header moduleIndex
  readBytes r.data (r.header.payloadOffset.toNat + m.payloadOffset.toNat) m.payloadSize.toNat

/-- The kind of a module. A stored word that is no enumerator has no value; `open` rejects it. -/
def kind (r : BundleReader) (moduleIndex : Nat) : Option ModuleKind := do
  let m ← moduleAt r.data r.header moduleIndex
  ModuleKind.ofU32? m.kind

def flags (r : BundleReader) (moduleIndex : Nat) : Option UInt32 := do
  let m ← moduleAt r.data r.header moduleIndex
  pure m.flags

def isRequirable (r : BundleReader) (moduleIndex : Nat) : Option Bool := do
  let f ← r.flags moduleIndex
  pure (f &&& kRequirable != 0)

def entry (r : BundleReader) : UInt32 := r.header.entryModule

def moduleCount (r : BundleReader) : Nat := r.header.moduleCount.toNat

structure EdgeView where
  importer : UInt32
  specifier : Bytes
  target : UInt32
deriving Repr, DecidableEq

def edgeCount (r : BundleReader) : Nat := r.header.edgeCount.toNat

def edge (r : BundleReader) (edgeIndex : Nat) : Option EdgeView := do
  let e ← edgeAt r.data r.header edgeIndex
  let specifier ← r.stringAt e.specifierString
  pure { importer := e.importer, specifier, target := e.target }

def preloadCount (r : BundleReader) : Nat := r.header.preloadCount.toNat

def preload (r : BundleReader) (i : Nat) : Option UInt32 := preloadAt r.data r.header i

structure NativeView where
  moduleIndex : UInt32
  sidecar : Bytes
  byteLength : UInt32
  digest : Bytes
deriving Repr, DecidableEq

def nativeCount (r : BundleReader) : Nat := r.header.nativeCount.toNat

def native (r : BundleReader) (i : Nat) : Option NativeView := do
  let row ← nativeAt r.data r.header i
  let sidecar ← r.stringAt row.sidecarString
  let digest ← r.stringAt row.hashString
  pure { moduleIndex := row.moduleIndex, sidecar, byteLength := row.byteLength, digest }

/-- The comparison of one probe of `nativeFor`. -/
def nativeLess (r : BundleReader) (moduleIndex : UInt32) (mid : Nat) : Option Bool := do
  let row ← nativeAt r.data r.header mid
  pure (decide (row.moduleIndex < moduleIndex))

/-- The native row of `moduleIndex`, by binary search. -/
def nativeFor (r : BundleReader) (moduleIndex : UInt32) : Option (Option NativeView) := do
  let lo ← lowerBound (r.nativeLess moduleIndex) r.nativeCount
  if lo < r.nativeCount then do
    let row ← nativeAt r.data r.header lo
    if row.moduleIndex == moduleIndex then do
      let view ← r.native lo
      pure (some view)
    else pure none
  else pure none

def vmOptionCount (r : BundleReader) : Nat := r.header.vmOptionsCount.toNat

def vmOption (r : BundleReader) (i : Nat) : Option Bytes := do
  let offset ← vmOptionAt r.data r.header i
  r.stringAt offset

def allowsVmOptionsOverride (r : BundleReader) : Bool :=
  r.header.containerFlags &&& kBundleFlagAllowVmOptionsOverride != 0

end BundleReader

end HermesNode.Bundle
