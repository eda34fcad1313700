/-
Module: HermesNode.Bundle.Contents
Purpose: The abstract container: what a sequence of calls on the writer adds, with no bytes in it.
  `WellFormed` is what the format asks of a caller, `Shows` what a reader owes to one.
Trusted boundary: none
Main exports: Contents, Contents.ofCalls, Contents.WellFormed, Shows
-/
import HermesNode.Bundle.ReaderSafety
import HermesNode.Bundle.Writer

namespace HermesNode.Bundle

structure AddedModule where
  identity : Bytes
  kind : ModuleKind
  flags : UInt32
  payload : Bytes
deriving Repr, DecidableEq

/-- What a sequence of calls adds to a container, each list in call order. -/
structure Contents where
  modules : List AddedModule := []
  edges : List PendingEdge := []
  preloads : List UInt32 := []
  natives : List PendingNative := []
  vmOptions : List Bytes := []
  entry : Option UInt32 := none
  allowVmOptionsOverride : Bool := false
deriving Repr, DecidableEq

namespace Contents

def record (c : Contents) : Call → Contents
  | .addModule identity kind flags payload =>
      { c with modules := c.modules ++ [{ identity, kind, flags, payload }] }
  | .addEdge importer specifier target =>
      { c with edges := c.edges ++ [{ importer, specifier, target }] }
  | .addPreload moduleIndex => { c with preloads := c.preloads ++ [moduleIndex] }
  | .addNative moduleIndex sidecar byteLength digest =>
      { c with natives := c.natives ++ [{ moduleIndex, sidecar, byteLength, digest }] }
  | .addVmOption option => { c with vmOptions := c.vmOptions ++ [option] }
  | .setAllowVmOptionsOverride allow => { c with allowVmOptionsOverride := allow }
  | .setEntry moduleIndex => { c with entry := some moduleIndex }

def ofCalls (calls : List Call) : Contents := calls.foldl record {}

/-- The obligations on a caller of the writer. -/
structure WellFormed (c : Contents) : Prop where
  identityValid : ∀ m ∈ c.modules, isValidIdentity m.identity = true
  identityDistinct : (c.modules.map (·.identity)).Nodup
  flags : ∀ m ∈ c.modules, m.flags &&& ~~~kRequirable = 0
  edgeIndices : ∀ e ∈ c.edges, e.importer.toNat < c.modules.length ∧
    e.target.toNat < c.modules.length
  edgeKeys : (c.edges.map fun e => (e.importer, e.specifier)).Nodup
  preloads : ∀ i ∈ c.preloads, ∃ m, c.modules[i.toNat]? = some m ∧ m.flags &&& kRequirable ≠ 0
  nativeIndices : ∀ n ∈ c.natives, n.moduleIndex.toNat < c.modules.length
  nativeDigests : ∀ n ∈ c.natives, n.digest.length = kNativeDigestBytes
  nativeRows : ∀ (i : Nat) (m : AddedModule), c.modules[i]? = some m →
    (c.natives.filter (·.moduleIndex.toNat = i)).length = if m.kind = .kNative then 1 else 0
  nativePayloads : ∀ m ∈ c.modules, m.kind = .kNative → m.payload = []
  entry : ∀ i, c.entry = some i → i.toNat < c.modules.length

end Contents

/-- A reader answers every question from the contents `c`. -/
structure Shows (r : BundleReader) (c : Contents) : Prop where
  moduleCount : r.moduleCount = c.modules.length
  modules : ∀ (i : Nat) (m : AddedModule), c.modules[i]? = some m →
    r.identity i = some m.identity ∧ r.kind i = some m.kind ∧ r.flags i = some m.flags ∧
      r.payload i = some m.payload
  entry : c.entry = some r.entry
  preloadCount : r.preloadCount = c.preloads.length
  preloads : ∀ i < r.preloadCount, r.preload i = c.preloads[i]?
  vmOptionCount : r.vmOptionCount = c.vmOptions.length
  vmOptions : ∀ i < r.vmOptionCount, r.vmOption i = c.vmOptions[i]?
  allowsVmOptionsOverride : r.allowsVmOptionsOverride = c.allowVmOptionsOverride
  nativeFor : ∀ n ∈ c.natives, r.nativeFor n.moduleIndex =
    some (some ⟨n.moduleIndex, n.sidecar, n.byteLength, n.digest⟩)
  nativeForNone : ∀ i, (∀ n ∈ c.natives, n.moduleIndex ≠ i) → r.nativeFor i = some none
  lookup : ∀ importer specifier target, r.lookup importer specifier = some (some target) ↔
    { importer, specifier, target } ∈ c.edges
  lookupNone : ∀ importer specifier, (∀ target, { importer, specifier, target } ∉ c.edges) →
    r.lookup importer specifier = some none
  /-- Every payload starts at a multiple of the payload alignment in the file. -/
  payloadAligned : ∀ i < r.moduleCount, ∃ m, moduleAt r.data r.header i = some m ∧
    (r.header.payloadOffset.toNat + m.payloadOffset.toNat) % kBundlePayloadAlign = 0

/-! ### Runs of calls of one kind -/

namespace Contents

variable {α : Type} (c : Contents) (xs : List α)

theorem foldl_addModule (f : α → AddedModule) :
    (xs.map fun x => Call.addModule (f x).identity (f x).kind (f x).flags (f x).payload).foldl
      record c = { c with modules := c.modules ++ xs.map f } := by
  induction xs generalizing c with
  | nil => simp
  | cons x xs ih =>
      simp only [List.map_cons, List.foldl_cons, ih]
      simp [record]

theorem foldl_addEdge (f : α → PendingEdge) :
    (xs.map fun x => Call.addEdge (f x).importer (f x).specifier (f x).target).foldl record c =
      { c with edges := c.edges ++ xs.map f } := by
  induction xs generalizing c with
  | nil => simp
  | cons x xs ih =>
      simp only [List.map_cons, List.foldl_cons, ih]
      simp [record]

theorem foldl_addPreload (f : α → UInt32) :
    (xs.map fun x => Call.addPreload (f x)).foldl record c =
      { c with preloads := c.preloads ++ xs.map f } := by
  induction xs generalizing c with
  | nil => simp
  | cons x xs ih =>
      simp only [List.map_cons, List.foldl_cons, ih]
      simp [record]

theorem foldl_addNative (f : α → PendingNative) :
    (xs.map fun x =>
      Call.addNative (f x).moduleIndex (f x).sidecar (f x).byteLength (f x).digest).foldl record c =
      { c with natives := c.natives ++ xs.map f } := by
  induction xs generalizing c with
  | nil => simp
  | cons x xs ih =>
      simp only [List.map_cons, List.foldl_cons, ih]
      simp [record]

theorem foldl_addVmOption (options : List Bytes) :
    (options.map Call.addVmOption).foldl record c =
      { c with vmOptions := c.vmOptions ++ options } := by
  induction options generalizing c with
  | nil => simp
  | cons option options ih =>
      simp only [List.map_cons, List.foldl_cons, ih]
      simp [record]

end Contents

end HermesNode.Bundle
