/-
Module: HermesNode.Bundle.RoundTrip
Purpose: The container round trip. Three relations connect the abstract container to the code:
  `Written` (a writer under construction holds it), `Represents` (the sorted and interned tables
  denote it) and `Shows` (a reader answers every question from it). A run of calls establishes the
  first, `serialize` the second, and a file below 2^32 bytes is accepted by `open` and shows exactly
  what was added.
Trusted boundary: none
Main exports: Written, Represents, serialize_open_shows
-/
import HermesNode.Bundle.Contents
import HermesNode.Bundle.Layout
import HermesNode.Lib.Lists

namespace HermesNode.Bundle

open Check StringTable

/-! ### A writer under construction -/

/-- The pending module `m` is the added module `a`, its identity interned in `stringBytes`. -/
structure ModuleRep (stringBytes : Bytes) (a : AddedModule) (m : PendingModule) : Prop where
  identity : Holds stringBytes m.identityString a.identity
  kind : m.kind = a.kind
  flags : m.flags = a.flags
  payload : m.payload = a.payload

variable {a : AddedModule}

theorem ModuleRep.extend {bytes bytes' : Bytes} {m : PendingModule}
    (h : ModuleRep bytes a m) (hext : bytes <+: bytes') : ModuleRep bytes' a m :=
  ⟨h.identity.extend hext, h.kind, h.flags, h.payload⟩

/-- The writer holds exactly the contents. -/
structure Written (w : BundleWriter) (c : Contents) : Prop where
  strings : w.strings.Consistent
  modules : List.Forall₂ (ModuleRep w.strings.stringBytes) c.modules w.modules
  edges : w.edges = c.edges
  preloads : w.preloads = c.preloads
  natives : w.natives = c.natives
  vmOptions : w.vmOptions = c.vmOptions
  entry : c.entry = if w.hasEntry then some w.entry else none
  allowVmOptionsOverride : w.allowVmOptionsOverride = c.allowVmOptionsOverride

theorem written_empty : Written {} {} :=
  ⟨consistent_empty, List.Forall₂.nil, rfl, rfl, rfl, rfl, rfl, rfl⟩

variable {c : Contents}

/-- One call keeps the writer and the contents in step. -/
theorem Written.call {w : BundleWriter} (h : Written w c) (op : Call) :
    Written (w.call op) (c.record op) := by
  cases op with
  | addModule identity kind flags payload =>
      obtain ⟨hc, hext, hholds⟩ := internString_spec h.strings identity
      refine { h with strings := hc, modules := ?_ }
      refine forall₂_snoc ?_ ⟨hholds, rfl, rfl, rfl⟩
      exact h.modules.imp fun a m hm => hm.extend hext
  | addEdge importer specifier target =>
      exact { h with edges := congrArg (· ++ [_]) h.edges }
  | addPreload moduleIndex =>
      exact { h with preloads := congrArg (· ++ [_]) h.preloads }
  | addNative moduleIndex sidecar byteLength rawDigest =>
      exact { h with natives := congrArg (· ++ [_]) h.natives }
  | addVmOption option =>
      exact { h with vmOptions := congrArg (· ++ [_]) h.vmOptions }
  | setAllowVmOptionsOverride allow => exact { h with allowVmOptionsOverride := rfl }
  | setEntry moduleIndex => exact { h with entry := rfl }

theorem Written.foldl {w : BundleWriter} (h : Written w c) (calls : List Call) :
    Written (calls.foldl BundleWriter.call w) (calls.foldl Contents.record c) := by
  induction calls generalizing w c with
  | nil => exact h
  | cons op calls ih => exact ih (h.call op)

theorem run_written (calls : List Call) :
    Written (BundleWriter.run calls) (Contents.ofCalls calls) :=
  written_empty.foldl calls

/-! ### Sorted tables -/

namespace PendingEdge

theorem less_iff {a b : PendingEdge} :
    a.less b = true ↔ a.importer.toNat < b.importer.toNat ∨
      (a.importer = b.importer ∧ bytesLt a.specifier b.specifier = true) := by
  simp only [less, Bool.or_eq_true, Bool.and_eq_true, Bool.not_eq_true', decide_eq_true_eq,
    decide_eq_false_iff_not, UInt32.lt_iff_toNat_lt]
  constructor
  · intro h
    rcases h with hlt | ⟨hge, hspec⟩
    · exact Or.inl hlt
    · rcases Nat.lt_or_ge a.importer.toNat b.importer.toNat with hlt | hle
      · exact Or.inl hlt
      · exact Or.inr ⟨UInt32.toNat_inj.mp (by omega), hspec⟩
  · intro h
    rcases h with hlt | ⟨heq, hspec⟩
    · exact Or.inl hlt
    · exact Or.inr ⟨by rw [heq]; omega, hspec⟩

theorem less_trans {a b c : PendingEdge} (hab : a.less b = true) (hbc : b.less c = true) :
    a.less c = true := by
  rw [less_iff] at hab hbc ⊢
  rcases hab with hab | ⟨hab, sab⟩
  · rcases hbc with hbc | ⟨hbc, _⟩
    · exact Or.inl (Nat.lt_trans hab hbc)
    · exact Or.inl (hbc ▸ hab)
  · rcases hbc with hbc | ⟨hbc, sbc⟩
    · exact Or.inl (hab ▸ hbc)
    · exact Or.inr ⟨hab.trans hbc, bytesLt_trans sab sbc⟩

theorem less_irrefl (a : PendingEdge) : a.less a = false := by
  rw [← Bool.not_eq_true, less_iff]
  simp [bytesLt_irrefl]

/-- Two edges the comparison does not separate have the same key. -/
theorem less_trichotomy (a b : PendingEdge) :
    a.less b = true ∨ (a.importer = b.importer ∧ a.specifier = b.specifier) ∨
      b.less a = true := by
  simp only [less_iff]
  rcases Nat.lt_trichotomy a.importer.toNat b.importer.toNat with hlt | heq | hgt
  · exact Or.inl (Or.inl hlt)
  · have himp : a.importer = b.importer := UInt32.toNat_inj.mp heq
    rcases bytesLt_trichotomy a.specifier b.specifier with hspec | hspec | hspec
    · exact Or.inl (Or.inr ⟨himp, hspec⟩)
    · exact Or.inr (Or.inl ⟨himp, hspec⟩)
    · exact Or.inr (Or.inr (Or.inr ⟨himp.symm, hspec⟩))
  · exact Or.inr (Or.inr (Or.inl hgt))

/-- The comparison only reads the key. -/
theorem less_congr {a a' : PendingEdge} (himp : a.importer = a'.importer)
    (hspec : a.specifier = a'.specifier) (b : PendingEdge) : b.less a = b.less a' := by
  simp only [less, himp, hspec]

theorem less_of_le_of_less {a b c : PendingEdge} (hab : b.less a = false) (hbc : b.less c = true) :
    a.less c = true := by
  rcases less_trichotomy a b with h | ⟨himp, hspec⟩ | h
  · exact less_trans h hbc
  · rw [less_iff] at hbc ⊢
    rw [himp, hspec]
    exact hbc
  · rw [hab] at h
    cases h

instance : Std.Total (fun a b : PendingEdge => b.less a = false) where
  total a b := by
    rcases less_trichotomy a b with h | ⟨himp, hspec⟩ | h
    · refine Or.inl ?_
      by_contra hba
      have hself := less_trans h (by simpa using hba)
      rw [less_irrefl] at hself
      cases hself
    · refine Or.inl ?_
      rw [less_congr himp hspec]
      exact less_irrefl b
    · refine Or.inr ?_
      by_contra hab
      have hself := less_trans h (by simpa using hab)
      rw [less_irrefl] at hself
      cases hself

instance : IsTrans PendingEdge (fun a b => b.less a = false) where
  trans a b c hba hcb := by
    by_contra hca
    have hca' : c.less a = true := by simpa using hca
    rcases less_trichotomy a b with h | ⟨himp, hspec⟩ | h
    · rw [less_trans hca' h] at hcb
      cases hcb
    · rw [less_congr himp hspec] at hca'
      rw [hca'] at hcb
      cases hcb
    · rw [h] at hba
      cases hba

end PendingEdge

instance : Std.Total (fun a b : PendingNative => ¬ b.moduleIndex < a.moduleIndex) where
  total a b := by
    simp only [UInt32.lt_iff_toNat_lt]
    omega

instance : IsTrans PendingNative (fun a b => ¬ b.moduleIndex < a.moduleIndex) where
  trans a b c hba hcb := by
    simp only [UInt32.lt_iff_toNat_lt] at *
    omega

theorem sortEdges_perm (edges : List PendingEdge) : (sortEdges edges).Perm edges :=
  List.perm_insertionSort _ edges

theorem sortNatives_perm (natives : List PendingNative) : (sortNatives natives).Perm natives :=
  List.perm_insertionSort _ natives

/-- With one edge per key the sorted table is strictly increasing. -/
theorem sortEdges_strict {edges : List PendingEdge}
    (hkeys : (edges.map fun e => (e.importer, e.specifier)).Nodup) :
    (sortEdges edges).Pairwise fun a b => a.less b = true := by
  have hsorted : (sortEdges edges).Pairwise fun a b => b.less a = false :=
    List.pairwise_insertionSort _ edges
  have hperm := (sortEdges_perm edges).map fun e => (e.importer, e.specifier)
  have hdistinct : (sortEdges edges).Pairwise
      fun a b => (a.importer, a.specifier) ≠ (b.importer, b.specifier) := by
    have hnodup := hperm.nodup_iff.mpr hkeys
    exact List.pairwise_map.mp hnodup
  refine (hsorted.and hdistinct).imp ?_
  intro a b h
  rcases PendingEdge.less_trichotomy a b with hlt | ⟨himp, hspec⟩ | hgt
  · exact hlt
  · exact absurd (by rw [himp, hspec]) h.2
  · rw [h.1] at hgt
    cases hgt

/-- With one row per module the sorted native table is strictly increasing. -/
theorem sortNatives_strict {natives : List PendingNative}
    (hrows : (natives.map (·.moduleIndex)).Nodup) :
    (sortNatives natives).Pairwise fun a b => a.moduleIndex < b.moduleIndex := by
  have hsorted : (sortNatives natives).Pairwise fun a b => ¬ b.moduleIndex < a.moduleIndex :=
    List.pairwise_insertionSort _ natives
  have hperm := (sortNatives_perm natives).map (·.moduleIndex)
  have hdistinct : (sortNatives natives).Pairwise fun a b => a.moduleIndex ≠ b.moduleIndex := by
    have hnodup := hperm.nodup_iff.mpr hrows
    exact List.pairwise_map.mp hnodup
  refine (hsorted.and hdistinct).imp ?_
  intro a b h
  rw [UInt32.lt_iff_toNat_lt]
  have hle : ¬ b.moduleIndex.toNat < a.moduleIndex.toNat := by
    simpa [UInt32.lt_iff_toNat_lt] using h.1
  have hne : a.moduleIndex.toNat ≠ b.moduleIndex.toNat := by
    intro heq
    exact h.2 (UInt32.toNat_inj.mp heq)
  omega

theorem Contents.WellFormed.nativeKeys (hwf : c.WellFormed) :
    (c.natives.map (·.moduleIndex)).Nodup := by
  rw [List.nodup_iff_count_le_one]
  intro i
  by_cases hmem : i ∈ c.natives.map (·.moduleIndex)
  · rcases List.mem_map.mp hmem with ⟨n, hn, rfl⟩
    have hrow := hwf.nativeRows n.moduleIndex.toNat
      (c.modules.get ⟨_, hwf.nativeIndices n hn⟩) (List.getElem?_eq_getElem _)
    have hcount : (c.natives.map (·.moduleIndex)).count n.moduleIndex =
        (c.natives.filter (·.moduleIndex.toNat = n.moduleIndex.toNat)).length := by
      rw [List.count, List.countP_map, List.countP_eq_length_filter]
      congr 1
      apply List.filter_congr
      intro m _
      simp [UInt32.toNat_inj, Function.comp, Bool.beq_eq_decide_eq]
    rw [hcount, hrow]
    split
    · exact Nat.le_refl 1
    · exact Nat.zero_le 1
  · rw [List.count_eq_zero_of_not_mem hmem]
    exact Nat.zero_le 1

theorem Contents.WellFormed.kind_of_native (hwf : c.WellFormed) {n : PendingNative}
    (hn : n ∈ c.natives) (ha : c.modules[n.moduleIndex.toNat]? = some a) :
    a.kind = .kNative := by
  have hrow := hwf.nativeRows _ a ha
  by_contra hkind
  rw [if_neg hkind, List.length_eq_zero_iff, List.filter_eq_nil_iff] at hrow
  exact hrow n hn (by simp)

variable {i : Nat}

theorem Contents.WellFormed.native_of_kind (hwf : c.WellFormed)
    (ha : c.modules[i]? = some a) (hkind : a.kind = .kNative) :
    ∃ n ∈ c.natives, n.moduleIndex.toNat = i := by
  have hrow := hwf.nativeRows i a ha
  rw [if_pos hkind] at hrow
  rcases List.exists_mem_of_length_pos (by rw [hrow]; exact Nat.one_pos) with ⟨n, hn⟩
  rcases List.mem_filter.mp hn with ⟨hmem, hindex⟩
  exact ⟨n, hmem, by simpa using hindex⟩

/-! ### Frozen tables -/

structure EdgeRep (stringBytes : Bytes) (e : PendingEdge) (record : BundleEdgeRecord) : Prop where
  importer : record.importer = e.importer
  specifier : Holds stringBytes record.specifierString e.specifier
  target : record.target = e.target

structure NativeRep (stringBytes : Bytes) (n : PendingNative) (record : BundleNativeRecord) :
    Prop where
  moduleIndex : record.moduleIndex = n.moduleIndex
  sidecar : Holds stringBytes record.sidecarString n.sidecar
  byteLength : record.byteLength = n.byteLength
  digest : Holds stringBytes record.hashString n.digest

/-- The frozen tables denote the contents, the edges and natives in their sorted order. -/
structure Represents (f : Frozen) (c : Contents) : Prop where
  modules : List.Forall₂ (ModuleRep f.stringBytes) c.modules f.modules
  edges : List.Forall₂ (EdgeRep f.stringBytes) (sortEdges c.edges) f.edges
  preloads : f.preloads = c.preloads
  natives : List.Forall₂ (NativeRep f.stringBytes) (sortNatives c.natives) f.natives
  vmOptions : List.Forall₂ (fun s offset => Holds f.stringBytes offset s) c.vmOptions f.vmOptions
  entry : c.entry = some f.entry
  allowVmOptionsOverride : f.allowVmOptionsOverride = c.allowVmOptionsOverride

/-- Sorting and interning turn a writer that holds the contents into tables that denote them. -/
theorem freeze_represents {w : BundleWriter} (h : Written w c)
    (hentry : w.hasEntry = true) : Represents w.freeze.1 c := by
  rcases internAll_spec h.strings ((sortEdges w.edges).map (·.specifier)) with ⟨hc₁, hext₁, hspecs⟩
  rcases internNatives_spec hc₁ (sortNatives w.natives) with ⟨hc₂, hext₂, hnatives⟩
  rcases internAll_spec hc₂ w.vmOptions with ⟨_, hext₃, hoptions⟩
  refine ⟨?_, ?_, h.preloads, ?_, ?_, ?_, h.allowVmOptionsOverride⟩
  · exact h.modules.imp fun a m hm => hm.extend (hext₁.trans (hext₂.trans hext₃))
  · rw [← h.edges]
    apply forall₂_zipWith (List.forall₂_map_left_iff.mp hspecs)
    intro e offset hholds
    exact ⟨rfl, hholds.extend (hext₂.trans hext₃), rfl⟩
  · rw [← h.natives]
    apply forall₂_zipWith hnatives
    intro n offsets hholds
    exact ⟨rfl, hholds.1.extend hext₃, rfl, hholds.2.extend hext₃⟩
  · rw [← h.vmOptions]
    exact hoptions
  · rw [h.entry, if_pos hentry]
    rfl

/-! ### Reading a frozen file back -/

section Reads

variable {f : Frozen} {generationTag : UInt32} {data : Bytes}

theorem toNat_ofNat_of_le {n m : Nat} (hm : m < 2 ^ 32) (hn : n ≤ m) :
    (UInt32.ofNat n).toNat = n :=
  UInt32.toNat_ofNat_of_lt' (Nat.lt_of_le_of_lt hn hm)

/-- The header's fields as natural numbers, the payload section's size apart. -/
structure TablesExact (f : Frozen) (h : BundleHeader) : Prop where
  stringsOffset : h.stringsOffset.toNat = sizeofBundleHeader
  stringsSize : h.stringsSize.toNat = f.stringBytes.length
  moduleTableOffset : h.moduleTableOffset.toNat = f.moduleTableOffset
  moduleCount : h.moduleCount.toNat = f.modules.length
  edgeTableOffset : h.edgeTableOffset.toNat = f.edgeTableOffset
  edgeCount : h.edgeCount.toNat = f.edges.length
  preloadTableOffset : h.preloadTableOffset.toNat = f.preloadTableOffset
  preloadCount : h.preloadCount.toNat = f.preloads.length
  nativeTableOffset : h.nativeTableOffset.toNat = f.nativeTableOffset
  nativeCount : h.nativeCount.toNat = f.natives.length
  vmOptionsTableOffset : h.vmOptionsTableOffset.toNat = f.vmOptionsTableOffset
  vmOptionsCount : h.vmOptionsCount.toNat = f.vmOptions.length
  payloadOffset : h.payloadOffset.toNat = f.payloadOffset

/-- No cast loses bits where the tables end below 2^32 bytes. -/
theorem tables_exact (generationTag : UInt32) (htables : f.payloadOffset < 2 ^ 32) :
    TablesExact f (f.header generationTag) := by
  have hmodule : sizeofBundleHeader + f.stringBytes.length ≤ f.moduleTableOffset :=
    le_alignUp_table _
  have hpayload : f.tablesEnd ≤ f.payloadOffset := le_alignUp_payload _
  have hedge : f.edgeTableOffset = f.moduleTableOffset + f.modules.length * 20 := rfl
  have hpreload : f.preloadTableOffset = f.edgeTableOffset + f.edges.length * 12 := rfl
  have hnative : f.nativeTableOffset = f.preloadTableOffset + f.preloads.length * 4 := rfl
  have hoptions : f.vmOptionsTableOffset = f.nativeTableOffset + f.natives.length * 16 := rfl
  have hend : f.tablesEnd = f.vmOptionsTableOffset + f.vmOptions.length * 4 := rfl
  constructor <;> first | rfl | exact toNat_ofNat_of_le htables (by omega)

/-- In a file below 2^32 bytes the payload section's size is exact too. -/
structure HeaderExact (f : Frozen) (h : BundleHeader) : Prop extends TablesExact f h where
  payloadSize : h.payloadSize.toNat = f.payloads.2

theorem tables_lt (hs : f.Sections generationTag data) (hsize : data.length < 2 ^ 32) :
    f.payloadOffset < 2 ^ 32 := by
  have htotal := hs.size
  omega

theorem payloads_lt (hs : f.Sections generationTag data) (hsize : data.length < 2 ^ 32) :
    f.payloads.2 < 2 ^ 32 := by
  have htotal := hs.size
  omega

theorem header_exact (hs : f.Sections generationTag data) (hsize : data.length < 2 ^ 32) :
    HeaderExact f (f.header generationTag) := by
  refine { tables_exact generationTag (tables_lt hs hsize) with payloadSize := ?_ }
  exact toNat_ofNat_of_le (payloads_lt hs hsize) (Nat.le_refl _)

/-- A string the writer interned is a complete entry of the string table the reader sees. -/
theorem stringOk_of_holds (hs : f.Sections generationTag data) (htables : f.payloadOffset < 2 ^ 32)
    {offset : UInt32} {s : Bytes} (hholds : Holds f.stringBytes offset s) :
    StringOk data (f.header generationTag) offset s := by
  have hexact := tables_exact generationTag htables
  rcases hholds with ⟨n, rfl, hat⟩
  have hstrings := hs.strings.length_le
  have hentry := hat.length_le
  have hlength : (entryBytes s).length = 4 + s.length := by
    simp [entryBytes]
  have hsmall : f.stringBytes.length < 2 ^ 32 := by
    rw [← hexact.stringsSize]
    exact UInt32.toNat_lt _
  have hn : (UInt32.ofNat n).toNat = n := toNat_ofNat_of_le hsmall (by omega)
  have hslen : (UInt32.ofNat s.length).toNat = s.length := toNat_ofNat_of_le hsmall (by omega)
  have hplaced : At data (sizeofBundleHeader + n) (entryBytes s) := hs.strings.trans hat
  have hword : readU32 data (sizeofBundleHeader + n) = some (UInt32.ofNat s.length) :=
    hplaced.left.readU32_eq
  have hbytes : readBytes data (sizeofBundleHeader + n + 4) s.length = some s :=
    hplaced.right.readBytes_eq
  constructor
  · simp only [validateStringIndex, hexact.stringsOffset, hexact.stringsSize, hn, hword,
      sizeofBundleStringHeader]
    rw [if_pos (by omega)]
    simp only [Option.bind_eq_bind, Option.bind_some, Option.pure_def, Option.some.injEq,
      decide_eq_true_eq]
    omega
  · simp only [stringViewAt, hexact.stringsOffset, hn, hword, sizeofBundleStringHeader,
      Option.bind_eq_bind, Option.bind_some, hslen, hbytes]

theorem edgeAt_eq (hs : f.Sections generationTag data) (htables : f.payloadOffset < 2 ^ 32)
    {record : BundleEdgeRecord} (hi : f.edges[i]? = some record) :
    edgeAt data (f.header generationTag) i = some record := by
  apply BundleEdgeRecord.read_eq
  rw [(tables_exact generationTag htables).edgeTableOffset]
  exact hs.edges.record BundleEdgeRecord.encode_length hi

theorem nativeAt_eq (hs : f.Sections generationTag data) (htables : f.payloadOffset < 2 ^ 32)
    {record : BundleNativeRecord} (hi : f.natives[i]? = some record) :
    nativeAt data (f.header generationTag) i = some record := by
  apply BundleNativeRecord.read_eq
  rw [(tables_exact generationTag htables).nativeTableOffset]
  exact hs.natives.record BundleNativeRecord.encode_length hi

theorem preloadAt_eq (hs : f.Sections generationTag data) (htables : f.payloadOffset < 2 ^ 32)
    {index : UInt32} (hi : f.preloads[i]? = some index) :
    preloadAt data (f.header generationTag) i = some index := by
  apply At.readU32_eq
  rw [(tables_exact generationTag htables).preloadTableOffset]
  exact hs.preloads.record u32le_length hi

theorem vmOptionAt_eq (hs : f.Sections generationTag data) (htables : f.payloadOffset < 2 ^ 32)
    {offset : UInt32} (hi : f.vmOptions[i]? = some offset) :
    vmOptionAt data (f.header generationTag) i = some offset := by
  apply At.readU32_eq
  rw [(tables_exact generationTag htables).vmOptionsTableOffset]
  exact hs.vmOptions.record u32le_length hi

/-- What the module table says about an added module, however large the payloads are. -/
structure ModuleRow (h : BundleHeader) (data : Bytes) (a : AddedModule)
    (record : BundleModuleRecord) : Prop where
  identity : StringOk data h record.identityString a.identity
  kind : record.kind = a.kind.toU32
  flags : record.flags = a.flags
  payloadSize : record.payloadSize = UInt32.ofNat a.payload.length

/-- Row `i` of the module table is the added module `i`; its payload offset is the cast of the
position the payload is emitted at. -/
theorem moduleRow_eq (hs : f.Sections generationTag data) (htables : f.payloadOffset < 2 ^ 32)
    (hrep : Represents f c)
    (hi : c.modules[i]? = some a) :
    ∃ record k, moduleAt data (f.header generationTag) i = some record ∧
      ModuleRow (f.header generationTag) data a record ∧
      f.payloads.1[i]? = some record.payloadOffset ∧
      record.payloadOffset = UInt32.ofNat k ∧ k % kBundlePayloadAlign = 0 ∧
      At (f.modules.flatMap Frozen.paddedPayload) k a.payload := by
  rcases forall₂_getElem? hrep.modules hi with ⟨m, hm, hmrep⟩
  rcases payloadLayout_spec f.modules 0 rfl with ⟨_, _, hlayout⟩
  rcases hlayout i m hm with ⟨k, hk, hmod, hat⟩
  rw [Nat.zero_add] at hk
  let record : BundleModuleRecord :=
    { identityString := m.identityString, kind := m.kind.toU32, flags := m.flags,
      payloadOffset := UInt32.ofNat k, payloadSize := UInt32.ofNat m.payload.length }
  have hrecord : f.moduleRecords[i]? = some record := by
    simp only [Frozen.moduleRecords, List.getElem?_zipWith, hm, Frozen.payloads, hk, record]
  refine ⟨record, k, ?_, ⟨stringOk_of_holds hs htables hmrep.identity, ?_, hmrep.flags, ?_⟩, hk,
    rfl, hmod, ?_⟩
  · apply BundleModuleRecord.read_eq
    rw [(tables_exact generationTag htables).moduleTableOffset]
    exact hs.modules.record BundleModuleRecord.encode_length hrecord
  · simp only [record, hmrep.kind]
  · simp only [record, hmrep.payload]
  · rw [← hmrep.payload]
    exact hat

/-- What the module table says about an added module. -/
structure ModuleRead (f : Frozen) (h : BundleHeader) (data : Bytes) (a : AddedModule)
    (record : BundleModuleRecord) : Prop where
  identity : StringOk data h record.identityString a.identity
  kind : record.kind = a.kind.toU32
  flags : record.flags = a.flags
  payloadSize : record.payloadSize.toNat = a.payload.length
  payload : At data (f.payloadOffset + record.payloadOffset.toNat) a.payload
  payloadFits : record.payloadOffset.toNat + record.payloadSize.toNat ≤ f.payloads.2
  aligned : record.payloadOffset.toNat % kBundlePayloadAlign = 0

theorem payloads_size (f : Frozen) :
    f.payloads.2 = (f.modules.flatMap Frozen.paddedPayload).length := by
  rcases payloadLayout_spec f.modules 0 rfl with ⟨hsize, _, _⟩
  rw [Frozen.payloads, hsize, Nat.zero_add]

/-- Where the payload section is below 2^32 bytes too, the row names the payload. -/
theorem moduleAt_eq (hs : f.Sections generationTag data) (htables : f.payloadOffset < 2 ^ 32)
    (hpayloads : f.payloads.2 < 2 ^ 32) (hrep : Represents f c)
    (hi : c.modules[i]? = some a) :
    ∃ record, moduleAt data (f.header generationTag) i = some record ∧
      ModuleRead f (f.header generationTag) data a record := by
  rcases moduleRow_eq hs htables hrep hi with ⟨record, k, hrecord, hrow, _, hoffset, hmod, hat⟩
  have hplaced : At data (f.payloadOffset + k) a.payload := hs.payloads.trans hat
  have hend : k + a.payload.length ≤ f.payloads.2 := by
    rw [payloads_size]
    exact hat.length_le
  have hk : record.payloadOffset.toNat = k := by
    rw [hoffset]
    exact toNat_ofNat_of_le hpayloads (by omega)
  have hlen : record.payloadSize.toNat = a.payload.length := by
    rw [hrow.payloadSize]
    exact toNat_ofNat_of_le hpayloads (by omega)
  refine ⟨record, hrecord, hrow.identity, hrow.kind, hrow.flags, hlen, ?_, ?_, ?_⟩
  · rw [hk]
    exact hplaced
  · rw [hk, hlen]
    exact hend
  · rw [hk]
    exact hmod

/-! ### The validation pass accepts -/

theorem emit_aligned (f : Frozen) :
    f.moduleTableOffset % kTableAlign = 0 ∧ f.edgeTableOffset % kTableAlign = 0 ∧
      f.preloadTableOffset % kTableAlign = 0 ∧ f.nativeTableOffset % kTableAlign = 0 ∧
      f.vmOptionsTableOffset % kTableAlign = 0 := by
  have hmodule : f.moduleTableOffset % kTableAlign = 0 := alignUp_mod _ _
  simp only [Frozen.vmOptionsTableOffset, Frozen.nativeTableOffset, Frozen.preloadTableOffset,
    Frozen.edgeTableOffset, sizeofBundleModuleRecord, sizeofBundleEdgeRecord,
    sizeofBundleNativeRecord, kTableAlign] at *
  omega

section Checks

variable {c : Contents}

theorem moduleCount_eq (generationTag : UInt32) (htables : f.payloadOffset < 2 ^ 32)
    (hrep : Represents f c) : (f.header generationTag).moduleCount.toNat = c.modules.length := by
  rw [(tables_exact generationTag htables).moduleCount, hrep.modules.length_eq]

theorem added_module (hs : f.Sections generationTag data) (htables : f.payloadOffset < 2 ^ 32)
    (hrep : Represents f c) (hi : i < (f.header generationTag).moduleCount.toNat) :
    ∃ a record, c.modules[i]? = some a ∧ moduleAt data (f.header generationTag) i = some record ∧
      ModuleRow (f.header generationTag) data a record := by
  rw [moduleCount_eq generationTag htables hrep] at hi
  obtain ⟨record, _, hrecord, hrow, _⟩ := moduleRow_eq hs htables hrep (List.getElem?_eq_getElem hi)
  exact ⟨_, record, List.getElem?_eq_getElem hi, hrecord, hrow⟩

/-- The reader's native row `i` is the `i`-th of the sorted rows. -/
theorem added_native (hs : f.Sections generationTag data) (htables : f.payloadOffset < 2 ^ 32)
    (hrep : Represents f c) (hi : i < (f.header generationTag).nativeCount.toNat) :
    ∃ n record, (sortNatives c.natives)[i]? = some n ∧
      nativeAt data (f.header generationTag) i = some record ∧
      NativeRep f.stringBytes n record := by
  rw [(tables_exact generationTag htables).nativeCount] at hi
  obtain ⟨n, record, hn, hrecord, hnrep⟩ := forall₂_getElem?_lt hrep.natives hi
  exact ⟨n, record, hn, nativeAt_eq hs htables hrecord, hnrep⟩

theorem kNative_of_toU32 {kind : ModuleKind} (h : kind.toU32 = ModuleKind.kNative.toU32) :
    kind = .kNative := by
  revert h
  cases kind <;> decide

/-- Every payload the module table names lies inside the payload section the header names. -/
def PayloadsFit (data : Bytes) (h : BundleHeader) : Prop :=
  ∀ (i : Nat) (m : BundleModuleRecord), i < h.moduleCount.toNat → moduleAt data h i = some m →
    m.payloadOffset.toNat + m.payloadSize.toNat ≤ h.payloadSize.toNat

theorem module_ok (hs : f.Sections generationTag data) (htables : f.payloadOffset < 2 ^ 32)
    (hrep : Represents f c) (hwf : c.WellFormed) (hfit : PayloadsFit data (f.header generationTag))
    (hi : i < (f.header generationTag).moduleCount.toNat) :
    ∃ m identity, moduleAt data (f.header generationTag) i = some m ∧
      ModuleOk data (f.header generationTag) m identity := by
  obtain ⟨a, record, ha, hrecord, hread⟩ := added_module hs htables hrep hi
  have hmem : a ∈ c.modules := List.mem_of_getElem? ha
  refine ⟨record, a.identity, hrecord, hread.identity, hwf.identityValid a hmem,
    ⟨a.kind, hread.kind⟩, ?_, ?_, ?_⟩
  · rw [hread.flags]
    exact hwf.flags a hmem
  · exact hfit i record hi hrecord
  · intro hkind
    rw [hread.kind] at hkind
    rw [hread.payloadSize, hwf.nativePayloads a hmem (kNative_of_toU32 hkind)]
    rfl

theorem modules_distinct (hs : f.Sections generationTag data) (htables : f.payloadOffset < 2 ^ 32)
    (hrep : Represents f c) (hwf : c.WellFormed) {i j : Nat} {m n : BundleModuleRecord} {s : Bytes}
    (hi : i < (f.header generationTag).moduleCount.toNat)
    (hj : j < (f.header generationTag).moduleCount.toNat)
    (hm : moduleAt data (f.header generationTag) i = some m)
    (hn : moduleAt data (f.header generationTag) j = some n)
    (hsm : StringOk data (f.header generationTag) m.identityString s)
    (hsn : StringOk data (f.header generationTag) n.identityString s) : i = j := by
  obtain ⟨a, ra, ha, hra, hreada⟩ := added_module hs htables hrep hi
  obtain ⟨b, rb, hb, hrb, hreadb⟩ := added_module hs htables hrep hj
  rw [hm] at hra
  rw [hn] at hrb
  cases hra
  cases hrb
  have hida : s = a.identity := hsm.unique hreada.identity
  have hidb : s = b.identity := hsn.unique hreadb.identity
  have hmapi : (c.modules.map (·.identity))[i]? = some s := by simp [ha, hida]
  have hmapj : (c.modules.map (·.identity))[j]? = some s := by simp [hb, hidb]
  have hilt : i < (c.modules.map (·.identity)).length := by
    rw [List.length_map, ← moduleCount_eq generationTag htables hrep]
    exact hi
  exact (List.getElem?_inj hilt hwf.identityDistinct).mp (hmapi.trans hmapj.symm)

theorem edge_ok (hs : f.Sections generationTag data) (htables : f.payloadOffset < 2 ^ 32)
    (hrep : Represents f c) (hwf : c.WellFormed)
    (hi : i < (f.header generationTag).edgeCount.toNat) :
    ∃ e, edgeAt data (f.header generationTag) i = some e ∧
      EdgeOk data (f.header generationTag) e := by
  have hcount := moduleCount_eq generationTag htables hrep
  rw [(tables_exact generationTag htables).edgeCount] at hi
  obtain ⟨e, record, he, hrecord, herep⟩ := forall₂_getElem?_lt hrep.edges hi
  have hmem : e ∈ c.edges := (sortEdges_perm c.edges).mem_iff.mp (List.mem_of_getElem? he)
  obtain ⟨himporter, htarget⟩ := hwf.edgeIndices e hmem
  refine ⟨record, edgeAt_eq hs htables hrecord, ?_, ?_,
    ⟨e.specifier, stringOk_of_holds hs htables herep.specifier⟩⟩
  · rw [UInt32.lt_iff_toNat_lt, hcount, herep.importer]
    exact himporter
  · rw [UInt32.lt_iff_toNat_lt, hcount, herep.target]
    exact htarget

theorem preload_ok (hs : f.Sections generationTag data) (htables : f.payloadOffset < 2 ^ 32)
    (hrep : Represents f c) (hwf : c.WellFormed)
    (hi : i < (f.header generationTag).preloadCount.toNat) :
    ∃ index m, preloadAt data (f.header generationTag) i = some index ∧
      index < (f.header generationTag).moduleCount ∧
      moduleAt data (f.header generationTag) index.toNat = some m ∧
      m.flags &&& kRequirable ≠ 0 := by
  rw [(tables_exact generationTag htables).preloadCount] at hi
  have hindex := List.getElem?_eq_getElem hi
  have hmem : f.preloads[i] ∈ c.preloads := by
    rw [← hrep.preloads]
    exact List.getElem_mem hi
  obtain ⟨a, ha, hflags⟩ := hwf.preloads _ hmem
  obtain ⟨record, _, hrecord, hread, _⟩ := moduleRow_eq hs htables hrep ha
  refine ⟨_, record, preloadAt_eq hs htables hindex, ?_, hrecord, ?_⟩
  · rw [UInt32.lt_iff_toNat_lt, moduleCount_eq generationTag htables hrep]
    exact (List.getElem?_eq_some_iff.mp ha).1
  · rw [hread.flags]
    exact hflags

theorem native_ok (hs : f.Sections generationTag data) (htables : f.payloadOffset < 2 ^ 32)
    (hrep : Represents f c) (hwf : c.WellFormed)
    (hi : i < (f.header generationTag).nativeCount.toNat) :
    ∃ row, nativeAt data (f.header generationTag) i = some row ∧
      NativeOk data (f.header generationTag) row := by
  obtain ⟨n, row, hn, hrow, hnrep⟩ := added_native hs htables hrep hi
  have hmem : n ∈ c.natives := (sortNatives_perm c.natives).mem_iff.mp (List.mem_of_getElem? hn)
  have hindex := hwf.nativeIndices n hmem
  obtain ⟨record, _, hrecord, hread, _⟩ :=
    moduleRow_eq hs htables hrep (List.getElem?_eq_getElem hindex)
  refine ⟨row, hrow, ?_, ⟨record, ?_, ?_⟩,
    ⟨n.sidecar, stringOk_of_holds hs htables hnrep.sidecar⟩,
    ⟨n.digest, stringOk_of_holds hs htables hnrep.digest, hwf.nativeDigests n hmem⟩⟩
  · rw [UInt32.lt_iff_toNat_lt, moduleCount_eq generationTag htables hrep, hnrep.moduleIndex]
    exact hindex
  · rw [hnrep.moduleIndex]
    exact hrecord
  · rw [hread.kind, hwf.kind_of_native hmem (List.getElem?_eq_getElem hindex)]

theorem natives_ascend (hs : f.Sections generationTag data) (htables : f.payloadOffset < 2 ^ 32)
    (hrep : Represents f c) (hwf : c.WellFormed) {a b : BundleNativeRecord}
    (hi : i + 1 < (f.header generationTag).nativeCount.toNat)
    (ha : nativeAt data (f.header generationTag) i = some a)
    (hb : nativeAt data (f.header generationTag) (i + 1) = some b) :
    a.moduleIndex < b.moduleIndex := by
  obtain ⟨n, row, hn, hrow, hnrep⟩ := added_native hs htables hrep (Nat.lt_of_succ_lt hi)
  obtain ⟨n', row', hn', hrow', hnrep'⟩ := added_native hs htables hrep hi
  rw [ha] at hrow
  rw [hb] at hrow'
  cases hrow
  cases hrow'
  rw [hnrep.moduleIndex, hnrep'.moduleIndex]
  have hstrict := sortNatives_strict hwf.nativeKeys
  obtain ⟨hlt, rfl⟩ := List.getElem?_eq_some_iff.mp hn
  obtain ⟨hlt', rfl⟩ := List.getElem?_eq_some_iff.mp hn'
  exact List.pairwise_iff_getElem.mp hstrict i (i + 1) hlt hlt' (by omega)

theorem native_row_of_module (hs : f.Sections generationTag data)
    (htables : f.payloadOffset < 2 ^ 32) (hrep : Represents f c) (hwf : c.WellFormed) {m : BundleModuleRecord}
    (hi : i < (f.header generationTag).moduleCount.toNat)
    (hm : moduleAt data (f.header generationTag) i = some m)
    (hkind : m.kind = ModuleKind.kNative.toU32) :
    ∃ j row, j < (f.header generationTag).nativeCount.toNat ∧
      nativeAt data (f.header generationTag) j = some row ∧ row.moduleIndex.toNat = i := by
  obtain ⟨a, record, ha, hrecord, hread⟩ := added_module hs htables hrep hi
  rw [hm] at hrecord
  cases hrecord
  rw [hread.kind] at hkind
  obtain ⟨n, hmem, hindex⟩ := hwf.native_of_kind ha (kNative_of_toU32 hkind)
  have hsorted : n ∈ sortNatives c.natives := (sortNatives_perm c.natives).mem_iff.mpr hmem
  obtain ⟨j, hj⟩ := List.getElem?_of_mem hsorted
  obtain ⟨row, hrow, hnrep⟩ := forall₂_getElem? hrep.natives hj
  refine ⟨j, row, ?_, nativeAt_eq hs htables hrow, ?_⟩
  · rw [(tables_exact generationTag htables).nativeCount]
    exact (List.getElem?_eq_some_iff.mp hrow).1
  · rw [hnrep.moduleIndex]
    exact hindex

/-- A frozen file of well-formed contents passes every check of `openImpl`. -/
theorem valid_of_represents (hs : f.Sections generationTag data)
    (htables : f.payloadOffset < 2 ^ 32) (hrep : Represents f c) (hwf : c.WellFormed)
    (hfit : PayloadsFit data (f.header generationTag)) :
    Valid data (f.header generationTag) := by
  have hx := tables_exact generationTag htables
  have hcount := moduleCount_eq generationTag htables hrep
  have hentry := hwf.entry f.entry hrep.entry
  have hmodules := hs.modules.length_le
  have hedges := hs.edges.length_le
  have hpreloads := hs.preloads.length_le
  have hnatives := hs.natives.length_le
  have hoptions := hs.vmOptions.length_le
  rw [length_flatMap_encode BundleModuleRecord.encode_length, Frozen.moduleRecords_length]
    at hmodules
  rw [length_flatMap_encode BundleEdgeRecord.encode_length] at hedges
  rw [length_flatMap_encode u32le_length] at hpreloads
  rw [length_flatMap_encode BundleNativeRecord.encode_length] at hnatives
  rw [length_flatMap_encode u32le_length] at hoptions
  refine
    { size := ?_, header := BundleHeader.read_eq hs.header, magic := ?_, formatVersion := rfl,
      containerFlags := ?_, strings := ?_, moduleTable := ?_, edgeTable := ?_,
      preloadTable := ?_, nativeTable := ?_, vmOptionsTable := ?_, payload := ?_, aligned := ?_,
      moduleCount := ?_, entry := ?_,
      modules := fun i hi => module_ok hs htables hrep hwf hfit hi,
      distinct := fun i j m n s => modules_distinct hs htables hrep hwf,
      edges := fun i hi => edge_ok hs htables hrep hwf hi,
      preloads := fun i hi => preload_ok hs htables hrep hwf hi,
      natives := fun i hi => native_ok hs htables hrep hwf hi,
      nativesSorted := fun i a b => natives_ascend hs htables hrep hwf,
      nativeRows := fun i m => native_row_of_module hs htables hrep hwf, vmOptions := ?_ }
  · have hlen := hs.header.length_le
    rw [BundleHeader.encode_length] at hlen
    omega
  · have hmagic : At data 0 kBundleMagic := hs.header.left
    exact hmagic.readBytes_eq
  · simp only [Frozen.header]
    cases f.allowVmOptionsOverride <;> decide
  · rw [hx.stringsOffset, hx.stringsSize]
    exact hs.strings.length_le
  · rw [hx.moduleTableOffset, hx.moduleCount]
    exact hmodules
  · rw [hx.edgeTableOffset, hx.edgeCount]
    exact hedges
  · rw [hx.preloadTableOffset, hx.preloadCount]
    exact hpreloads
  · rw [hx.nativeTableOffset, hx.nativeCount]
    exact hnatives
  · rw [hx.vmOptionsTableOffset, hx.vmOptionsCount]
    exact hoptions
  · have hsize : (f.header generationTag).payloadSize.toNat ≤ f.payloads.2 :=
      Nat.mod_le _ _
    rw [hx.payloadOffset, hs.size]
    omega
  · rw [hx.moduleTableOffset, hx.edgeTableOffset, hx.preloadTableOffset, hx.nativeTableOffset,
      hx.vmOptionsTableOffset]
    exact emit_aligned f
  · intro hzero
    rw [hzero] at hcount
    have hempty : 0 = c.modules.length := hcount
    omega
  · rw [UInt32.lt_iff_toNat_lt, hcount]
    exact hentry
  · intro i hi
    rw [hx.vmOptionsCount] at hi
    obtain ⟨s, offset, _, hoffset, hholds⟩ := forall₂_getElem?_lt hrep.vmOptions hi
    exact ⟨offset, s, vmOptionAt_eq hs htables hoffset, stringOk_of_holds hs htables hholds⟩

end Checks

/-! ### The reader answers from the contents -/

/-- The reader's probe is the writer's comparison. -/
theorem edgeLess_eq (hs : f.Sections generationTag data) (htables : f.payloadOffset < 2 ^ 32)
    (hrep : Represents f c) (key : PendingEdge) {e : PendingEdge}
    (he : (sortEdges c.edges)[i]? = some e) :
    BundleReader.edgeLess { data, header := f.header generationTag } key.importer key.specifier i =
      some (e.less key) := by
  rcases forall₂_getElem? hrep.edges he with ⟨record, hrecord, herep⟩
  have hstring := BundleReader.stringAt_eq (stringOk_of_holds hs htables herep.specifier)
  by_cases himp : e.importer = key.importer
  · simp [BundleReader.edgeLess, edgeAt_eq hs htables hrecord, herep.importer, himp, hstring,
      PendingEdge.less]
  · have hne : e.importer.toNat ≠ key.importer.toNat := by
      intro heq
      exact himp (UInt32.toNat_inj.mp heq)
    have hless : e.less key = decide (e.importer < key.importer) := by
      rw [Bool.eq_iff_iff, PendingEdge.less_iff, decide_eq_true_eq, UInt32.lt_iff_toNat_lt]
      simp [himp]
    simp [BundleReader.edgeLess, edgeAt_eq hs htables hrecord, herep.importer, himp, hless]

theorem sortEdges_rows {edges : List PendingEdge} {i j : Nat} {a b : PendingEdge} (hij : i ≤ j)
    (ha : (sortEdges edges)[i]? = some a) (hb : (sortEdges edges)[j]? = some b) :
    b.less a = false := by
  rcases List.getElem?_eq_some_iff.mp ha with ⟨hi, rfl⟩
  rcases List.getElem?_eq_some_iff.mp hb with ⟨hj, rfl⟩
  rcases Nat.lt_or_eq_of_le hij with hlt | rfl
  · exact List.pairwise_iff_getElem.mp (List.pairwise_insertionSort _ edges) i j hi hj hlt
  · exact PendingEdge.less_irrefl _

/-- The search for a key stops at a row, and only that row can be an edge with the key. -/
theorem edge_search (hs : f.Sections generationTag data) (htables : f.payloadOffset < 2 ^ 32)
    (hrep : Represents f c) (importer : UInt32) (specifier : Bytes) :
    ∃ lo, lowerBound (BundleReader.edgeLess { data, header := f.header generationTag } importer
        specifier) (f.header generationTag).edgeCount.toNat = some lo ∧
      ∀ e ∈ c.edges, e.importer = importer → e.specifier = specifier →
        ∃ a, (sortEdges c.edges)[lo]? = some a ∧ a.importer = importer ∧
          a.specifier = specifier := by
  let r : BundleReader := { data, header := f.header generationTag }
  let key : PendingEdge := { importer, specifier, target := 0 }
  let p : Nat → Bool := fun i => ((sortEdges c.edges)[i]?.map (·.less key)).getD false
  have hcount : r.header.edgeCount.toNat = (sortEdges c.edges).length := by
    rw [hrep.edges.length_eq]
    exact (tables_exact generationTag htables).edgeCount
  have hless : ∀ i < r.header.edgeCount.toNat, r.edgeLess importer specifier i = some (p i) := by
    intro i hi
    rw [hcount] at hi
    have hrow := List.getElem?_eq_getElem hi
    simp only [p, hrow, Option.map_some, Option.getD_some]
    exact edgeLess_eq hs htables hrep key hrow
  have hmono : ∀ i j, i ≤ j → j < r.header.edgeCount.toNat → p j = true → p i = true := by
    intro i j hij hj hpj
    rw [hcount] at hj
    have hrowi := List.getElem?_eq_getElem (Nat.lt_of_le_of_lt hij hj)
    have hrowj := List.getElem?_eq_getElem hj
    simp only [p, hrowi, hrowj, Option.map_some, Option.getD_some] at hpj ⊢
    exact PendingEdge.less_of_le_of_less (sortEdges_rows hij hrowi hrowj) hpj
  rcases lowerBound_isSome (fun i hi => ⟨_, hless i hi⟩) with ⟨lo, hlo, _⟩
  rcases lowerBound_spec hless hmono hlo with ⟨hbefore, hafter⟩
  refine ⟨lo, hlo, ?_⟩
  -- an edge with the key is not before the row the search stops at, and that row is not before it
  intro e he himp hspec
  rcases List.getElem?_of_mem ((sortEdges_perm c.edges).mem_iff.mpr he) with ⟨k, hk⟩
  have hkey : ∀ a : PendingEdge, a.less e = a.less key := PendingEdge.less_congr himp hspec
  have hpk : p k = false := by
    simp [p, hk, ← hkey, PendingEdge.less_irrefl]
  have hklt := (List.getElem?_eq_some_iff.mp hk).1
  have hlok : lo ≤ k := by
    by_contra hgt
    rw [hbefore k (by omega)] at hpk
    cases hpk
  have hlolt : lo < (sortEdges c.edges).length := by omega
  have hrow := List.getElem?_eq_getElem hlolt
  have hplo := hafter lo (Nat.le_refl lo) (by omega)
  simp only [p, hrow, Option.map_some, Option.getD_some] at hplo
  have hback := sortEdges_rows hlok hrow hk
  rcases PendingEdge.less_trichotomy ((sortEdges c.edges)[lo]) e with hlt | ⟨ha, hs⟩ | hgt
  · rw [hkey, hplo] at hlt
    cases hlt
  · exact ⟨_, hrow, ha.trans himp, hs.trans hspec⟩
  · rw [hback] at hgt
    cases hgt

/-- A search of the sorted table finds an added edge with the key, and one that finds nothing has
passed over no such edge. -/
theorem lookup_spec (hs : f.Sections generationTag data) (htables : f.payloadOffset < 2 ^ 32)
    (hrep : Represents f c) (importer : UInt32) (specifier : Bytes) :
    ∃ answer,
      BundleReader.lookup { data, header := f.header generationTag } importer specifier =
        some answer ∧
      (∀ target, answer = some target → { importer, specifier, target } ∈ c.edges) ∧
      (answer = none → ∀ target, { importer, specifier, target } ∉ c.edges) := by
  let r : BundleReader := { data, header := f.header generationTag }
  have hcount : r.header.edgeCount.toNat = (sortEdges c.edges).length := by
    rw [hrep.edges.length_eq]
    exact (tables_exact generationTag htables).edgeCount
  obtain ⟨lo, hlo, hfound⟩ : ∃ lo, lowerBound (r.edgeLess importer specifier)
      r.header.edgeCount.toNat = some lo ∧ _ := edge_search hs htables hrep importer specifier
  show ∃ answer, r.lookup importer specifier = some answer ∧ _
  by_cases hlolt : lo < r.header.edgeCount.toNat
  · have hrow := List.getElem?_eq_getElem (hcount ▸ hlolt)
    set e := (sortEdges c.edges)[lo]
    have hmem : e ∈ c.edges := (sortEdges_perm c.edges).mem_iff.mp (List.getElem_mem _)
    rcases forall₂_getElem? hrep.edges hrow with ⟨record, hrecord, herep⟩
    have hedge : edgeAt r.data r.header lo = some record := edgeAt_eq hs htables hrecord
    have hstring : r.stringAt record.specifierString = some e.specifier :=
      BundleReader.stringAt_eq (stringOk_of_holds hs htables herep.specifier)
    by_cases hkey : e.importer = importer ∧ e.specifier = specifier
    · refine ⟨some e.target, ?_, ?_, ?_⟩
      · simp [BundleReader.lookup, hlo, hlolt, hedge, herep.importer, hstring, herep.target, hkey.1,
          hkey.2]
      · rintro target heq
        cases heq
        rw [← hkey.1, ← hkey.2]
        exact hmem
      · intro hnone
        cases hnone
    · refine ⟨none, ?_, ?_, ?_⟩
      · by_cases himp : e.importer = importer
        · have hspec : e.specifier ≠ specifier := fun hspec => hkey ⟨himp, hspec⟩
          simp [BundleReader.lookup, hlo, hlolt, hedge, herep.importer, hstring, himp, hspec]
        · simp [BundleReader.lookup, hlo, hlolt, hedge, herep.importer, himp]
      · intro target hsome
        cases hsome
      · intro _ target hadded
        rcases hfound _ hadded rfl rfl with ⟨a, ha, himp, hspec⟩
        rw [hrow] at ha
        cases ha
        exact hkey ⟨himp, hspec⟩
  · refine ⟨none, ?_, ?_, ?_⟩
    · simp [BundleReader.lookup, hlo, hlolt]
    · intro target hsome
      cases hsome
    · intro _ target hadded
      rcases hfound _ hadded rfl rfl with ⟨a, ha, _, _⟩
      rw [hcount] at hlolt
      exact hlolt (List.getElem?_eq_some_iff.mp ha).1

/-- A native row answers for its module. -/
theorem native_eq (hs : f.Sections generationTag data) (htables : f.payloadOffset < 2 ^ 32)
    (hrep : Represents f c) {n : PendingNative}
    (hn : (sortNatives c.natives)[i]? = some n) :
    BundleReader.native { data, header := f.header generationTag } i =
      some ⟨n.moduleIndex, n.sidecar, n.byteLength, n.digest⟩ := by
  rcases forall₂_getElem? hrep.natives hn with ⟨record, hrecord, hnrep⟩
  have hsidecar := BundleReader.stringAt_eq (stringOk_of_holds hs htables hnrep.sidecar)
  have hdigest := BundleReader.stringAt_eq (stringOk_of_holds hs htables hnrep.digest)
  simp [BundleReader.native, nativeAt_eq hs htables hrecord, hsidecar, hdigest, hnrep.moduleIndex,
    hnrep.byteLength]

/-- A row the reader returns was added. -/
theorem mem_of_native_eq (hs : f.Sections generationTag data) (htables : f.payloadOffset < 2 ^ 32)
    (hrep : Represents f c) {k : Nat} {v : BundleReader.NativeView}
    (hk : k < (f.header generationTag).nativeCount.toNat)
    (hv : BundleReader.native { data, header := f.header generationTag } k = some v) :
    ∃ n ∈ c.natives, v = ⟨n.moduleIndex, n.sidecar, n.byteLength, n.digest⟩ := by
  rw [(tables_exact generationTag htables).nativeCount] at hk
  rcases forall₂_getElem?_lt hrep.natives hk with ⟨n, _, hn, _, _⟩
  rw [native_eq hs htables hrep hn] at hv
  cases hv
  exact ⟨n, (sortNatives_perm c.natives).mem_iff.mp (List.mem_of_getElem? hn), rfl⟩

/-- In a file below 2^32 bytes every payload is inside the payload section. -/
theorem payloads_fit (hs : f.Sections generationTag data) (hsize : data.length < 2 ^ 32)
    (hrep : Represents f c) : PayloadsFit data (f.header generationTag) := by
  have htables := tables_lt hs hsize
  intro i m hi hm
  rw [moduleCount_eq generationTag htables hrep] at hi
  rcases moduleAt_eq hs htables (payloads_lt hs hsize) hrep (List.getElem?_eq_getElem hi) with
    ⟨record, hrecord, hread⟩
  rw [hm, Option.some.injEq] at hrecord
  rw [hrecord, (header_exact hs hsize).payloadSize]
  exact hread.payloadFits

/-- The reader over a frozen file of well-formed contents shows them. -/
theorem shows_of_represents (hs : f.Sections generationTag data) (hsize : data.length < 2 ^ 32)
    (hrep : Represents f c) (hwf : c.WellFormed) :
    Shows { data, header := f.header generationTag } c := by
  have htables := tables_lt hs hsize
  have hpayloads := payloads_lt hs hsize
  have hx := tables_exact generationTag htables
  have hv := valid_of_represents hs htables hrep hwf (payloads_fit hs hsize hrep)
  have hcount := moduleCount_eq generationTag htables hrep
  refine
    { moduleCount := hcount, modules := ?_, entry := hrep.entry, preloadCount := ?_,
      preloads := ?_, vmOptionCount := ?_, vmOptions := ?_, allowsVmOptionsOverride := ?_,
      nativeFor := ?_, nativeForNone := ?_, lookup := ?_, lookupNone := ?_, payloadAligned := ?_ }
  · intro i a ha
    rcases moduleAt_eq hs htables hpayloads hrep ha with ⟨record, hrecord, hread⟩
    have hstring := BundleReader.stringAt_eq hread.identity
    have hpayload := hread.payload.readBytes_eq
    refine ⟨?_, ?_, ?_, ?_⟩
    · simp [BundleReader.identity, hrecord, hstring]
    · simp [BundleReader.kind, hrecord, hread.kind]
    · simp [BundleReader.flags, hrecord, hread.flags]
    · simp [BundleReader.payload, hrecord, hx.payloadOffset, hread.payloadSize, hpayload]
  · rw [← hrep.preloads]
    exact hx.preloadCount
  · intro i hi
    have hlt : i < f.preloads.length := by
      rw [← hx.preloadCount]
      exact hi
    rw [← hrep.preloads, List.getElem?_eq_getElem hlt]
    exact preloadAt_eq hs htables (List.getElem?_eq_getElem hlt)
  · rw [hrep.vmOptions.length_eq]
    exact hx.vmOptionsCount
  · intro i hi
    have hlt : i < f.vmOptions.length := by
      rw [← hx.vmOptionsCount]
      exact hi
    rcases forall₂_getElem?_lt hrep.vmOptions hlt with ⟨s, offset, hoption, hoffset, hholds⟩
    have hstring := BundleReader.stringAt_eq (stringOk_of_holds hs htables hholds)
    simp [BundleReader.vmOption, vmOptionAt_eq hs htables hoffset, hstring, hoption]
  · simp only [BundleReader.allowsVmOptionsOverride, Frozen.header, hrep.allowVmOptionsOverride]
    cases c.allowVmOptionsOverride <;> decide
  · intro n hn
    have hindex := hwf.nativeIndices n hn
    rcases moduleAt_eq hs htables hpayloads hrep (List.getElem?_eq_getElem hindex) with
      ⟨record, hrecord, hread⟩
    have hkind := hwf.kind_of_native hn (List.getElem?_eq_getElem hindex)
    rcases hv.nativeFor_spec n.moduleIndex with ⟨answer, hanswer, hiff, hrow⟩
    have hsome : answer.isSome = true := by
      apply hiff.mpr
      refine ⟨by rw [hcount]; exact hindex, ?_⟩
      simp [BundleReader.kind, hrecord, hread.kind, hkind]
    rcases Option.isSome_iff_exists.mp hsome with ⟨v, rfl⟩
    rcases hrow v rfl with ⟨hvindex, k, hk, hnative⟩
    rcases mem_of_native_eq hs htables hrep hk hnative with ⟨n', hn', rfl⟩
    have hsame : n' = n := List.inj_on_of_nodup_map hwf.nativeKeys hn' hn hvindex
    rw [hanswer, hsame]
  · intro i hnone
    rcases hv.nativeFor_spec i with ⟨answer, hanswer, _, hrow⟩
    cases answer with
    | none => exact hanswer
    | some v =>
        rcases hrow v rfl with ⟨hvindex, k, hk, hnative⟩
        rcases mem_of_native_eq hs htables hrep hk hnative with ⟨n, hn, rfl⟩
        exact absurd hvindex (hnone n hn)
  · intro importer specifier target
    rcases lookup_spec hs htables hrep importer specifier with ⟨answer, hanswer, hadded, hnone⟩
    constructor
    · intro hlookup
      rw [hlookup] at hanswer
      cases hanswer
      exact hadded target rfl
    · intro hmem
      cases answer with
      | none => exact absurd hmem (hnone rfl target)
      | some found =>
          have hsame := List.inj_on_of_nodup_map hwf.edgeKeys (hadded found rfl) hmem rfl
          cases hsame
          exact hanswer
  · intro importer specifier hnone
    rcases lookup_spec hs htables hrep importer specifier with ⟨answer, hanswer, hadded, _⟩
    cases answer with
    | none => exact hanswer
    | some target => exact absurd (hadded target rfl) (hnone target)
  · intro i hi
    have hlt : i < c.modules.length := by
      rw [← hcount]
      exact hi
    rcases moduleAt_eq hs htables hpayloads hrep (List.getElem?_eq_getElem hlt) with
      ⟨record, hrecord, hread⟩
    refine ⟨record, hrecord, ?_⟩
    have hsection : f.payloadOffset % kBundlePayloadAlign = 0 := alignUp_mod _ _
    rw [hx.payloadOffset, Nat.add_mod, hsection, hread.aligned]
    rfl

end Reads

/-! ### The round trip -/

/-- What `serialize` emits are tables that denote the contents, once there is a module and an
entry. -/
theorem serialize_represents {calls : List Call} {entry : UInt32} (generationTag : UInt32)
    (hmodules : (Contents.ofCalls calls).modules ≠ [])
    (hentry : (Contents.ofCalls calls).entry = some entry) :
    ∃ f : Frozen, ((BundleWriter.run calls).serialize generationTag).1 = f.emit generationTag ∧
      Represents f (Contents.ofCalls calls) := by
  have hwritten := run_written calls
  have hhas : (BundleWriter.run calls).hasEntry = true := by
    by_contra hno
    rw [hwritten.entry, if_neg hno] at hentry
    cases hentry
  have hsome : (BundleWriter.run calls).modules.isEmpty = false := by
    rw [List.isEmpty_eq_false_iff, ← List.length_pos_iff, ← hwritten.modules.length_eq]
    exact List.length_pos_iff.mpr hmodules
  refine ⟨(BundleWriter.run calls).freeze.1, ?_, freeze_represents hwritten hhas⟩
  simp [BundleWriter.serialize, hhas, hsome]

section

variable {f : Frozen} {c : Contents} {generationTag : UInt32}

/-- `open` accepts the tables of well-formed contents, and the reader shows them. -/
theorem accepts_of_represents (hrep : Represents f c) (hwf : c.WellFormed)
    (hsize : (f.emit generationTag).length < 2 ^ 32) :
    ∃ r, Accepts (BundleReader.open (f.emit generationTag) generationTag) r ∧ Shows r c := by
  have hsections := f.sections generationTag
  refine ⟨_, ?_, shows_of_represents hsections hsize hrep hwf⟩
  apply openImpl_accepts_iff.mpr
  exact ⟨rfl, valid_of_represents hsections (tables_lt hsections hsize) hrep hwf
    (payloads_fit hsections hsize hrep), fun _ => rfl⟩

/-- What `open` accepts of an emitted file carries the header that was emitted. -/
theorem header_of_accepts {expected : UInt32} {r : BundleReader}
    (h : Accepts (BundleReader.open (f.emit generationTag) expected) r) :
    r = { data := f.emit generationTag, header := f.header generationTag } ∧
      Valid (f.emit generationTag) (f.header generationTag) := by
  rcases openImpl_accepts_iff.mp h with ⟨hdata, hvalid, _⟩
  have hread := BundleHeader.read_eq (f.sections generationTag).header
  rw [hvalid.header, Option.some.injEq] at hread
  rw [hread] at hvalid
  refine ⟨?_, hvalid⟩
  rw [← hdata, ← hread]

/-- Whatever the contents, `open` looks at every identity. -/
theorem identities_of_accepts (hrep : Represents f c)
    (hsize : (f.emit generationTag).length < 2 ^ 32) {r : BundleReader}
    (h : Accepts (BundleReader.open (f.emit generationTag) generationTag) r) :
    (∀ m ∈ c.modules, isValidIdentity m.identity = true) ∧
      (c.modules.map (·.identity)).Nodup := by
  have hsections := f.sections generationTag
  have htables := tables_lt hsections hsize
  have hcount := moduleCount_eq generationTag htables hrep
  rcases header_of_accepts h with ⟨_, hvalid⟩
  constructor
  · intro a ha
    rcases List.mem_iff_getElem?.mp ha with ⟨i, hi⟩
    rcases moduleRow_eq hsections htables hrep hi with ⟨record, _, hrecord, hread, _⟩
    have hlt : i < (f.header generationTag).moduleCount.toNat := by
      rw [hcount]
      exact (List.getElem?_eq_some_iff.mp hi).1
    rcases hvalid.modules i hlt with ⟨m, identity, hm, hok⟩
    rw [hrecord, Option.some.injEq] at hm
    subst hm
    rw [hread.identity.unique hok.identityString]
    exact hok.identityValid
  · rw [List.nodup_iff_injective_getElem]
    intro i j heq
    have hi : i.val < c.modules.length := by simpa using i.isLt
    have hj : j.val < c.modules.length := by simpa using j.isLt
    rcases moduleRow_eq hsections htables hrep (List.getElem?_eq_getElem hi) with
      ⟨m, _, hm, hmread, _⟩
    rcases moduleRow_eq hsections htables hrep (List.getElem?_eq_getElem hj) with
      ⟨n, _, hn, hnread, _⟩
    have hsame : c.modules[i.val].identity = c.modules[j.val].identity := by simpa using heq
    apply Fin.ext
    apply hvalid.distinct i.val j.val m n c.modules[i.val].identity
    · rw [hcount]
      exact hi
    · rw [hcount]
      exact hj
    · exact hm
    · exact hn
    · exact hmread.identity
    · rw [hsame]
      exact hnread.identity

/-- A file below 2^32 bytes has fewer than 2^32 modules. -/
theorem modules_lt_of_represents (hrep : Represents f c)
    (hsize : (f.emit generationTag).length < 2 ^ 32) : c.modules.length < 2 ^ 32 := by
  have hexact := (header_exact (f.sections generationTag) hsize).moduleCount
  rw [hrep.modules.length_eq, ← hexact]
  exact UInt32.toNat_lt _

end

/-- The container round trip: whatever well-formed contents a sequence of calls builds, once an
entry has been set and the file stays below 2^32 bytes, `open` accepts what `serialize` emits and
the reader shows exactly what was added. -/
theorem serialize_open_shows {calls : List Call} {generationTag entry : UInt32}
    (hwf : (Contents.ofCalls calls).WellFormed)
    (hentry : (Contents.ofCalls calls).entry = some entry)
    (hsize : ((BundleWriter.run calls).serialize generationTag).1.length < 2 ^ 32) :
    ∃ r, Accepts
        (BundleReader.open ((BundleWriter.run calls).serialize generationTag).1 generationTag) r ∧
      Shows r (Contents.ofCalls calls) := by
  have hmodules : (Contents.ofCalls calls).modules ≠ [] := by
    have hlt := hwf.entry entry hentry
    rw [← List.length_pos_iff]
    omega
  rcases serialize_represents generationTag hmodules hentry with ⟨f, hemit, hrep⟩
  rw [hemit] at hsize ⊢
  exact accepts_of_represents hrep hwf hsize

/-- An entry that requires a native module, a preload, a VM option and every setter. -/
def nativeAppCalls : List Call :=
  [.addModule (ascii "a") .kJavaScript kRequirable (ascii "x"),
    .addModule (ascii "n") .kNative kRequirable [],
    .addEdge 0 (ascii "./n") 1,
    .addPreload 0,
    .addNative 1 (ascii "n.node") 9 (List.replicate 32 7),
    .addVmOption (ascii "-Xes6-class"),
    .setAllowVmOptionsOverride true,
    .setEntry 0]

theorem nativeAppCalls_wellFormed : (Contents.ofCalls nativeAppCalls).WellFormed := by
  refine ⟨by decide, by decide, by decide, by decide, by decide, ?_, by decide, by decide, ?_,
    by decide, ?_⟩
  · intro i hi
    have hzero : i = 0 := by simpa [Contents.ofCalls, nativeAppCalls, Contents.record] using hi
    subst hzero
    exact ⟨_, rfl, by decide⟩
  · intro i m hm
    rcases i with _ | _ | i
    · cases hm
      rfl
    · cases hm
      rfl
    · cases hm
  · intro i hi
    cases hi
    decide

/-- The calls of `nativeAppCalls` come back: the edge is found and the native row answers. -/
theorem nativeApp_round_trip :
    ∃ r, Accepts (BundleReader.open ((BundleWriter.run nativeAppCalls).serialize 7).1 7) r ∧
      r.lookup 0 (ascii "./n") = some (some 1) ∧
      r.nativeFor 1 = some (some ⟨1, ascii "n.node", 9, List.replicate 32 7⟩) := by
  rcases @serialize_open_shows nativeAppCalls 7 0 nativeAppCalls_wellFormed rfl
    (by decide +kernel) with ⟨r, hopen, hshows⟩
  refine ⟨r, hopen, ?_, ?_⟩
  · exact (hshows.lookup 0 (ascii "./n") 1).mpr (by decide)
  · exact hshows.nativeFor ⟨1, ascii "n.node", 9, List.replicate 32 7⟩ (by decide)

/-- Without `setEntry` there is no container: `serialize` refuses, and `open` rejects the empty
file although the contents meet every other obligation. -/
theorem no_entry_not_opened :
    (Contents.ofCalls [.addModule (ascii "a") .kJavaScript kRequirable []]).WellFormed ∧
      ((BundleWriter.run [.addModule (ascii "a") .kJavaScript kRequirable []]).serialize
        7).1.length < 2 ^ 32 ∧
      ∀ r, ¬ Accepts (BundleReader.open ((BundleWriter.run
        [.addModule (ascii "a") .kJavaScript kRequirable []]).serialize 7).1 7) r := by
  refine ⟨⟨by decide, by decide, by decide, by decide, by decide, ?_, by decide, by decide, ?_,
    by decide, ?_⟩, by decide, ?_⟩
  · intro i hi
    cases hi
  · intro i m hm
    match i with
    | 0 =>
        cases hm
        rfl
    | _ + 1 => cases hm
  · intro i hi
    cases hi
  · intro r hopen
    cases hopen

end HermesNode.Bundle
