/-
Module: HermesNode.Bundle.Oversize
Purpose: Containers of any size. The writer computes its layout in `size_t` and casts each offset,
  size and count to `uint32_t` on its own. Where the tables end below 2^32 bytes the reader sees
  every table as it was written, and only the payload section can wrap: a section that wraps is
  rejected unless some payload alone has 2^32 bytes or more, and such a payload is cut short.
Trusted boundary: none
Main exports: Use, BundleWriter.runUses, accepted_reads_back
-/
import Mathlib.Algebra.BigOperators.Group.Finset.Basic
import HermesNode.Bundle.RoundTrip

namespace HermesNode.Bundle

open Check StringTable

/-! ### Uses of a writer -/

/-- A call, or a serialization, which leaves its sorted tables and its strings in the writer. -/
inductive Use where
  | call (op : Call)
  | serialize (generationTag : UInt32)
deriving Repr, DecidableEq

def BundleWriter.use (w : BundleWriter) : Use → BundleWriter
  | .call op => w.call op
  | .serialize generationTag => (w.serialize generationTag).2

def BundleWriter.runUses (uses : List Use) : BundleWriter := uses.foldl BundleWriter.use {}

/-- A serialization adds nothing. -/
def Contents.use (c : Contents) : Use → Contents
  | .call op => c.record op
  | .serialize _ => c

def Contents.ofUses (uses : List Use) : Contents := uses.foldl Contents.use {}

/-! ### Sizes -/

/-- The bytes the entries of the strings take in a string table. -/
def entriesSize (strings : Finset Bytes) : Nat :=
  ∑ s ∈ strings, (sizeofBundleStringHeader + s.length)

variable {t : StringTable}

namespace StringTable

/-- The strings the table has interned. -/
def known (t : StringTable) : Finset Bytes := (t.internTable.map Prod.fst).toFinset

/-- Every known string has one entry. -/
def Sized (t : StringTable) : Prop := t.stringBytes.length = entriesSize t.known

theorem sized_empty : Sized {} := rfl

theorem mem_known_of_lookup {s : Bytes} {offset : UInt32}
    (h : t.internTable.lookup s = some offset) : s ∈ t.known := by
  by_contra hnot
  have hnone : t.internTable.lookup s = none := by
    rw [List.lookup_eq_none_iff]
    intro p hp
    rw [bne_iff_ne]
    rintro rfl
    exact hnot (List.mem_toFinset.mpr (List.mem_map_of_mem hp))
  rw [h] at hnone
  cases hnone

theorem not_mem_known_of_lookup {s : Bytes}
    (h : t.internTable.lookup s = none) : s ∉ t.known := by
  intro hmem
  rcases List.mem_map.mp (List.mem_toFinset.mp hmem) with ⟨p, hp, rfl⟩
  have hne := List.lookup_eq_none_iff.mp h p hp
  simp at hne

theorem internString_known_eq (t : StringTable) (s : Bytes) :
    (t.internString s).2.known = insert s t.known := by
  cases hfind : t.internTable.lookup s with
  | some offset =>
      simp only [internString, hfind]
      exact (Finset.insert_eq_of_mem (mem_known_of_lookup hfind)).symm
  | none => simp [internString, hfind, known]

theorem internString_sized (h : t.Sized) (s : Bytes) :
    (t.internString s).2.Sized := by
  rw [Sized, internString_known_eq]
  cases hfind : t.internTable.lookup s with
  | some offset =>
      rw [Finset.insert_eq_of_mem (mem_known_of_lookup hfind)]
      simp only [internString, hfind]
      exact h
  | none =>
      have hnew := not_mem_known_of_lookup hfind
      have hsize : t.stringBytes.length = entriesSize t.known := h
      simp only [internString, hfind, entriesSize, Finset.sum_insert hnew, List.length_append,
        u32le_length, sizeofBundleStringHeader] at hsize ⊢
      omega

theorem internAll_known_eq (t : StringTable) (ss : List Bytes) :
    (t.internAll ss).2.known = t.known ∪ ss.toFinset := by
  induction ss generalizing t with
  | nil => simp [internAll]
  | cons s ss ih =>
      simp only [internAll, ih, internString_known_eq, List.toFinset_cons]
      rw [Finset.insert_union, Finset.union_insert]

theorem internAll_sized (h : t.Sized) (ss : List Bytes) :
    (t.internAll ss).2.Sized := by
  induction ss generalizing t with
  | nil => exact h
  | cons s ss ih => exact ih (internString_sized h s)

end StringTable

/-- The two strings of a native row. -/
def nativeStrings (n : PendingNative) : List Bytes := [n.sidecar, n.digest]

theorem internNatives_known_eq (t : StringTable) (ns : List PendingNative) :
    (internNatives t ns).2.known = t.known ∪ (ns.flatMap nativeStrings).toFinset := by
  induction ns generalizing t with
  | nil => simp [internNatives]
  | cons n ns ih =>
      simp only [internNatives, ih, internString_known_eq, List.flatMap_cons, nativeStrings,
        List.cons_append, List.nil_append, List.toFinset_cons]
      ext s
      simp only [Finset.mem_union, Finset.mem_insert]
      tauto

theorem internNatives_sized (h : t.Sized) (ns : List PendingNative) :
    (internNatives t ns).2.Sized := by
  induction ns generalizing t with
  | nil => exact h
  | cons n ns ih => exact ih (internString_sized (internString_sized h n.sidecar) n.digest)

namespace Contents

/-- Every string of the container. -/
def strings (c : Contents) : Finset Bytes :=
  (c.modules.map (·.identity) ++ c.edges.map (·.specifier) ++ c.natives.flatMap nativeStrings ++
    c.vmOptions).toFinset

/-- Where the payload section starts: the header, one entry for each distinct string and the five
tables, with the two paddings. -/
def tablesSize (c : Contents) : Nat :=
  alignUp
    (alignUp (sizeofBundleHeader + entriesSize c.strings) kTableAlign +
      c.modules.length * sizeofBundleModuleRecord + c.edges.length * sizeofBundleEdgeRecord +
      c.preloads.length * 4 + c.natives.length * sizeofBundleNativeRecord +
      c.vmOptions.length * 4)
    kBundlePayloadAlign

end Contents

/-! ### What a used writer holds -/

/-- The writer holds the contents; its edges and natives may have been sorted, and the strings of
its tables may have been interned, by a serialization. -/
structure Holding (w : BundleWriter) (c : Contents) : Prop where
  written : Written w { c with edges := w.edges, natives := w.natives }
  edges : w.edges.Perm c.edges
  natives : w.natives.Perm c.natives
  sized : w.strings.Sized
  identities : ∀ m ∈ c.modules, m.identity ∈ w.strings.known
  known : w.strings.known ⊆ c.strings

theorem holding_empty : Holding {} {} where
  written := written_empty
  edges := List.Perm.refl _
  natives := List.Perm.refl _
  sized := sized_empty
  identities := by simp
  known := by simp [known]

theorem Contents.strings_record (c : Contents) (op : Call) : c.strings ⊆ (c.record op).strings := by
  intro s hs
  cases op <;> simp only [strings, record, List.toFinset_append, Finset.mem_union, List.map_append,
    List.flatMap_append] at hs ⊢ <;> tauto

variable {c : Contents} {w : BundleWriter}

theorem Holding.call (h : Holding w c) (op : Call) :
    Holding (w.call op) (c.record op) := by
  have hknown := h.known.trans (c.strings_record op)
  have hwritten := h.written.call op
  cases op with
  | addModule identity kind flags payload =>
      have hkeys : ((w.addModule identity kind flags payload).strings).known =
          insert identity w.strings.known := internString_known_eq w.strings identity
      refine ⟨hwritten, h.edges, h.natives, internString_sized h.sized identity, ?_, ?_⟩
      · intro m hm
        rw [BundleWriter.call, hkeys]
        rcases List.mem_append.mp hm with hold | hnew
        · exact Finset.mem_insert_of_mem (h.identities m hold)
        · rw [List.mem_singleton.mp hnew]
          exact Finset.mem_insert_self _ _
      · rw [BundleWriter.call, hkeys]
        refine Finset.insert_subset ?_ hknown
        simp [Contents.strings, Contents.record]
  | addEdge importer specifier target =>
      exact { h with written := hwritten, edges := h.edges.append_right _, known := hknown }
  | addPreload moduleIndex => exact { h with written := hwritten, known := hknown }
  | addNative moduleIndex sidecar byteLength rawDigest =>
      exact { h with written := hwritten, natives := h.natives.append_right _, known := hknown }
  | addVmOption option => exact { h with written := hwritten, known := hknown }
  | setAllowVmOptionsOverride allow => exact { h with written := hwritten, known := hknown }
  | setEntry moduleIndex => exact { h with written := hwritten, known := hknown }

/-- Freezing interns every string of the contents. -/
theorem Holding.freeze_known (h : Holding w c) :
    w.freeze.2.strings.known = c.strings := by
  have hedges := (sortEdges_perm w.edges).trans h.edges
  have hnatives := (sortNatives_perm w.natives).trans h.natives
  have hkeys : w.freeze.2.strings.known = w.strings.known ∪
      ((sortEdges w.edges).map (·.specifier)).toFinset ∪
      ((sortNatives w.natives).flatMap nativeStrings).toFinset ∪ w.vmOptions.toFinset := by
    simp only [BundleWriter.freeze, internAll_known_eq, internNatives_known_eq]
  have hspecifiers : ((sortEdges w.edges).map (·.specifier)).toFinset =
      (c.edges.map (·.specifier)).toFinset := List.toFinset_eq_of_perm _ _ (hedges.map _)
  have hstrings : ((sortNatives w.natives).flatMap nativeStrings).toFinset =
      (c.natives.flatMap nativeStrings).toFinset :=
    List.toFinset_eq_of_perm _ _ (hnatives.flatMap_right _)
  have hoptions : w.vmOptions = c.vmOptions := h.written.vmOptions
  have hall : c.strings = (c.modules.map (·.identity)).toFinset ∪
      (c.edges.map (·.specifier)).toFinset ∪ (c.natives.flatMap nativeStrings).toFinset ∪
      c.vmOptions.toFinset := by
    simp only [Contents.strings, List.toFinset_append]
  have hidentities : (c.modules.map (·.identity)).toFinset ⊆ w.strings.known := by
    intro s hs
    rcases List.mem_map.mp (List.mem_toFinset.mp hs) with ⟨m, hm, rfl⟩
    exact h.identities m hm
  rw [hkeys, hspecifiers, hstrings, hoptions]
  apply Finset.Subset.antisymm
  · refine Finset.union_subset (Finset.union_subset (Finset.union_subset h.known ?_) ?_) ?_
    all_goals
      rw [hall]
      intro s hs
      simp only [Finset.mem_union]
      tauto
  · rw [hall]
    exact Finset.union_subset_union
      (Finset.union_subset_union (Finset.union_subset_union hidentities subset_rfl) subset_rfl)
      subset_rfl

theorem Holding.freeze_sized (h : Holding w c) :
    w.freeze.2.strings.Sized :=
  internAll_sized (internNatives_sized (internAll_sized h.sized _) _) _

theorem Holding.freeze (h : Holding w c) :
    Holding w.freeze.2 c := by
  rcases internAll_spec h.written.strings ((sortEdges w.edges).map (·.specifier)) with
    ⟨hc₁, hext₁, _⟩
  rcases internNatives_spec hc₁ (sortNatives w.natives) with ⟨hc₂, hext₂, _⟩
  rcases internAll_spec hc₂ w.vmOptions with ⟨hc₃, hext₃, _⟩
  refine ⟨?_, (sortEdges_perm w.edges).trans h.edges, (sortNatives_perm w.natives).trans h.natives,
    h.freeze_sized, ?_, ?_⟩
  · refine ⟨hc₃, ?_, rfl, h.written.preloads, rfl, h.written.vmOptions, h.written.entry,
      h.written.allowVmOptionsOverride⟩
    exact h.written.modules.imp fun a m hm => hm.extend (hext₁.trans (hext₂.trans hext₃))
  · intro m hm
    rw [h.freeze_known]
    simp only [Contents.strings, List.toFinset_append, Finset.mem_union, List.mem_toFinset]
    exact Or.inl (Or.inl (Or.inl (List.mem_map_of_mem hm)))
  · rw [h.freeze_known]

theorem Holding.use (h : Holding w c) (u : Use) :
    Holding (w.use u) (c.use u) := by
  cases u with
  | call op => exact h.call op
  | serialize generationTag =>
      simp only [BundleWriter.use, BundleWriter.serialize, Contents.use]
      split
      · exact h
      · exact h.freeze

theorem runUses_holding (uses : List Use) :
    Holding (BundleWriter.runUses uses) (Contents.ofUses uses) := by
  have hfold : ∀ (w : BundleWriter) (c : Contents), Holding w c →
      Holding (uses.foldl BundleWriter.use w) (uses.foldl Contents.use c) := by
    induction uses with
    | nil => exact fun w c h => h
    | cons u uses ih => exact fun w c h => ih _ _ (h.use u)
  exact hfold {} {} holding_empty

/-- The payload section starts where the contents say. -/
theorem Holding.payloadOffset_eq (h : Holding w c)
    (hentry : w.hasEntry = true) : w.freeze.1.payloadOffset = c.tablesSize := by
  have hrep := freeze_represents h.written hentry
  have hstrings : w.freeze.1.stringBytes.length = entriesSize c.strings := by
    rw [← h.freeze_known]
    exact h.freeze_sized
  have hmodules : w.freeze.1.modules.length = c.modules.length := hrep.modules.length_eq.symm
  have hedges : w.freeze.1.edges.length = c.edges.length := by
    rw [← hrep.edges.length_eq, (sortEdges_perm _).length_eq, h.edges.length_eq]
  have hnatives : w.freeze.1.natives.length = c.natives.length := by
    rw [← hrep.natives.length_eq, (sortNatives_perm _).length_eq, h.natives.length_eq]
  have hpreloads : w.freeze.1.preloads.length = c.preloads.length := by
    rw [hrep.preloads]
  have hoptions : w.freeze.1.vmOptions.length = c.vmOptions.length := hrep.vmOptions.length_eq.symm
  simp only [Frozen.payloadOffset, Frozen.vmOptionsTableOffset, Frozen.nativeTableOffset,
    Frozen.preloadTableOffset, Frozen.edgeTableOffset, Frozen.moduleTableOffset, hstrings, hmodules,
    hedges, hnatives, hpreloads, hoptions, Contents.tablesSize]

/-! ### A payload section that wraps -/

theorem payloadLayout_aligned (ms : List PendingModule) {cursor : Nat}
    (hc : cursor % kBundlePayloadAlign = 0) :
    (payloadLayout ms cursor).2 % kBundlePayloadAlign = 0 := by
  induction ms generalizing cursor with
  | nil => exact hc
  | cons m ms ih => exact ih (alignUp_mod _ _)

/-- When the layout passes a multiple of 2^32 and no payload has 2^32 bytes, the payload at that
multiple does not fit in the size the header gets. -/
theorem payloadLayout_wraps {ms : List PendingModule} (hsmall : ∀ m ∈ ms, m.payload.length < 2 ^ 32)
    {cursor turns : Nat} (hc : cursor % kBundlePayloadAlign = 0)
    (hbefore : cursor < (turns + 1) * 2 ^ 32)
    (hafter : (payloadLayout ms cursor).2 / 2 ^ 32 = turns + 1) :
    ∃ (i : Nat) (m : PendingModule) (offset : UInt32), ms[i]? = some m ∧
      (payloadLayout ms cursor).1[i]? = some offset ∧
      (payloadLayout ms cursor).2 % 2 ^ 32 < offset.toNat + m.payload.length := by
  induction ms generalizing cursor with
  | nil =>
      simp only [payloadLayout] at hafter
      omega
  | cons m ms ih =>
      let next := alignUp (cursor + m.payload.length) kBundlePayloadAlign
      have hnext : next % kBundlePayloadAlign = 0 := alignUp_mod _ _
      by_cases hlater : next < (turns + 1) * 2 ^ 32
      · rcases ih (fun n hn => hsmall n (List.mem_cons_of_mem _ hn)) hnext hlater hafter with
          ⟨i, n, offset, hn, hoffset, hwrap⟩
        exact ⟨i + 1, n, offset, hn, hoffset, hwrap⟩
      · have hm := hsmall m List.mem_cons_self
        have htotal := payloadLayout_aligned (m :: ms) hc
        refine ⟨0, m, UInt32.ofNat cursor, rfl, rfl, ?_⟩
        rw [UInt32.toNat_ofNat']
        simp only [next, alignUp, kBundlePayloadAlign] at *
        omega

/-- A section of 2^32 bytes or more, with no payload that large, has a payload the reader finds out
of range. -/
theorem not_payloadsFit {f : Frozen} {generationTag : UInt32} (hrep : Represents f c)
    (htables : f.payloadOffset < 2 ^ 32) (hsmall : ∀ m ∈ c.modules, m.payload.length < 2 ^ 32)
    (hlarge : 2 ^ 32 ≤ f.payloads.2) :
    ¬ PayloadsFit (f.emit generationTag) (f.header generationTag) := by
  have hsmall' : ∀ m ∈ f.modules, m.payload.length < 2 ^ 32 := by
    intro m hm
    rcases forall₂_mem_left hrep.modules.flip hm with ⟨a, ha, hmrep⟩
    rw [hmrep.payload]
    exact hsmall a ha
  have hturns : f.payloads.2 / 2 ^ 32 = f.payloads.2 / 2 ^ 32 - 1 + 1 := by omega
  rcases payloadLayout_wraps hsmall' rfl (by omega) hturns with ⟨i, m, offset, hm, hoffset, hwrap⟩
  intro hfit
  have hcount := moduleCount_eq generationTag htables hrep
  rcases forall₂_getElem? hrep.modules.flip hm with ⟨a, ha, hmrep⟩
  rcases moduleRow_eq (f.sections generationTag) htables hrep ha with
    ⟨record, _, hrecord, hrow, hplaced, _⟩
  have hin : i < (f.header generationTag).moduleCount.toNat := by
    rw [hcount]
    exact (List.getElem?_eq_some_iff.mp ha).1
  have hrange := hfit i record hin hrecord
  have hsame : record.payloadOffset = offset := by
    rw [Frozen.payloads, hoffset, Option.some.injEq] at hplaced
    exact hplaced.symm
  have hlength : record.payloadSize.toNat = m.payload.length := by
    rw [hrow.payloadSize, ← hmrep.payload]
    exact UInt32.toNat_ofNat_of_lt' (hsmall' m (List.mem_of_getElem? hm))
  have hsize : (f.header generationTag).payloadSize.toNat = f.payloads.2 % 2 ^ 32 :=
    UInt32.toNat_ofNat'
  rw [hsame, hlength, hsize] at hrange
  exact absurd hwrap (by simp only [Frozen.payloads] at hrange; omega)

/-! ### What is read back -/

/-- The reader gives back every identity and payload, and a lookup answers with an edge that was
added wherever there is one. -/
structure ReadsBack (r : BundleReader) (c : Contents) : Prop where
  moduleCount : r.moduleCount = c.modules.length
  identity : ∀ (i : Nat) (m : AddedModule), c.modules[i]? = some m →
    r.identity i = some m.identity
  payload : ∀ (i : Nat) (m : AddedModule), c.modules[i]? = some m → r.payload i = some m.payload
  lookup : ∀ importer specifier, ∃ answer, r.lookup importer specifier = some answer ∧
    (∀ target, answer = some target → { importer, specifier, target } ∈ c.edges) ∧
    (answer = none → ∀ target, { importer, specifier, target } ∉ c.edges)

theorem ReadsBack.payload_lt {r : BundleReader} (h : ReadsBack r c) {m : AddedModule}
    (hm : m ∈ c.modules) : m.payload.length < 2 ^ 32 := by
  rcases List.mem_iff_getElem?.mp hm with ⟨i, hi⟩
  have hread := h.payload i m hi
  unfold BundleReader.payload at hread
  cases hrecord : moduleAt r.data r.header i with
  | none => simp [hrecord] at hread
  | some record =>
      simp only [hrecord, Option.bind_eq_bind, Option.bind_some] at hread
      rw [readBytes_length hread]
      exact UInt32.toNat_lt _

/-- Where the tables and the payload section are both below 2^32 bytes, everything is read back. -/
theorem readsBack_of_represents {f : Frozen} {generationTag : UInt32}
    (hrep : Represents f c) (htables : f.payloadOffset < 2 ^ 32)
    (hpayloads : f.payloads.2 < 2 ^ 32) :
    ReadsBack { data := f.emit generationTag, header := f.header generationTag } c := by
  have hs := f.sections generationTag
  refine ⟨moduleCount_eq generationTag htables hrep, ?_, ?_, lookup_spec hs htables hrep⟩
  · intro i m hi
    rcases moduleAt_eq hs htables hpayloads hrep hi with ⟨record, hrecord, hread⟩
    simp [BundleReader.identity, hrecord, BundleReader.stringAt_eq hread.identity]
  · intro i m hi
    rcases moduleAt_eq hs htables hpayloads hrep hi with ⟨record, hrecord, hread⟩
    simp [BundleReader.payload, hrecord, (tables_exact generationTag htables).payloadOffset,
      hread.payloadSize, hread.payload.readBytes_eq]

/-- Sorting changes neither the modules nor which edges there are. -/
theorem ReadsBack.of_perm {r : BundleReader} {edges : List PendingEdge}
    {natives : List PendingNative} (h : ReadsBack r { c with edges, natives })
    (hperm : edges.Perm c.edges) : ReadsBack r c := by
  refine { h with lookup := ?_ }
  intro importer specifier
  rcases h.lookup importer specifier with ⟨answer, hanswer, hadded, hnone⟩
  refine ⟨answer, hanswer, ?_, ?_⟩
  · intro target htarget
    exact hperm.mem_iff.mp (hadded target htarget)
  · intro hempty target hmem
    exact hnone hempty target (hperm.mem_iff.mpr hmem)

theorem serialize_of_accepts {generationTag expected : UInt32} {r : BundleReader}
    (h : Accepts (BundleReader.open (w.serialize generationTag).1 expected) r) :
    w.hasEntry = true ∧ (w.serialize generationTag).1 = w.freeze.1.emit generationTag := by
  by_cases hempty : (w.modules.isEmpty || !w.hasEntry) = true
  · rw [BundleWriter.serialize, if_pos hempty] at h
    cases h
  · refine ⟨?_, ?_⟩
    · simp only [Bool.or_eq_true, Bool.not_eq_true', not_or, Bool.not_eq_false] at hempty
      exact hempty.2
    · rw [BundleWriter.serialize, if_neg hempty]

/-- However a writer was used and however large its container is: when `open` accepts it and
everything is read back, no payload has 2^32 bytes; and when none has and the tables end below 2^32
bytes, everything is read back. -/
theorem accepted_reads_back (uses : List Use) (generationTag expected : UInt32) (r : BundleReader)
    (h : Accepts
      (BundleReader.open ((BundleWriter.runUses uses).serialize generationTag).1 expected) r) :
    (ReadsBack r (Contents.ofUses uses) →
      ∀ m ∈ (Contents.ofUses uses).modules, m.payload.length < 2 ^ 32) ∧
    ((Contents.ofUses uses).tablesSize < 2 ^ 32 →
      (∀ m ∈ (Contents.ofUses uses).modules, m.payload.length < 2 ^ 32) →
      ReadsBack r (Contents.ofUses uses)) := by
  refine ⟨fun hread m hm => hread.payload_lt hm, ?_⟩
  intro htables hsmall
  have hholds := runUses_holding uses
  rcases serialize_of_accepts h with ⟨hentry, hbytes⟩
  rw [hbytes] at h
  rcases header_of_accepts h with ⟨rfl, hvalid⟩
  rw [← hholds.payloadOffset_eq hentry] at htables
  have hrep := freeze_represents hholds.written hentry
  have hfit : PayloadsFit ((BundleWriter.runUses uses).freeze.1.emit generationTag)
      ((BundleWriter.runUses uses).freeze.1.header generationTag) := by
    intro i record hi hrecord
    rcases hvalid.modules i hi with ⟨m, _, hm, hok⟩
    rw [hrecord, Option.some.injEq] at hm
    rw [hm]
    exact hok.payload
  have hpayloads : (BundleWriter.runUses uses).freeze.1.payloads.2 < 2 ^ 32 := by
    by_contra hlarge
    exact not_payloadsFit hrep htables hsmall (by omega) hfit
  exact (readsBack_of_represents hrep htables hpayloads).of_perm hholds.edges

/-- One module and an edge to itself, with a serialization in between. -/
def loopUses : List Use :=
  [.call (.addModule (ascii "a") .kJavaScript kRequirable (ascii "x")), .call (.setEntry 0),
    .serialize 7, .call (.addEdge 0 (ascii "./a") 0)]

theorem loopUses_read_back :
    ∃ r, Accepts (BundleReader.open ((BundleWriter.runUses loopUses).serialize 7).1 7) r ∧
      ReadsBack r (Contents.ofUses loopUses) := by
  let w := BundleWriter.runUses loopUses
  have hopen : Accepts (BundleReader.open (w.serialize 7).1 7)
      { data := w.freeze.1.emit 7, header := w.freeze.1.header 7 } := by
    unfold Accepts
    decide +kernel
  exact ⟨_, hopen, (accepted_reads_back loopUses 7 7 _ hopen).2 (by decide) (by decide)⟩

/-- A module with the payload `p`. -/
def moduleUses (p : Bytes) : List Use :=
  [.call (.addModule (ascii "a") .kJavaScript kRequirable p), .call (.setEntry 0)]

theorem moduleUses_wellFormed (p : Bytes) : (Contents.ofUses (moduleUses p)).WellFormed := by
  have hmodule : ∀ m ∈ (Contents.ofUses (moduleUses p)).modules,
      m = ⟨ascii "a", .kJavaScript, kRequirable, p⟩ := fun m hm => List.mem_singleton.mp hm
  have hvalid : isValidIdentity (ascii "a") = true := by decide
  have hflags : kRequirable &&& ~~~kRequirable = 0 := by decide
  refine ⟨?_, List.nodup_singleton _, ?_, ?_, List.nodup_nil, ?_, ?_, ?_, ?_, ?_, ?_⟩
  · intro m hm
    rw [hmodule m hm]
    exact hvalid
  · intro m hm
    rw [hmodule m hm]
    exact hflags
  · intro e he
    cases he
  · intro i hi
    cases hi
  · intro n hn
    cases hn
  · intro n hn
    cases hn
  · intro i m hm
    rw [hmodule m (List.mem_of_getElem? hm)]
    rfl
  · intro m hm hkind
    rw [hmodule m hm] at hkind
    cases hkind
  · intro i hi
    cases hi
    exact Nat.one_pos

/-- A payload of 2^32 bytes wraps to size 0 in its record and in the header; its one offset is 0,
and `open` finds nothing wrong. -/
theorem moduleUses_cut_short {p : Bytes} (hp : p.length = 2 ^ 32) :
    ∃ r, Accepts (BundleReader.open ((BundleWriter.runUses (moduleUses p)).serialize 7).1 7) r ∧
      r.payload 0 = some [] := by
  let f := (BundleWriter.runUses (moduleUses p)).freeze.1
  have hholds := runUses_holding (moduleUses p)
  have hrep : Represents f (Contents.ofUses (moduleUses p)) := freeze_represents hholds.written rfl
  have hsections := f.sections 7
  have htables : f.payloadOffset < 2 ^ 32 := by
    rw [hholds.payloadOffset_eq rfl]
    have htotal : (Contents.ofUses (moduleUses p)).tablesSize =
        alignUp (alignUp (80 + entriesSize {ascii "a"}) kTableAlign + 20) kBundlePayloadAlign := rfl
    rw [htotal]
    decide
  have hsize : (f.header 7).payloadSize = 0 := by
    have htotal : (f.header 7).payloadSize =
        UInt32.ofNat (alignUp (0 + p.length) kBundlePayloadAlign) := rfl
    rw [htotal, hp]
    rfl
  have hrow : ∀ i m, i < (f.header 7).moduleCount.toNat →
      moduleAt (f.emit 7) (f.header 7) i = some m → m.payloadOffset = 0 ∧ m.payloadSize = 0 := by
    intro i m hi hm
    have hzero : i = 0 := by
      rw [moduleCount_eq 7 htables hrep] at hi
      exact Nat.lt_one_iff.mp hi
    subst hzero
    have hadded : (Contents.ofUses (moduleUses p)).modules[0]? =
        some ⟨ascii "a", .kJavaScript, kRequirable, p⟩ := rfl
    rcases moduleRow_eq hsections htables hrep hadded with ⟨record, _, hrecord, hrow, hplaced, _⟩
    rw [hm, Option.some.injEq] at hrecord
    rw [hrecord]
    refine ⟨?_, ?_⟩
    · have hfirst : f.payloads.1[0]? = some 0 := rfl
      rw [hplaced, Option.some.injEq] at hfirst
      exact hfirst
    · rw [hrow.payloadSize, hp]
      rfl
  have hfit : PayloadsFit (f.emit 7) (f.header 7) := by
    intro i m hi hm
    rw [(hrow i m hi hm).1, (hrow i m hi hm).2, hsize]
    rfl
  have hvalid := valid_of_represents hsections htables hrep (moduleUses_wellFormed p) hfit
  have hfirst : 0 < (f.header 7).moduleCount.toNat := by
    rw [moduleCount_eq 7 htables hrep]
    exact Nat.one_pos
  rcases hvalid.modules 0 hfirst with ⟨m, _, hm, _⟩
  rcases hrow 0 m hfirst hm with ⟨hoffset, hlength⟩
  have hstart : (f.header 7).payloadOffset.toNat + 0 ≤ (f.emit 7).length :=
    Nat.le_trans (Nat.le_add_right _ _) hvalid.payload
  rcases readBytes_of_le hstart with ⟨bytes, hbytes, hnone⟩
  rw [List.length_eq_zero_iff.mp hnone] at hbytes
  refine ⟨{ data := f.emit 7, header := f.header 7 },
    openImpl_accepts_iff.mpr ⟨rfl, hvalid, fun _ => rfl⟩, ?_⟩
  simp only [BundleReader.payload, hm, Option.bind_eq_bind, Option.bind_some, hoffset, hlength]
  exact hbytes

/-- 2^32 zero bytes go in and an empty payload comes out. -/
theorem huge_payload_lost :
    ∃ r, Accepts (BundleReader.open ((BundleWriter.runUses
        (moduleUses (List.replicate (2 ^ 32) 0))).serialize 7).1 7) r ∧
      r.payload 0 = some [] ∧
      ¬ ReadsBack r (Contents.ofUses (moduleUses (List.replicate (2 ^ 32) 0))) := by
  have hlength : (List.replicate (2 ^ 32) (0 : UInt8)).length = 2 ^ 32 := List.length_replicate
  rcases moduleUses_cut_short hlength with ⟨r, hopen, hpayload⟩
  refine ⟨r, hopen, hpayload, ?_⟩
  intro hread
  have hlt := hread.payload_lt (List.mem_singleton_self _)
  exact absurd hlength (Nat.ne_of_lt hlt)

end HermesNode.Bundle
