/-
Module: HermesNode.Bundle.ReaderSafety
Purpose: Memory safety of the reader on hostile input. The validation pass reads only bytes of the
  buffer whatever the buffer holds (`openImpl_inBounds`); once it accepted, every accessor with an
  index in range, `lookup` with any arguments and `nativeFor` with any module number do too. What
  the two searches answer is tied to the tables: `lookup` only returns a target some edge row
  records, and `nativeFor` answers for exactly the native modules.
Trusted boundary: none
Main exports: openImpl_inBounds, lookup_sound, accepted_reads_in_bounds
-/
import HermesNode.Bundle.ReaderSpec

namespace HermesNode.Bundle

open Check

/-! ### The validation pass stays inside the buffer -/

section Tables

variable {data : Bytes} {h : BundleHeader} {i : Nat}

/-- Record `i` of a table that fits starts and ends inside the buffer. -/
theorem record_fits {offset count size length : Nat} (htable : offset + count * size ≤ length)
    (hi : i < count) : offset + size * i + size ≤ length := by
  have hmul : size * i + size ≤ count * size := by
    have hstep : (i + 1) * size ≤ count * size := Nat.mul_le_mul_right size hi
    rw [Nat.mul_comm size i, ← Nat.succ_mul]
    exact hstep
  omega

theorem moduleAt_of_lt
    (ht : h.moduleTableOffset.toNat + h.moduleCount.toNat * sizeofBundleModuleRecord ≤ data.length)
    (hi : i < h.moduleCount.toNat) : ∃ m, moduleAt data h i = some m :=
  BundleModuleRecord.read_of_le (record_fits ht hi)

theorem edgeAt_of_lt
    (ht : h.edgeTableOffset.toNat + h.edgeCount.toNat * sizeofBundleEdgeRecord ≤ data.length)
    (hi : i < h.edgeCount.toNat) : ∃ e, edgeAt data h i = some e :=
  BundleEdgeRecord.read_of_le (record_fits ht hi)

theorem nativeAt_of_lt
    (ht : h.nativeTableOffset.toNat + h.nativeCount.toNat * sizeofBundleNativeRecord ≤ data.length)
    (hi : i < h.nativeCount.toNat) : ∃ row, nativeAt data h i = some row :=
  BundleNativeRecord.read_of_le (record_fits ht hi)

theorem preloadAt_of_lt
    (ht : h.preloadTableOffset.toNat + h.preloadCount.toNat * 4 ≤ data.length)
    (hi : i < h.preloadCount.toNat) : ∃ n, preloadAt data h i = some n :=
  readU32_of_le (record_fits ht hi)

theorem vmOptionAt_of_lt
    (ht : h.vmOptionsTableOffset.toNat + h.vmOptionsCount.toNat * 4 ≤ data.length)
    (hi : i < h.vmOptionsCount.toNat) : ∃ n, vmOptionAt data h i = some n :=
  readU32_of_le (record_fits ht hi)

/-- A load that has a value continues the pass inside the buffer. -/
theorem inBounds_load_bind {α β : Type} {x : Option α} {f : α → Check β}
    (hx : ∃ a, x = some a) (hf : ∀ a, x = some a → InBounds (f a)) :
    InBounds (load x >>= f) := by
  obtain ⟨a, ha⟩ := hx
  exact inBounds_bind (inBounds_load ha) fun b hb => hf b (accepts_load.mp hb)

/-- A guard that holds continues the pass inside the buffer. -/
theorem inBounds_require_bind {β : Type} {cond : Bool} {message : String} {f : Unit → Check β}
    (hf : cond = true → InBounds (f ())) : InBounds (require cond message >>= f) :=
  inBounds_bind (inBounds_require cond message) fun _ hb => hf (accepts_require.mp hb)

theorem checkModule_inBounds
    (hstrings : h.stringsOffset.toNat + h.stringsSize.toNat ≤ data.length)
    (ht : h.moduleTableOffset.toNat + h.moduleCount.toNat * sizeofBundleModuleRecord ≤ data.length)
    (hi : i < h.moduleCount.toNat) (seen : List Bytes) :
    InBounds (checkModule data h i seen) := by
  refine inBounds_load_bind (moduleAt_of_lt ht hi) fun m _ => ?_
  refine inBounds_load_bind (validateStringIndex_isSome hstrings _) fun ok hok => ?_
  refine inBounds_require_bind fun htrue => ?_
  subst htrue
  obtain ⟨s, hs⟩ := stringViewAt_of_validate hstrings hok
  refine inBounds_load_bind ⟨s, hs.2⟩ fun identity _ => ?_
  refine inBounds_require_bind fun _ => ?_
  refine inBounds_require_bind fun _ => ?_
  refine inBounds_require_bind fun _ => ?_
  refine inBounds_require_bind fun _ => ?_
  refine inBounds_require_bind fun _ => ?_
  refine inBounds_require_bind fun _ => ?_
  exact inBounds_pure _

theorem checkEdge_inBounds
    (hstrings : h.stringsOffset.toNat + h.stringsSize.toNat ≤ data.length)
    (ht : h.edgeTableOffset.toNat + h.edgeCount.toNat * sizeofBundleEdgeRecord ≤ data.length)
    (hi : i < h.edgeCount.toNat) (u : Unit) : InBounds (checkEdge data h i u) := by
  refine inBounds_load_bind (edgeAt_of_lt ht hi) fun e _ => ?_
  refine inBounds_require_bind fun _ => ?_
  refine inBounds_load_bind (validateStringIndex_isSome hstrings _) fun ok _ => ?_
  exact inBounds_require _ _

theorem checkPreload_inBounds
    (hm : h.moduleTableOffset.toNat + h.moduleCount.toNat * sizeofBundleModuleRecord ≤ data.length)
    (ht : h.preloadTableOffset.toNat + h.preloadCount.toNat * 4 ≤ data.length)
    (hi : i < h.preloadCount.toNat) (u : Unit) : InBounds (checkPreload data h i u) := by
  refine inBounds_load_bind (preloadAt_of_lt ht hi) fun index _ => ?_
  refine inBounds_require_bind fun hlt => ?_
  have hindex : index.toNat < h.moduleCount.toNat := by
    simpa [UInt32.lt_iff_toNat_lt] using hlt
  refine inBounds_load_bind (moduleAt_of_lt hm hindex) fun m _ => ?_
  exact inBounds_require _ _

theorem nativeSorted_isSome
    (ht : h.nativeTableOffset.toNat + h.nativeCount.toNat * sizeofBundleNativeRecord ≤ data.length)
    (hi : i < h.nativeCount.toNat) (row : BundleNativeRecord) :
    ∃ b, nativeSorted data h i row = some b := by
  cases i with
  | zero => exact ⟨true, rfl⟩
  | succ prev =>
      have hprev : prev < h.nativeCount.toNat := by omega
      obtain ⟨before, hbefore⟩ := nativeAt_of_lt ht hprev
      exact ⟨_, by simp only [nativeSorted, hbefore]; rfl⟩

theorem checkNative_inBounds
    (hstrings : h.stringsOffset.toNat + h.stringsSize.toNat ≤ data.length)
    (hm : h.moduleTableOffset.toNat + h.moduleCount.toNat * sizeofBundleModuleRecord ≤ data.length)
    (ht : h.nativeTableOffset.toNat + h.nativeCount.toNat * sizeofBundleNativeRecord ≤ data.length)
    (hi : i < h.nativeCount.toNat) (u : Unit) : InBounds (checkNative data h i u) := by
  refine inBounds_load_bind (nativeAt_of_lt ht hi) fun row _ => ?_
  refine inBounds_require_bind fun hlt => ?_
  have hindex : row.moduleIndex.toNat < h.moduleCount.toNat := by
    simpa [UInt32.lt_iff_toNat_lt] using hlt
  refine inBounds_load_bind (nativeSorted_isSome ht hi row) fun sorted _ => ?_
  refine inBounds_require_bind fun _ => ?_
  refine inBounds_load_bind (moduleAt_of_lt hm hindex) fun m _ => ?_
  refine inBounds_require_bind fun _ => ?_
  refine inBounds_load_bind (validateStringIndex_isSome hstrings _) fun sidecarOk _ => ?_
  refine inBounds_require_bind fun _ => ?_
  refine inBounds_load_bind (validateStringIndex_isSome hstrings _) fun hashOk hhash => ?_
  refine inBounds_require_bind fun htrue => ?_
  subst htrue
  obtain ⟨s, hs⟩ := stringViewAt_of_validate hstrings hhash
  refine inBounds_load_bind ⟨s, hs.2⟩ fun digest _ => ?_
  exact inBounds_require _ _

theorem findNativeRow_isSome {k : Nat}
    (ht : h.nativeTableOffset.toNat + h.nativeCount.toNat * sizeofBundleNativeRecord ≤ data.length) :
    ∀ {j count : Nat}, j + count ≤ h.nativeCount.toNat →
      ∃ b, findNativeRow data h k j count = some b := by
  intro j count
  induction count generalizing j with
  | zero => exact fun _ => ⟨false, rfl⟩
  | succ count ih =>
      intro hle
      have hj : j < h.nativeCount.toNat := by omega
      obtain ⟨row, hrow⟩ := nativeAt_of_lt ht hj
      by_cases hk : row.moduleIndex.toNat = k
      · exact ⟨true, by simp [findNativeRow, hrow, hk]⟩
      · have hrest : j + 1 + count ≤ h.nativeCount.toNat := by omega
        obtain ⟨b, hb⟩ := ih hrest
        exact ⟨b, by simpa [findNativeRow, hrow, hk] using hb⟩

theorem checkNativeRow_inBounds
    (hm : h.moduleTableOffset.toNat + h.moduleCount.toNat * sizeofBundleModuleRecord ≤ data.length)
    (ht : h.nativeTableOffset.toNat + h.nativeCount.toNat * sizeofBundleNativeRecord ≤ data.length)
    (hi : i < h.moduleCount.toNat) (u : Unit) : InBounds (checkNativeRow data h i u) := by
  refine inBounds_load_bind (moduleAt_of_lt hm hi) fun m _ => ?_
  split
  · exact inBounds_pure _
  · have hall : 0 + h.nativeCount.toNat ≤ h.nativeCount.toNat := by omega
    refine inBounds_load_bind (findNativeRow_isSome ht hall) fun found _ => ?_
    exact inBounds_require _ _

theorem checkVmOption_inBounds
    (hstrings : h.stringsOffset.toNat + h.stringsSize.toNat ≤ data.length)
    (ht : h.vmOptionsTableOffset.toNat + h.vmOptionsCount.toNat * 4 ≤ data.length)
    (hi : i < h.vmOptionsCount.toNat) (u : Unit) : InBounds (checkVmOption data h i u) := by
  refine inBounds_load_bind (vmOptionAt_of_lt ht hi) fun offset _ => ?_
  refine inBounds_load_bind (validateStringIndex_isSome hstrings _) fun ok _ => ?_
  exact inBounds_require _ _

end Tables

theorem checkHeader_inBounds (size : Nat) (h : BundleHeader) (generation : UInt32)
    (enforce : Bool) : InBounds (checkHeader size h generation enforce) := by
  unfold checkHeader
  repeat' first
    | exact inBounds_require _ _
    | refine inBounds_require_bind fun _ => ?_

/-- The validation pass reads only bytes of the buffer, whatever the buffer holds. -/
theorem openImpl_inBounds (data : Bytes) (generation : UInt32) (enforce : Bool) :
    InBounds (openImpl data generation enforce) := by
  refine inBounds_require_bind fun hsize => ?_
  have hlen : sizeofBundleHeader ≤ data.length := by simpa using hsize
  have hmagicFits : 0 + 8 ≤ data.length := Nat.le_trans (by decide) hlen
  obtain ⟨magic, hmagic, _⟩ := readBytes_of_le hmagicFits
  refine inBounds_load_bind ⟨magic, hmagic⟩ fun magic _ => ?_
  refine inBounds_load_bind (BundleHeader.read_of_le hlen) fun h _ => ?_
  refine inBounds_require_bind fun _ => ?_
  refine inBounds_bind (checkHeader_inBounds _ _ _ _) fun _ hhdr => ?_
  obtain ⟨-, -, -, hstrings, hmt, het, hpt, hnt, hvt, -, -, -, -⟩ :=
    checkHeader_accepts_iff.mp hhdr
  refine inBounds_bind (forRange_inBounds (fun i t _ hi =>
    checkModule_inBounds hstrings hmt (by omega) t) _) fun _ _ => ?_
  refine inBounds_bind (forRange_inBounds (fun i t _ hi =>
    checkEdge_inBounds hstrings het (by omega) t) _) fun _ _ => ?_
  refine inBounds_bind (forRange_inBounds (fun i t _ hi =>
    checkPreload_inBounds hmt hpt (by omega) t) _) fun _ _ => ?_
  refine inBounds_bind (forRange_inBounds (fun i t _ hi =>
    checkNative_inBounds hstrings hmt hnt (by omega) t) _) fun _ _ => ?_
  refine inBounds_bind (forRange_inBounds (fun i t _ hi =>
    checkNativeRow_inBounds hmt hnt (by omega) t) _) fun _ _ => ?_
  refine inBounds_bind (forRange_inBounds (fun i t _ hi =>
    checkVmOption_inBounds hstrings hvt (by omega) t) _) fun _ _ => ?_
  exact inBounds_pure _

/-! ### Accessors of an accepted container -/

namespace Valid

variable {data : Bytes} {h : BundleHeader}

/-- A module's record, with its identity, kind and payload read through the accessors. -/
theorem module_reads (hv : Valid data h) {i : Nat} (hi : i < h.moduleCount.toNat) :
    let r : BundleReader := { data, header := h }
    (∃ s, r.identity i = some s) ∧ (∃ p, r.payload i = some p) ∧ (∃ k, r.kind i = some k) ∧
      (∃ f, r.flags i = some f) := by
  obtain ⟨m, identity, hm, hok⟩ := hv.modules i hi
  obtain ⟨k, hk⟩ := hok.kind
  have hpayload := hv.payload
  have hinner := hok.payload
  have hfits : h.payloadOffset.toNat + m.payloadOffset.toNat + m.payloadSize.toNat ≤
      data.length := by omega
  obtain ⟨p, hp, _⟩ := readBytes_of_le hfits
  refine ⟨⟨identity, ?_⟩, ⟨p, ?_⟩, ⟨k, ?_⟩, ⟨m.flags, ?_⟩⟩
  · simpa [BundleReader.identity, hm] using BundleReader.stringAt_eq hok.identityString
  · simpa [BundleReader.payload, hm] using hp
  · simp [BundleReader.kind, hm, hk]
  · simp [BundleReader.flags, hm]

theorem edge_reads (hv : Valid data h) {i : Nat} (hi : i < h.edgeCount.toNat) :
    ∃ e s, edgeAt data h i = some e ∧ StringOk data h e.specifierString s ∧
      BundleReader.edge { data, header := h } i = some ⟨e.importer, s, e.target⟩ := by
  obtain ⟨e, he, hok⟩ := hv.edges i hi
  obtain ⟨s, hs⟩ := hok.specifier
  exact ⟨e, s, he, hs, by simp [BundleReader.edge, he, BundleReader.stringAt_eq hs]⟩

theorem native_reads (hv : Valid data h) {i : Nat} (hi : i < h.nativeCount.toNat) :
    ∃ row v, nativeAt data h i = some row ∧
      BundleReader.native { data, header := h } i = some v ∧ v.moduleIndex = row.moduleIndex := by
  obtain ⟨row, hrow, hok⟩ := hv.natives i hi
  obtain ⟨sidecar, hsidecar⟩ := hok.sidecar
  obtain ⟨digest, hdigest, _⟩ := hok.digest
  exact ⟨row, ⟨row.moduleIndex, sidecar, row.byteLength, digest⟩, hrow,
    by simp [BundleReader.native, hrow, BundleReader.stringAt_eq hsidecar,
      BundleReader.stringAt_eq hdigest], rfl⟩

/-- Every probe of `lookup` has a value. -/
theorem edgeLess_isSome (hv : Valid data h) (importer : UInt32) (specifier : Bytes) {i : Nat}
    (hi : i < h.edgeCount.toNat) :
    ∃ b, BundleReader.edgeLess { data, header := h } importer specifier i = some b := by
  obtain ⟨e, s, he, hs, _⟩ := hv.edge_reads hi
  by_cases hne : e.importer = importer
  · exact ⟨bytesLt s specifier, by
      simp [BundleReader.edgeLess, he, hne, BundleReader.stringAt_eq hs]⟩
  · exact ⟨decide (e.importer < importer), by simp [BundleReader.edgeLess, he, hne]⟩

/-- `lookup` always has an answer, and a target it returns is the target of an edge row with
exactly these importer and specifier. -/
theorem lookup_sound (hv : Valid data h) (importer : UInt32) (specifier : Bytes) :
    ∃ answer, BundleReader.lookup { data, header := h } importer specifier = some answer ∧
      ∀ t, answer = some t → ∃ k < h.edgeCount.toNat,
        BundleReader.edge { data, header := h } k = some ⟨importer, specifier, t⟩ := by
  obtain ⟨lo, hlo, _⟩ := lowerBound_isSome
    (fun i hi => hv.edgeLess_isSome importer specifier hi)
  by_cases hlt : lo < h.edgeCount.toNat
  · obtain ⟨e, s, he, hs, hedge⟩ := hv.edge_reads hlt
    by_cases himp : e.importer = importer
    · by_cases hspec : s = specifier
      · refine ⟨some e.target, ?_, fun t ht => ⟨lo, hlt, ?_⟩⟩
        · simp [BundleReader.lookup, hlo, hlt, he, himp, BundleReader.stringAt_eq hs, hspec]
        · cases ht
          rw [hedge, himp, hspec]
      · refine ⟨none, ?_, fun t ht => by cases ht⟩
        simp [BundleReader.lookup, hlo, hlt, he, himp, BundleReader.stringAt_eq hs, hspec]
    · refine ⟨none, ?_, fun t ht => by cases ht⟩
      simp [BundleReader.lookup, hlo, hlt, he, himp]
  · refine ⟨none, ?_, fun t ht => by cases ht⟩
    simp [BundleReader.lookup, hlo, hlt]

theorem natives_lt (hv : Valid data h) {i j : Nat} (hij : i < j) (hj : j < h.nativeCount.toNat)
    {a b : BundleNativeRecord} (ha : nativeAt data h i = some a) (hb : nativeAt data h j = some b) :
    a.moduleIndex < b.moduleIndex := by
  induction j generalizing b with
  | zero => omega
  | succ j ih =>
      obtain ⟨row, hrow, _⟩ := hv.natives j (by omega)
      have hstep := hv.nativesSorted j row b hj hrow hb
      rcases Nat.lt_succ_iff_lt_or_eq.mp hij with hlt | rfl
      · have hprev := ih hlt (by omega) hrow
        rw [UInt32.lt_iff_toNat_lt] at hprev hstep ⊢
        omega
      · rw [ha] at hrow
        cases hrow
        exact hstep

/-- The comparison `nativeFor` searches with: row `i` is below `index`. -/
def nativeBelow (data : Bytes) (h : BundleHeader) (index : UInt32) (i : Nat) : Bool :=
  match nativeAt data h i with
  | some row => decide (row.moduleIndex < index)
  | none => false

/-- `nativeFor` always has an answer; it answers exactly for the native modules, with the row of
the module it was asked about. -/
theorem nativeFor_spec (hv : Valid data h) (index : UInt32) :
    ∃ answer, BundleReader.nativeFor { data, header := h } index = some answer ∧
      (answer.isSome = true ↔ index.toNat < h.moduleCount.toNat ∧
        BundleReader.kind { data, header := h } index.toNat = some .kNative) ∧
      ∀ v, answer = some v → v.moduleIndex = index ∧ ∃ k < h.nativeCount.toNat,
        BundleReader.native { data, header := h } k = some v := by
  let r : BundleReader := { data, header := h }
  have hless : ∀ i < h.nativeCount.toNat, r.nativeLess index i =
      some (nativeBelow data h index i) := by
    intro i hi
    obtain ⟨row, hrow, _⟩ := hv.natives i hi
    simp [r, BundleReader.nativeLess, nativeBelow, hrow]
  have hmono : ∀ i j, i ≤ j → j < h.nativeCount.toNat → nativeBelow data h index j = true →
      nativeBelow data h index i = true := by
    intro i j hij hj hbelow
    obtain ⟨a, ha, _⟩ := hv.natives i (by omega)
    obtain ⟨b, hb, _⟩ := hv.natives j hj
    rcases Nat.lt_or_eq_of_le hij with hlt | rfl
    · have hab := hv.natives_lt hlt hj ha hb
      simp only [nativeBelow, ha, hb, decide_eq_true_eq, UInt32.lt_iff_toNat_lt] at hab hbelow ⊢
      omega
    · exact hbelow
  obtain ⟨lo, hlo, _⟩ := lowerBound_isSome (fun i hi => ⟨_, hless i hi⟩)
  obtain ⟨hbefore, hafter⟩ := lowerBound_spec hless hmono hlo
  -- a row of `index` can only be the boundary row
  have hunique : ∀ j row, j < h.nativeCount.toNat → nativeAt data h j = some row →
      row.moduleIndex = index → j = lo := by
    intro j row hj hrow hindex
    have hnot : nativeBelow data h index j = false := by
      simp [nativeBelow, hrow, hindex]
    rcases Nat.lt_trichotomy j lo with hlt | heq | hgt
    · rw [hbefore j hlt] at hnot
      exact absurd hnot (by decide)
    · exact heq
    · obtain ⟨first, hfirst, _⟩ := hv.natives lo (by omega)
      have horder := hv.natives_lt hgt hj hfirst hrow
      have habove := hafter lo (Nat.le_refl lo) (by omega)
      simp only [nativeBelow, hfirst, decide_eq_false_iff_not] at habove
      exact absurd (hindex ▸ horder) habove
  have hrows : index.toNat < h.moduleCount.toNat → r.kind index.toNat = some .kNative →
      ∃ row, lo < h.nativeCount.toNat ∧ nativeAt data h lo = some row ∧
        row.moduleIndex = index := by
    intro hlt hkind
    obtain ⟨m, identity, hm, hok⟩ := hv.modules index.toNat hlt
    have hnative : m.kind = ModuleKind.kNative.toU32 := by
      simpa [r, BundleReader.kind, hm, ModuleKind.ofU32?_eq_some_iff] using hkind
    obtain ⟨j, row, hj, hrow, heq⟩ := hv.nativeRows index.toNat m hlt hm hnative
    have hindex : row.moduleIndex = index := UInt32.toNat_inj.mp heq
    have hjlo := hunique j row hj hrow hindex
    exact ⟨row, hjlo ▸ hj, hjlo ▸ hrow, hindex⟩
  by_cases hlt : lo < h.nativeCount.toNat
  · obtain ⟨row, v, hrow, hv', hvindex⟩ := hv.native_reads hlt
    by_cases hindex : row.moduleIndex = index
    · obtain ⟨row', hrow', hnative⟩ := hv.natives lo hlt
      rw [hrow] at hrow'
      cases hrow'
      obtain ⟨m, hm, hkind⟩ := hnative.kind
      refine ⟨some v, ?_, ⟨fun _ => ⟨?_, ?_⟩, fun _ => rfl⟩, fun w hw => ?_⟩
      · simp [BundleReader.nativeFor, BundleReader.nativeCount, hlo, r, hlt, hrow, hindex, hv']
      · rw [← hindex]
        exact UInt32.lt_iff_toNat_lt.mp hnative.moduleIndex
      · rw [hindex] at hm
        simp [BundleReader.kind, hm, hkind]
      · cases hw
        exact ⟨hvindex.trans hindex, lo, hlt, hv'⟩
    · refine ⟨none, ?_, ⟨fun hf => by simp at hf, fun hk => ?_⟩, fun w hw => by cases hw⟩
      · simp [BundleReader.nativeFor, BundleReader.nativeCount, hlo, r, hlt, hrow, hindex]
      · obtain ⟨row', _, hrow', hidx⟩ := hrows hk.1 hk.2
        rw [hrow] at hrow'
        cases hrow'
        exact absurd hidx hindex
  · refine ⟨none, ?_, ⟨fun hf => by simp at hf, fun hk => ?_⟩, fun w hw => by cases hw⟩
    · simp [BundleReader.nativeFor, BundleReader.nativeCount, hlo, r, hlt]
    · obtain ⟨_, hlt', _⟩ := hrows hk.1 hk.2
      exact absurd hlt' hlt

end Valid

/-- Reader memory bounds on hostile input. If either entry point accepts a buffer, every accessor
with an index in range, `lookup` with any importer and specifier and `nativeFor` with any module
number stay inside it (they have a value); a target `lookup` returns is recorded in the edge table,
and `nativeFor` is defined for exactly the native modules. -/
theorem accepted_reads_in_bounds {data : Bytes} {generation : UInt32} {r : BundleReader}
    (hopen : Accepts (BundleReader.open data generation) r ∨
      Accepts (BundleReader.openForInspection data) r) :
    r.data = data ∧ sizeofBundleHeader ≤ data.length ∧ BundleHeader.read data = some r.header ∧
    (∀ i < r.moduleCount, (∃ s, r.identity i = some s) ∧ (∃ p, r.payload i = some p) ∧
      (∃ k, r.kind i = some k) ∧ (∃ f, r.flags i = some f)) ∧
    (∀ i < r.edgeCount, ∃ e, r.edge i = some e) ∧
    (∀ i < r.preloadCount, ∃ n, r.preload i = some n) ∧
    (∀ i < r.nativeCount, ∃ v, r.native i = some v) ∧
    (∀ i < r.vmOptionCount, ∃ s, r.vmOption i = some s) ∧
    (∀ importer specifier, ∃ answer, r.lookup importer specifier = some answer ∧
      ∀ t, answer = some t → ∃ k < r.edgeCount, r.edge k = some ⟨importer, specifier, t⟩) ∧
    (∀ i, ∃ answer, r.nativeFor i = some answer ∧
      (answer.isSome = true ↔ i.toNat < r.moduleCount ∧ r.kind i.toNat = some .kNative)) := by
  have hv : r.data = data ∧ Valid data r.header := by
    rcases hopen with hrun | hinspect
    · obtain ⟨hdata, hvalid, _⟩ := openImpl_accepts_iff.mp hrun
      exact ⟨hdata, hvalid⟩
    · obtain ⟨hdata, hvalid, _⟩ := openImpl_accepts_iff.mp hinspect
      exact ⟨hdata, hvalid⟩
  obtain ⟨rfl, hv⟩ := hv
  refine ⟨rfl, hv.size, hv.header, fun i hi => hv.module_reads hi, fun i hi => ?_,
    fun i hi => preloadAt_of_lt hv.preloadTable hi, fun i hi => ?_, fun i hi => ?_,
    fun importer specifier => hv.lookup_sound importer specifier, fun i => ?_⟩
  · obtain ⟨e, s, _, _, hedge⟩ := hv.edge_reads hi
    exact ⟨_, hedge⟩
  · obtain ⟨row, v, _, hnative, _⟩ := hv.native_reads hi
    exact ⟨v, hnative⟩
  · obtain ⟨offset, s, hoffset, hs⟩ := hv.vmOptions i hi
    exact ⟨s, by simpa [BundleReader.vmOption, hoffset] using BundleReader.stringAt_eq hs⟩
  · obtain ⟨answer, hanswer, hiff, _⟩ := hv.nativeFor_spec i
    exact ⟨answer, hanswer, hiff⟩

/-- The header of a container with the single module `a` and no other table. -/
def singleModuleHeader : BundleHeader where
  formatVersion := kBundleFormatVersion
  generationTag := 7
  entryModule := 0
  stringsOffset := 80
  stringsSize := 5
  moduleTableOffset := 88
  moduleCount := 1
  edgeTableOffset := 108
  edgeCount := 0
  preloadTableOffset := 108
  preloadCount := 0
  nativeTableOffset := 108
  nativeCount := 0
  vmOptionsTableOffset := 108
  vmOptionsCount := 0
  containerFlags := 0
  payloadOffset := 112
  payloadSize := 0

def singleModuleContainer : Bytes :=
  singleModuleHeader.encode ++ u32le 1 ++ ascii "a" ++ [0, 0, 0] ++
    BundleModuleRecord.encode
      { identityString := 0, kind := 0, flags := 1, payloadOffset := 0, payloadSize := 0 } ++
    [0, 0, 0, 0]

/-- Two modules, `a` and the native `n`, which the first asks for as `./n`. -/
def linkedHeader : BundleHeader :=
  { singleModuleHeader with
    stringsSize := 63
    moduleTableOffset := 144
    moduleCount := 2
    edgeTableOffset := 184
    edgeCount := 1
    preloadTableOffset := 196
    nativeTableOffset := 196
    nativeCount := 1
    vmOptionsTableOffset := 212
    payloadOffset := 224 }

def linkedContainer : Bytes :=
  linkedHeader.encode ++ u32le 1 ++ ascii "a" ++ u32le 1 ++ ascii "n" ++ u32le 3 ++ ascii "./n" ++
    u32le 6 ++ ascii "n.node" ++ u32le 32 ++ List.replicate 32 7 ++ [0] ++
    BundleModuleRecord.encode
      { identityString := 0, kind := 0, flags := 1, payloadOffset := 0, payloadSize := 0 } ++
    BundleModuleRecord.encode
      { identityString := 5, kind := 2, flags := 1, payloadOffset := 0, payloadSize := 0 } ++
    BundleEdgeRecord.encode { importer := 0, specifierString := 10, target := 1 } ++
    BundleNativeRecord.encode
      { moduleIndex := 1, sidecarString := 17, byteLength := 9, hashString := 27 } ++
    List.replicate 12 0

def linkedReader : BundleReader := { data := linkedContainer, header := linkedHeader }

/-- The edge is found, and the row of the native module. -/
theorem linked_reads_in_bounds :
    linkedReader.lookup 0 (ascii "./n") = some (some 1) ∧
      (∃ k < linkedReader.edgeCount, linkedReader.edge k = some ⟨0, ascii "./n", 1⟩) ∧
      ∃ view, linkedReader.nativeFor 1 = some (some view) := by
  have hopen : Accepts (BundleReader.open linkedContainer 7) linkedReader := by
    unfold Accepts
    decide +kernel
  have hlookup : linkedReader.lookup 0 (ascii "./n") = some (some 1) := by decide +kernel
  have hnative : linkedReader.kind 1 = some .kNative := by decide +kernel
  obtain ⟨_, _, _, _, _, _, _, _, hedges, hnatives⟩ := accepted_reads_in_bounds (Or.inl hopen)
  obtain ⟨answer, hanswer, hrecorded⟩ := hedges 0 (ascii "./n")
  cases hanswer.symm.trans hlookup
  obtain ⟨answer', hanswer', hiff⟩ := hnatives 1
  obtain ⟨view, rfl⟩ := Option.isSome_iff_exists.mp (hiff.mpr ⟨by decide, hnative⟩)
  exact ⟨hlookup, hrecorded 1 rfl, view, hanswer'⟩

end HermesNode.Bundle
