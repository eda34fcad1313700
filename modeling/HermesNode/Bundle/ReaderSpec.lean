/-
Module: HermesNode.Bundle.ReaderSpec
Purpose: What `openImpl` establishes, said once. `Valid data h` collects every fact of the
  validation pass as a field; `openImpl_accepts_iff` states that the pass accepts exactly the
  buffers whose header satisfies it. The round trip and the memory-safety results are both read off
  this one equivalence, and `openImpl_inBounds` adds that the pass itself never leaves the buffer.
Trusted boundary: none
Main exports: StringOk, ModuleOk, openImpl_accepts_iff
-/
import HermesNode.Bundle.Reader

namespace HermesNode.Bundle

open Check

/-- String index `offset` names the complete entry `s` of the container's string table. -/
def StringOk (data : Bytes) (h : BundleHeader) (offset : UInt32) (s : Bytes) : Prop :=
  validateStringIndex data h.stringsOffset.toNat h.stringsSize offset = some true ∧
    stringViewAt data h.stringsOffset.toNat offset = some s

/-- The checks of one module record whose identity reads `identity`. -/
structure ModuleOk (data : Bytes) (h : BundleHeader) (m : BundleModuleRecord)
    (identity : Bytes) : Prop where
  identityString : StringOk data h m.identityString identity
  identityValid : isValidIdentity identity = true
  kind : ∃ k : ModuleKind, m.kind = k.toU32
  flags : m.flags &&& ~~~kRequirable = 0
  payload : m.payloadOffset.toNat + m.payloadSize.toNat ≤ h.payloadSize.toNat
  nativeEmpty : m.kind = ModuleKind.kNative.toU32 → m.payloadSize = 0

/-- The checks of one edge record. -/
structure EdgeOk (data : Bytes) (h : BundleHeader) (e : BundleEdgeRecord) : Prop where
  importer : e.importer < h.moduleCount
  target : e.target < h.moduleCount
  specifier : ∃ s, StringOk data h e.specifierString s

/-- The checks of one native row, apart from the order of the table. -/
structure NativeOk (data : Bytes) (h : BundleHeader) (row : BundleNativeRecord) : Prop where
  moduleIndex : row.moduleIndex < h.moduleCount
  kind : ∃ m, moduleAt data h row.moduleIndex.toNat = some m ∧
    m.kind = ModuleKind.kNative.toU32
  sidecar : ∃ s, StringOk data h row.sidecarString s
  digest : ∃ s, StringOk data h row.hashString s ∧ s.length = kNativeDigestBytes

/-- Everything the validation pass establishes about a buffer and the header it starts with. -/
structure Valid (data : Bytes) (h : BundleHeader) : Prop where
  size : sizeofBundleHeader ≤ data.length
  header : BundleHeader.read data = some h
  magic : readBytes data 0 8 = some kBundleMagic
  formatVersion : h.formatVersion = kBundleFormatVersion
  containerFlags : h.containerFlags &&& ~~~kBundleFlagAllowVmOptionsOverride = 0
  strings : h.stringsOffset.toNat + h.stringsSize.toNat ≤ data.length
  moduleTable :
    h.moduleTableOffset.toNat + h.moduleCount.toNat * sizeofBundleModuleRecord ≤ data.length
  edgeTable : h.edgeTableOffset.toNat + h.edgeCount.toNat * sizeofBundleEdgeRecord ≤ data.length
  preloadTable : h.preloadTableOffset.toNat + h.preloadCount.toNat * 4 ≤ data.length
  nativeTable :
    h.nativeTableOffset.toNat + h.nativeCount.toNat * sizeofBundleNativeRecord ≤ data.length
  vmOptionsTable : h.vmOptionsTableOffset.toNat + h.vmOptionsCount.toNat * 4 ≤ data.length
  payload : h.payloadOffset.toNat + h.payloadSize.toNat ≤ data.length
  aligned : h.moduleTableOffset.toNat % kTableAlign = 0 ∧
    h.edgeTableOffset.toNat % kTableAlign = 0 ∧ h.preloadTableOffset.toNat % kTableAlign = 0 ∧
    h.nativeTableOffset.toNat % kTableAlign = 0 ∧ h.vmOptionsTableOffset.toNat % kTableAlign = 0
  moduleCount : h.moduleCount ≠ 0
  entry : h.entryModule < h.moduleCount
  modules : ∀ i < h.moduleCount.toNat, ∃ m identity,
    moduleAt data h i = some m ∧ ModuleOk data h m identity
  distinct : ∀ i j m n s, i < h.moduleCount.toNat → j < h.moduleCount.toNat →
    moduleAt data h i = some m → moduleAt data h j = some n →
    StringOk data h m.identityString s → StringOk data h n.identityString s → i = j
  edges : ∀ i < h.edgeCount.toNat, ∃ e, edgeAt data h i = some e ∧ EdgeOk data h e
  preloads : ∀ i < h.preloadCount.toNat, ∃ index m, preloadAt data h i = some index ∧
    index < h.moduleCount ∧ moduleAt data h index.toNat = some m ∧ m.flags &&& kRequirable ≠ 0
  natives : ∀ i < h.nativeCount.toNat, ∃ row, nativeAt data h i = some row ∧ NativeOk data h row
  nativesSorted : ∀ i a b, i + 1 < h.nativeCount.toNat → nativeAt data h i = some a →
    nativeAt data h (i + 1) = some b → a.moduleIndex < b.moduleIndex
  nativeRows : ∀ i m, i < h.moduleCount.toNat → moduleAt data h i = some m →
    m.kind = ModuleKind.kNative.toU32 →
    ∃ j row, j < h.nativeCount.toNat ∧ nativeAt data h j = some row ∧ row.moduleIndex.toNat = i
  vmOptions : ∀ i < h.vmOptionsCount.toNat, ∃ offset s,
    vmOptionAt data h i = some offset ∧ StringOk data h offset s

/-! ### Strings -/

variable {h : BundleHeader} {data : Bytes}

/-- A validated index can be read: the two reads stay inside the string table. -/
theorem stringViewAt_of_validate {offset : UInt32}
    (hstrings : h.stringsOffset.toNat + h.stringsSize.toNat ≤ data.length)
    (hvalid : validateStringIndex data h.stringsOffset.toNat h.stringsSize offset = some true) :
    ∃ s, StringOk data h offset s := by
  have hcopy := hvalid
  unfold validateStringIndex at hvalid
  split at hvalid
  · cases hlen : readU32 data (h.stringsOffset.toNat + offset.toNat) with
    | none => simp [hlen] at hvalid
    | some length =>
        have hend : offset.toNat + sizeofBundleStringHeader + length.toNat ≤
            h.stringsSize.toNat := by simpa [hlen] using hvalid
        have hbytes : h.stringsOffset.toNat + offset.toNat + sizeofBundleStringHeader +
            length.toNat ≤ data.length := by omega
        obtain ⟨s, hs, _⟩ := readBytes_of_le hbytes
        exact ⟨s, hcopy, by simp [stringViewAt, hlen, hs]⟩
  · simp at hvalid

/-- Validation of a string index reads at most a length word inside the table. -/
theorem validateStringIndex_isSome
    (hstrings : h.stringsOffset.toNat + h.stringsSize.toNat ≤ data.length) (offset : UInt32) :
    ∃ b, validateStringIndex data h.stringsOffset.toNat h.stringsSize offset = some b := by
  unfold validateStringIndex
  split
  · rename_i hfits
    have hle : h.stringsOffset.toNat + offset.toNat + 4 ≤ data.length := by
      simp only [sizeofBundleStringHeader] at hfits
      omega
    obtain ⟨length, hlen⟩ := readU32_of_le hle
    exact ⟨_, by simp only [hlen]; rfl⟩
  · exact ⟨false, rfl⟩

theorem StringOk.unique {offset : UInt32} {s t : Bytes}
    (hs : StringOk data h offset s) (ht : StringOk data h offset t) : s = t := by
  have heq := hs.2
  rw [ht.2] at heq
  cases heq
  rfl

/-- The accessor `stringAt` reads what the validation pass read. -/
theorem BundleReader.stringAt_eq {offset : UInt32} {s : Bytes}
    (hok : StringOk data h offset s) :
    BundleReader.stringAt { data, header := h } offset = some s := hok.2

/-! ### One iteration of each loop -/

theorem checkHeader_accepts_iff {size : Nat} {generation : UInt32}
    {enforce : Bool} {u : Unit} :
    Accepts (checkHeader size h generation enforce) u ↔
      h.formatVersion = kBundleFormatVersion ∧
      (enforce = true → h.generationTag = generation) ∧
      h.containerFlags &&& ~~~kBundleFlagAllowVmOptionsOverride = 0 ∧
      h.stringsOffset.toNat + h.stringsSize.toNat ≤ size ∧
      h.moduleTableOffset.toNat + h.moduleCount.toNat * sizeofBundleModuleRecord ≤ size ∧
      h.edgeTableOffset.toNat + h.edgeCount.toNat * sizeofBundleEdgeRecord ≤ size ∧
      h.preloadTableOffset.toNat + h.preloadCount.toNat * 4 ≤ size ∧
      h.nativeTableOffset.toNat + h.nativeCount.toNat * sizeofBundleNativeRecord ≤ size ∧
      h.vmOptionsTableOffset.toNat + h.vmOptionsCount.toNat * 4 ≤ size ∧
      h.payloadOffset.toNat + h.payloadSize.toNat ≤ size ∧
      (h.moduleTableOffset.toNat % kTableAlign = 0 ∧
        h.edgeTableOffset.toNat % kTableAlign = 0 ∧
        h.preloadTableOffset.toNat % kTableAlign = 0 ∧
        h.nativeTableOffset.toNat % kTableAlign = 0 ∧
        h.vmOptionsTableOffset.toNat % kTableAlign = 0) ∧
      h.moduleCount ≠ 0 ∧ h.entryModule < h.moduleCount := by
  cases enforce <;>
    simp [checkHeader, accepts_bind, accepts_require, inRange, tableInRange, and_assoc]

/-- A stored kind passes the check exactly when it is an enumerator. -/
theorem kind_check_iff {n : UInt32} :
    (n == ModuleKind.kJavaScript.toU32 || n == ModuleKind.kJSON.toU32 ||
      n == ModuleKind.kNative.toU32) = true ↔ ∃ k : ModuleKind, n = k.toU32 := by
  simp only [Bool.or_eq_true, beq_iff_eq]
  constructor
  · rintro ((hjs | hjson) | hnative)
    · exact ⟨.kJavaScript, hjs⟩
    · exact ⟨.kJSON, hjson⟩
    · exact ⟨.kNative, hnative⟩
  · rintro ⟨k, rfl⟩
    cases k <;> simp

variable {i : Nat}

theorem checkModule_accepts_iff
    {seen seen' : List Bytes} :
    Accepts (checkModule data h i seen) seen' ↔
      ∃ m identity, moduleAt data h i = some m ∧ ModuleOk data h m identity ∧
        identity ∉ seen ∧ seen' = identity :: seen := by
  simp only [checkModule, accepts_bind, accepts_load, accepts_require, accepts_pure]
  constructor
  · rintro ⟨m, hm, ok, hvalidate, _, rfl, identity, hview, _, hident, _, hfresh, _, hkind, _,
      hflags, _, hpayload, _, hnative, rfl⟩
    refine ⟨m, identity, hm, ⟨⟨hvalidate, hview⟩, hident, kind_check_iff.mp hkind,
      by simpa using hflags, by simpa [inRange] using hpayload, ?_⟩, by simpa using hfresh, rfl⟩
    intro hk
    simpa [hk] using hnative
  · rintro ⟨m, identity, hm, hok, hfresh, rfl⟩
    refine ⟨m, hm, true, hok.identityString.1, (), rfl, identity, hok.identityString.2, (),
      hok.identityValid, (), by simpa using hfresh, (), kind_check_iff.mpr hok.kind, (),
      by simpa using hok.flags, (), by simpa [inRange] using hok.payload, (), ?_, rfl⟩
    by_cases hk : m.kind = ModuleKind.kNative.toU32
    · simp [hk, hok.nativeEmpty hk]
    · simp [hk]

theorem checkEdge_accepts_iff
    (hstrings : h.stringsOffset.toNat + h.stringsSize.toNat ≤ data.length) {u v : Unit} :
    Accepts (checkEdge data h i u) v ↔ ∃ e, edgeAt data h i = some e ∧ EdgeOk data h e := by
  simp only [checkEdge, accepts_bind, accepts_load, accepts_require]
  constructor
  · rintro ⟨e, he, _, hrange, ok, hvalidate, rfl⟩
    simp only [Bool.and_eq_true, decide_eq_true_eq] at hrange
    exact ⟨e, he, hrange.1, hrange.2, stringViewAt_of_validate hstrings hvalidate⟩
  · rintro ⟨e, he, hok⟩
    obtain ⟨s, hs⟩ := hok.specifier
    exact ⟨e, he, (), by simp [hok.importer, hok.target], true, hs.1, rfl⟩

theorem checkPreload_accepts_iff {u v : Unit} :
    Accepts (checkPreload data h i u) v ↔
      ∃ index m, preloadAt data h i = some index ∧ index < h.moduleCount ∧
        moduleAt data h index.toNat = some m ∧ m.flags &&& kRequirable ≠ 0 := by
  simp only [checkPreload, accepts_bind, accepts_load, accepts_require]
  constructor
  · rintro ⟨index, hindex, _, hlt, m, hm, hflags⟩
    exact ⟨index, m, hindex, by simpa using hlt, hm, by simpa using hflags⟩
  · rintro ⟨index, m, hindex, hlt, hm, hflags⟩
    exact ⟨index, hindex, (), by simpa using hlt, m, hm, by simpa using hflags⟩

theorem nativeSorted_eq_true_iff
    {row : BundleNativeRecord} :
    nativeSorted data h i row = some true ↔
      ∀ prev, i = prev + 1 → ∃ before, nativeAt data h prev = some before ∧
        before.moduleIndex < row.moduleIndex := by
  cases i with
  | zero => simp [nativeSorted]
  | succ prev =>
      cases hprev : nativeAt data h prev with
      | none => simp [nativeSorted, hprev]
      | some before => simp [nativeSorted, hprev]

theorem checkNative_accepts_iff
    (hstrings : h.stringsOffset.toNat + h.stringsSize.toNat ≤ data.length) {u v : Unit} :
    Accepts (checkNative data h i u) v ↔
      ∃ row, nativeAt data h i = some row ∧ NativeOk data h row ∧
        nativeSorted data h i row = some true := by
  simp only [checkNative, accepts_bind, accepts_load, accepts_require]
  constructor
  · rintro ⟨row, hrow, _, hlt, sorted, hsorted, _, rfl, m, hm, _, hkind, sidecarOk, hsidecar, _,
      rfl, hashOk, hhash, _, rfl, digest, hdigest, hlen⟩
    exact ⟨row, hrow, ⟨by simpa using hlt, ⟨m, hm, by simpa using hkind⟩,
      stringViewAt_of_validate hstrings hsidecar, ⟨digest, ⟨hhash, hdigest⟩,
        by simpa using hlen⟩⟩, hsorted⟩
  · rintro ⟨row, hrow, hok, hsorted⟩
    obtain ⟨m, hm, hkind⟩ := hok.kind
    obtain ⟨s, hs⟩ := hok.sidecar
    obtain ⟨digest, hdigest, hlen⟩ := hok.digest
    exact ⟨row, hrow, (), by simpa using hok.moduleIndex, true, hsorted, (), rfl, m, hm, (),
      by simpa using hkind, true, hs.1, (), rfl, true, hdigest.1, (), rfl, digest, hdigest.2,
      by simpa using hlen⟩

/-- The inner scan answers true exactly when it meets a row of module `i` before leaving the
mapped part of the table. -/
theorem findNativeRow_eq_true :
    ∀ {j count : Nat}, findNativeRow data h i j count = some true →
      ∃ k row, j ≤ k ∧ k < j + count ∧ nativeAt data h k = some row ∧
        row.moduleIndex.toNat = i := by
  intro j count
  induction count generalizing j with
  | zero => simp [findNativeRow]
  | succ count ih =>
      intro hfound
      cases hrow : nativeAt data h j with
      | none => simp [findNativeRow, hrow] at hfound
      | some row =>
          by_cases hi : row.moduleIndex.toNat = i
          · exact ⟨j, row, Nat.le_refl j, by omega, hrow, hi⟩
          · have hrest : findNativeRow data h i (j + 1) count = some true := by
              simpa [findNativeRow, hrow, hi] using hfound
            obtain ⟨k, row', hle, hlt, hk, hki⟩ := ih hrest
            exact ⟨k, row', by omega, by omega, hk, hki⟩

theorem findNativeRow_of_row {i k : Nat}
    {row : BundleNativeRecord} (hk : nativeAt data h k = some row)
    (hki : row.moduleIndex.toNat = i) :
    ∀ {j count : Nat}, (∀ l, j ≤ l → l < j + count → ∃ row, nativeAt data h l = some row) →
      j ≤ k → k < j + count → findNativeRow data h i j count = some true := by
  intro j count
  induction count generalizing j with
  | zero => intro _ hle hlt; omega
  | succ count ih =>
      intro htable hle hlt
      obtain ⟨row', hrow'⟩ := htable j (Nat.le_refl j) (by omega)
      by_cases hi : row'.moduleIndex.toNat = i
      · simp [findNativeRow, hrow', hi]
      · have hne : j ≠ k := by
          rintro rfl
          rw [hk] at hrow'
          cases hrow'
          exact hi hki
        have hrest := ih (j := j + 1) (fun l hl hl' => htable l (by omega) (by omega))
          (by omega) (by omega)
        simpa [findNativeRow, hrow', hi] using hrest

theorem checkVmOption_accepts_iff
    (hstrings : h.stringsOffset.toNat + h.stringsSize.toNat ≤ data.length) {u v : Unit} :
    Accepts (checkVmOption data h i u) v ↔
      ∃ offset s, vmOptionAt data h i = some offset ∧ StringOk data h offset s := by
  simp only [checkVmOption, accepts_bind, accepts_load, accepts_require]
  constructor
  · rintro ⟨offset, hoffset, ok, hvalidate, rfl⟩
    obtain ⟨s, hs⟩ := stringViewAt_of_validate hstrings hvalidate
    exact ⟨offset, s, hoffset, hs⟩
  · rintro ⟨offset, s, hoffset, hs⟩
    exact ⟨offset, hoffset, true, hs.1, rfl⟩

/-! ### The loops -/

/-- The state after `n` accepted iterations: the identities so far, newest first, all distinct. -/
def ModulesSeen (data : Bytes) (h : BundleHeader) (n : Nat) (seen : List Bytes) : Prop :=
  (∀ i < n, ∃ m identity, moduleAt data h i = some m ∧ ModuleOk data h m identity ∧
    identity ∈ seen) ∧
  ∀ i j m k s, i < n → j < n → moduleAt data h i = some m → moduleAt data h j = some k →
    StringOk data h m.identityString s → StringOk data h k.identityString s → i = j

theorem ModulesSeen.step {n : Nat} {seen seen' : List Bytes}
    (hseen : ModulesSeen data h n seen) (hbody : Accepts (checkModule data h n seen) seen') :
    ModulesSeen data h (n + 1) seen' := by
  obtain ⟨m, identity, hm, hok, hfresh, rfl⟩ := checkModule_accepts_iff.mp hbody
  obtain ⟨hall, hdistinct⟩ := hseen
  -- an earlier module with the identity just read would have left it in `seen`
  have hnew : ∀ i k, i < n → moduleAt data h i = some k →
      ¬ StringOk data h k.identityString identity := by
    intro i k hi hk hs
    obtain ⟨k', identity', hk', hok', hmem⟩ := hall i hi
    rw [hk] at hk'
    cases hk'
    rw [hok'.identityString.unique hs] at hmem
    exact hfresh hmem
  refine ⟨fun i hi => ?_, fun i j a b s hi hj ha hb hsa hsb => ?_⟩
  · rcases Nat.lt_succ_iff_lt_or_eq.mp hi with hlt | rfl
    · obtain ⟨k, ident, hk, hkok, hmem⟩ := hall i hlt
      exact ⟨k, ident, hk, hkok, List.mem_cons_of_mem _ hmem⟩
    · exact ⟨m, identity, hm, hok, List.mem_cons_self⟩
  · rcases Nat.lt_succ_iff_lt_or_eq.mp hi with hilt | rfl <;>
      rcases Nat.lt_succ_iff_lt_or_eq.mp hj with hjlt | rfl
    · exact hdistinct i j a b s hilt hjlt ha hb hsa hsb
    · rw [hm] at hb
      cases hb
      rw [hok.identityString.unique hsb] at hnew
      exact absurd hsa (hnew i a hilt ha)
    · rw [hm] at ha
      cases ha
      rw [hok.identityString.unique hsa] at hnew
      exact absurd hsb (hnew j b hjlt hb)
    · rfl

theorem checkModules_accepts {n : Nat} {seen : List Bytes}
    (hacc : Accepts (forRange (checkModule data h) 0 n []) seen) : ModulesSeen data h n seen := by
  have hinit : ModulesSeen data h 0 [] :=
    ⟨fun i hi => absurd hi (Nat.not_lt_zero i), fun i _ _ _ _ hi => absurd hi (Nat.not_lt_zero i)⟩
  have hinv := forRange_invariant (ModulesSeen data h)
    (fun i t t' _ _ ht hbody => ht.step hbody) hinit hacc
  simpa using hinv

/-- Valid and pairwise distinct modules pass the module loop. -/
theorem checkModules_of_valid {n : Nat}
    (hmodules : ∀ i < n, ∃ m identity, moduleAt data h i = some m ∧ ModuleOk data h m identity)
    (hdistinct : ∀ i j m k s, i < n → j < n → moduleAt data h i = some m →
      moduleAt data h j = some k → StringOk data h m.identityString s →
      StringOk data h k.identityString s → i = j) :
    ∃ seen, Accepts (forRange (checkModule data h) 0 n []) seen := by
  -- invariant: what has been seen are identities of earlier modules
  let I : Nat → List Bytes → Prop := fun i seen => ∀ s ∈ seen, ∃ j m, j < i ∧
    moduleAt data h j = some m ∧ StringOk data h m.identityString s
  have hstep : ∀ i t, 0 ≤ i → i < 0 + n → I i t →
      ∃ t', Accepts (checkModule data h i t) t' ∧ I (i + 1) t' := by
    intro i t _ hi ht
    have hin : i < n := by omega
    obtain ⟨m, identity, hm, hok⟩ := hmodules i hin
    have hfresh : identity ∉ t := by
      intro hmem
      obtain ⟨j, k, hji, hk, hs⟩ := ht identity hmem
      have hij := hdistinct j i k m identity (by omega) hin hk hm hs hok.identityString
      omega
    refine ⟨identity :: t, checkModule_accepts_iff.mpr ⟨m, identity, hm, hok, hfresh, rfl⟩, ?_⟩
    intro s hs
    rcases List.mem_cons.mp hs with rfl | hmem
    · exact ⟨i, m, by omega, hm, hok.identityString⟩
    · obtain ⟨j, k, hji, hk, hks⟩ := ht s hmem
      exact ⟨j, k, by omega, hk, hks⟩
  have hinit : I 0 [] := by
    intro s hs
    simp at hs
  obtain ⟨seen, hacc, _⟩ := forRange_accepts_of I hstep hinit
  exact ⟨seen, hacc⟩

theorem checkNativeRow_accepts_iff
    (htable : ∀ j < h.nativeCount.toNat, ∃ row, nativeAt data h j = some row)
    {u v : Unit} :
    Accepts (checkNativeRow data h i u) v ↔
      ∃ m, moduleAt data h i = some m ∧ (m.kind = ModuleKind.kNative.toU32 →
        ∃ j row, j < h.nativeCount.toNat ∧ nativeAt data h j = some row ∧
          row.moduleIndex.toNat = i) := by
  simp only [checkNativeRow, accepts_bind, accepts_load]
  constructor
  · rintro ⟨m, hm, hrest⟩
    refine ⟨m, hm, fun hkind => ?_⟩
    simp only [hkind, bne_self_eq_false, Bool.false_eq_true, if_false, accepts_bind, accepts_load,
      accepts_require] at hrest
    obtain ⟨found, hfound, rfl⟩ := hrest
    obtain ⟨k, row, _, hlt, hk, hki⟩ := findNativeRow_eq_true hfound
    exact ⟨k, row, by omega, hk, hki⟩
  · rintro ⟨m, hm, hrow⟩
    refine ⟨m, hm, ?_⟩
    by_cases hkind : m.kind = ModuleKind.kNative.toU32
    · obtain ⟨j, row, hj, hk, hki⟩ := hrow hkind
      simp only [hkind, bne_self_eq_false, Bool.false_eq_true, if_false, accepts_bind,
        accepts_load, accepts_require]
      refine ⟨true, ?_, rfl⟩
      exact findNativeRow_of_row hk hki (fun l _ hl => htable l (by omega)) (Nat.zero_le j)
        (by omega)
    · simp only [bne_iff_ne, ne_eq, hkind, not_false_eq_true, if_true]
      exact accepts_pure.mpr rfl

/-! ### The whole pass -/

/-- The validation pass accepts exactly the buffers whose header is `Valid` and, when the caller
enforces it, carries the expected generation. -/
theorem openImpl_accepts_iff {generation : UInt32} {enforce : Bool}
    {r : BundleReader} :
    Accepts (openImpl data generation enforce) r ↔
      r.data = data ∧ Valid data r.header ∧
        (enforce = true → r.header.generationTag = generation) := by
  simp only [openImpl, accepts_bind, accepts_load, accepts_require, accepts_pure]
  constructor
  · rintro ⟨_, hsize, magic, hmagic, h, hheader, _, hmagicEq, _, hhdr, seen, hmods, _, hedges, _,
      hpreloads, _, hnatives, _, hrows, _, hvm, rfl⟩
    obtain ⟨hversion, hgen, hflags, hstrings, hmt, het, hpt, hnt, hvt, hpl, halign, hcount,
      hentry⟩ := checkHeader_accepts_iff.mp hhdr
    obtain ⟨hmodules, hdistinct⟩ := checkModules_accepts hmods
    have hnat : ∀ i < h.nativeCount.toNat, ∃ row, nativeAt data h i = some row ∧
        NativeOk data h row ∧ nativeSorted data h i row = some true := fun i hi =>
      (checkNative_accepts_iff hstrings).mp (forRange_unit_accepts.mp hnatives i hi)
    have hrow : ∀ i < h.nativeCount.toNat, ∃ row, nativeAt data h i = some row := fun i hi =>
      let ⟨row, hr, _⟩ := hnat i hi
      ⟨row, hr⟩
    refine ⟨rfl, ?_, hgen⟩
    refine { size := by simpa using hsize, header := hheader, magic := ?_,
             formatVersion := hversion, containerFlags := hflags, strings := hstrings,
             moduleTable := hmt, edgeTable := het, preloadTable := hpt, nativeTable := hnt,
             vmOptionsTable := hvt, payload := hpl, aligned := halign, moduleCount := hcount,
             entry := hentry, modules := fun i hi => ?_, distinct := hdistinct,
             edges := fun i hi => ?_, preloads := fun i hi => ?_, natives := fun i hi => ?_,
             nativesSorted := ?_, nativeRows := ?_, vmOptions := fun i hi => ?_ }
    · rw [hmagic, eq_of_beq hmagicEq]
    · obtain ⟨m, identity, hm, hok, _⟩ := hmodules i hi
      exact ⟨m, identity, hm, hok⟩
    · exact (checkEdge_accepts_iff hstrings).mp (forRange_unit_accepts.mp hedges i hi)
    · exact checkPreload_accepts_iff.mp (forRange_unit_accepts.mp hpreloads i hi)
    · obtain ⟨row, hr, hok, _⟩ := hnat i hi
      exact ⟨row, hr, hok⟩
    · intro i a b hi ha hb
      obtain ⟨row, hr, _, hsorted⟩ := hnat (i + 1) hi
      rw [hb] at hr
      cases hr
      obtain ⟨before, hbefore, hlt⟩ := nativeSorted_eq_true_iff.mp hsorted i rfl
      rw [ha] at hbefore
      cases hbefore
      exact hlt
    · intro i m hi hm hkind
      obtain ⟨m', hm', hsome⟩ :=
        (checkNativeRow_accepts_iff hrow).mp (forRange_unit_accepts.mp hrows i hi)
      rw [hm] at hm'
      cases hm'
      exact hsome hkind
    · exact (checkVmOption_accepts_iff hstrings).mp (forRange_unit_accepts.mp hvm i hi)
  · rintro ⟨rfl, hv, hgen⟩
    obtain ⟨seen, hseen⟩ := checkModules_of_valid hv.modules hv.distinct
    have hrow : ∀ i < r.header.nativeCount.toNat, ∃ row, nativeAt r.data r.header i = some row :=
      fun i hi =>
        let ⟨row, hr, _⟩ := hv.natives i hi
        ⟨row, hr⟩
    refine ⟨(), by simpa using hv.size, kBundleMagic, hv.magic, r.header, hv.header, (),
      by simp, (), checkHeader_accepts_iff.mpr ⟨hv.formatVersion, hgen, hv.containerFlags,
        hv.strings, hv.moduleTable, hv.edgeTable, hv.preloadTable, hv.nativeTable,
        hv.vmOptionsTable, hv.payload, hv.aligned, hv.moduleCount, hv.entry⟩, seen, hseen, (),
      forRange_unit_accepts.mpr fun i hi => ?_, (), forRange_unit_accepts.mpr fun i hi => ?_, (),
      forRange_unit_accepts.mpr fun i hi => ?_, (), forRange_unit_accepts.mpr fun i hi => ?_, (),
      forRange_unit_accepts.mpr fun i hi => ?_, rfl⟩
    · exact (checkEdge_accepts_iff hv.strings).mpr (hv.edges i hi)
    · exact checkPreload_accepts_iff.mpr (hv.preloads i hi)
    · obtain ⟨row, hr, hok⟩ := hv.natives i hi
      refine (checkNative_accepts_iff hv.strings).mpr ⟨row, hr, hok, ?_⟩
      refine nativeSorted_eq_true_iff.mpr fun prev hprev => ?_
      subst hprev
      obtain ⟨before, hbefore⟩ := hrow prev (by omega)
      exact ⟨before, hbefore, hv.nativesSorted prev before row hi hbefore hr⟩
    · obtain ⟨m, identity, hm, _⟩ := hv.modules i hi
      exact (checkNativeRow_accepts_iff hrow).mpr ⟨m, hm, hv.nativeRows i m hi hm⟩
    · exact (checkVmOption_accepts_iff hv.strings).mpr (hv.vmOptions i hi)

end HermesNode.Bundle
