/-
Module: HermesNode.Loader.Identities
Purpose: Identities on their way into JavaScript and back. The natives hand a module out as the text
  its identity decodes to; the text is joined to the root for a filename, which is the key of
  `Module._cache`, and is encoded again when it is passed to a native. `open` takes any bytes
  without a NUL for the segments of an identity, so nothing makes them UTF-8: the two theorems say
  that this is all that is missing.
Trusted boundary: human-reviewed spec (transcribed from `lib/bundle/bundle_run.cpp` and
  `libjs/bundle-loader.js`)
Main exports: HandedOut, Survives, identities_survive_iff, identities_name_files_iff
-/
import HermesNode.Bundle.RootPaths
import HermesNode.Loader.Agreement

namespace HermesNode.Loader

open HermesNode.Bundle Resolve

/-- A JavaScript string is kept as the WTF-8 of its code units, so a UTF-8 text decodes to the
string that is written like it. -/
structure Napi.Decodes (napi : Napi) : Prop extends napi.Lawful where
  text : ∀ b, isUtf8 b = true → napi.ofUtf8 b = b

theorem Napi.Decodes.encode {napi : Napi} (h : napi.Decodes) {b : Bytes} (hb : isUtf8 b = true) :
    napi.toUtf8 b = b := by
  have hround := h.roundTrip b hb
  rwa [h.text b hb] at hround

namespace OpenBundle

variable (napi : Napi) (b : OpenBundle)

/-- `bundle.entry()`. -/
def bundleEntry : JsString := b.spelling napi b.reader.entry.toNat

/-- The module indices of the preload table, in run order. -/
def preloadRows : List Nat :=
  (List.range b.reader.preloadCount).map fun k => ((b.reader.preload k).map (·.toNat)).getD 0

/-- `bundle.preloads()`. -/
def bundlePreloads : List JsString := b.preloadRows.map (b.spelling napi)

/-- The identities of `bundle.natives()`. -/
def bundleNatives : List JsString := b.nativeRows.map (b.spelling napi)

/-- What `bundle.load` answers for a record once it has found it. -/
def recordReply (i : Nat) : LoadReply :=
  if !b.isRequirable i then .resolveOnly
  else match b.reader.kind i with
    | some .kNative => .nativeAddon
    | some .kJSON => .text i
    | _ => .wrapper i

/-- The edge of a record for a specifier. -/
def recordEdge (i : Nat) (specifier : JsString) : Option Nat :=
  (b.reader.lookup (UInt32.ofNat i) (napi.toUtf8 specifier)).join.map (·.toNat)

/-- The filename of a module, which is its key in `Module._cache`. -/
def filename (i : Nat) : JsString := posixJoin (napi.ofUtf8 b.root) (b.spelling napi i)

/-- The record `Module._cache` has under a filename when the given modules have been published into
it, one after another. -/
def cached (published : List Nat) (filename : JsString) : Option Nat :=
  published.reverse.find? fun i => b.filename napi i == filename

end OpenBundle

/-- A module some native hands out, with the string it is handed out as. -/
inductive HandedOut (napi : Napi) (b : OpenBundle) : Nat → JsString → Prop where
  | entry : HandedOut napi b b.reader.entry.toNat (b.bundleEntry napi)
  | preload {k i : Nat} {s : JsString} (hrow : b.preloadRows[k]? = some i)
      (hs : (b.bundlePreloads napi)[k]? = some s) : HandedOut napi b i s
  | native {k i : Nat} {s : JsString} (hrow : b.nativeRows[k]? = some i)
      (hs : (b.bundleNatives napi)[k]? = some s) : HandedOut napi b i s
  | lookup {importer specifier : JsString} {i : Nat} {s : JsString}
      (hrow : b.edgeTarget napi importer specifier = some i)
      (hs : b.bundleLookup napi importer specifier = some s) : HandedOut napi b i s
  | resolve {importer request : JsString} {paths : Option (List (Option JsString))} {i : Nat}
      {s : JsString} (hrow : b.resolveTarget napi importer request paths = some i)
      (hs : b.bundleResolve napi importer request paths = some s) : HandedOut napi b i s

/-- Every identity that is handed out means the record it came from: to `bundle.load`, to
`bundle.lookup` and as a key of `Module._cache`; and distinct modules are distinct strings. -/
structure Survives (napi : Napi) (b : OpenBundle) : Prop where
  record : ∀ i s, HandedOut napi b i s → b.indexOf (napi.toUtf8 s) = some i
  load : ∀ i s, HandedOut napi b i s → b.bundleLoad napi s = b.recordReply i
  lookup : ∀ i s specifier, HandedOut napi b i s →
    b.edgeTarget napi s specifier = b.recordEdge napi i specifier
  cache : ∀ published : List Nat, (∀ j ∈ published, ∃ s, HandedOut napi b j s) →
    ∀ i s, i ∈ published → HandedOut napi b i s →
      b.cached napi published (posixJoin (napi.ofUtf8 b.root) s) = some i
  distinct : ∀ i j s t, HandedOut napi b i s → HandedOut napi b j t → i ≠ j → s ≠ t

section

variable {napi : Napi} {b : OpenBundle}

theorem HandedOut.spelling_eq {i : Nat} {s : JsString} (h : HandedOut napi b i s) :
    s = b.spelling napi i := by
  cases h with
  | entry => rfl
  | preload hrow hs =>
      simp only [OpenBundle.bundlePreloads, List.getElem?_map, hrow, Option.map_some] at hs
      exact (Option.some.inj hs).symm
  | native hrow hs =>
      simp only [OpenBundle.bundleNatives, List.getElem?_map, hrow, Option.map_some] at hs
      exact (Option.some.inj hs).symm
  | lookup hrow hs =>
      rw [OpenBundle.bundleLookup, hrow] at hs
      exact (Option.some.inj hs).symm
  | resolve hrow hs =>
      rw [OpenBundle.bundleResolve, hrow] at hs
      exact (Option.some.inj hs).symm

theorem preloadRows_lt (hv : Valid b.reader.data b.reader.header) {i : Nat}
    (hi : i ∈ b.preloadRows) : i < b.reader.moduleCount := by
  rcases List.mem_map.mp hi with ⟨k, hk, rfl⟩
  rcases hv.preloads k (List.mem_range.mp hk) with ⟨index, _, hat, hlt, _⟩
  have hread : b.reader.preload k = some index := hat
  have hbelow : index.toNat < b.reader.moduleCount := UInt32.lt_iff_toNat_lt.mp hlt
  simpa [hread] using hbelow

theorem HandedOut.lt (hv : Valid b.reader.data b.reader.header) {i : Nat} {s : JsString}
    (h : HandedOut napi b i s) : i < b.reader.moduleCount := by
  cases h with
  | entry => exact UInt32.lt_iff_toNat_lt.mp hv.entry
  | preload hrow _ => exact preloadRows_lt hv (List.mem_of_getElem? hrow)
  | native hrow _ => exact nativeRows_lt hv (List.mem_of_getElem? hrow)
  | lookup hrow _ => exact edgeTarget_lt hv hrow
  | resolve hrow _ => exact resolveTarget_lt hv hrow

/-- A string that comes back names a record exactly when the record's identity is UTF-8. -/
theorem indexOf_spelling_iff (hnapi : napi.Lawful) (hv : Valid b.reader.data b.reader.header)
    {i : Nat} (hi : i < b.reader.moduleCount) :
    b.indexOf (napi.toUtf8 (b.spelling napi i)) = some i ↔ isUtf8 (b.identity i) = true := by
  constructor
  · intro h
    rw [((indexOf_eq_some_iff hv).mp h).2]
    exact hnapi.utf8 _
  · intro hutf
    rw [OpenBundle.spelling, hnapi.roundTrip _ hutf]
    exact (indexOf_eq_some_iff hv).mpr ⟨hi, rfl⟩

theorem spelling_inj (hnapi : napi.Lawful) (hv : Valid b.reader.data b.reader.header) {i j : Nat}
    (hi : i < b.reader.moduleCount) (hj : j < b.reader.moduleCount)
    (hutf : isUtf8 (b.identity i) = true) (hutf' : isUtf8 (b.identity j) = true)
    (heq : b.spelling napi i = b.spelling napi j) : i = j := by
  have hback := (indexOf_spelling_iff hnapi hv hi).mpr hutf
  rw [heq, (indexOf_spelling_iff hnapi hv hj).mpr hutf'] at hback
  exact (Option.some.inj hback).symm

/-- The identity of a module is a plain relative path, also in JavaScript when it is UTF-8. -/
theorem spelling_plain (hnapi : napi.Decodes) (hv : Valid b.reader.data b.reader.header) {i : Nat}
    (hi : i < b.reader.moduleCount) (hutf : isUtf8 (b.identity i) = true) :
    Plain (splitSlash (b.spelling napi i)) := by
  rw [OpenBundle.spelling, hnapi.text _ hutf]
  have hsound := sound_of_valid hv b.root
  exact plain_of_isValidIdentity
    (hsound.valid { identity := b.identity i, moduleIndex := i } (mem_records.mpr ⟨hi, rfl⟩))

theorem filename_inj (hnapi : napi.Decodes) (hv : Valid b.reader.data b.reader.header) {i j : Nat}
    (hi : i < b.reader.moduleCount) (hj : j < b.reader.moduleCount)
    (hutf : isUtf8 (b.identity i) = true) (hutf' : isUtf8 (b.identity j) = true)
    (heq : b.filename napi i = b.filename napi j) : i = j := by
  apply spelling_inj hnapi.toLawful hv hi hj hutf hutf'
  exact posixJoin_injective (spelling_plain hnapi hv hi hutf) (spelling_plain hnapi hv hj hutf') heq

/-- A cache whose keys are distinct answers with the record that was published. -/
theorem cached_eq {published : List Nat} {i : Nat} (hi : i ∈ published)
    (hinj : ∀ j ∈ published, b.filename napi j = b.filename napi i → j = i) :
    b.cached napi published (b.filename napi i) = some i := by
  unfold OpenBundle.cached
  cases hfind : published.reverse.find? fun j => b.filename napi j == b.filename napi i with
  | none =>
      have hnot := List.find?_eq_none.mp hfind i (List.mem_reverse.mpr hi)
      simp at hnot
  | some j =>
      have hmem := List.mem_reverse.mp (List.mem_of_find?_eq_some hfind)
      have hkey := List.find?_some hfind
      rw [hinj j hmem (by simpa using hkey)]

/-! ### What is handed out -/

theorem survives_iff (hnapi : napi.Decodes) (hv : Valid b.reader.data b.reader.header) :
    Survives napi b ↔ ∀ i s, HandedOut napi b i s → isUtf8 (b.identity i) = true := by
  constructor
  · intro h i s hout
    have hrecord := h.record i s hout
    rw [hout.spelling_eq] at hrecord
    exact (indexOf_spelling_iff hnapi.toLawful hv (hout.lt hv)).mp hrecord
  · intro hutf
    have hrecord : ∀ i s, HandedOut napi b i s → b.indexOf (napi.toUtf8 s) = some i := by
      intro i s hout
      rw [hout.spelling_eq]
      exact (indexOf_spelling_iff hnapi.toLawful hv (hout.lt hv)).mpr (hutf i s hout)
    constructor
    · exact hrecord
    · intro i s hout
      simp only [OpenBundle.bundleLoad, hrecord i s hout]
      rfl
    · intro i s specifier hout
      rw [OpenBundle.edgeTarget, hrecord i s hout]
      rfl
    · intro published hpublished i s hi hout
      have hkey : posixJoin (napi.ofUtf8 b.root) s = b.filename napi i := by
        rw [hout.spelling_eq]
        rfl
      rw [hkey]
      apply cached_eq hi
      intro j hj heq
      obtain ⟨t, hout'⟩ := hpublished j hj
      exact filename_inj hnapi hv (hout'.lt hv) (hout.lt hv) (hutf j t hout') (hutf i s hout) heq
    · intro i j s t hi hj hne heq
      have hback := hrecord i s hi
      rw [heq, hrecord j t hj] at hback
      exact hne (Option.some.inj hback).symm

/-- Over every container `open` accepts, identities survive the crossing exactly when those that
are handed out are UTF-8. -/
theorem identities_survive_iff (napi : Napi) (hnapi : napi.Decodes) (b : OpenBundle) (data : Bytes)
    (generation : UInt32) (hopen : Check.Accepts (BundleReader.open data generation) b.reader) :
    Survives napi b ↔ ∀ i s, HandedOut napi b i s → isUtf8 (b.identity i) = true := by
  rcases openImpl_accepts_iff.mp hopen with ⟨hdata, hv, _⟩
  rw [← hdata] at hv
  exact survives_iff hnapi hv

theorem replacingNapi_decodes : replacingNapi.Decodes where
  toLawful := replacingNapi_lawful
  text b hb := by simp [replacingNapi, hb]

theorem resolveOnlyBundle_utf8 : ∀ i < resolveOnlyBundle.reader.moduleCount,
    isUtf8 (resolveOnlyBundle.identity i) = true := by
  decide +kernel

theorem ascii_identities_survive : Survives replacingNapi resolveOnlyBundle := by
  apply (identities_survive_iff replacingNapi replacingNapi_decodes resolveOnlyBundle
    resolveOnlyContainer 7 resolveOnlyContainer_opens).mpr
  intro i s hout
  obtain ⟨hdata, hv, _⟩ := openImpl_accepts_iff.mp resolveOnlyContainer_opens
  rw [← hdata] at hv
  exact resolveOnlyBundle_utf8 i (hout.lt hv)

/-- Two modules, the entry and a preload, with identities of one byte each that are not UTF-8. -/
def latinContainer : Bytes :=
  ((BundleWriter.run
    [.addModule [0xFE] .kJavaScript kRequirable [],
      .addModule [0xFF] .kJavaScript kRequirable [],
      .addPreload 1,
      .setEntry 0]).serialize 7).1

def latinBundle : OpenBundle where
  reader := { data := latinContainer
              header := (BundleHeader.read latinContainer).getD singleModuleHeader }
  root := ascii "/srv"

/-- The container opens, the entry's identity does not load under its spelling, and the two modules
share a filename. -/
theorem latinBundle_replies :
    Check.Accepts (BundleReader.open latinContainer 7) latinBundle.reader ∧
      (latinBundle.bundleLoad replacingNapi (latinBundle.bundleEntry replacingNapi) =
          .noSuchModule ∧
        latinBundle.recordReply latinBundle.reader.entry.toNat = .wrapper 0) ∧
      latinBundle.reader.moduleCount = 2 ∧
        latinBundle.filename replacingNapi 0 = latinBundle.filename replacingNapi 1 := by
  unfold Check.Accepts
  decide +kernel

/-- Both are handed out as U+FFFD, which `bundle.load` does not know. -/
theorem latin_identities_lost :
    Check.Accepts (BundleReader.open latinContainer 7) latinBundle.reader ∧
      ¬ Survives replacingNapi latinBundle := by
  rcases latinBundle_replies with ⟨hopens, ⟨hrefused, hreply⟩, _⟩
  refine ⟨hopens, ?_⟩
  intro h
  have hload := h.load _ _ HandedOut.entry
  rw [hrefused, hreply] at hload
  cases hload

end

/-! ### Filenames -/

/-- Every module's filename is in normal form and below the root, no two modules share one, and the
three ways to find a module by it or by its identity end at its own record. -/
structure NamesFiles (napi : Napi) (b : OpenBundle) : Prop where
  normal : ∀ i < b.reader.moduleCount, lexicallyNormal (b.filename napi i) = b.filename napi i
  below : ∀ i < b.reader.moduleCount, Below (napi.ofUtf8 b.root) (b.filename napi i)
  injective : ∀ i < b.reader.moduleCount, ∀ j < b.reader.moduleCount,
    b.filename napi i = b.filename napi j → i = j
  fileSource : ∀ i < b.reader.moduleCount,
    (b.fileSource.identityFor (napi.toUtf8 (b.filename napi i))).bind b.fileSource.find =
      some { identity := b.identity i, moduleIndex := i }
  byIdentity : ∀ i < b.reader.moduleCount,
    b.indexOf (napi.toUtf8 (b.spelling napi i)) = some i
  cache : ∀ published : List Nat, (∀ j ∈ published, j < b.reader.moduleCount) →
    ∀ i ∈ published, b.cached napi published (b.filename napi i) = some i

section

variable {napi : Napi} {b : OpenBundle}

/-- A path behind the root is UTF-8 exactly when the root and it are. -/
theorem rootPrefix_utf8 (s : BundleFileSource) (rel : Bytes) :
    isUtf8 (s.rootPrefix ++ rel) = (isUtf8 s.root && isUtf8 rel) := by
  cases hend : endsInSlash s.root with
  | true =>
      have hlast : s.root.getLast? = some slash := by simpa [endsInSlash] using hend
      obtain ⟨front, hfront⟩ := List.getLast?_eq_some_iff.mp hlast
      have hroot : s.rootPrefix = front ++ [slash] := by
        rw [BundleFileSource.rootPrefix, if_pos hend, hfront]
      have hnil : isUtf8 [] = true := by decide
      rw [hroot, hfront, List.append_assoc, List.singleton_append, isUtf8_split slash_ascii,
        isUtf8_split slash_ascii, hnil, Bool.and_true]
  | false =>
      have hroot : s.rootPrefix = s.root ++ [slash] := by
        simp [BundleFileSource.rootPrefix, hend]
      rw [hroot, List.append_assoc, List.singleton_append, isUtf8_split slash_ascii]

/-- The filename of a module with a UTF-8 identity under a UTF-8 root. -/
theorem filename_eq (hnapi : napi.Decodes) (hv : Valid b.reader.data b.reader.header)
    (hroot : NormalPath b.root) (hrootUtf8 : isUtf8 b.root = true) {i : Nat}
    (hi : i < b.reader.moduleCount) (hutf : isUtf8 (b.identity i) = true) :
    b.filename napi i = b.fileSource.rootPrefix ++ b.identity i := by
  have hplain := spelling_plain hnapi hv hi hutf
  rw [OpenBundle.spelling, hnapi.text _ hutf] at hplain
  have hne : b.fileSource.root ≠ [] := by
    intro hempty
    have habs := hroot.absolute
    rw [show b.root = [] from hempty] at habs
    cases habs
  rw [OpenBundle.filename, OpenBundle.spelling, hnapi.text _ hutf, hnapi.text _ hrootUtf8,
    hroot.posixJoin_eq hplain, rootPrefix_append hne (plain_not_absolute hplain)]
  rfl

theorem namesFiles_iff (hnapi : napi.Decodes) (hv : Valid b.reader.data b.reader.header)
    (hroot : NormalPath b.root) :
    NamesFiles napi b ↔
      isUtf8 b.root = true ∧ ∀ i < b.reader.moduleCount, isUtf8 (b.identity i) = true := by
  have hsound := sound_of_valid hv b.root
  have hrecord : ∀ i < b.reader.moduleCount,
      { identity := b.identity i, moduleIndex := i } ∈ b.fileSource.records :=
    fun i hi => mem_records.mpr ⟨hi, rfl⟩
  have hidentity : ∀ i < b.reader.moduleCount, Plain (splitSlash (b.identity i)) :=
    fun i hi => plain_of_isValidIdentity (hsound.valid _ (hrecord i hi))
  constructor
  · intro h
    have hparts : ∀ i < b.reader.moduleCount,
        isUtf8 b.root = true ∧ isUtf8 (b.identity i) = true := by
      intro i hi
      obtain ⟨rel, hrel, hfind⟩ := Option.bind_eq_some_iff.mp (h.fileSource i hi)
      have hsame := ((BundleFileSource.find_eq_some_iff hsound.distinct).mp hfind).2
      subst hsame
      have hutf := hnapi.utf8 (b.filename napi i)
      rcases identityFor_cases hrel with ⟨_, hempty⟩ | hpath
      · exact absurd hempty (plain_ne_nil (hidentity i hi))
      · rw [hpath, rootPrefix_utf8, Bool.and_eq_true] at hutf
        exact hutf
    have hsome : 0 < b.reader.moduleCount := by
      rcases Nat.eq_zero_or_pos b.reader.moduleCount with hzero | hpos
      · have hcount : b.reader.header.moduleCount = 0 := UInt32.toNat_inj.mp hzero
        exact absurd hcount hv.moduleCount
      · exact hpos
    exact ⟨(hparts 0 hsome).1, fun i hi => (hparts i hi).2⟩
  · rintro ⟨hrootUtf8, hutf⟩
    have hname : ∀ i < b.reader.moduleCount,
        b.filename napi i = b.fileSource.rootPrefix ++ b.identity i :=
      fun i hi => filename_eq hnapi hv hroot hrootUtf8 hi (hutf i hi)
    have hinj : ∀ i < b.reader.moduleCount, ∀ j < b.reader.moduleCount,
        b.filename napi i = b.filename napi j → i = j :=
      fun i hi j hj heq => filename_inj hnapi hv hi hj (hutf i hi) (hutf j hj) heq
    constructor
    · intro i hi
      have hplain := spelling_plain hnapi hv hi (hutf i hi)
      rw [OpenBundle.filename, hnapi.text _ hrootUtf8]
      exact (hroot.posixJoin_normal hplain).lexicallyNormal_eq
    · intro i hi
      have hplain := spelling_plain hnapi hv hi (hutf i hi)
      rw [OpenBundle.filename, hnapi.text _ hrootUtf8, hroot.posixJoin_eq hplain]
      exact below_append (plain_ne_nil hplain) (plain_not_absolute hplain)
    · exact hinj
    · intro i hi
      have hutf8 : isUtf8 (b.filename napi i) = true := by
        rw [hname i hi, rootPrefix_utf8]
        simp [hrootUtf8, hutf i hi, OpenBundle.fileSource]
      rw [hnapi.encode hutf8, hname i hi, identityFor_rootPrefix (plain_ne_nil (hidentity i hi)),
        Option.bind_some]
      exact (BundleFileSource.find_eq_some_iff hsound.distinct).mpr ⟨hrecord i hi, rfl⟩
    · intro i hi
      exact (indexOf_spelling_iff hnapi.toLawful hv hi).mpr (hutf i hi)
    · intro published hpublished i hi
      apply cached_eq hi
      intro j hj heq
      exact hinj j (hpublished j hj) i (hpublished i hi) heq

/-- Over every container `open` accepts, under every absolute root in normal form, identities name
distinct files below the root exactly when the root and every identity are UTF-8. -/
theorem identities_name_files_iff (napi : Napi) (hnapi : napi.Decodes) (b : OpenBundle)
    (data : Bytes) (generation : UInt32)
    (hopen : Check.Accepts (BundleReader.open data generation) b.reader)
    (hroot : NormalPath b.root) :
    NamesFiles napi b ↔
      isUtf8 b.root = true ∧ ∀ i < b.reader.moduleCount, isUtf8 (b.identity i) = true := by
  rcases openImpl_accepts_iff.mp hopen with ⟨hdata, hv, _⟩
  rw [← hdata] at hv
  exact namesFiles_iff hnapi hv hroot

theorem srv_normal : NormalPath (ascii "/srv") := by
  have hnames : Names [ascii "srv"] := by
    constructor
    · unfold Plain
      decide
    · decide
  exact NormalPath.file hnames

theorem ascii_identities_name_files : NamesFiles replacingNapi resolveOnlyBundle := by
  apply (identities_name_files_iff replacingNapi replacingNapi_decodes resolveOnlyBundle
    resolveOnlyContainer 7 resolveOnlyContainer_opens srv_normal).mpr
  exact ⟨by decide, resolveOnlyBundle_utf8⟩

/-- Both modules have the filename `/srv/` and U+FFFD, and so one key in `Module._cache`. -/
theorem latin_identities_share_file :
    Check.Accepts (BundleReader.open latinContainer 7) latinBundle.reader ∧
      NormalPath latinBundle.root ∧ ¬ NamesFiles replacingNapi latinBundle := by
  rcases latinBundle_replies with ⟨hopens, _, hcount, hshared⟩
  refine ⟨hopens, srv_normal, ?_⟩
  intro h
  have hsame := h.injective 0 (by rw [hcount]; decide) 1 (by rw [hcount]; decide) hshared
  cases hsame

end

end HermesNode.Loader
