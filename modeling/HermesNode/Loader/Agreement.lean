/-
Module: HermesNode.Loader.Agreement
Purpose: `require()` and `require.resolve()` over one container. Without an `options.paths` all three
  entry points compute one answer, `answerFor`: the module the edge table names, else the module the
  container's resolver names, else what the binary carries. Whether the require that follows a
  successful resolve then loads that module depends on the container: `open` does not check that an
  edge ends at a requirable module or that an identity survives the way through JavaScript.
Trusted boundary: none
Main exports: namedModule, Agrees, resolve_require_agree_iff
-/
import HermesNode.Bundle.Writer
import HermesNode.Loader.ClosedWorld

namespace HermesNode.Loader

open HermesNode.Bundle Resolve

/-! ### Loading an identity -/

/-- The record `loadIdentity` builds for a module of the container, as later requires see it. -/
def bundledRecord (host : Host) (b : OpenBundle) (identity : JsString) : Parent :=
  let filename := posixJoin (host.napi.ofUtf8 b.root) identity
  { bundleIdentity := .string identity
    filename := .string filename
    id := .string filename
    path := .string (parentPath filename) }

/-- The module whose body, text or sidecar `loadIdentity` runs for an identity that is not cached:
the sidecar table is asked before `bundle.load`. -/
def loadedModule (host : Host) (b : OpenBundle) (target : JsString) : Option Nat :=
  match b.nativeSidecar host.napi target with
  | some i => some i
  | none =>
      match b.bundleLoad host.napi target with
      | .wrapper i => some i
      | .text i => some i
      | .noSuchModule => none
      | .resolveOnly => none
      | .nativeAddon => none

inductive RequireReply where
  | loads (moduleIndex : Nat)
  /-- `bundle.load` refused the identity. -/
  | refused
  /-- `Module.prototype.require` rejects the empty string. -/
  | invalidArgument
  | other (reply : Reply)
deriving Repr, DecidableEq

/-- `require(request)` in a bundled module: `Module.prototype.require` and the `_load` wrapper. -/
def requireModule (host : Host) (b : OpenBundle) (identity request : JsString) (turns : Nat) :
    RequireReply :=
  if request.isEmpty then .invalidArgument
  else
    match (moduleLoad host b (.string request) (some (bundledRecord host b identity)) turns).reply
    with
    | .container target =>
        match loadedModule host b target with
        | some i => .loads i
        | none => .refused
    | reply => .other reply

/-! ### One answer -/

/-- The module the container names for a request: its edge, else what its resolver reaches. -/
def namedModule (host : Host) (b : OpenBundle) (identity request : JsString) : Option Nat :=
  (b.edgeTarget host.napi identity request).or (b.resolveTarget host.napi identity request none)

def answerFor (host : Host) (b : OpenBundle) (identity request : JsString) : Reply :=
  if (normalizeRequirableId request).isSome then .binary request
  else
    match namedModule host b identity request with
    | some i => .container (b.spelling host.napi i)
    | none =>
        if isEmbedded request then .binary (embeddedRequest request) else .threw .moduleNotFound

/-- `options` without a `paths`. -/
def Options.NoPaths : Options → Prop
  | .object _ _ paths => ∀ n, paths n = .value .undefined
  | _ => True

section

variable {host : Host} {b : OpenBundle} {identity request : JsString} {options : Options}

theorem malformedPaths_noPaths (h : options.NoPaths) (calls : Calls) :
    ∃ calls', (malformedPaths options).run calls = .ok ((false, false), calls') := by
  cases options with
  | undefined => exact ⟨calls, rfl⟩
  | null => exact ⟨calls, rfl⟩
  | primitive => exact ⟨calls, rfl⟩
  | object callable conditionsThrow paths =>
      refine ⟨{ calls with reads := calls.reads + 1 }, ?_⟩
      change (malformedPaths (.object callable conditionsThrow paths)) calls = _
      simp only [malformedPaths, Options.hasPaths, Options.readPaths, bind, StateT.bind, Except.bind,
        h calls.reads]
      rfl

theorem binary_of_builtin (h : (normalizeRequirableId request).isSome = true)
    (parent : Option Parent) (options : Options) (turns : Nat) (calls : Calls) :
    originalResolveFilename host (.string request) parent options turns calls =
      { reply := .binary request } := by
  rw [originalResolveFilename, if_pos h]

theorem moduleResolveFilename_builtin (h : (normalizeRequirableId request).isSome = true)
    (hpaths : options.NoPaths) (parent : Option Parent) (turns : Nat) (calls : Calls) :
    (moduleResolveFilename host b (.string request) parent options turns calls).reply =
      .binary request := by
  rcases malformedPaths_noPaths hpaths calls with ⟨calls', hrun⟩
  simp only [moduleResolveFilename, Js.andThen, hrun, h, Bool.or_true, if_true,
    binary_of_builtin h]

theorem pathsArgument_false (options : Options) (calls : Calls) :
    (pathsArgument options false).run calls = .ok (.undefined, calls) := rfl

/-- The two natives answer with the spelling of the module they name. -/
theorem named_lookup (identity request : JsString) :
    lookupValue host b (.string identity) request =
      (b.edgeTarget host.napi identity request).map (b.spelling host.napi) := rfl

theorem named_resolve (identity request : JsString) :
    resolveValue host b (.string identity) request .undefined =
      (b.resolveTarget host.napi identity request none).map (b.spelling host.napi) := rfl

theorem moduleResolveFilename_reply (hpaths : options.NoPaths) (turns : Nat) (calls : Calls) :
    (moduleResolveFilename host b (.string request) (some (bundledRecord host b identity)) options
      turns calls).reply = answerFor host b identity request := by
  cases hid : normalizeRequirableId request with
  | some id =>
      have hbuiltin : (normalizeRequirableId request).isSome = true := by rw [hid]; rfl
      rw [moduleResolveFilename_builtin hbuiltin hpaths, answerFor, if_pos hbuiltin]
  | none =>
      rcases malformedPaths_noPaths hpaths calls with ⟨calls', hrun⟩
      have himporter : identityOf host b (some (bundledRecord host b identity)) =
          some (.string identity) := rfl
      simp only [moduleResolveFilename, Js.andThen, hrun, hid, Option.isSome_none, Bool.or_self,
        Bool.false_eq_true, if_false, himporter, Option.isNone_some, Bool.and_false, Option.bind_some,
        named_lookup, pathsArgument_false, Option.getD_some, named_resolve, answerFor, namedModule]
      cases b.edgeTarget host.napi identity request with
      | some i => rfl
      | none =>
          cases b.resolveTarget host.napi identity request none with
          | some i => rfl
          | none =>
              simp only [Option.map_none, Option.or_none]
              cases hemb : isEmbedded request with
              | false => rfl
              | true =>
                  rw [if_pos rfl, if_pos rfl,
                    binary_of_builtin (normalizeRequirableId_embeddedRequest hemb)]

theorem requireResolve_reply (hpaths : options.NoPaths) (turns : Nat) :
    (requireResolve host b identity (bundledRecord host b identity) (.string request) options
      turns).reply = answerFor host b identity request := by
  rcases malformedPaths_noPaths hpaths {} with ⟨calls', hrun⟩
  cases hid : normalizeRequirableId request with
  | some id =>
      simp only [requireResolve, Js.andThen, hrun, hid, Option.isSome_some, Bool.or_true, if_true,
        baseResolve]
      exact moduleResolveFilename_reply hpaths turns calls'
  | none =>
      have hlookup : b.bundleLookup host.napi identity request =
          (b.edgeTarget host.napi identity request).map (b.spelling host.napi) := rfl
      simp only [requireResolve, Js.andThen, hrun, hid, Option.isSome_none, Bool.or_self,
        Bool.false_eq_true, if_false, hlookup, pathsArgument_false, named_resolve, answerFor,
        namedModule]
      cases b.edgeTarget host.napi identity request with
      | some i => rfl
      | none =>
          cases b.resolveTarget host.napi identity request none with
          | some i => rfl
          | none =>
              simp only [Option.map_none, Option.or_none]
              cases hemb : isEmbedded request with
              | false => rfl
              | true =>
                  rw [if_pos rfl, if_pos rfl]
                  exact moduleResolveFilename_builtin
                    (normalizeRequirableId_embeddedRequest hemb) hpaths _ turns calls'

theorem originalLoad_builtin (h : (normalizeRequirableId request).isSome = true) (turns : Nat) :
    (originalLoad host b (.string request) (some (bundledRecord host b identity)) turns).reply =
      .binary request := by
  have hkey : (cacheKey (.string request) (some (bundledRecord host b identity))).run {} =
      .ok ((), {}) := rfl
  have hcoerce : ∀ calls, (Value.coerce (.string request)).run calls = .ok (request, calls) := by
    intro calls
    rfl
  simp only [originalLoad, Js.andThen, hkey, hcoerce]
  cases startsWithNode request with
  | true => simp [h]
  | false =>
      exact @moduleResolveFilename_builtin host b request .undefined h trivial _ turns {}

theorem moduleLoad_reply (turns : Nat) :
    (moduleLoad host b (.string request) (some (bundledRecord host b identity)) turns).reply =
      answerFor host b identity request := by
  cases hid : normalizeRequirableId request with
  | some id =>
      have hbuiltin : (normalizeRequirableId request).isSome = true := by rw [hid]; rfl
      rw [moduleLoad, if_pos hbuiltin, answerFor, if_pos hbuiltin]
      exact originalLoad_builtin hbuiltin turns
  | none =>
      have himporter : identityOf host b (some (bundledRecord host b identity)) =
          some (.string identity) := rfl
      simp only [moduleLoad, hid, Option.isSome_none, Bool.false_eq_true, if_false, himporter,
        named_lookup, named_resolve, answerFor, namedModule]
      cases b.edgeTarget host.napi identity request with
      | some i => rfl
      | none =>
          cases b.resolveTarget host.napi identity request none with
          | some i => rfl
          | none =>
              simp only [Option.map_none, Option.or_none]
              cases hemb : isEmbedded request with
              | false => rfl
              | true =>
                  rw [if_pos rfl, if_pos rfl]
                  exact originalLoad_builtin (normalizeRequirableId_embeddedRequest hemb) turns

end

/-! ### What an accepted container provides -/

section Accepted

variable {napi : Napi} {b : OpenBundle}

theorem identity_inj (hv : Valid b.reader.data b.reader.header) {i j : Nat}
    (hi : i < b.reader.moduleCount) (hj : j < b.reader.moduleCount)
    (heq : b.identity i = b.identity j) : i = j := by
  rcases hv.modules i hi with ⟨m, s, hm, hok⟩
  rcases hv.modules j hj with ⟨n, t, hn, hok'⟩
  have hs : b.reader.identity i = some s := by
    simpa [BundleReader.identity, hm] using BundleReader.stringAt_eq hok.identityString
  have ht : b.reader.identity j = some t := by
    simpa [BundleReader.identity, hn] using BundleReader.stringAt_eq hok'.identityString
  have hst : s = t := by
    simpa [OpenBundle.identity, hs, ht] using heq
  subst hst
  exact hv.distinct i j m n s hi hj hm hn hok.identityString hok'.identityString

theorem indexOf_eq_some_iff (hv : Valid b.reader.data b.reader.header) {s : Bytes} {i : Nat} :
    b.indexOf s = some i ↔ i < b.reader.moduleCount ∧ b.identity i = s := by
  constructor
  · intro h
    have hmem := List.mem_of_find?_eq_some h
    have heq := List.find?_some h
    exact ⟨List.mem_range.mp hmem, by simpa using heq⟩
  · rintro ⟨hi, rfl⟩
    cases hfind : b.indexOf (b.identity i) with
    | none =>
        have hnone := List.find?_eq_none.mp hfind i (List.mem_range.mpr hi)
        simp at hnone
    | some j =>
        have hj := List.mem_range.mp (List.mem_of_find?_eq_some hfind)
        have heq := List.find?_some hfind
        rw [identity_inj hv hj hi (by simpa using heq)]

theorem edgeTarget_lt (hv : Valid b.reader.data b.reader.header) {importer specifier : JsString}
    {t : Nat} (h : b.edgeTarget napi importer specifier = some t) : t < b.reader.moduleCount := by
  rcases Option.bind_eq_some_iff.mp h with ⟨i, _, hlookup⟩
  rcases Option.map_eq_some_iff.mp hlookup with ⟨target, hjoin, rfl⟩
  rcases hv.lookup_sound (UInt32.ofNat i) (napi.toUtf8 specifier) with ⟨answer, hanswer, hedge⟩
  have htarget : answer = some target := by
    simpa [hanswer] using hjoin
  rcases hedge target htarget with ⟨k, hk, hrow⟩
  rcases hv.edges k hk with ⟨e, he, hok⟩
  rcases hok.specifier with ⟨specifier', hs⟩
  have hsame : e.target = target := by
    have hread : BundleReader.edge b.reader k = some ⟨e.importer, specifier', e.target⟩ := by
      simp [BundleReader.edge, he, BundleReader.stringAt_eq hs]
    have hviews := Option.some.inj (hread.symm.trans hrow)
    exact congrArg BundleReader.EdgeView.target hviews
  have hlt := UInt32.lt_iff_toNat_lt.mp hok.target
  rw [← hsame]
  exact hlt

theorem resolveTarget_lt (hv : Valid b.reader.data b.reader.header) {importer request : JsString}
    {paths : Option (List (Option JsString))} {t : Nat}
    (h : b.resolveTarget napi importer request paths = some t) : t < b.reader.moduleCount := by
  rcases Option.bind_eq_some_iff.mp h with ⟨path, _, hat⟩
  rcases Option.filter_eq_some_iff.mp hat with ⟨hindex, _⟩
  rcases Option.bind_eq_some_iff.mp hindex with ⟨rel, _, hrel⟩
  exact ((indexOf_eq_some_iff hv).mp hrel).1

theorem mem_nativeRows (hv : Valid b.reader.data b.reader.header) {t : Nat}
    (ht : t < b.reader.moduleCount) :
    t ∈ b.nativeRows ↔ b.reader.kind t = some .kNative := by
  have hrow : ∀ k < b.reader.nativeCount, ∃ row,
      nativeAt b.reader.data b.reader.header k = some row ∧
      ((b.reader.native k).map (·.moduleIndex.toNat)).getD 0 = row.moduleIndex.toNat := by
    intro k hk
    rcases hv.native_reads hk with ⟨row, v, hrow, hv', hindex⟩
    refine ⟨row, hrow, ?_⟩
    have hnative : b.reader.native k = some v := hv'
    simp [hnative, hindex]
  constructor
  · intro hmem
    rcases List.mem_map.mp hmem with ⟨k, hk, heq⟩
    rcases hrow k (List.mem_range.mp hk) with ⟨row, hat, hvalue⟩
    rcases hv.natives k (List.mem_range.mp hk) with ⟨row', hat', hok⟩
    rw [hat] at hat'
    cases hat'
    rcases hok.kind with ⟨m, hm, hkind⟩
    have hindex : row.moduleIndex.toNat = t := hvalue.symm.trans heq
    rw [hindex] at hm
    simp [BundleReader.kind, hm, hkind]
  · intro hkind
    rcases hv.modules t ht with ⟨m, _, hm, hok⟩
    rcases hok.kind with ⟨kind, hk⟩
    have hnative : kind = .kNative := by
      simpa [BundleReader.kind, hm, hk] using hkind
    rcases hv.nativeRows t m ht hm (by rw [hk, hnative]) with ⟨k, row, hlt, hat, hindex⟩
    rcases hrow k hlt with ⟨row', hat', hvalue⟩
    rw [hat] at hat'
    cases hat'
    exact List.mem_map.mpr ⟨k, List.mem_range.mpr hlt, hvalue.trans hindex⟩

/-- A module of the container is loaded under its own spelling: a native addon whose spelling no
later native row repeats; any other module when it is requirable, its identity is UTF-8 and no
native addon is spelled alike. Spellings of UTF-8 identities are distinct, so in a container that
holds only such identities this says: requirable or native. -/
def Loadable (napi : Napi) (b : OpenBundle) (t : Nat) : Prop :=
  if b.reader.kind t = some .kNative then
    ∃ before after, b.nativeRows = before ++ t :: after ∧
      ∀ i ∈ after, b.spelling napi i ≠ b.spelling napi t
  else
    isUtf8 (b.identity t) = true ∧ b.isRequirable t = true ∧
      ∀ i ∈ b.nativeRows, b.spelling napi i ≠ b.spelling napi t

theorem nativeSidecar_eq_some_iff {target : JsString} {t : Nat} :
    b.nativeSidecar napi target = some t ↔ b.spelling napi t = target ∧
      ∃ before after, b.nativeRows = before ++ t :: after ∧
        ∀ i ∈ after, b.spelling napi i ≠ target := by
  unfold OpenBundle.nativeSidecar
  rw [List.find?_eq_some_iff_append]
  simp only [beq_iff_eq, Bool.not_eq_true', beq_eq_false_iff_ne]
  apply and_congr_right
  intro _
  constructor
  · rintro ⟨front, back, heq, hfront⟩
    refine ⟨back.reverse, front.reverse, ?_, ?_⟩
    · have hrev := congrArg List.reverse heq
      simpa using hrev
    · intro i hi
      exact hfront i (List.mem_reverse.mp hi)
  · rintro ⟨before, after, heq, hafter⟩
    refine ⟨after.reverse, before.reverse, ?_, ?_⟩
    · rw [heq]
      simp
    · intro i hi
      exact hafter i (List.mem_reverse.mp hi)

/-- `bundle.load` hands out the module it was asked for and no other. -/
theorem indexOf_of_bundleLoad {target : JsString} {t : Nat}
    (h : b.bundleLoad napi target = .wrapper t ∨ b.bundleLoad napi target = .text t) :
    b.indexOf (napi.toUtf8 target) = some t := by
  unfold OpenBundle.bundleLoad at h
  cases hindex : b.indexOf (napi.toUtf8 target) with
  | none => simp [hindex] at h
  | some i =>
      cases hreq : b.isRequirable i with
      | false => simp [hindex, hreq] at h
      | true =>
          cases hk : b.reader.kind i with
          | none => simpa [hindex, hreq, hk] using h
          | some kind =>
              cases kind with
              | kNative => simp [hindex, hreq, hk] at h
              | kJSON => simpa [hindex, hreq, hk] using h
              | kJavaScript => simpa [hindex, hreq, hk] using h

theorem bundleLoad_spelling (hnapi : napi.Lawful) (hv : Valid b.reader.data b.reader.header)
    {t : Nat} (ht : t < b.reader.moduleCount) (hkind : b.reader.kind t ≠ some .kNative) :
    (b.bundleLoad napi (b.spelling napi t) = .wrapper t ∨
      b.bundleLoad napi (b.spelling napi t) = .text t) ↔
      isUtf8 (b.identity t) = true ∧ b.isRequirable t = true := by
  cases hutf : isUtf8 (b.identity t) with
  | true =>
      have hindex : b.indexOf (napi.toUtf8 (b.spelling napi t)) = some t := by
        rw [OpenBundle.spelling, hnapi.roundTrip _ hutf]
        exact (indexOf_eq_some_iff hv).mpr ⟨ht, rfl⟩
      unfold OpenBundle.bundleLoad
      simp only [hindex]
      cases hreq : b.isRequirable t with
      | false => simp
      | true =>
          cases hk : b.reader.kind t with
          | none => simp
          | some kind =>
              cases kind with
              | kNative => exact absurd hk hkind
              | kJSON => simp
              | kJavaScript => simp
  | false =>
      -- what comes back is UTF-8, so it is another identity or none at all
      simp only [Bool.false_eq_true, false_and, iff_false]
      intro h
      have hsame := ((indexOf_eq_some_iff hv).mp (indexOf_of_bundleLoad h)).2
      have hvalid := hnapi.utf8 (b.spelling napi t)
      rw [← hsame, hutf] at hvalid
      cases hvalid

/-- A module of the container is what its spelling loads exactly when it is `Loadable`. -/
theorem loadedModule_spelling_iff {host : Host} (hnapi : host.napi.Lawful)
    (hv : Valid b.reader.data b.reader.header) {t : Nat} (ht : t < b.reader.moduleCount) :
    loadedModule host b (b.spelling host.napi t) = some t ↔ Loadable host.napi b t := by
  by_cases hkind : b.reader.kind t = some .kNative
  · rw [Loadable, if_pos hkind]
    have hrow : t ∈ b.nativeRows := (mem_nativeRows hv ht).mpr hkind
    have hsome : ∃ i, b.nativeSidecar host.napi (b.spelling host.napi t) = some i := by
      apply Option.isSome_iff_exists.mp
      unfold OpenBundle.nativeSidecar
      rw [List.find?_isSome]
      exact ⟨t, List.mem_reverse.mpr hrow, beq_self_eq_true _⟩
    rcases hsome with ⟨i, hi⟩
    have hloaded : loadedModule host b (b.spelling host.napi t) =
        b.nativeSidecar host.napi (b.spelling host.napi t) := by
      rw [loadedModule, hi]
    rw [hloaded, nativeSidecar_eq_some_iff]
    simp
  · rw [Loadable, if_neg hkind]
    cases hside : b.nativeSidecar host.napi (b.spelling host.napi t) with
    | some i =>
        -- an addon is loaded in the module's place
        rcases nativeSidecar_eq_some_iff.mp hside with ⟨hspell, before, after, hrows, _⟩
        have hmem : i ∈ b.nativeRows := by
          rw [hrows]
          simp
        have hne : i ≠ t := by
          rintro rfl
          exact hkind ((mem_nativeRows hv ht).mp hmem)
        constructor
        · intro h
          rw [loadedModule, hside] at h
          exact absurd (Option.some.inj h) hne
        · rintro ⟨_, _, hnone⟩
          exact absurd hspell (hnone i hmem)
    | none =>
        have hnone : ∀ i ∈ b.nativeRows, b.spelling host.napi i ≠ b.spelling host.napi t := by
          intro i hi
          unfold OpenBundle.nativeSidecar at hside
          have hnot := List.find?_eq_none.mp hside i (List.mem_reverse.mpr hi)
          simpa using hnot
        rw [← and_assoc, and_iff_left hnone, ← bundleLoad_spelling hnapi hv ht hkind, loadedModule,
          hside]
        cases b.bundleLoad host.napi (b.spelling host.napi t) <;> simp

theorem nativeRows_nodup (hv : Valid b.reader.data b.reader.header) : b.nativeRows.Nodup := by
  apply List.Nodup.map_on _ List.nodup_range
  intro i hi j hj heq
  rcases hv.native_reads (List.mem_range.mp hi) with ⟨row, v, hrow, hv', hindex⟩
  rcases hv.native_reads (List.mem_range.mp hj) with ⟨row', w, hrow', hw', hindex'⟩
  have hi' : b.reader.native i = some v := hv'
  have hj' : b.reader.native j = some w := hw'
  have hsame : row.moduleIndex.toNat = row'.moduleIndex.toNat := by
    simpa [hi', hj', hindex, hindex'] using heq
  rcases Nat.lt_trichotomy i j with hlt | rfl | hgt
  · have h := UInt32.lt_iff_toNat_lt.mp (hv.natives_lt hlt (List.mem_range.mp hj) hrow hrow')
    exact absurd h (by rw [hsame]; exact Nat.lt_irrefl _)
  · rfl
  · have h := UInt32.lt_iff_toNat_lt.mp (hv.natives_lt hgt (List.mem_range.mp hi) hrow' hrow)
    exact absurd h (by rw [hsame]; exact Nat.lt_irrefl _)

theorem nativeRows_lt (hv : Valid b.reader.data b.reader.header) {i : Nat}
    (hi : i ∈ b.nativeRows) : i < b.reader.moduleCount := by
  rcases List.mem_map.mp hi with ⟨k, hk, rfl⟩
  rcases hv.natives k (List.mem_range.mp hk) with ⟨row, hrow, hok⟩
  rcases hv.native_reads (List.mem_range.mp hk) with ⟨row', v, hrow', hnative, hindex⟩
  rw [hrow] at hrow'
  cases hrow'
  have hread : b.reader.native k = some v := hnative
  have hlt : row.moduleIndex.toNat < b.reader.moduleCount :=
    UInt32.lt_iff_toNat_lt.mp hok.moduleIndex
  simpa [hread, hindex] using hlt

/-- In a container whose identities are all UTF-8, the modules that can be loaded are the requirable
ones and the addons. -/
theorem loadable_iff_of_utf8 (hnapi : napi.Lawful) (hv : Valid b.reader.data b.reader.header)
    (hutf : ∀ i < b.reader.moduleCount, isUtf8 (b.identity i) = true) {t : Nat}
    (ht : t < b.reader.moduleCount) :
    Loadable napi b t ↔ b.reader.kind t = some .kNative ∨ b.isRequirable t = true := by
  have hspelling : ∀ i ∈ b.nativeRows, b.spelling napi i = b.spelling napi t → i = t := by
    intro i hi heq
    have hbytes := congrArg napi.toUtf8 heq
    rw [OpenBundle.spelling, OpenBundle.spelling, hnapi.roundTrip _ (hutf i (nativeRows_lt hv hi)),
      hnapi.roundTrip _ (hutf t ht)] at hbytes
    exact identity_inj hv (nativeRows_lt hv hi) ht hbytes
  by_cases hkind : b.reader.kind t = some .kNative
  · rw [Loadable, if_pos hkind]
    simp only [hkind, true_or, iff_true]
    rcases List.append_of_mem ((mem_nativeRows hv ht).mpr hkind) with ⟨before, after, hsplit⟩
    refine ⟨before, after, hsplit, ?_⟩
    intro i hi heq
    have hmem : i ∈ b.nativeRows := by
      rw [hsplit]
      simp [hi]
    have hnodup := nativeRows_nodup hv
    rw [hsplit, List.nodup_append] at hnodup
    rw [hspelling i hmem heq] at hi
    exact (List.nodup_cons.mp hnodup.2.1).1 hi
  · rw [Loadable, if_neg hkind]
    simp only [hkind, false_or, hutf t ht, true_and, and_iff_left_iff_imp]
    intro _ i hi heq
    have hsame := hspelling i hi heq
    subst hsame
    exact hkind ((mem_nativeRows hv ht).mp hi)

end Accepted

/-! ### Agreement -/

/-- The three entry points answer alike, and a require loads the module that resolve answered. -/
structure Agrees (host : Host) (b : OpenBundle) (identity request : JsString) (options : Options)
    (turns : Nat) : Prop where
  resolveFilename :
    (requireResolve host b identity (bundledRecord host b identity) (.string request) options
      turns).reply =
    (moduleResolveFilename host b (.string request) (some (bundledRecord host b identity)) options
      turns {}).reply
  load :
    (requireResolve host b identity (bundledRecord host b identity) (.string request) options
      turns).reply =
    (moduleLoad host b (.string request) (some (bundledRecord host b identity)) turns).reply
  loads : ∀ target,
    (requireResolve host b identity (bundledRecord host b identity) (.string request) options
      turns).reply = .container target →
    ∃ t, namedModule host b identity request = some t ∧ b.spelling host.napi t = target ∧
      requireModule host b identity request turns = .loads t

/-- The request is not empty and the module the container names for it can be loaded. -/
def RequestLoads (host : Host) (b : OpenBundle) (identity request : JsString) : Prop :=
  normalizeRequirableId request = none → ∀ t, namedModule host b identity request = some t →
    request ≠ [] ∧ Loadable host.napi b t

theorem namedModule_lt {host : Host} {b : OpenBundle} {identity request : JsString}
    (hv : Valid b.reader.data b.reader.header) {t : Nat}
    (h : namedModule host b identity request = some t) : t < b.reader.moduleCount := by
  unfold namedModule at h
  cases hedge : b.edgeTarget host.napi identity request with
  | some i =>
      rw [hedge] at h
      cases h
      exact edgeTarget_lt hv hedge
  | none =>
      rw [hedge, Option.none_or] at h
      exact resolveTarget_lt hv h

theorem requireModule_named {host : Host} {b : OpenBundle} {identity request : JsString}
    (hnapi : host.napi.Lawful) (hv : Valid b.reader.data b.reader.header)
    (hid : normalizeRequirableId request = none) {t : Nat}
    (ht : namedModule host b identity request = some t) (turns : Nat) :
    requireModule host b identity request turns = .loads t ↔
      request ≠ [] ∧ Loadable host.napi b t := by
  have hanswer : answerFor host b identity request = .container (b.spelling host.napi t) := by
    simp [answerFor, hid, ht]
  rw [← loadedModule_spelling_iff hnapi hv (namedModule_lt hv ht)]
  unfold requireModule
  cases request with
  | nil => simp
  | cons c cs =>
      simp only [List.isEmpty_cons, Bool.false_eq_true, if_false, moduleLoad_reply, hanswer, ne_eq,
        reduceCtorEq, not_false_eq_true, true_and]
      cases loadedModule host b (b.spelling host.napi t) <;> simp

theorem agrees_iff {host : Host} {b : OpenBundle} (hnapi : host.napi.Lawful)
    (hv : Valid b.reader.data b.reader.header) (identity request : JsString) {options : Options}
    (hpaths : options.NoPaths) (turns : Nat) :
    Agrees host b identity request options turns ↔ RequestLoads host b identity request := by
  constructor
  · intro h hid t ht
    have hreply : (requireResolve host b identity (bundledRecord host b identity)
        (.string request) options turns).reply = .container (b.spelling host.napi t) := by
      rw [requireResolve_reply hpaths]
      simp [answerFor, hid, ht]
    rcases h.loads _ hreply with ⟨t', ht', _, hloads⟩
    rw [ht] at ht'
    cases ht'
    exact (requireModule_named hnapi hv hid ht turns).mp hloads
  · intro h
    constructor
    · rw [requireResolve_reply hpaths, moduleResolveFilename_reply hpaths]
    · rw [requireResolve_reply hpaths, moduleLoad_reply]
    · intro target hreply
      rw [requireResolve_reply hpaths] at hreply
      unfold answerFor at hreply
      split at hreply
      · cases hreply
      · rename_i hbuiltin
        have hid : normalizeRequirableId request = none := by
          simpa using hbuiltin
        cases ht : namedModule host b identity request with
        | some t =>
            rw [ht] at hreply
            cases hreply
            exact ⟨t, rfl, rfl, (requireModule_named hnapi hv hid ht turns).mpr (h hid t ht)⟩
        | none =>
            rw [ht] at hreply
            simp only at hreply
            split at hreply <;> cases hreply

/-- Over every container `open` accepts, `require` and `require.resolve` agree on a string exactly
when the module the container names for it is one that can be loaded. -/
theorem resolve_require_agree_iff (host : Host) (hnapi : host.napi.Lawful) (b : OpenBundle)
    (data : Bytes) (generation : UInt32)
    (hopen : Check.Accepts (BundleReader.open data generation) b.reader)
    (identity request : JsString) (options : Options) (hpaths : options.NoPaths) (turns : Nat) :
    Agrees host b identity request options turns ↔ RequestLoads host b identity request := by
  rcases openImpl_accepts_iff.mp hopen with ⟨hdata, hv, _⟩
  rw [← hdata] at hv
  exact agrees_iff hnapi hv identity request hpaths turns

/-- The conversions of an engine that passes UTF-8 through and replaces everything else. -/
def replacingNapi : Napi where
  toUtf8 s := if isUtf8 s then s else [0xEF, 0xBF, 0xBD]
  ofUtf8 s := if isUtf8 s then s else [0xEF, 0xBF, 0xBD]

theorem replacingNapi_lawful : replacingNapi.Lawful := by
  constructor
  · intro s
    simp only [replacingNapi]
    split
    · assumption
    · decide
  · intro s hs
    simp [replacingNapi, hs]

def replacingHost : Host := { plainHost with napi := replacingNapi }

/-- `a` requires `./b` and `./p`; `p` is there for the resolver only. -/
def resolveOnlyContainer : Bytes :=
  ((BundleWriter.run
    [.addModule (ascii "a") .kJavaScript kRequirable [],
      .addModule (ascii "b") .kJavaScript kRequirable [],
      .addModule (ascii "p") .kJSON 0 [],
      .addEdge 0 (ascii "./b") 1,
      .addEdge 0 (ascii "./p") 2,
      .setEntry 0]).serialize 7).1

def resolveOnlyBundle : OpenBundle where
  reader := { data := resolveOnlyContainer
              header := (BundleHeader.read resolveOnlyContainer).getD singleModuleHeader }
  root := ascii "/srv"

theorem resolveOnlyContainer_opens :
    Check.Accepts (BundleReader.open resolveOnlyContainer 7) resolveOnlyBundle.reader := by
  unfold Check.Accepts
  decide +kernel

/-- What the container says of the edge to `b`, and what the two routes answer for the edge to `p`. -/
theorem resolveOnlyBundle_edges :
    (namedModule replacingHost resolveOnlyBundle (ascii "a") (ascii "./b") = some 1 ∧
      resolveOnlyBundle.reader.kind 1 ≠ some .kNative ∧
      isUtf8 (resolveOnlyBundle.identity 1) = true ∧ resolveOnlyBundle.isRequirable 1 = true ∧
      resolveOnlyBundle.nativeRows = []) ∧
    (requireResolve replacingHost resolveOnlyBundle (ascii "a")
        (bundledRecord replacingHost resolveOnlyBundle (ascii "a")) (.string (ascii "./p"))
        .undefined 1).reply = .container (ascii "p") ∧
      requireModule replacingHost resolveOnlyBundle (ascii "a") (ascii "./p") 1 = .refused := by
  decide +kernel

/-- `./b` is resolved and loaded. -/
theorem requirable_edge_agrees :
    Agrees replacingHost resolveOnlyBundle (ascii "a") (ascii "./b") .undefined 1 := by
  apply (resolve_require_agree_iff replacingHost replacingNapi_lawful resolveOnlyBundle
    resolveOnlyContainer 7 resolveOnlyContainer_opens (ascii "a") (ascii "./b") .undefined trivial
    1).mpr
  rcases resolveOnlyBundle_edges.1 with ⟨hnamed, hkind, hutf, hrequirable, hrows⟩
  intro _ t ht
  rw [hnamed] at ht
  cases ht
  refine ⟨by decide, ?_⟩
  rw [Loadable, if_neg hkind]
  refine ⟨hutf, hrequirable, ?_⟩
  intro i hi
  rw [hrows] at hi
  cases hi

/-- The edge to `p` is accepted, `require.resolve('./p')` answers its path, and `require('./p')` is
refused as resolve-only. -/
theorem resolve_only_edge_refused :
    Check.Accepts (BundleReader.open resolveOnlyContainer 7) resolveOnlyBundle.reader ∧
      ¬ Agrees replacingHost resolveOnlyBundle (ascii "a") (ascii "./p") .undefined 1 := by
  refine ⟨resolveOnlyContainer_opens, ?_⟩
  intro h
  rcases h.loads (ascii "p") resolveOnlyBundle_edges.2.1 with ⟨t, _, _, hloads⟩
  rw [resolveOnlyBundle_edges.2.2] at hloads
  cases hloads

end HermesNode.Loader
