/-
Module: HermesNode.Build.Served
Purpose: The edges of a built container against the loader that serves them. The producer skips what
  `isBuiltinSpecifier` accepts, the loader forwards what `normalizeRequirableId` accepts, and the
  two differ in one name: `node:ws`, whose edge is never looked up. An empty specifier has an edge
  too when `node_modules` has an index file, and no `require` gets as far as the loader with it.
Trusted boundary: none
Main exports: normalizeRequirableId_isSome_iff, EdgeServed, edges_served_iff
-/
import HermesNode.Build.Routes
import HermesNode.Loader.Identities

namespace HermesNode.Build

open HermesNode.Bundle Resolve WorkList
open Check (Accepts)
open Loader (Host OpenBundle normalizeRequirableId requireModule namedModule)

/-! ### Two lists of builtins -/

/-- What the loader forwards before it looks at the edge table: what the producer skipped, and
`node:ws`. -/
theorem normalizeRequirableId_isSome_iff (s : Bytes) :
    (normalizeRequirableId s).isSome = true ↔
      isBuiltinSpecifier s = true ∨ s = ascii "node:ws" := by
  have hsplit := List.take_append_drop 5 s
  by_cases hnode : s.take 5 = ascii "node:"
  · have hws : s = ascii "node:ws" ↔ s.drop 5 = ascii "ws" := by
      constructor
      · rintro rfl
        rfl
      · intro hdrop
        rw [← hsplit, hnode, hdrop]
        rfl
    simp [normalizeRequirableId, Loader.startsWithNode, hnode, isBuiltinSpecifier, stripNodeScheme,
      Loader.allRequirableIds, vendoredIds, hws]
  · have hws : s ≠ ascii "node:ws" := by
      rintro rfl
      exact hnode rfl
    simp [normalizeRequirableId, Loader.startsWithNode, hnode, isBuiltinSpecifier, stripNodeScheme,
      hws]

theorem builtin_isUtf8 {s : Bytes} (h : isBuiltinSpecifier s = true) : isUtf8 s = true := by
  have hnames : ∀ name ∈ builtinIds,
      isUtf8 name = true ∧ isUtf8 (ascii "node:" ++ name) = true := by
    decide
  have hmem : stripNodeScheme s ∈ builtinIds := by simpa [isBuiltinSpecifier] using h
  by_cases hnode : s.take 5 = ascii "node:"
  · have hstrip : s = ascii "node:" ++ stripNodeScheme s := by
      rw [stripNodeScheme, if_pos (by rw [hnode]; rfl), ← hnode, List.take_append_drop]
    rw [hstrip]
    exact (hnames _ hmem).2
  · have hstrip : stripNodeScheme s = s := by simp [stripNodeScheme, hnode]
    rw [hstrip] at hmem
    exact (hnames s hmem).1

theorem builtin_no_target {disk : Disk} {path specifier target : Bytes}
    (h : targetOf disk path specifier = some target) : isBuiltinSpecifier specifier = false := by
  rcases Option.filter_eq_some_iff.mp h with ⟨hfound, _⟩
  unfold resolveLiteral at hfound
  split at hfound
  · cases hfound
  · rename_i hbuiltin
    simpa using hbuiltin

/-! ### Requires of a literal -/

theorem requireModule_forwarded {host : Host} {b : OpenBundle} {identity request : Bytes}
    (h : (normalizeRequirableId request).isSome = true) (turns : Nat) :
    requireModule host b identity request turns = .other (.binary request) := by
  have hne : request.isEmpty = false := by
    cases request with
    | nil => exact absurd h (by decide)
    | cons c cs => rfl
  rw [requireModule, hne, if_neg Bool.false_ne_true, Loader.moduleLoad_reply, Loader.answerFor,
    if_pos h]

/-- An edge between modules with UTF-8 identities is what the container names. -/
theorem namedModule_of_lookup {host : Host} {b : OpenBundle} (hnapi : host.napi.Lawful)
    (hv : Valid b.reader.data b.reader.header)
    (hutf : ∀ i < b.reader.moduleCount, isUtf8 (b.identity i) = true) {importer target : UInt32}
    {specifier : Bytes} (himporter : importer.toNat < b.reader.moduleCount)
    (hspecifier : isUtf8 specifier = true)
    (h : b.reader.lookup importer specifier = some (some target)) :
    namedModule host b (b.spelling host.napi importer.toNat) (host.napi.ofUtf8 specifier) =
      some target.toNat := by
  have hindex : b.indexOf (host.napi.toUtf8 (b.spelling host.napi importer.toNat)) =
      some importer.toNat := by
    rw [OpenBundle.spelling, hnapi.roundTrip _ (hutf _ himporter)]
    exact (Loader.indexOf_eq_some_iff hv).mpr ⟨himporter, rfl⟩
  have hedge : b.edgeTarget host.napi (b.spelling host.napi importer.toNat)
      (host.napi.ofUtf8 specifier) = some target.toNat := by
    rw [OpenBundle.edgeTarget, hindex, Option.bind_some, hnapi.roundTrip _ hspecifier,
      UInt32.ofNat_toNat, h]
    rfl
  rw [namedModule, hedge, Option.some_or]

/-- A `require` of the edge's specifier in the edge's importer loads its target. -/
def EdgeServed (host : Host) (b : OpenBundle) (importer : UInt32) (specifier : Bytes)
    (target : UInt32) (turns : Nat) : Prop :=
  requireModule host b (b.spelling host.napi importer.toNat) (host.napi.ofUtf8 specifier) turns =
    .loads target.toNat

namespace Stages

variable {disk : Disk} {tools : Toolchain} {opts : Options} {generation : UInt32} {start : Start}
  {built : Built} {w : State Bytes Visited} {placements : List NativePlacement} {r : List Bytes}
  {reader : BundleReader}

variable (h : Stages disk tools opts generation start built w placements r)
  (hshows : Shows reader (Contents.ofCalls built.calls))
  (hcount : (containerPaths disk start w).length < 2 ^ 32)

include h hshows hcount

theorem walked_requirable {path : Bytes} (hpath : path ∈ w.items) :
    (moduleIndex w.items path).toNat < reader.moduleCount ∧
      reader.isRequirable (moduleIndex w.items path).toNat = some true := by
  have hle : w.items.length ≤ (containerPaths disk start w).length := by simp [containerPaths]
  have hlt := moduleIndex_lt (by omega) hpath
  obtain ⟨m, hm, hflags⟩ := ((emitsWalk h.walked h.assembled).requirable _).mpr hlt
  obtain ⟨_, _, hread, _⟩ := hshows.modules _ m hm
  refine ⟨?_, ?_⟩
  · rw [hshows.moduleCount]
    exact (List.getElem?_eq_some_iff.mp hm).1
  · simp [BundleReader.isRequirable, hread, hflags]

end Stages

section

variable {disk : Disk} {tools : Toolchain} {opts : Options} {generation : UInt32} {start : Start}
  {built : Built} {reader : BundleReader} {host : Host}

/-- In a container whose identities are UTF-8, an edge is served exactly when its specifier is not
empty and not `node:ws`; and every literal that has no edge because it is a builtin is forwarded. -/
theorem edges_served_iff {fuel : Nat} (hnapi : host.napi.Decodes)
    (hstart : startOf disk opts = .ok start)
    (hbuild : buildBundle disk tools opts generation fuel = some (.ok built))
    (hsize : built.container.length < 2 ^ 32)
    (hopen : Accepts (BundleReader.open built.container generation) reader) (root : Bytes)
    (hutf : ∀ i < reader.moduleCount, ∀ identity, reader.identity i = some identity →
      isUtf8 identity = true) (turns : Nat) :
    (∀ importer specifier target, reader.lookup importer specifier = some (some target) →
      isUtf8 specifier = true →
      (EdgeServed host { reader, root } importer specifier target turns ↔
        specifier ≠ ascii "node:ws" ∧ specifier ≠ [])) ∧
    ∀ path, Packaged disk tools start path → ∀ specifier ∈ literalsOf disk tools path,
      isBuiltinSpecifier specifier = true → ∀ identity,
        requireModule host { reader, root } identity (host.napi.ofUtf8 specifier) turns =
          .other (.binary specifier) := by
  constructor
  · intro importer specifier target hlookup hspecifier
    rcases buildBundle_stages hstart hbuild with ⟨w, placements, r, h⟩
    have hshows := h.shows hsize hopen
    have hcount := h.count_lt hsize
    obtain ⟨path, hpath, edge, hedge, rfl, rfl, rfl⟩ := (h.lookup_iff hshows).mp hlookup
    have himporter := (h.walked_requirable hshows hcount hpath).1
    obtain ⟨htarget, hrequirable⟩ :=
      h.walked_requirable hshows hcount (h.walked.target_mem hpath hedge)
    have hskipped : isBuiltinSpecifier edge.1 = false := builtin_no_target (mem_keepOf.mp hedge).2
    let b : OpenBundle := { reader, root }
    have hv : Valid b.reader.data b.reader.header := by
      rcases openImpl_accepts_iff.mp hopen with ⟨hdata, hv, _⟩
      rwa [← hdata] at hv
    have hutf' : ∀ i < b.reader.moduleCount, isUtf8 (b.identity i) = true := by
      intro i hi
      unfold OpenBundle.identity
      cases hread : b.reader.identity i with
      | none => rfl
      | some identity => exact hutf i hi identity hread
    have hnamed := namedModule_of_lookup hnapi.toLawful hv hutf' himporter hspecifier hlookup
    have hloadable : Loader.Loadable host.napi b (moduleIndex w.items edge.2).toNat := by
      apply (Loader.loadable_iff_of_utf8 hnapi.toLawful hv hutf' htarget).mpr
      right
      simp [OpenBundle.isRequirable, b, hrequirable]
    have htext := hnapi.text edge.1 hspecifier
    unfold EdgeServed
    by_cases hid : (normalizeRequirableId edge.1).isSome = true
    · -- the loader never asks for the edge
      have hws : edge.1 = ascii "node:ws" := by
        simpa [hskipped] using (normalizeRequirableId_isSome_iff edge.1).mp hid
      rw [htext, requireModule_forwarded hid]
      simp [hws]
    · have hws : edge.1 ≠ ascii "node:ws" := fun heq =>
        hid ((normalizeRequirableId_isSome_iff edge.1).mpr (Or.inr heq))
      have hnone : normalizeRequirableId (host.napi.ofUtf8 edge.1) = none := by
        rw [htext]
        simpa using hid
      rw [Loader.requireModule_named hnapi.toLawful hv hnone hnamed, htext]
      simp [hws, hloadable]
  · intro path _ specifier _ hbuiltin identity
    rw [hnapi.text specifier (builtin_isUtf8 hbuiltin)]
    exact requireModule_forwarded
      ((normalizeRequirableId_isSome_iff specifier).mpr (Or.inl hbuiltin)) turns

end

/-- A program that requires a file beside it and an installed package whose name is `node:ws`. -/
def schemeText : Bytes := ascii "require('./dep.js'); require('node:ws');"

def schemeFiles : List (Bytes × Bytes) :=
  [(ascii "/app/main.js", schemeText), (ascii "/app/dep.js", []),
    (ascii "/app/node_modules/node:ws/index.js", [])]

def schemeDisk : Disk := Disk.ofFiles schemeFiles (by decide)

def schemeTools : Toolchain := sampleTools schemeText [ascii "./dep.js", ascii "node:ws"]

/-- The edge of the entry for a specifier, whether all identities are UTF-8, and what a require of
the specifier in the entry replies. -/
def entryEdge (result : Option (Except BuildError Built)) (specifier : Bytes) :
    Option (Option (Option UInt32) × Bool × Loader.RequireReply) :=
  match result with
  | some (.ok built) =>
      if built.container.length < 2 ^ 32 then
        match BundleReader.open built.container 7 with
        | .accepted reader =>
            let b : OpenBundle := { reader, root := ascii "/srv" }
            some (reader.lookup 0 specifier,
              (List.range reader.moduleCount).all fun i => isUtf8 (b.identity i),
              requireModule Loader.replacingHost b (b.spelling Loader.replacingHost.napi 0)
                (Loader.replacingHost.napi.ofUtf8 specifier) 1)
        | _ => none
      else none
  | _ => none

theorem entryEdge_eq_some {result : Option (Except BuildError Built)} {specifier : Bytes}
    {edge : Option (Option UInt32)} {reply : Loader.RequireReply}
    (h : entryEdge result specifier = some (edge, true, reply)) :
    ∃ built reader, result = some (.ok built) ∧ built.container.length < 2 ^ 32 ∧
      Accepts (BundleReader.open built.container 7) reader ∧
      reader.lookup 0 specifier = edge ∧
      (∀ i < reader.moduleCount, ∀ identity, reader.identity i = some identity →
        isUtf8 identity = true) ∧
      requireModule Loader.replacingHost { reader, root := ascii "/srv" }
        (OpenBundle.spelling Loader.replacingHost.napi { reader, root := ascii "/srv" } 0)
        (Loader.replacingHost.napi.ofUtf8 specifier) 1 = reply := by
  unfold entryEdge at h
  split at h
  · rename_i built
    split at h
    · rename_i hsize
      split at h
      · rename_i reader hopen
        simp only [Option.some.injEq, Prod.mk.injEq, List.all_eq_true, List.mem_range] at h
        obtain ⟨hedge, hutf, hreply⟩ := h
        refine ⟨built, reader, rfl, hsize, hopen, hedge, ?_, hreply⟩
        intro i hi identity hread
        simpa [OpenBundle.identity, hread] using hutf i hi
      · cases h
    · cases h
  · cases h

theorem scheme_entryEdges :
    entryEdge (buildBundle schemeDisk schemeTools mainOptions 7 5) (ascii "./dep.js") =
      some (some (some 1), true, .loads 1) ∧
    entryEdge (buildBundle schemeDisk schemeTools mainOptions 7 5) (ascii "node:ws") =
      some (some (some 2), true, .other (.binary (ascii "node:ws"))) := by
  decide +kernel

/-- The entry's require of the file beside it gets that file. -/
theorem dep_edge_served : ∃ built reader,
    buildBundle schemeDisk schemeTools mainOptions 7 5 = some (.ok built) ∧
    Accepts (BundleReader.open built.container 7) reader ∧
    reader.lookup 0 (ascii "./dep.js") = some (some 1) ∧
    EdgeServed Loader.replacingHost { reader, root := ascii "/srv" } 0 (ascii "./dep.js") 1 1 := by
  obtain ⟨built, reader, hbuild, hsize, hopen, hlookup, hutf, _⟩ :=
    entryEdge_eq_some scheme_entryEdges.1
  have hstart : startOf schemeDisk mainOptions = .ok mainStart := rfl
  have hnapi : Loader.replacingHost.napi.Decodes := Loader.replacingNapi_decodes
  have hserved := edges_served_iff hnapi hstart hbuild hsize hopen (ascii "/srv") hutf 1
  refine ⟨built, reader, hbuild, hopen, hlookup, ?_⟩
  exact (hserved.1 0 _ 1 hlookup (by decide)).mpr ⟨by decide, by decide⟩

/-- The entry's require of `node:ws` gets the copy in the binary, although the container holds an
edge to the installed package. -/
theorem scheme_edge_shadowed : ∃ built reader,
    buildBundle schemeDisk schemeTools mainOptions 7 5 = some (.ok built) ∧
    built.container.length < 2 ^ 32 ∧ Accepts (BundleReader.open built.container 7) reader ∧
    reader.lookup 0 (ascii "node:ws") = some (some 2) ∧ isUtf8 (ascii "node:ws") = true ∧
    ¬ EdgeServed Loader.replacingHost { reader, root := ascii "/srv" } 0 (ascii "node:ws") 2 1 := by
  obtain ⟨built, reader, hbuild, hsize, hopen, hlookup, _, hreply⟩ :=
    entryEdge_eq_some scheme_entryEdges.2
  refine ⟨built, reader, hbuild, hsize, hopen, hlookup, by decide, ?_⟩
  intro hserved
  have hloads : Loader.RequireReply.other (.binary (ascii "node:ws")) = .loads 2 :=
    hreply.symm.trans hserved
  cases hloads

end HermesNode.Build
