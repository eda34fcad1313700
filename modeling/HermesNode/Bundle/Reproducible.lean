/-
Module: HermesNode.Bundle.Reproducible
Purpose: The bytes of a container are a function of its contents. Identities are interned in module
  order whatever stands between the `addModule` calls, the other strings in the order of the sorted
  tables, and a table sorted by distinct keys does not depend on the order it was filled in. A
  second `serialize` finds its tables sorted and every string interned.
Trusted boundary: none
Main exports: writerOf, SameContents, serialize_reproducible
-/
import HermesNode.Bundle.RoundTrip

namespace HermesNode.Bundle

open StringTable

/-! ### The writer of given contents -/

/-- The pending module and the string table behind one more added module. -/
def internModule (acc : List PendingModule × StringTable) (m : AddedModule) :
    List PendingModule × StringTable :=
  let identity := acc.2.internString m.identity
  (acc.1 ++ [⟨identity.1, m.kind, m.flags, m.payload⟩], identity.2)

def internModules (ms : List AddedModule) : List PendingModule × StringTable :=
  ms.foldl internModule ([], {})

/-- The writer that holds the contents. Only the modules have left a trace in its string table. -/
def writerOf (c : Contents) : BundleWriter where
  modules := (internModules c.modules).1
  edges := c.edges
  preloads := c.preloads
  natives := c.natives
  vmOptions := c.vmOptions
  strings := (internModules c.modules).2
  entry := c.entry.getD 0
  hasEntry := c.entry.isSome
  allowVmOptionsOverride := c.allowVmOptionsOverride

theorem writerOf_call (c : Contents) (op : Call) :
    (writerOf c).call op = writerOf (c.record op) := by
  cases op with
  | addModule identity kind flags payload =>
      simp only [writerOf, BundleWriter.call, BundleWriter.addModule, Contents.record,
        internModules, List.foldl_append, List.foldl_cons, List.foldl_nil, internModule]
  | addEdge importer specifier target => rfl
  | addPreload moduleIndex => rfl
  | addNative moduleIndex sidecar byteLength rawDigest => rfl
  | addVmOption option => rfl
  | setAllowVmOptionsOverride allow => rfl
  | setEntry moduleIndex => rfl

theorem run_eq_writerOf (calls : List Call) :
    BundleWriter.run calls = writerOf (Contents.ofCalls calls) := by
  have hfold : ∀ c : Contents, calls.foldl BundleWriter.call (writerOf c) =
      writerOf (calls.foldl Contents.record c) := by
    induction calls with
    | nil =>
        intro c
        rfl
    | cons op calls ih =>
        intro c
        rw [List.foldl_cons, List.foldl_cons, writerOf_call, ih]
  exact hfold {}

/-! ### Sorted tables -/

theorem sortEdges_congr {edges edges' : List PendingEdge}
    (hkeys : (edges.map fun e => (e.importer, e.specifier)).Nodup)
    (hkeys' : (edges'.map fun e => (e.importer, e.specifier)).Nodup)
    (hmem : ∀ e, e ∈ edges ↔ e ∈ edges') : sortEdges edges = sortEdges edges' := by
  have hperm : edges.Perm edges' :=
    (List.perm_ext_iff_of_nodup (List.Nodup.of_map _ hkeys) (List.Nodup.of_map _ hkeys')).mpr hmem
  apply List.Perm.eq_of_pairwise ?_ (sortEdges_strict hkeys) (sortEdges_strict hkeys')
  · exact (sortEdges_perm edges).trans (hperm.trans (sortEdges_perm edges').symm)
  · intro a b _ _ hab hba
    have hself := PendingEdge.less_trans hab hba
    rw [PendingEdge.less_irrefl] at hself
    cases hself

theorem sortNatives_congr {natives natives' : List PendingNative}
    (hrows : (natives.map (·.moduleIndex)).Nodup) (hrows' : (natives'.map (·.moduleIndex)).Nodup)
    (hmem : ∀ n, n ∈ natives ↔ n ∈ natives') : sortNatives natives = sortNatives natives' := by
  have hperm : natives.Perm natives' :=
    (List.perm_ext_iff_of_nodup (List.Nodup.of_map _ hrows) (List.Nodup.of_map _ hrows')).mpr hmem
  apply List.Perm.eq_of_pairwise ?_ (sortNatives_strict hrows) (sortNatives_strict hrows')
  · exact (sortNatives_perm natives).trans (hperm.trans (sortNatives_perm natives').symm)
  · intro a b _ _ hab hba
    rw [UInt32.lt_iff_toNat_lt] at hab hba
    omega

theorem sortEdges_again (edges : List PendingEdge) :
    sortEdges (sortEdges edges) = sortEdges edges :=
  (List.pairwise_insertionSort _ edges).insertionSort_eq

theorem sortNatives_again (natives : List PendingNative) :
    sortNatives (sortNatives natives) = sortNatives natives :=
  (List.pairwise_insertionSort _ natives).insertionSort_eq

/-! ### Interning again -/

namespace StringTable

/-- Every string the first table knows the second one knows, at the same offset. -/
def Within (t t' : StringTable) : Prop :=
  ∀ s offset, t.internTable.lookup s = some offset → t'.internTable.lookup s = some offset

theorem Within.refl (t : StringTable) : t.Within t := fun _ _ h => h

theorem Within.trans {t t' t'' : StringTable} (h : t.Within t') (h' : t'.Within t'') :
    t.Within t'' :=
  fun s offset hs => h' s offset (h s offset hs)

theorem internString_known (t : StringTable) (s : Bytes) :
    (t.internString s).2.internTable.lookup s = some (t.internString s).1 := by
  cases hfind : t.internTable.lookup s with
  | some offset => simp only [internString, hfind]
  | none => simp [internString, hfind]

theorem internString_within (t : StringTable) (s : Bytes) : t.Within (t.internString s).2 := by
  intro s' offset hs'
  cases hfind : t.internTable.lookup s with
  | some _ =>
      simp only [internString, hfind]
      exact hs'
  | none =>
      have hne : (s' == s) = false := by
        rw [beq_eq_false_iff_ne]
        rintro rfl
        rw [hfind] at hs'
        cases hs'
      simp only [internString, hfind, List.lookup_cons, hne]
      exact hs'

/-- A string that was interned is found where it was put, in every later table. -/
theorem internString_again {t later : StringTable} {s : Bytes}
    (h : (t.internString s).2.Within later) :
    later.internString s = ((t.internString s).1, later) := by
  simp only [internString, h s _ (internString_known t s)]

theorem internAll_within (t : StringTable) (ss : List Bytes) : t.Within (t.internAll ss).2 := by
  induction ss generalizing t with
  | nil => exact Within.refl t
  | cons s ss ih => exact (internString_within t s).trans (ih _)

theorem internAll_again {t later : StringTable} {ss : List Bytes}
    (h : (t.internAll ss).2.Within later) :
    later.internAll ss = ((t.internAll ss).1, later) := by
  induction ss generalizing t with
  | nil => rfl
  | cons s ss ih =>
      have hfirst := internString_again ((internAll_within (t.internString s).2 ss).trans h)
      simp only [internAll, hfirst, ih h]

end StringTable

theorem internNatives_within (t : StringTable) (ns : List PendingNative) :
    t.Within (internNatives t ns).2 := by
  induction ns generalizing t with
  | nil => exact Within.refl t
  | cons n ns ih =>
      exact (internString_within t n.sidecar).trans ((internString_within _ n.digest).trans (ih _))

theorem internNatives_again {t later : StringTable} {ns : List PendingNative}
    (h : (internNatives t ns).2.Within later) :
    internNatives later ns = ((internNatives t ns).1, later) := by
  induction ns generalizing t with
  | nil => rfl
  | cons n ns ih =>
      have hrest :=
        (internNatives_within ((t.internString n.sidecar).2.internString n.digest).2 ns).trans h
      have hdigest := internString_again hrest
      have hsidecar := internString_again ((internString_within _ n.digest).trans hrest)
      simp only [internNatives, hsidecar, hdigest, ih h]

/-- A writer that has serialized computes the same tables again. -/
theorem freeze_again (w : BundleWriter) : w.freeze.2.freeze.1 = w.freeze.1 := by
  set specifiers := w.strings.internAll ((sortEdges w.edges).map (·.specifier)) with hspecifiers
  set natives := internNatives specifiers.2 (sortNatives w.natives) with hnatives
  set options := natives.2.internAll w.vmOptions with hoptions
  have hwithin : natives.2.Within options.2 := internAll_within natives.2 w.vmOptions
  have hwithin' : specifiers.2.Within options.2 :=
    (internNatives_within specifiers.2 (sortNatives w.natives)).trans hwithin
  have hfirst : options.2.internAll ((sortEdges w.edges).map (·.specifier)) =
      (specifiers.1, options.2) := internAll_again hwithin'
  have hsecond : internNatives options.2 (sortNatives w.natives) = (natives.1, options.2) :=
    internNatives_again hwithin
  have hthird : options.2.internAll w.vmOptions = (options.1, options.2) :=
    internAll_again (Within.refl options.2)
  simp only [BundleWriter.freeze, ← hspecifiers, ← hnatives, ← hoptions, sortEdges_again,
    sortNatives_again, hfirst, hsecond, hthird]

theorem serialize_again (w : BundleWriter) (generationTag : UInt32) :
    ((w.serialize generationTag).2.serialize generationTag).1 = (w.serialize generationTag).1 := by
  by_cases hnone : (w.modules.isEmpty || !w.hasEntry) = true
  · have hfirst : w.serialize generationTag = ([], w) := if_pos hnone
    rw [hfirst, hfirst]
  · have hfirst : w.serialize generationTag = (w.freeze.1.emit generationTag, w.freeze.2) :=
      if_neg hnone
    have hsecond : w.freeze.2.serialize generationTag =
        (w.freeze.2.freeze.1.emit generationTag, w.freeze.2.freeze.2) := if_neg hnone
    rw [hfirst, hsecond, freeze_again]

/-! ### One container -/

/-- The same calls, but for the order in which edges and natives were added. -/
structure SameContents (c c' : Contents) : Prop where
  modules : c.modules = c'.modules
  preloads : c.preloads = c'.preloads
  vmOptions : c.vmOptions = c'.vmOptions
  edges : ∀ e, e ∈ c.edges ↔ e ∈ c'.edges
  edgeKeys : (c.edges.map fun e => (e.importer, e.specifier)).Nodup
  edgeKeys' : (c'.edges.map fun e => (e.importer, e.specifier)).Nodup
  natives : ∀ n, n ∈ c.natives ↔ n ∈ c'.natives
  nativeRows : (c.natives.map (·.moduleIndex)).Nodup
  nativeRows' : (c'.natives.map (·.moduleIndex)).Nodup

/-- The last `setEntry` and the last `setAllowVmOptionsOverride` agree. -/
structure SameSettings (c c' : Contents) : Prop where
  entry : c.entry = c'.entry
  allowVmOptionsOverride : c.allowVmOptionsOverride = c'.allowVmOptionsOverride

theorem freeze_congr {c c' : Contents} (h : SameContents c c') (hset : SameSettings c c') :
    (writerOf c).freeze.1 = (writerOf c').freeze.1 := by
  have hedges := sortEdges_congr h.edgeKeys h.edgeKeys' h.edges
  have hnatives := sortNatives_congr h.nativeRows h.nativeRows' h.natives
  simp only [BundleWriter.freeze, writerOf, h.modules, h.preloads, h.vmOptions, hedges, hnatives,
    hset.entry, hset.allowVmOptionsOverride]

/-- Two sequences of calls that add the same things and end with the same settings serialize to the
same bytes, and a second `serialize` returns them again. -/
theorem serialize_reproducible (calls calls' : List Call) (generationTag : UInt32)
    (h : SameContents (Contents.ofCalls calls) (Contents.ofCalls calls'))
    (hset : SameSettings (Contents.ofCalls calls) (Contents.ofCalls calls')) :
    ((BundleWriter.run calls).serialize generationTag).1 =
        ((BundleWriter.run calls').serialize generationTag).1 ∧
      (((BundleWriter.run calls).serialize generationTag).2.serialize generationTag).1 =
        ((BundleWriter.run calls).serialize generationTag).1 := by
  refine ⟨?_, serialize_again _ _⟩
  rw [run_eq_writerOf, run_eq_writerOf]
  have hempty : (writerOf (Contents.ofCalls calls)).modules =
      (writerOf (Contents.ofCalls calls')).modules := by
    simp only [writerOf, h.modules]
  have hentry : (writerOf (Contents.ofCalls calls)).hasEntry =
      (writerOf (Contents.ofCalls calls')).hasEntry := by
    simp only [writerOf, hset.entry]
  simp only [BundleWriter.serialize, hempty, hentry, freeze_congr h hset]
  split
  · rfl
  · rfl

/-- Two modules with an edge to each, added in two orders. -/
def shuffledCalls : List Call :=
  [.addEdge 0 (ascii "./b") 1, .addModule (ascii "a") .kJavaScript kRequirable [],
    .addEdge 0 (ascii "./a") 0, .addModule (ascii "b") .kJavaScript kRequirable [1], .setEntry 0]

def orderedCalls : List Call :=
  [.setEntry 0, .addModule (ascii "a") .kJavaScript kRequirable [],
    .addModule (ascii "b") .kJavaScript kRequirable [1], .addEdge 0 (ascii "./a") 0,
    .addEdge 0 (ascii "./b") 1]

theorem shuffled_reproducible :
    ((BundleWriter.run shuffledCalls).serialize 7).1 =
        ((BundleWriter.run orderedCalls).serialize 7).1 ∧
      (((BundleWriter.run shuffledCalls).serialize 7).2.serialize 7).1 =
        ((BundleWriter.run shuffledCalls).serialize 7).1 := by
  apply serialize_reproducible
  -- field by field: `rfl` between two folds compares the folds first
  · refine ⟨by decide, by decide, by decide, ?_, by decide, by decide, ?_,
      by decide, by decide⟩
    · intro e
      have hcalls : (Contents.ofCalls shuffledCalls).edges =
          [⟨0, ascii "./b", 1⟩, ⟨0, ascii "./a", 0⟩] := rfl
      have hcalls' : (Contents.ofCalls orderedCalls).edges =
          [⟨0, ascii "./a", 0⟩, ⟨0, ascii "./b", 1⟩] := rfl
      rw [hcalls, hcalls']
      simp [or_comm]
    · intro n
      have hnone : (Contents.ofCalls shuffledCalls).natives = [] := rfl
      have hnone' : (Contents.ofCalls orderedCalls).natives = [] := rfl
      rw [hnone, hnone']
  · exact ⟨by decide, by decide⟩

/-- The entry is neither an added module nor in any of the tables, yet it is in the header. -/
theorem entry_not_reproducible :
    SameContents
        (Contents.ofCalls [.addModule (ascii "a") .kJavaScript kRequirable [],
          .addModule (ascii "b") .kJavaScript kRequirable [], .setEntry 0])
        (Contents.ofCalls [.addModule (ascii "a") .kJavaScript kRequirable [],
          .addModule (ascii "b") .kJavaScript kRequirable [], .setEntry 1]) ∧
      ((BundleWriter.run [.addModule (ascii "a") .kJavaScript kRequirable [],
          .addModule (ascii "b") .kJavaScript kRequirable [], .setEntry 0]).serialize 7).1 ≠
        ((BundleWriter.run [.addModule (ascii "a") .kJavaScript kRequirable [],
          .addModule (ascii "b") .kJavaScript kRequirable [], .setEntry 1]).serialize 7).1 := by
  refine ⟨⟨rfl, rfl, rfl, fun _ => Iff.rfl, by decide, by decide, fun _ => Iff.rfl, by decide,
    by decide⟩, ?_⟩
  decide

end HermesNode.Bundle
