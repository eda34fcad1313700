/-
Module: HermesNode.Bundle.RootPaths
Purpose: `BundleFileSource` on paths in normal form. Its root is given by its names; the path of an
  identity is the root's names followed by the identity's, and stripping the root from it gives the
  identity back. Over a container that `open` accepted a path is a file when it is the path of a
  record, and a directory when it is at or below the root and above such a path.
Trusted boundary: none
Main exports: sourceAt, BundleFileSource.Sound, isRegularFile_iff_record, isDirectory_iff_above
-/
import HermesNode.Bundle.FileSource
import HermesNode.Lib.Relative

namespace HermesNode.Bundle

open Resolve
open Check (Accepts)

/-- A path under the root is the root itself or stands behind its prefix. -/
theorem identityFor_cases {s : BundleFileSource} {path rel : Bytes}
    (h : s.identityFor path = some rel) :
    (path = s.root ∧ rel = []) ∨ path = s.rootPrefix ++ rel := by
  unfold BundleFileSource.identityFor at h
  split at h
  · rename_i hroot
    cases h
    exact Or.inl ⟨hroot, rfl⟩
  · split at h
    · rename_i hstarts
      cases h
      obtain ⟨rest, rfl⟩ := List.isPrefixOf_iff_prefix.mp hstarts
      exact Or.inr (by rw [List.drop_left])
    · cases h

theorem rootPrefix_append {s : BundleFileSource} {rel : Bytes} (hroot : s.root ≠ [])
    (hrel : isAbsolute rel = false) : s.rootPrefix ++ rel = pathAppend s.root rel := by
  have hempty : s.root.isEmpty = false := by simpa using hroot
  cases hend : endsInSlash s.root with
  | true => simp [BundleFileSource.rootPrefix, pathAppend, hrel, hend]
  | false => simp [BundleFileSource.rootPrefix, pathAppend, hrel, hend, hempty]

theorem identityFor_rootPrefix {s : BundleFileSource} {rel : Bytes} (hne : rel ≠ []) :
    s.identityFor (s.rootPrefix ++ rel) = some rel := by
  have hlength : 0 < rel.length := List.length_pos_iff.mpr hne
  have hnot : s.rootPrefix ++ rel ≠ s.root := by
    intro heq
    have hlong := congrArg List.length heq
    unfold BundleFileSource.rootPrefix at hlong
    split at hlong
    · simp only [List.length_append] at hlong
      omega
    · simp only [List.length_append, List.length_cons, List.length_nil] at hlong
      omega
  have hstarts : s.rootPrefix.isPrefixOf (s.rootPrefix ++ rel) = true :=
    List.isPrefixOf_iff_prefix.mpr (List.prefix_append _ _)
  rw [BundleFileSource.identityFor, if_neg hnot, if_pos hstarts, List.drop_left]

section

variable {r : List Bytes} {reader : BundleReader}

/-- The container as a tree with the given root. -/
def sourceAt (reader : BundleReader) (r : List Bytes) : BundleFileSource :=
  { reader, root := absPath r }

theorem rootPrefix_cons (hr : Names r) (hne : r ≠ []) :
    (sourceAt reader r).rootPrefix = absPath r ++ [slash] := by
  simp [BundleFileSource.rootPrefix, sourceAt, absPath_not_endsInSlash hr hne]

theorem rootPrefix_join (hr : Names r) {rest : List Bytes} (hne : rest ≠ []) :
    (sourceAt reader r).rootPrefix ++ joinSlash rest = absPath (r ++ rest) := by
  by_cases hroot : r = []
  · subst hroot
    rfl
  · rw [rootPrefix_cons hr hroot, absPath, absPath, joinSlash_append hroot hne]
    simp

/-- What is below the root is found behind its prefix. -/
theorem identityFor_join {rest : List Bytes} (h : Names (r ++ rest)) (hne : rest ≠ []) :
    (sourceAt reader r).identityFor (absPath (r ++ rest)) = some (joinSlash rest) := by
  have hnonempty := (joinSlash_not_endsInSlash h.right.solid hne).2
  rw [← @rootPrefix_join r reader h.left rest hne]
  exact identityFor_rootPrefix hnonempty

end

/-! ### Accepted containers -/

theorem plain_of_isValidIdentity {id : Bytes} (h : isValidIdentity id = true) :
    Plain (splitSlash id) := by
  intro seg hseg
  simp only [isValidIdentity, Bool.and_eq_true, List.all_eq_true] at h
  have hvalid := h.2 seg hseg
  simpa [isValidSegment, dot, dotDot, and_assoc] using hvalid

theorem names_of_isValidIdentity {id : Bytes} (h : isValidIdentity id = true) :
    Names (splitSlash id) :=
  ⟨plain_of_isValidIdentity h, fun _ hseg => slash_not_mem_of_mem_splitSlash hseg⟩

theorem not_mem_of_isValidIdentity {identity : Bytes} (h : isValidIdentity identity = true) :
    0 ∉ identity := by
  simp only [isValidIdentity, Bool.and_eq_true] at h
  simpa using h.1.2

/-- What `open` has checked about the records. -/
structure BundleFileSource.Sound (s : BundleFileSource) : Prop where
  valid : ∀ e ∈ s.records, isValidIdentity e.identity = true
  distinct : s.Distinct
  nonempty : s.records ≠ []

theorem mem_records {s : BundleFileSource} {e : Entry} :
    e ∈ s.records ↔ e.moduleIndex < s.reader.moduleCount ∧
      e.identity = (s.reader.identity e.moduleIndex).getD [] := by
  simp only [BundleFileSource.records, List.mem_map, List.mem_range]
  constructor
  · rintro ⟨i, hi, rfl⟩
    exact ⟨hi, rfl⟩
  · rintro ⟨hi, hidentity⟩
    exact ⟨e.moduleIndex, hi, by rw [← hidentity]⟩

theorem sound_of_valid {reader : BundleReader} (hv : Valid reader.data reader.header)
    (root : Bytes) : BundleFileSource.Sound { reader, root } := by
  have hread : ∀ i < reader.moduleCount, ∃ m identity, moduleAt reader.data reader.header i = some m ∧
      ModuleOk reader.data reader.header m identity ∧ reader.identity i = some identity := by
    intro i hi
    obtain ⟨m, identity, hm, hok⟩ := hv.modules i hi
    refine ⟨m, identity, hm, hok, ?_⟩
    simpa [BundleReader.identity, hm] using BundleReader.stringAt_eq hok.identityString
  refine ⟨?_, ?_, ?_⟩
  · intro e he
    obtain ⟨hi, hidentity⟩ := mem_records.mp he
    obtain ⟨m, identity, _, hok, hreads⟩ := hread _ hi
    rw [hidentity, hreads]
    exact hok.identityValid
  · unfold BundleFileSource.Distinct BundleFileSource.records
    rw [List.map_map]
    apply List.Nodup.map_on ?_ List.nodup_range
    intro i hi j hj heq
    obtain ⟨m, s, hm, hok, hs⟩ := hread i (List.mem_range.mp hi)
    obtain ⟨n, t, hn, hok', ht⟩ := hread j (List.mem_range.mp hj)
    have hsame : s = t := by simpa [hs, ht] using heq
    subst hsame
    exact hv.distinct i j m n s (List.mem_range.mp hi) (List.mem_range.mp hj) hm hn
      hok.identityString hok'.identityString
  · intro hnil
    have hcount : reader.moduleCount = 0 := by
      simpa [BundleFileSource.records] using hnil
    exact hv.moduleCount (UInt32.toNat_inj.mp hcount)

theorem sound_of_accepts {data : Bytes} {generation : UInt32} {reader : BundleReader}
    (h : Accepts (BundleReader.open data generation) reader) (root : Bytes) :
    BundleFileSource.Sound { reader, root } := by
  obtain ⟨hdata, hv, _⟩ := openImpl_accepts_iff.mp h
  subst hdata
  exact sound_of_valid hv root

/-! ### The container as a tree -/

section

variable {reader : BundleReader} {r : List Bytes} (hs : (sourceAt reader r).Sound) (hr : Names r)

include hs

theorem record_names (hr : Names r) {e : Entry} (he : e ∈ (sourceAt reader r).records) :
    Names (r ++ splitSlash e.identity) :=
  hr.append (names_of_isValidIdentity (hs.valid e he))

include hr

theorem identityFor_record {e : Entry} (he : e ∈ (sourceAt reader r).records) :
    (sourceAt reader r).identityFor (absPath (r ++ splitSlash e.identity)) = some e.identity := by
  rw [identityFor_join (record_names hs hr he) (splitSlash_ne_nil _), joinSlash_splitSlash]

theorem path_of_identityFor {path : Bytes} {e : Entry} (he : e ∈ (sourceAt reader r).records)
    (h : (sourceAt reader r).identityFor path = some e.identity) :
    path = absPath (r ++ splitSlash e.identity) := by
  rcases identityFor_cases h with ⟨_, hempty⟩ | hpath
  · have hplain := plain_of_isValidIdentity (hs.valid e he)
    exact absurd hempty (plain_ne_nil hplain)
  · rw [hpath, ← rootPrefix_join hr (splitSlash_ne_nil _), joinSlash_splitSlash]

theorem isRegularFile_iff_record {path : Bytes} :
    (sourceAt reader r).isRegularFile path = true ↔
      ∃ e ∈ (sourceAt reader r).records, path = absPath (r ++ splitSlash e.identity) := by
  rw [BundleFileSource.isRegularFile_iff hs.distinct]
  constructor
  · rintro ⟨rel, hrel, _, hmem⟩
    obtain ⟨e, he, rfl⟩ := List.mem_map.mp hmem
    exact ⟨e, he, path_of_identityFor hs hr he hrel⟩
  · rintro ⟨e, he, rfl⟩
    refine ⟨e.identity, identityFor_record hs hr he, ?_, List.mem_map_of_mem he⟩
    exact plain_ne_nil (plain_of_isValidIdentity (hs.valid e he))

end

theorem trimOneTrailingSlash_absPath {segs : List Bytes} (h : Names segs) :
    trimOneTrailingSlash (absPath segs) = absPath segs := by
  by_cases hne : segs = []
  · subst hne
    rfl
  · simp [trimOneTrailingSlash, absPath_not_endsInSlash h hne]

theorem trimOneTrailingSlash_trailing (segs : List Bytes) :
    trimOneTrailingSlash (absPath segs ++ [slash]) = absPath segs := by
  have hlength : 0 < (absPath segs).length := by simp [absPath]
  simp [trimOneTrailingSlash, endsInSlash, hlength]

/-- A path with a separator behind it starts another one when its names start the other's. -/
theorem absPath_slash_starts {xs ys : List Bytes} (hx : Names xs) (hy : Names ys)
    (h : absPath xs ++ [slash] <+: absPath ys) : ∃ below, below ≠ [] ∧ ys = xs ++ below := by
  obtain ⟨rest, hrest⟩ := h
  have hne : ys ≠ [] := by
    rintro rfl
    have hlength := congrArg List.length hrest
    simp [absPath, joinSlash] at hlength
  have hsplit : splitSlash (absPath xs) ++ splitSlash rest = [] :: ys := by
    rw [← splitSlash_append, ← splitSlash_absPath hy hne, ← hrest]
    simp
  by_cases hxs : xs = []
  · subst hxs
    -- the second separator would make an empty name
    have hroot : splitSlash (absPath []) = [[], []] := by decide
    rw [hroot] at hsplit
    have hmem : [] ∈ ys := by
      rw [← (List.cons.inj hsplit).2]
      simp
    exact absurd rfl (hy.plain [] hmem).1
  · rw [splitSlash_absPath hx hxs] at hsplit
    exact ⟨splitSlash rest, splitSlash_ne_nil rest, (List.cons.inj hsplit).2.symm⟩

/-- Stripping the root from a path gives what the path's names have behind the root's. -/
theorem identityFor_absPath {reader : BundleReader} {r segs : List Bytes} (hr : Names r)
    (hsegs : Names segs) {rel : Bytes}
    (h : (sourceAt reader r).identityFor (absPath segs) = some rel) :
    ∃ rest, segs = r ++ rest ∧ rel = joinSlash rest := by
  rcases identityFor_cases h with ⟨hroot, rfl⟩ | hpath
  · exact ⟨[], by rw [absPath_inj hsegs hr hroot, List.append_nil], rfl⟩
  · by_cases hne : r = []
    · subst hne
      refine ⟨segs, rfl, ?_⟩
      exact (List.cons.inj hpath).2.symm
    · rw [rootPrefix_cons hr hne] at hpath
      obtain ⟨below, hbelow, rfl⟩ := absPath_slash_starts hr hsegs ⟨rel, hpath.symm⟩
      refine ⟨below, rfl, ?_⟩
      have hjoin := @rootPrefix_join r reader hr below hbelow
      rw [rootPrefix_cons hr hne] at hjoin
      exact List.append_cancel_left (hpath.symm.trans hjoin.symm)

section

variable {reader : BundleReader} {r : List Bytes} (hs : (sourceAt reader r).Sound) (hr : Names r)

include hs hr

/-- A path is a directory when it is at or below the root and above the path of a record. -/
theorem isDirectory_iff_above {segs : List Bytes} (hsegs : Names segs) {dir : Bytes}
    (hdir : dir = absPath segs ∨ dir = absPath segs ++ [slash]) :
    (sourceAt reader r).isDirectory dir = true ↔
      r <+: segs ∧ ∃ e ∈ (sourceAt reader r).records, ∃ below, below ≠ [] ∧
        r ++ splitSlash e.identity = segs ++ below := by
  have htrim : trimOneTrailingSlash dir = absPath segs := by
    rcases hdir with rfl | rfl
    · exact trimOneTrailingSlash_absPath hsegs
    · exact trimOneTrailingSlash_trailing segs
  rw [BundleFileSource.isDirectory_iff, htrim]
  constructor
  · rintro ⟨rel, hrel, habove⟩
    obtain ⟨rest, rfl, rfl⟩ := identityFor_absPath hr hsegs hrel
    refine ⟨List.prefix_append r rest, ?_⟩
    by_cases hrest : rest = []
    · subst hrest
      obtain ⟨e, he⟩ := List.exists_mem_of_ne_nil _ hs.nonempty
      exact ⟨e, he, splitSlash e.identity, splitSlash_ne_nil _, by simp⟩
    · have hnot := (joinSlash_not_endsInSlash hsegs.right.solid hrest).2
      rcases habove with hempty | ⟨e, he, tail, htail⟩
      · exact absurd hempty hnot
      · refine ⟨e, he, splitSlash tail, splitSlash_ne_nil _, ?_⟩
        have hjoin : joinSlash rest ++ slash :: tail = e.identity := by simpa using htail
        rw [← hjoin, splitSlash_append, splitSlash_joinSlash hrest hsegs.right.free,
          List.append_assoc]
  · rintro ⟨⟨rest, rfl⟩, e, he, below, hbelow, heq⟩
    rw [List.append_assoc, List.append_right_inj] at heq
    by_cases hrest : rest = []
    · subst hrest
      refine ⟨[], ?_, Or.inl rfl⟩
      simp [BundleFileSource.identityFor, sourceAt]
    · refine ⟨joinSlash rest, identityFor_join hsegs hrest, Or.inr ⟨e, he, joinSlash below, ?_⟩⟩
      rw [← joinSlash_splitSlash e.identity, heq, joinSlash_append hrest hbelow]
      simp

end

end HermesNode.Bundle
