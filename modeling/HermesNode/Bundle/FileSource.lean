/-
Module: HermesNode.Bundle.FileSource
Purpose: `BundleFileSource`: a container as a file tree. Its index is the list of identities sorted
  by bytes, its questions are answered by a lower-bound search in it. Over a container whose
  identities are distinct the answers are the plain ones: a path is a file when it is the root and
  an identity, and a directory when some identity lies below it.
Trusted boundary: human-reviewed spec (transcribed from `lib/bundle/bundle_file_source.cpp`)
Main exports: BundleFileSource, BundleFileSource.toFileSource, find_eq_some_iff, isDirectory_iff
-/
import HermesNode.Bundle.ReaderSafety
import HermesNode.Resolve.Resolver
import Mathlib.Data.List.Sort

namespace HermesNode.Bundle

open Resolve

structure Entry where
  identity : Bytes
  moduleIndex : Nat
deriving Repr, DecidableEq

structure BundleFileSource where
  reader : BundleReader
  root : Bytes

namespace BundleFileSource

/-- The root followed by exactly one separator. -/
def rootPrefix (s : BundleFileSource) : Bytes :=
  if endsInSlash s.root then s.root else s.root ++ [slash]

/-- The records in module order. `open` has checked that every identity can be read. -/
def records (s : BundleFileSource) : List Entry :=
  (List.range s.reader.moduleCount).map fun i =>
    { identity := (s.reader.identity i).getD [], moduleIndex := i }

/-- The records sorted by identity. -/
def index (s : BundleFileSource) : List Entry :=
  s.records.insertionSort fun a b => bytesLt b.identity a.identity = false

/-- The part of `path` behind the root: empty for the root itself, nothing outside it. -/
def identityFor (s : BundleFileSource) (path : Bytes) : Option Bytes :=
  if path = s.root then some []
  else if s.rootPrefix.isPrefixOf path then some (path.drop s.rootPrefix.length)
  else none

/-- `std::lower_bound` in the index: the first entry that does not sort before `key`. -/
def firstFrom (s : BundleFileSource) (key : Bytes) : Option Entry :=
  (lowerBound (fun i => s.index[i]?.map fun e => bytesLt e.identity key) s.index.length).bind
    fun k => s.index[k]?

def find (s : BundleFileSource) (relIdentity : Bytes) : Option Entry :=
  (s.firstFrom relIdentity).filter fun e => e.identity == relIdentity

def isRegularFile (s : BundleFileSource) (path : Bytes) : Bool :=
  match s.identityFor path with
  | none => false
  | some rel => !rel.isEmpty && (s.find rel).isSome

def isDirectory (s : BundleFileSource) (path : Bytes) : Bool :=
  match s.identityFor (trimOneTrailingSlash path) with
  | none => false
  | some rel =>
      rel.isEmpty ||
        match s.firstFrom (rel ++ [slash]) with
        | none => false
        | some e => (rel ++ [slash]).isPrefixOf e.identity

def readPackageJson (s : BundleFileSource) (dir : Bytes) : Option Bytes :=
  match s.identityFor (trimOneTrailingSlash dir ++ ascii "/package.json") with
  | none => none
  | some rel =>
      if rel.isEmpty then none
      else (s.find rel).map fun e => (s.reader.payload e.moduleIndex).getD []

/-- The container as the source the resolver runs over. -/
def toFileSource (s : BundleFileSource) : FileSource :=
  { isRegularFile := s.isRegularFile
    isDirectory := s.isDirectory
    readPackageJson := s.readPackageJson }

/-! ### What the search answers -/

/-- No two records share an identity, which `open` checks. -/
def Distinct (s : BundleFileSource) : Prop := (s.records.map (·.identity)).Nodup

variable {s : BundleFileSource}

instance : Std.Total fun a b : Entry => bytesLt b.identity a.identity = false where
  total a b := by
    cases hab : bytesLt a.identity b.identity with
    | false => exact Or.inr rfl
    | true => exact Or.inl (bytesLt_asymm hab)

instance : IsTrans Entry fun a b => bytesLt b.identity a.identity = false where
  trans _ _ _ hba hcb := bytesLt_false_trans hba hcb

theorem mem_index {e : Entry} : e ∈ s.index ↔ e ∈ s.records :=
  List.mem_insertionSort _

theorem index_sorted (s : BundleFileSource) :
    s.index.Pairwise fun a b => bytesLt b.identity a.identity = false :=
  List.pairwise_insertionSort _ s.records

/-- The search returns the first entry that does not sort before the key, if there is one. -/
theorem firstFrom_spec (s : BundleFileSource) (key : Bytes) :
    (s.firstFrom key = none ∧ ∀ e ∈ s.index, bytesLt e.identity key = true) ∨
      ∃ e ∈ s.index, s.firstFrom key = some e ∧ bytesLt e.identity key = false ∧
        ∀ e' ∈ s.index, bytesLt e'.identity key = false →
          bytesLt e'.identity e.identity = false := by
  have hless : ∀ i < s.index.length, (s.index[i]?.map fun e => bytesLt e.identity key) =
      some ((s.index[i]?.map fun e => bytesLt e.identity key).getD false) := by
    intro i hi
    rw [List.getElem?_eq_getElem hi]
    rfl
  have hmono : ∀ i j, i ≤ j → j < s.index.length →
      (s.index[j]?.map fun e => bytesLt e.identity key).getD false = true →
      (s.index[i]?.map fun e => bytesLt e.identity key).getD false = true := by
    intro i j hij hj hless
    rcases Nat.lt_or_eq_of_le hij with hlt | rfl
    · have hle := List.pairwise_iff_getElem.mp s.index_sorted i j (Nat.lt_trans hlt hj) hj hlt
      rw [List.getElem?_eq_getElem hj] at hless
      rw [List.getElem?_eq_getElem (Nat.lt_trans hlt hj)]
      by_contra hnot
      have hfrom : bytesLt s.index[i].identity key = false := by simpa using hnot
      have hjless : bytesLt s.index[j].identity key = true := by simpa using hless
      rw [bytesLt_false_trans hfrom hle] at hjless
      cases hjless
    · exact hless
  rcases lowerBound_isSome (fun i hi => ⟨_, hless i hi⟩) with ⟨k, hk, hkle⟩
  rcases lowerBound_spec hless hmono hk with ⟨hbelow, habove⟩
  have hfirst : s.firstFrom key = s.index[k]? := by
    simp [firstFrom, hk]
  rcases Nat.lt_or_eq_of_le hkle with hlt | rfl
  · refine Or.inr ⟨s.index[k], List.getElem_mem hlt, ?_, ?_, ?_⟩
    · rw [hfirst, List.getElem?_eq_getElem hlt]
    · simpa [List.getElem?_eq_getElem hlt] using habove k (Nat.le_refl k) hlt
    · intro e' he' hfrom
      rcases List.mem_iff_getElem.mp he' with ⟨j, hj, rfl⟩
      rcases Nat.lt_trichotomy j k with hjk | rfl | hkj
      · have hbefore := hbelow j hjk
        rw [List.getElem?_eq_getElem hj] at hbefore
        simp [hfrom] at hbefore
      · exact bytesLt_irrefl _
      · exact List.pairwise_iff_getElem.mp s.index_sorted k j hlt hj hkj
  · refine Or.inl ⟨by rw [hfirst]; simp, ?_⟩
    intro e he
    rcases List.mem_iff_getElem.mp he with ⟨j, hj, rfl⟩
    simpa [List.getElem?_eq_getElem hj] using hbelow j hj

theorem find_eq_some_iff (hs : s.Distinct) {rel : Bytes} {e : Entry} :
    s.find rel = some e ↔ e ∈ s.records ∧ e.identity = rel := by
  constructor
  · intro h
    rcases Option.filter_eq_some_iff.mp h with ⟨hfirst, heq⟩
    rcases s.firstFrom_spec rel with ⟨hnone, _⟩ | ⟨e', hmem, hsome, _⟩
    · rw [hnone] at hfirst
      cases hfirst
    · rw [hsome, Option.some.injEq] at hfirst
      subst hfirst
      exact ⟨mem_index.mp hmem, by simpa using heq⟩
  · rintro ⟨hmem, rfl⟩
    have hself : bytesLt e.identity e.identity = false := bytesLt_irrefl _
    rcases s.firstFrom_spec e.identity with ⟨_, hall⟩ | ⟨e', hmem', hsome, hfrom, hleast⟩
    · rw [hall e (mem_index.mpr hmem)] at hself
      cases hself
    · -- the first entry from the identity on is the entry itself
      have hle := hleast e (mem_index.mpr hmem) hself
      have hsame : e'.identity = e.identity := by
        rcases bytesLt_trichotomy e'.identity e.identity with hlt | heq | hgt
        · rw [hfrom] at hlt
          cases hlt
        · exact heq
        · rw [hle] at hgt
          cases hgt
      have heq : e' = e := List.inj_on_of_nodup_map hs (mem_index.mp hmem') hmem hsame
      simp [find, hsome, heq]

theorem find_isSome_iff (hs : s.Distinct) {rel : Bytes} :
    (s.find rel).isSome ↔ rel ∈ s.records.map (·.identity) := by
  rw [Option.isSome_iff_exists, List.mem_map]
  constructor
  · rintro ⟨e, he⟩
    exact ⟨e, (find_eq_some_iff hs).mp he⟩
  · rintro ⟨e, he⟩
    exact ⟨e, (find_eq_some_iff hs).mpr he⟩

theorem isRegularFile_iff (hs : s.Distinct) {path : Bytes} :
    s.isRegularFile path = true ↔
      ∃ rel, s.identityFor path = some rel ∧ rel ≠ [] ∧ rel ∈ s.records.map (·.identity) := by
  unfold isRegularFile
  cases s.identityFor path with
  | none => simp
  | some rel => simp [find_isSome_iff hs]

/-- A path is a directory of the container when it is the root or a record lies below it. -/
theorem isDirectory_iff {path : Bytes} :
    s.isDirectory path = true ↔ ∃ rel, s.identityFor (trimOneTrailingSlash path) = some rel ∧
      (rel = [] ∨ ∃ e ∈ s.records, rel ++ [slash] <+: e.identity) := by
  unfold isDirectory
  cases s.identityFor (trimOneTrailingSlash path) with
  | none => simp
  | some rel =>
      simp only [Bool.or_eq_true, List.isEmpty_iff, Option.some.injEq, exists_eq_left']
      apply or_congr_right
      rcases s.firstFrom_spec (rel ++ [slash]) with ⟨hnone, hall⟩ | ⟨e, hmem, hsome, hfrom, hleast⟩
      · rw [hnone]
        constructor
        · intro h
          cases h
        · rintro ⟨e, he, ⟨rest, heq⟩⟩
          have hbefore := hall e (mem_index.mpr he)
          rw [← heq, bytesLt_of_append] at hbefore
          cases hbefore
      · rw [hsome]
        constructor
        · intro h
          exact ⟨e, mem_index.mp hmem, List.isPrefixOf_iff_prefix.mp h⟩
        · rintro ⟨e', he', hstarts⟩
          have hfrom' : bytesLt e'.identity (rel ++ [slash]) = false := by
            rcases hstarts with ⟨rest, heq⟩
            rw [← heq]
            exact bytesLt_of_append _ _
          have hle := hleast e' (mem_index.mpr he') hfrom'
          exact List.isPrefixOf_iff_prefix.mpr (starts_of_between hfrom hle hstarts)

end BundleFileSource

end HermesNode.Bundle
