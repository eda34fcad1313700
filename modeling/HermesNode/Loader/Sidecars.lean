/-
Module: HermesNode.Loader.Sidecars
Purpose: The files of native addons beside a container. `--verify-natives` joins the directory and the
  recorded name with `std::filesystem`, the loader with `path.join`, and the reader lets any name
  pass. Both paths lead to one entry of the directory exactly for plain names: an absolute or
  climbing name, one that is not UTF-8, one that `path.join` shortens, or one with a token that
  dlopen(3) replaces, lets the loader open a file that was not verified.
Trusted boundary: human-reviewed spec (transcribed from `lib/bundle/bundle_tools.cpp`,
  `lib/bundle/bundle_run.cpp` and `libjs/bundle-loader.js`; `fs::canonical`, dlopen(3) and SHA-256 are
  parameters)
Main exports: Machine, rootDirectoryFor, verified_is_loaded_iff
-/
import HermesNode.Lib.Climb
import HermesNode.Lib.FileTree
import HermesNode.Loader.Identities

namespace HermesNode.Loader

open HermesNode.Bundle Resolve
open HermesNode.Bundle.BundleReader (NativeView)

/-! ### Tokens -/

/-- The names that dlopen(3) replaces behind a dollar. -/
def tokenNames : List Bytes := [ascii "ORIGIN", ascii "PLATFORM", ascii "LIB"]

def isWordByte (c : UInt8) : Bool :=
  (65 ≤ c && c ≤ 90) || (97 ≤ c && c ≤ 122) || (48 ≤ c && c ≤ 57) || c == 95

/-- What is behind a dollar starts with a token, in braces or as a whole word. -/
def startsToken (rest : Bytes) : Bool :=
  tokenNames.any fun name =>
    ((123 :: name) ++ [125]).isPrefixOf rest ||
      (name.isPrefixOf rest && !(rest.drop name.length).head?.any isWordByte)

/-- Somewhere in a path there is a token, such as `$LIB`. -/
def hasToken : Bytes → Bool
  | [] => false
  | c :: rest => (c == 36 && startsToken rest) || hasToken rest

/-- What the operating system answers about files. -/
structure Machine extends FileTree where
  /-- The bytes of a file that can be read. -/
  content : Node → Option Bytes
  /-- `fs::current_path()`. -/
  currentPath : Bytes
  /-- The names of `fs::canonical`. -/
  canonical : Bytes → Option (List Bytes)
  canonical_names : ∀ p segs, canonical p = some segs →
    Names segs ∧ ∀ seg ∈ segs, (0 : UInt8) ∉ seg
  canonical_resolves : ∀ p segs, canonical p = some segs →
    ∃ n, toFileTree.resolve p = some n ∧ toFileTree.resolve (absPath segs) = some n
  /-- No name of a canonical path is a link: the directory it leads to lies where it was found. -/
  canonical_direct : ∀ p segs, canonical p = some segs → ∀ front name rest,
    segs = front ++ name :: rest → ∀ d n, toFileTree.resolve (absPath front) = some d →
      child d name = some n → isDir n = true → up n = d
  /-- What dlopen(3) opens; an absolute path without tokens is opened as it is. -/
  dlopen : Bytes → Option Node
  dlopen_plain : ∀ p, isAbsolute p = true → hasToken p = false → dlopen p = toFileTree.resolve p

/-- A path as the C library reads it. -/
def cString (p : Bytes) : Bytes := p.takeWhile (· != 0)

/-- `rootDirectoryFor`, which `verifyNatives` repeats. -/
def rootDirectoryFor (m : Machine) (path : Bytes) : Bytes :=
  match m.canonical path with
  | some segs => parentPath (absPath segs)
  | none => parentPath (pathAppend m.currentPath path)

/-- The rows of the native table. -/
def nativeViews (reader : BundleReader) : List NativeView :=
  (List.range reader.nativeCount).filterMap reader.native

/-! ### The loader -/

/-- The identity of a native module as JavaScript sees it. -/
def nativeSpelling (napi : Napi) (reader : BundleReader) (v : NativeView) : JsString :=
  napi.ofUtf8 ((reader.identity v.moduleIndex.toNat).getD [])

/-- `nativeSidecars[target]`, filled in row order. -/
def sidecarOf (napi : Napi) (reader : BundleReader) (target : JsString) : Option Bytes :=
  ((nativeViews reader).reverse.find? fun v => nativeSpelling napi reader v == target).map
    (·.sidecar)

/-- `path.join(root, sidecar)`. -/
def addonPath (napi : Napi) (root sidecar : Bytes) : JsString :=
  posixJoin (napi.ofUtf8 root) (napi.ofUtf8 sidecar)

/-- `fs.existsSync`, which refuses a path with a NUL. -/
def existsSync (napi : Napi) (m : Machine) (path : JsString) : Bool :=
  !path.contains 0 && (m.resolve (napi.toUtf8 path)).isSome

/-- What is passed to `process.dlopen` when the module is required; without a file there the load
throws before. -/
def dlopenPath (napi : Napi) (m : Machine) (reader : BundleReader) (root : Bytes)
    (target : JsString) : Option JsString :=
  ((sidecarOf napi reader target).map (addonPath napi root)).filter (existsSync napi m)

/-- The file that is opened for that path. -/
def loaded (napi : Napi) (m : Machine) (reader : BundleReader) (root : Bytes) (target : JsString) :
    Option m.Node :=
  (dlopenPath napi m reader root target).bind fun path => m.dlopen (napi.toUtf8 path)

/-! ### The audit -/

/-- The file `nativeFileDigest` opens for a row. -/
def audited (m : Machine) (sidecarDir : Bytes) (v : NativeView) : Option m.Node :=
  m.resolve (cString (pathAppend sidecarDir v.sidecar))

inductive Status where
  | ok
  | missing
  | error
  | mismatch
  deriving DecidableEq, Repr

/-- The status of a row: files above 4 GiB count as unreadable. -/
def rowStatus (sha256 : Bytes → Bytes) (m : Machine) (sidecarDir : Bytes) (v : NativeView) :
    Status :=
  match audited m sidecarDir v with
  | none => .missing
  | some n =>
      match m.content n with
      | none => .error
      | some bytes =>
          if 2 ^ 32 ≤ bytes.length then .error
          else if bytes.length ≠ v.byteLength.toNat ∨ sha256 bytes ≠ v.digest then .mismatch
          else .ok

/-- The exit status of `--verify-natives`. -/
def verifyNatives (sha256 : Bytes → Bytes) (m : Machine) (reader : BundleReader) (path : Bytes) :
    Nat :=
  if (nativeViews reader).all fun v => rowStatus sha256 m (rootDirectoryFor m path) v == .ok then 0
  else 1

/-- For a container at a path, the file verified for a native module is the file loaded for it, it is
an entry of the container's directory, and a report without failures is true of what is loaded. -/
structure VerifiedIsLoaded (napi : Napi) (sha256 : Bytes → Bytes) (m : Machine)
    (reader : BundleReader) (path : Bytes) : Prop where
  same : ∀ v ∈ nativeViews reader, audited m (rootDirectoryFor m path) v =
    loaded napi m reader (rootDirectoryFor m path) (nativeSpelling napi reader v)
  entry : ∀ v ∈ nativeViews reader, ∀ n,
    loaded napi m reader (rootDirectoryFor m path) (nativeSpelling napi reader v) = some n →
      ∃ name, (m.resolve (rootDirectoryFor m path)).bind (m.child · name) = some n
  matched : verifyNatives sha256 m reader path = 0 → ∀ v ∈ nativeViews reader, ∀ n,
    loaded napi m reader (rootDirectoryFor m path) (nativeSpelling napi reader v) = some n →
      ∃ bytes, m.content n = some bytes ∧ bytes.length = v.byteLength.toNat ∧
        sha256 bytes = v.digest

/-! ### Names of entries -/

/-- The entry a recorded name stands for when it is appended to a directory, and whether it must be a
directory itself: the name up to its first NUL is relative and looks up one name, which is not
`..`. -/
def auditEntry (sidecar : Bytes) : Option (Bytes × Bool) :=
  if isAbsolute (cString sidecar) then none
  else
    match lookups (splitSlash (cString sidecar)) with
    | [name] => if name = dotDot then none else some (name, skips (filename (cString sidecar)))
    | _ => none

/-- The same when it is joined by `path.join`: climbing no further than to the directory, it
normalizes to one name. -/
def loaderEntry (sidecar : JsString) : Option (Bytes × Bool) :=
  match descend [] (splitSlash sidecar) with
  | some [name] => some (name, endsInSlash sidecar)
  | _ => none

/-- Every recorded name stands for an entry, and for the same one in both joins. -/
def SidecarsAgree (napi : Napi) (reader : BundleReader) : Prop :=
  ∀ v ∈ nativeViews reader, (auditEntry v.sidecar).isSome = true ∧
    auditEntry v.sidecar =
      (sidecarOf napi reader (nativeSpelling napi reader v)).bind
        fun sidecar => loaderEntry (napi.ofUtf8 sidecar)

instance (napi : Napi) (reader : BundleReader) : Decidable (SidecarsAgree napi reader) :=
  inferInstanceAs (Decidable (∀ v ∈ nativeViews reader, _ ∧ _))

/-- No entry has a token in its name. -/
def SidecarsPlain (reader : BundleReader) : Prop :=
  ∀ v ∈ nativeViews reader, ∀ entry ∈ auditEntry v.sidecar, hasToken entry.1 = false

instance (reader : BundleReader) : Decidable (SidecarsPlain reader) :=
  inferInstanceAs (Decidable (∀ v ∈ nativeViews reader, _))

/-! ### Tokens do not cross a slash -/

theorem isPrefixOf_behind {name : Bytes} {c : UInt8} (hfree : c ∉ name) (front rest : Bytes) :
    name.isPrefixOf (front ++ c :: rest) = name.isPrefixOf front := by
  induction name generalizing front with
  | nil => simp
  | cons b name ih =>
      rw [List.mem_cons, not_or] at hfree
      cases front with
      | nil => simp [List.isPrefixOf, Ne.symm hfree.1]
      | cons d front => simp [List.isPrefixOf, ih hfree.2]

/-- A token is not longer than what is before a slash. -/
theorem wordBehind {name front : Bytes} (h : name.isPrefixOf front = true) (rest : Bytes) :
    ((front ++ slash :: rest).drop name.length).head?.any isWordByte =
      (front.drop name.length).head?.any isWordByte := by
  obtain ⟨behind, rfl⟩ := List.isPrefixOf_iff_prefix.mp h
  rw [List.append_assoc, List.drop_left, List.drop_left]
  cases behind with
  | nil =>
      show isWordByte slash = false
      decide
  | cons c behind => rfl

theorem startsToken_behind (front rest : Bytes) :
    startsToken (front ++ slash :: rest) = startsToken front := by
  have hnames : ∀ name ∈ tokenNames, slash ∉ (123 :: name) ++ [125] ∧ slash ∉ name := by decide
  rw [Bool.eq_iff_iff, startsToken, startsToken, List.any_eq_true, List.any_eq_true]
  refine exists_congr fun name => and_congr_right fun hname => ?_
  obtain ⟨hbraces, hfree⟩ := hnames name hname
  rw [isPrefixOf_behind hbraces, isPrefixOf_behind hfree]
  cases hword : name.isPrefixOf front with
  | false => rfl
  | true => rw [wordBehind hword]

theorem hasToken_split (front rest : Bytes) :
    hasToken (front ++ slash :: rest) = (hasToken front || hasToken rest) := by
  induction front with
  | nil =>
      have hslash : (slash == (36 : UInt8)) = false := by decide
      simp [hasToken, hslash]
  | cons c front ih =>
      rw [List.cons_append, hasToken, hasToken, ih, startsToken_behind, Bool.or_assoc]

/-! ### Where the paths lead -/

theorem zero_not_mem_cString (p : Bytes) : (0 : UInt8) ∉ cString p := by
  intro h
  have hall := List.all_eq_true.mp (List.all_takeWhile (l := p) (p := (· != 0))) 0 h
  cases hall

theorem cString_append {base : Bytes} (h : (0 : UInt8) ∉ base) (rest : Bytes) :
    cString (base ++ rest) = base ++ cString rest := by
  unfold cString
  rw [List.takeWhile_append_of_pos]
  intro c hc
  have hne : c ≠ 0 := fun hzero => h (hzero ▸ hc)
  simpa using hne

theorem isAbsolute_cString (p : Bytes) : isAbsolute (cString p) = isAbsolute p := by
  cases p with
  | nil => rfl
  | cons c cs =>
      unfold cString
      by_cases hc : c = 0
      · subst hc
        rfl
      · rw [List.takeWhile_cons_of_pos (by simpa using hc)]
        rfl

/-- The path a row is verified at, as it is opened. -/
theorem cString_pathAppend {base : Bytes} (h : (0 : UInt8) ∉ base) (sidecar : Bytes) :
    cString (pathAppend base sidecar) = pathAppend base (cString sidecar) := by
  have hslash : (0 : UInt8) ∉ base ++ [slash] := by
    simp only [List.mem_append, List.mem_singleton, not_or]
    exact ⟨h, by decide⟩
  unfold pathAppend
  rw [isAbsolute_cString]
  split
  · rfl
  · split
    · exact cString_append h sidecar
    · have hsplit := cString_append hslash sidecar
      simpa using hsplit

variable {rel : Bytes}

theorem pathAppend_root (hrel : isAbsolute rel = false) :
    pathAppend (absPath []) rel = slash :: rel := by
  have hend : endsInSlash (absPath []) = true := by decide
  unfold pathAppend
  rw [hrel, hend, Bool.or_true]
  rfl

variable {r : List Bytes}

theorem pathAppend_names (hr : Names r) (hne : r ≠ [])
    (hrel : isAbsolute rel = false) :
    pathAppend (absPath r) rel = absPath r ++ slash :: rel := by
  have hend := absPath_not_endsInSlash hr hne
  unfold pathAppend
  rw [hrel, hend]
  rfl

/-- The segments of a relative path behind a directory. -/
theorem splitSlash_pathAppend (hr : Names r)
    (hrel : isAbsolute rel = false) :
    splitSlash (pathAppend (absPath r) rel) = [] :: (r ++ splitSlash rel) := by
  by_cases hne : r = []
  · subst hne
    rw [pathAppend_root hrel]
    simp [splitSlash]
  · rw [pathAppend_names hr hne hrel, splitSlash_append, splitSlash_absPath hr hne]
    rfl

theorem pathAppend_isAbsolute (r : List Bytes) (hrel : isAbsolute rel = false) :
    isAbsolute (pathAppend (absPath r) rel) = true := by
  unfold pathAppend
  rw [hrel]
  simp only [Bool.false_eq_true, if_false]
  split
  · rfl
  · rfl

/-- A directory that an absolute path of names leads to. -/
structure LeadsTo (t : FileTree) (r : List Bytes) (d : t.Node) : Prop where
  walk : t.walk t.top ([] :: r) = some d
  isDir : t.isDir d = true

theorem LeadsTo.resolve_append {t : FileTree} {d : t.Node} (h : LeadsTo t r d)
    (hr : Names r) (hrel : isAbsolute rel = false) :
    t.resolve (pathAppend (absPath r) rel) = t.walk d (splitSlash rel) := by
  have habs := pathAppend_isAbsolute r hrel
  have hne : pathAppend (absPath r) rel ≠ [] := by
    intro hnil
    rw [hnil] at habs
    cases habs
  have hsegs : [] :: (r ++ splitSlash rel) = ([] :: r) ++ splitSlash rel := rfl
  unfold FileTree.resolve
  rw [if_neg hne, habs, if_pos rfl, splitSlash_pathAppend hr hrel, hsegs, FileTree.walk_append,
    h.walk]
  rfl

/-- The directory itself, by its own path. -/
theorem LeadsTo.resolve {t : FileTree} {d : t.Node} (h : LeadsTo t r d)
    (hr : Names r) : t.resolve (absPath r) = some d := by
  have hne : absPath r ≠ [] := List.cons_ne_nil _ _
  unfold FileTree.resolve
  rw [if_neg hne, absPath_isAbsolute, if_pos rfl]
  by_cases hnil : r = []
  · subst hnil
    have hsegs : splitSlash (absPath []) = ([] :: []) ++ [[]] := by decide
    have hskip : ∀ seg ∈ [([] : Bytes)], skips seg = true := by decide
    rw [hsegs, FileTree.walk_append, h.walk, Option.bind_some, FileTree.walk_skips hskip]
    simp [FileTree.asDirectory, h.isDir]
  · rw [splitSlash_absPath hr hnil]
    exact h.walk

/-- What an entry leads to, when it may have to be a directory. -/
def entryNode (t : FileTree) (d : t.Node) (entry : Bytes × Bool) : Option t.Node :=
  (t.child d entry.1).bind fun n => if entry.2 then t.asDirectory n else some n

variable {entry : Bytes × Bool}

theorem entryNode_child {t : FileTree} {d n : t.Node}
    (h : entryNode t d entry = some n) : t.child d entry.1 = some n := by
  obtain ⟨m, hchild, hm⟩ := Option.bind_eq_some_iff.mp h
  rw [hchild]
  split at hm
  · unfold FileTree.asDirectory at hm
    split at hm
    · exact hm
    · cases hm
  · exact hm

variable {sidecar : Bytes}

theorem auditEntry_spec
    (h : auditEntry sidecar = some entry) :
    isAbsolute (cString sidecar) = false ∧ lookups (splitSlash (cString sidecar)) = [entry.1] ∧
      entry.1 ≠ dotDot ∧ entry.2 = skips (filename (cString sidecar)) := by
  unfold auditEntry at h
  split at h
  · cases h
  · rename_i hrel
    split at h
    · rename_i name hone
      split at h
      · cases h
      · rename_i hname
        cases h
        exact ⟨by simpa using hrel, hone, hname, rfl⟩
    · cases h

/-- A row whose name stands for an entry is verified at that entry. -/
theorem resolve_audit {t : FileTree} {d : t.Node} (h : LeadsTo t r d)
    (hr : Names r) (hzero : (0 : UInt8) ∉ absPath r)
    (hentry : auditEntry sidecar = some entry) :
    t.resolve (cString (pathAppend (absPath r) sidecar)) = entryNode t d entry := by
  obtain ⟨hrel, hone, hname, hflag⟩ := auditEntry_spec hentry
  rw [cString_pathAppend hzero, h.resolve_append hr hrel, FileTree.walk_entry hone hname h.isDir]
  unfold entryNode
  rw [hflag]
  rfl

theorem loaderEntry_spec {sidecar : JsString}
    (h : loaderEntry sidecar = some entry) :
    descend [] (splitSlash sidecar) = some [entry.1] ∧ entry.2 = endsInSlash sidecar := by
  unfold loaderEntry at h
  split at h
  · rename_i name hone
    cases h
    exact ⟨hone, rfl⟩
  · cases h

theorem loaderEntry_names {sidecar : JsString}
    (h : loaderEntry sidecar = some entry) : Names [entry.1] :=
  descend_names (segmentWalk_split _) (loaderEntry_spec h).1

/-- A normalized path of names, which may ask for a directory at its end. -/
def entryPath (r : List Bytes) (entry : Bytes × Bool) : Bytes :=
  pathAppend (absPath r) (entry.1 ++ if entry.2 then [slash] else [])

theorem entryTail_relative (hnames : Names [entry.1]) :
    isAbsolute (entry.1 ++ if entry.2 then [slash] else []) = false := by
  have hname := hnames.plain entry.1 (by simp)
  have hfree := not_absolute_of_free (hnames.free entry.1 (by simp))
  cases hentry : entry.1 with
  | nil => exact absurd hentry hname.1
  | cons c cs =>
      rw [hentry] at hfree
      exact hfree

/-- Joining a non-empty path to an absolute one normalizes the two, one behind the other. -/
theorem posixJoin_absPath (r : List Bytes) (hne : rel ≠ []) :
    posixJoin (absPath r) rel = posixNormalize (under r rel) := by
  have hparts : [absPath r, rel].filter (!·.isEmpty) = [absPath r, rel] := by
    simp [absPath, hne]
  unfold posixJoin
  rw [hparts]
  rfl

theorem endsInSlash_under (r : List Bytes) (hne : rel ≠ []) :
    endsInSlash (under r rel) = endsInSlash rel := by
  unfold endsInSlash under
  rw [List.getLast?_append_of_ne_nil _ (List.cons_ne_nil _ _), List.getLast?_cons_of_ne_nil hne]

theorem posixJoin_entry (hr : Names r) {sidecar : JsString}
    (h : loaderEntry sidecar = some entry) :
    posixJoin (absPath r) sidecar = entryPath r entry := by
  obtain ⟨hone, hflag⟩ := loaderEntry_spec h
  have hnames := loaderEntry_names h
  have hname := hnames.plain entry.1 (by simp)
  have hne : sidecar ≠ [] := by
    rintro rfl
    cases hone
  have hsegs := normalSegments_under hr hone
  rw [List.reverse_singleton] at hsegs
  have hempty : (under r sidecar).isEmpty = false := rfl
  have habs : isAbsolute (under r sidecar) = true := rfl
  have hrel := entryTail_relative hnames
  have hbody : (joinSlash (r ++ [entry.1])).isEmpty = false := by
    rw [List.isEmpty_eq_false_iff]
    intro hnil
    have hlast := @joinSlash_last r entry.1 hname.1
    rw [hnil] at hlast
    exact hname.1 (List.getLast?_eq_none_iff.mp hlast.symm)
  rw [posixJoin_absPath r hne]
  unfold posixNormalize entryPath
  simp only [hempty, habs, hsegs, hbody, endsInSlash_under r hne, Bool.false_eq_true, if_false,
    if_true, ← hflag]
  by_cases hnil : r = []
  · subst hnil
    rw [pathAppend_root hrel]
    cases entry.2 with
    | false => simp [joinSlash]
    | true => simp [joinSlash]
  · rw [pathAppend_names hr hnil hrel, joinSlash_snoc hnil]
    cases entry.2 with
    | false => simp [absPath]
    | true => simp [absPath]

/-! ### Encodings -/

theorem isUtf8_absPath (segs : List Bytes) : isUtf8 (absPath segs) = segs.all isUtf8 := by
  rw [absPath, isUtf8_ascii slash_ascii, isUtf8_joinSlash]

/-- Normalizing keeps nothing that was not there, or is a dot-dot. -/
theorem isUtf8_normalSegments {p : Bytes} (hp : isUtf8 p = true) :
    (normalSegments p).all isUtf8 = true := by
  rw [List.all_eq_true]
  intro seg hseg
  rcases foldl_normalStep_mem (List.mem_reverse.mp hseg) with hin | hnil | hdd
  · exact isUtf8_segment hp hin
  · cases hnil
  · rw [hdd]
    decide

theorem isUtf8_posixNormalize {p : Bytes} (hp : isUtf8 p = true) :
    isUtf8 (posixNormalize p) = true := by
  have hbody : isUtf8 (joinSlash (normalSegments p)) = true := by
    rw [isUtf8_joinSlash]
    exact isUtf8_normalSegments hp
  have htrailing : isUtf8 (joinSlash (normalSegments p) ++ [slash]) = true := by
    rw [isUtf8_split slash_ascii, hbody]
    rfl
  unfold posixNormalize
  split
  · decide
  · dsimp only
    split
    · split
      · decide
      · split
        · decide
        · decide
    · split
      · rw [isUtf8_ascii slash_ascii]
        split
        · exact htrailing
        · exact hbody
      · split
        · exact htrailing
        · exact hbody

/-- Joining UTF-8 to an absolute path in UTF-8. -/
theorem isUtf8_posixJoin (hroot : isUtf8 (absPath r) = true)
    (hrel : isUtf8 rel = true) : isUtf8 (posixJoin (absPath r) rel) = true := by
  by_cases hne : rel = []
  · subst hne
    have hparts : [absPath r, []].filter (!·.isEmpty) = [absPath r] := by simp [absPath]
    unfold posixJoin
    rw [hparts]
    exact isUtf8_posixNormalize hroot
  · rw [posixJoin_absPath r hne]
    apply isUtf8_posixNormalize
    rw [under, isUtf8_split slash_ascii, hroot, hrel]
    rfl

/-! ### Plain names are loaded where they are verified -/

/-- `napi_create_string_utf8` makes no lone surrogates: what it does not understand becomes the
replacement character. -/
def Napi.Replaces (napi : Napi) : Prop := ∀ bytes, isUtf8 (napi.ofUtf8 bytes) = true

variable {sha256 : Bytes → Bytes}

section

variable {napi : Napi} {m : Machine} {reader : BundleReader}

theorem rootDirectoryFor_spec {path : Bytes} {segs : List Bytes}
    (h : m.canonical path = some segs) :
    ∃ r d, Names r ∧ (0 : UInt8) ∉ absPath r ∧ rootDirectoryFor m path = absPath r ∧
      LeadsTo m.toFileTree r d := by
  obtain ⟨hnames, hzero⟩ := m.canonical_names path segs h
  obtain ⟨n, _, hn⟩ := m.canonical_resolves path segs h
  have hfree : ∀ r : List Bytes, (∀ seg ∈ r, (0 : UInt8) ∉ seg) → (0 : UInt8) ∉ absPath r := by
    intro r hr hin
    cases List.mem_cons.mp hin with
    | inl hslash => exact absurd hslash (by decide)
    | inr hbody =>
        cases mem_joinSlash hbody with
        | inl hslash => exact absurd hslash (by decide)
        | inr hseg =>
            obtain ⟨seg, hmem, hc⟩ := hseg
            exact hr seg hmem hc
  unfold rootDirectoryFor
  rw [h]
  have hne : absPath segs ≠ [] := List.cons_ne_nil _ _
  unfold FileTree.resolve at hn
  rw [if_neg hne, absPath_isAbsolute, if_pos rfl] at hn
  rcases List.eq_nil_or_concat' segs with hnil | ⟨r, name, hsegs⟩
  · subst hnil
    have hsplit : splitSlash (absPath []) = [[], []] := by decide
    rw [hsplit] at hn
    obtain ⟨d, hd, hrest⟩ := Option.bind_eq_some_iff.mp hn
    obtain ⟨e, he, _⟩ := Option.bind_eq_some_iff.mp hrest
    have hroot : parentPath (absPath []) = absPath [] := by decide
    refine ⟨[], d, names_nil, hfree [] (by simp), hroot, ?_, ?_⟩
    · rw [FileTree.walk, hd]
      rfl
    · unfold FileTree.step at he
      split at he
      · cases he
      · rename_i hdir
        simpa using hdir
  · subst hsegs
    have hsplit : splitSlash (absPath (r ++ [name])) = ([] :: r) ++ [name] := by
      rw [splitSlash_absPath hnames (by simp)]
      rfl
    rw [hsplit, FileTree.walk_append] at hn
    obtain ⟨d, hd, hrest⟩ := Option.bind_eq_some_iff.mp hn
    obtain ⟨e, he, _⟩ := Option.bind_eq_some_iff.mp hrest
    refine ⟨r, d, hnames.left, hfree r ?_, parentPath_absPath hnames, hd, ?_⟩
    · intro seg hseg
      exact hzero seg (List.mem_append_left _ hseg)
    · unfold FileTree.step at he
      split at he
      · cases he
      · rename_i hdir
        simpa using hdir

theorem addonPath_entry (hnapi : napi.Decodes) (hreplaces : napi.Replaces)
    (hr : Names r) (hroot : isUtf8 (absPath r) = true)
    (hentry : loaderEntry (napi.ofUtf8 sidecar) = some entry) :
    addonPath napi (absPath r) sidecar = entryPath r entry ∧
      napi.toUtf8 (addonPath napi (absPath r) sidecar) = entryPath r entry := by
  have hutf := isUtf8_posixJoin hroot (hreplaces sidecar)
  have hjoin := posixJoin_entry hr hentry
  unfold addonPath
  rw [hnapi.text _ hroot, hnapi.encode hutf]
  exact ⟨hjoin, hjoin⟩

theorem resolve_entryPath {t : FileTree} {d : t.Node} (h : LeadsTo t r d)
    (hr : Names r) {sidecar : JsString}
    (hentry : loaderEntry sidecar = some entry) :
    t.resolve (entryPath r entry) = entryNode t d entry := by
  have hnames := loaderEntry_names hentry
  have hname := hnames.plain entry.1 (by simp)
  have hfree := hnames.free entry.1 (by simp)
  have hplain : skips entry.1 = false := by simp [skips, hname.1, hname.2.1]
  unfold entryPath entryNode
  cases entry.2 with
  | false =>
      simp only [Bool.false_eq_true, if_false, List.append_nil]
      have hsegs := splitSlash_of_not_mem hfree
      have hone : lookups (splitSlash entry.1) = [entry.1] := by
        rw [hsegs]
        simp [lookups, hplain]
      rw [h.resolve_append hr (not_absolute_of_free hfree),
        FileTree.walk_entry hone hname.2.2 h.isDir, hsegs]
      simp [hplain]
  | true =>
      simp only [if_true]
      have hsegs : splitSlash (entry.1 ++ [slash]) = [entry.1, []] := by
        rw [splitSlash_append_slash hfree]
        rfl
      have hone : lookups (splitSlash (entry.1 ++ [slash])) = [entry.1] := by
        rw [hsegs]
        simp [lookups, skips, hname.1, hname.2.1]
      have hrel : isAbsolute (entry.1 ++ [slash]) = false :=
        @entryTail_relative (entry.1, true) hnames
      rw [h.resolve_append hr hrel, FileTree.walk_entry hone hname.2.2 h.isDir, hsegs]
      simp [skips]

theorem hasToken_entryPath (hr : Names r) (hnames : Names [entry.1]) :
    hasToken (entryPath r entry) = (hasToken (absPath r) || hasToken entry.1) := by
  have hrel := @entryTail_relative entry hnames
  have htail : hasToken (entry.1 ++ if entry.2 then [slash] else []) = hasToken entry.1 := by
    cases entry.2 with
    | false => simp
    | true =>
        rw [if_pos rfl, hasToken_split]
        exact Bool.or_false _
  unfold entryPath
  by_cases hnil : r = []
  · subst hnil
    rw [pathAppend_root hrel]
    have hsplit := hasToken_split [] (entry.1 ++ if entry.2 then [slash] else [])
    rw [htail] at hsplit
    exact hsplit
  · rw [pathAppend_names hr hnil hrel, hasToken_split, htail]

theorem loaded_entry (hnapi : napi.Decodes) (hreplaces : napi.Replaces)
    {d : m.Node} (hlead : LeadsTo m.toFileTree r d) (hr : Names r) (hzero : (0 : UInt8) ∉ absPath r)
    (hroot : isUtf8 (absPath r) = true) {target : JsString}
    (hsidecar : sidecarOf napi reader target = some sidecar)
    (hentry : loaderEntry (napi.ofUtf8 sidecar) = some entry) (hname : (0 : UInt8) ∉ entry.1)
    (hrootToken : hasToken (absPath r) = false) (htoken : hasToken entry.1 = false) :
    loaded napi m reader (absPath r) target = entryNode m.toFileTree d entry := by
  obtain ⟨hpath, hbytes⟩ := addonPath_entry hnapi hreplaces hr hroot hentry
  have hnames := loaderEntry_names hentry
  have hplain : hasToken (entryPath r entry) = false := by
    rw [hasToken_entryPath hr hnames, hrootToken, htoken]
    rfl
  have hopen : m.dlopen (entryPath r entry) = m.resolve (entryPath r entry) :=
    m.dlopen_plain _ (pathAppend_isAbsolute r (entryTail_relative hnames)) hplain
  have hclean : (0 : UInt8) ∉ entryPath r entry := by
    have htail : (0 : UInt8) ∉ entry.1 ++ if entry.2 then [slash] else [] := by
      cases entry.2 with
      | false => simpa using hname
      | true =>
          simp only [if_true, List.mem_append, List.mem_singleton, not_or]
          exact ⟨hname, by decide⟩
    exact not_mem_pathAppend (by decide) hzero htail
  have hresolve := resolve_entryPath hlead hr hentry
  unfold loaded dlopenPath
  rw [hsidecar, Option.map_some, Option.filter_some]
  have hexists : existsSync napi m (addonPath napi (absPath r) sidecar) =
      (entryNode m.toFileTree d entry).isSome := by
    unfold existsSync
    rw [hbytes, hresolve, hpath]
    simp [hclean]
  rw [hexists]
  cases hnode : entryNode m.toFileTree d entry with
  | none => rfl
  | some n =>
      rw [hnode] at hresolve
      simp only [Option.isSome_some, if_true, Option.bind_some]
      rw [hbytes]
      exact hopen.trans hresolve

/-- A name that is looked up has no NUL. -/
theorem auditEntry_clean
    (h : auditEntry sidecar = some entry) : (0 : UInt8) ∉ entry.1 := by
  intro hzero
  have hone := (auditEntry_spec h).2.1
  have hmem : entry.1 ∈ splitSlash (cString sidecar) := by
    apply List.mem_of_mem_filter (p := fun seg => !skips seg)
    rw [show (splitSlash (cString sidecar)).filter (fun seg => !skips seg) = [entry.1] from hone]
    exact List.mem_singleton_self _
  exact zero_not_mem_cString sidecar (mem_of_mem_splitSlash hmem hzero)

/-- Where every row is loaded from the entry it is verified at, the report is true. -/
theorem verified_of_entries {path : Bytes} {d : m.Node}
    (hroot : rootDirectoryFor m path = absPath r) (hr : Names r)
    (hlead : LeadsTo m.toFileTree r d)
    (h : ∀ v ∈ nativeViews reader, ∃ entry,
      audited m (absPath r) v = entryNode m.toFileTree d entry ∧
        loaded napi m reader (absPath r) (nativeSpelling napi reader v) =
          entryNode m.toFileTree d entry) :
    VerifiedIsLoaded napi sha256 m reader path := by
  have hsame : ∀ v ∈ nativeViews reader, audited m (absPath r) v =
      loaded napi m reader (absPath r) (nativeSpelling napi reader v) := by
    intro v hv
    obtain ⟨entry, haudited, hloaded⟩ := h v hv
    rw [haudited, hloaded]
  constructor
  · rw [hroot]
    exact hsame
  · rw [hroot]
    intro v hv n hn
    obtain ⟨entry, _, hloaded⟩ := h v hv
    rw [hloaded] at hn
    exists entry.1
    rw [hlead.resolve hr]
    exact entryNode_child hn
  · rw [hroot]
    intro hreport v hv n hn
    have hall : (nativeViews reader).all
        (fun v => rowStatus sha256 m (rootDirectoryFor m path) v == .ok) = true := by
      unfold verifyNatives at hreport
      split at hreport
      · assumption
      · cases hreport
    have hrow := List.all_eq_true.mp hall v hv
    rw [hroot, beq_iff_eq] at hrow
    unfold rowStatus at hrow
    rw [hsame v hv, hn] at hrow
    dsimp only at hrow
    split at hrow
    · cases hrow
    · rename_i bytes hbytes
      split at hrow
      · cases hrow
      · split at hrow
        · cases hrow
        · rename_i hmatch
          rw [not_or, not_not, not_not] at hmatch
          exact ⟨bytes, hbytes, hmatch.1, hmatch.2⟩

/-- Names that stand for one entry in both joins are loaded where they are verified, from any
directory with a path in UTF-8. -/
theorem verified_of_agree (hnapi : napi.Decodes) (hreplaces : napi.Replaces)
    {path : Bytes} {segs : List Bytes}
    (hcanonical : m.canonical path = some segs)
    (hroot : isUtf8 (rootDirectoryFor m path) = true)
    (htoken : hasToken (rootDirectoryFor m path) = false) (h : SidecarsAgree napi reader)
    (hplain : SidecarsPlain reader) : VerifiedIsLoaded napi sha256 m reader path := by
  obtain ⟨r, d, hr, hzero, hdir, hlead⟩ := rootDirectoryFor_spec hcanonical
  rw [hdir] at hroot htoken
  apply verified_of_entries hdir hr hlead
  intro v hv
  obtain ⟨hsome, hagree⟩ := h v hv
  obtain ⟨entry, hentry⟩ := Option.isSome_iff_exists.mp hsome
  rw [hentry] at hagree
  obtain ⟨sidecar, hsidecar, hloader⟩ := Option.bind_eq_some_iff.mp hagree.symm
  exists entry
  constructor
  · exact resolve_audit hlead hr hzero hentry
  · exact loaded_entry hnapi hreplaces hlead hr hzero hroot hsidecar hloader
      (auditEntry_clean hentry) htoken (hplain v hv entry hentry)

end

/-! ### Other names are not -/

/-- The files of the machine below: the container and perhaps one more. -/
def fullFiles (home : Bytes) (leaf : Option Bytes) : List (List Bytes) :=
  [home, home] :: leaf.toList.map fun name => [home, name]

theorem not_mem_fullFiles (home : Bytes) (leaf : Option Bytes) {d : List Bytes}
    (hd : d.length < 2) : d ∉ fullFiles home leaf := by
  intro hin
  have htwo : d.length = 2 := by
    cases List.mem_cons.mp hin with
    | inl hsame =>
        rw [hsame]
        rfl
    | inr hleaf =>
        obtain ⟨name, _, rfl⟩ := List.mem_map.mp hleaf
        rfl
  omega

/-- Paths of at most two names pass through directories only. -/
theorem fullFiles_front (home : Bytes) (leaf : Option Bytes) {segs : List Bytes}
    (hsegs : segs.length ≤ 2) (front : List Bytes) (name : Bytes) (rest : List Bytes)
    (h : segs = front ++ name :: rest) : front ∉ fullFiles home leaf := by
  apply not_mem_fullFiles
  have hlength := congrArg List.length h
  simp only [List.length_append, List.length_cons] at hlength
  omega

/-- Neither name of the container's path is a link. -/
theorem fullFiles_direct {home : Bytes} {leaf : Option Bytes} (hname : Names [home])
    {front : List Bytes} {name : Bytes} {rest : List Bytes}
    (h : [home, home] = front ++ name :: rest) {d n : List Bytes}
    (hd : (fullTree home (fullFiles home leaf)).resolve (absPath front) = some d)
    (hchild : (fullTree home (fullFiles home leaf)).child d name = some n)
    (hn : (fullTree home (fullFiles home leaf)).isDir n = true) :
    (fullTree home (fullFiles home leaf)).up n = d := by
  have hchild' : d ++ [name] = n := Option.some.inj hchild
  match front, h with
  | [], h =>
      have hnameEq : home = name := (List.cons.inj h).1
      have htop : d = [] := by
        have hsplit : splitSlash (absPath []) = [[], []] := by decide
        have hskips : ∀ seg ∈ [([] : Bytes), []], skips seg = true := by decide
        have hne : absPath [] ≠ [] := List.cons_ne_nil _ _
        unfold FileTree.resolve at hd
        rw [if_neg hne, hsplit, FileTree.walk_skips hskips, if_neg (by simp), absPath_isAbsolute,
          if_pos rfl] at hd
        unfold FileTree.asDirectory at hd
        split at hd
        · exact (Option.some.inj hd).symm
        · cases hd
      subst htop
      rw [← hchild', ← hnameEq]
      simp [fullTree]
  | [first], h =>
      obtain ⟨hfirst, hrest⟩ := List.cons.inj h
      have hsecond : home = name := (List.cons.inj hrest).1
      have hhome : d = [home] := by
        rw [← hfirst, fullTree_resolve hname (by simp) (fullFiles_front home leaf (by simp))] at hd
        exact (Option.some.inj hd).symm
      have hfile : (fullTree home (fullFiles home leaf)).isDir [home, home] = false := by
        simp [fullTree, fullFiles]
      rw [← hchild', hhome, ← hsecond] at hn
      rw [show [home] ++ [home] = [home, home] from rfl, hfile] at hn
      cases hn
  | first :: second :: more, h =>
      have hlength := congrArg List.length h
      simp only [List.length_append, List.length_cons, List.length_nil] at hlength
      omega

/-- A machine on which every path leads somewhere, with the container `/home/home`; but what a token
is replaced by is missing. -/
def fullMachine (home : Bytes) (leaf : Option Bytes) (hname : Names [home])
    (hzero : (0 : UInt8) ∉ home) : Machine where
  toFileTree := fullTree home (fullFiles home leaf)
  content _ := none
  currentPath := [slash]
  canonical p :=
    if p = absPath [home, home] then some [home, home] else none
  canonical_names p segs h := by
    split at h
    · cases h
      refine ⟨@Names.append [home] [home] hname hname, ?_⟩
      intro seg hseg
      have hsame : seg = home := by simpa using hseg
      rw [hsame]
      exact hzero
    · cases h
  canonical_resolves p segs h := by
    split at h
    · rename_i hp
      cases h
      rw [hp]
      have hcontainer : (fullTree home (fullFiles home leaf)).resolve (absPath [home, home]) =
          some [home, home] :=
        fullTree_resolve (@Names.append [home] [home] hname hname) (by simp)
          (fullFiles_front home leaf (by simp))
      exact ⟨[home, home], hcontainer, hcontainer⟩
    · cases h
  canonical_direct p segs h := by
    split at h
    · cases h
      intro front name rest hsegs d n hd hchild hn
      exact fullFiles_direct hname hsegs hd hchild hn
    · cases h
  dlopen p := if hasToken p then none else (fullTree home (fullFiles home leaf)).resolve p
  dlopen_plain p _ hplain := by rw [hplain, if_neg Bool.false_ne_true]

section

variable {napi : Napi} {reader : BundleReader} {home : Bytes}

theorem fullMachine_root (hname : Names [home]) (hzero : (0 : UInt8) ∉ home)
    (leaf : Option Bytes) :
    (fullMachine home leaf hname hzero).canonical (absPath [home, home]) = some [home, home] ∧
      rootDirectoryFor (fullMachine home leaf hname hzero) (absPath [home, home]) =
        absPath [home] := by
  have hcanonical : (fullMachine home leaf hname hzero).canonical (absPath [home, home]) =
      some [home, home] := by
    simp [fullMachine]
  refine ⟨hcanonical, ?_⟩
  unfold rootDirectoryFor
  rw [hcanonical]
  exact parentPath_absPath (@Names.append [home] [home] hname hname)

theorem fullTree_leadsTo (hname : Names [home]) (leaf : Option Bytes) :
    LeadsTo (fullTree home (fullFiles home leaf)) [home] [home] := by
  have hresolve := @fullTree_resolve home _ _ hname (by simp)
    (fullFiles_front home leaf (by simp))
  constructor
  · have hne : absPath [home] ≠ [] := List.cons_ne_nil _ _
    unfold FileTree.resolve at hresolve
    rw [if_neg hne, absPath_isAbsolute, if_pos rfl, splitSlash_absPath hname (by simp)] at hresolve
    exact hresolve
  · have hnot := not_mem_fullFiles home leaf (d := [home]) (by simp)
    simpa [fullTree] using hnot

theorem zero_not_mem_absPath (hzero : (0 : UInt8) ∉ home) : (0 : UInt8) ∉ absPath [home] := by
  intro hin
  cases List.mem_cons.mp hin with
  | inl hslash => exact absurd hslash (by decide)
  | inr hhome => exact hzero hhome

/-- Every path that does not name `home` leads somewhere. -/
theorem fullTree_walk_some {segs : List Bytes} (hfresh : home ∉ segs) (hhome : home ≠ dotDot)
    {d : List Bytes} (hd : d.count home ≤ 1) :
    ∃ n, (fullTree home (fullFiles home none)).walk d segs = some n := by
  induction segs generalizing d with
  | nil => exact ⟨d, rfl⟩
  | cons seg segs ih =>
      have hrest : home ∉ segs := fun hin => hfresh (List.mem_cons_of_mem _ hin)
      have hseg : seg ≠ home := fun hsame => hfresh (hsame ▸ List.mem_cons_self)
      have hdir : (fullTree home (fullFiles home none)).isDir d = true := by
        have hne : d ≠ [home, home] := by
          rintro rfl
          simp at hd
        simp [fullTree, fullFiles, hne]
      have hnext : ∃ next, (fullTree home (fullFiles home none)).step d seg = some next ∧
          next.count home ≤ 1 := by
        unfold FileTree.step
        rw [if_neg (by simp [hdir])]
        split
        · exact ⟨d, rfl, hd⟩
        · split
          · refine ⟨_, rfl, ?_⟩
            unfold fullTree
            dsimp only
            split
            · simp
            · rw [List.count_append]
              simpa [List.count_singleton, hhome.symm] using hd
          · refine ⟨d ++ [seg], rfl, ?_⟩
            rw [List.count_append]
            simpa [List.count_singleton, hseg] using hd
      obtain ⟨next, hstep, hcount⟩ := hnext
      obtain ⟨n, hn⟩ := ih hrest hcount
      exists n
      have hwalk : (fullTree home (fullFiles home none)).walk d (seg :: segs) =
          ((fullTree home (fullFiles home none)).step d seg).bind
            fun next => (fullTree home (fullFiles home none)).walk next segs := rfl
      rw [hwalk, hstep]
      exact hn

/-- There every row is verified at some place, and at an entry of the directory only when its name
stands for that entry. -/
theorem audited_full (hname : Names [home]) (hzero : (0 : UInt8) ∉ home) {v : NativeView}
    (hfresh : home ∉ splitSlash (cString v.sidecar)) :
    ∃ n : List Bytes, audited (fullMachine home none hname hzero) (absPath [home]) v = some n ∧
      ∀ name, n = [home, name] →
        auditEntry v.sidecar = some (name, skips (filename (cString v.sidecar))) := by
  have hhome := hname.plain home (by simp)
  have hpath := cString_pathAppend (zero_not_mem_absPath hzero) v.sidecar
  unfold audited
  rw [hpath]
  cases hrel : isAbsolute (cString v.sidecar) with
  | true =>
      have hsame : pathAppend (absPath [home]) (cString v.sidecar) = cString v.sidecar := by
        simp [pathAppend, hrel]
      have hne : cString v.sidecar ≠ [] := by
        intro hnil
        rw [hnil] at hrel
        cases hrel
      obtain ⟨n, hn⟩ := fullTree_walk_some hfresh hhome.2.2 (d := []) (by simp)
      refine ⟨n, ?_, ?_⟩
      · rw [hsame]
        unfold FileTree.resolve
        rw [if_neg hne, hrel, if_pos rfl]
        exact hn
      · intro name hentry
        rw [hentry] at hn
        cases fullTree_walk_mem hn (x := home) (by simp) with
        | inl hin => exact absurd hin hfresh
        | inr hnil => cases hnil
  | false =>
      obtain ⟨n, hn⟩ := fullTree_walk_some hfresh hhome.2.2 (d := [home]) (by simp)
      refine ⟨n, ?_, ?_⟩
      · have hresolve := (fullTree_leadsTo hname none).resolve_append hname hrel
        exact hresolve.trans hn
      · intro name hentry
        rw [hentry] at hn
        obtain ⟨hone, hdd⟩ := fullTree_walk_home hfresh hn
        unfold auditEntry
        rw [hrel, hone]
        simp [hdd]

/-- What is loaded there was joined to the directory, and has no token. -/
theorem loaded_spec {hname : Names [home]} {hzero : (0 : UInt8) ∉ home} {leaf : Option Bytes}
    {root : Bytes} {target : JsString} {n : List Bytes}
    (h : loaded napi (fullMachine home leaf hname hzero) reader root target = some n) :
    ∃ sidecar, sidecarOf napi reader target = some sidecar ∧
      hasToken (napi.toUtf8 (addonPath napi root sidecar)) = false ∧
      (fullTree home (fullFiles home leaf)).resolve
        (napi.toUtf8 (addonPath napi root sidecar)) = some n := by
  obtain ⟨path, hpath, hopen⟩ := Option.bind_eq_some_iff.mp h
  obtain ⟨hmap, _⟩ := Option.filter_eq_some_iff.mp hpath
  obtain ⟨sidecar, hsidecar, rfl⟩ := Option.map_eq_some_iff.mp hmap
  exists sidecar
  unfold fullMachine at hopen
  dsimp only at hopen
  split at hopen
  · cases hopen
  · rename_i hplain
    exact ⟨hsidecar, by simpa using hplain, hopen⟩

/-- A path in UTF-8 leads to places with names in UTF-8. -/
theorem isUtf8_of_resolve {files : List (List Bytes)} {p : Bytes} {n : List Bytes} {x : Bytes}
    (hp : isUtf8 p = true) (h : (fullTree home files).resolve p = some n) (hx : x ∈ n) :
    isUtf8 x = true := by
  unfold FileTree.resolve at h
  split at h
  · cases h
  · have hstart : (if isAbsolute p then (fullTree home files).top else (fullTree home files).cwd) =
        ([] : List Bytes) := by
      split
      · rfl
      · rfl
    rw [hstart] at h
    cases fullTree_walk_mem h hx with
    | inl hin => exact isUtf8_segment hp hin
    | inr hnil => cases hnil

theorem posixNormalize_absolute {p : Bytes} (habs : isAbsolute p = true) :
    posixNormalize p = absPath (normalSegments p) ∨
      (normalSegments p ≠ [] ∧ posixNormalize p = absPath (normalSegments p) ++ [slash]) := by
  have hempty : p.isEmpty = false := by
    cases p with
    | nil => cases habs
    | cons c cs => rfl
  unfold posixNormalize
  simp only [hempty, habs, Bool.false_eq_true, if_false, if_true]
  split
  · rename_i hbody
    apply Or.inl
    rw [absPath, List.isEmpty_iff.mp hbody]
  · rename_i hbody
    split
    · apply Or.inr
      refine ⟨?_, rfl⟩
      intro hnil
      rw [hnil] at hbody
      exact hbody rfl
    · exact Or.inl rfl

/-- A normalized absolute path leads to the names it consists of. -/
theorem resolve_posixNormalize {files : List (List Bytes)} {p : Bytes} {n : List Bytes}
    (habs : isAbsolute p = true)
    (h : (fullTree home files).resolve (posixNormalize p) = some n) : n = normalSegments p := by
  have hnames := normalSegments_names habs
  -- a first empty segment stays at the top
  have hbehind : ∀ segs : List Bytes, (fullTree home files).walk [] ([] :: segs) = some n →
      (fullTree home files).walk [] segs = some n := by
    intro segs hwalk
    obtain ⟨next, hstep, hrest⟩ := Option.bind_eq_some_iff.mp hwalk
    have hnext : next = [] := by
      unfold FileTree.step at hstep
      split at hstep
      · cases hstep
      · exact (Option.some.inj hstep).symm
    rw [hnext] at hrest
    exact hrest
  rcases posixNormalize_absolute habs with hpath | ⟨hne, hpath⟩
  · have hnePath : absPath (normalSegments p) ≠ [] := List.cons_ne_nil _ _
    rw [hpath] at h
    unfold FileTree.resolve at h
    rw [if_neg hnePath, absPath_isAbsolute, if_pos rfl] at h
    by_cases hnil : normalSegments p = []
    · rw [hnil] at h ⊢
      have hwalk := hbehind [[]] h
      have hwalk' := hbehind [] hwalk
      exact (Option.some.inj hwalk').symm
    · rw [splitSlash_absPath hnames hnil] at h
      exact fullTree_walk_eq hnames (hbehind _ h)
  · have hnePath : absPath (normalSegments p) ++ [slash] ≠ [] := by simp
    have habs' : isAbsolute (absPath (normalSegments p) ++ [slash]) = true := rfl
    have hsplit : splitSlash (absPath (normalSegments p) ++ [slash]) =
        [] :: (normalSegments p ++ [[]]) := by
      rw [splitSlash_append, splitSlash_absPath hnames hne]
      rfl
    rw [hpath] at h
    unfold FileTree.resolve at h
    rw [if_neg hnePath, habs', if_pos rfl, hsplit] at h
    have happend := FileTree.walk_append (t := fullTree home files) [] (normalSegments p) [[]]
    obtain ⟨mid, hmid, hlast⟩ :=
      Option.bind_eq_some_iff.mp (happend.symm.trans (hbehind _ h))
    have hsame : mid = n := by
      obtain ⟨next, hstep, hrest⟩ := Option.bind_eq_some_iff.mp hlast
      unfold FileTree.step at hstep
      split at hstep
      · cases hstep
      · exact (Option.some.inj hstep).trans (Option.some.inj hrest)
    rw [← hsame]
    exact fullTree_walk_eq hnames hmid

/-- Where a loaded file is an entry of `home`, the name that was joined stands for that entry. -/
theorem loaderEntry_of_loaded (hnapi : napi.Decodes) (hreplaces : napi.Replaces)
    (hname : Names [home]) (hutf : isUtf8 home = true) {name : Bytes}
    (hfresh : home ∉ splitSlash (napi.ofUtf8 sidecar)) {files : List (List Bytes)}
    (h : (fullTree home files).resolve (napi.toUtf8 (addonPath napi (absPath [home]) sidecar)) =
      some [home, name]) :
    loaderEntry (napi.ofUtf8 sidecar) = some (name, endsInSlash (napi.ofUtf8 sidecar)) := by
  have hroot : isUtf8 (absPath [home]) = true := by
    rw [isUtf8_absPath]
    simpa using hutf
  have hhome := hname.plain home (by simp)
  unfold addonPath at h
  rw [hnapi.text _ hroot, hnapi.encode (isUtf8_posixJoin hroot (hreplaces sidecar))] at h
  generalize napi.ofUtf8 sidecar = rel at hfresh h
  by_cases hne : rel = []
  · -- the directory itself is no entry of it
    subst hne
    have hparts : [absPath [home], []].filter (!·.isEmpty) = [absPath [home]] := by simp [absPath]
    have hjoin : posixJoin (absPath [home]) [] = posixNormalize (absPath [home]) := by
      unfold posixJoin
      rw [hparts]
      rfl
    rw [hjoin] at h
    have hsegs := resolve_posixNormalize (absPath_isAbsolute [home]) h
    rw [normalSegments_absPath hname] at hsegs
    simp at hsegs
  · rw [posixJoin_absPath [home] hne] at h
    have hsegs := resolve_posixNormalize (p := under [home] rel) rfl h
    cases hwalk : descend [] (splitSlash rel) with
    | none =>
        have hleft := foldl_normalStep_left (segmentWalk_split rel) hhome.2.2 hfresh hwalk
        have hnormal : normalSegments (under [home] rel) =
            ((splitSlash rel).foldl (normalStep true) [home]).reverse := by
          have hstart : (splitSlash (absPath [home])).foldl (normalStep true) [] = [home] := by
            have hsame := normalSegments_absPath hname
            rw [normalSegments, absPath_isAbsolute] at hsame
            exact List.reverse_eq_iff.mp hsame
          rw [normalSegments, show isAbsolute (under [home] rel) = true from rfl, under,
            splitSlash_append, List.foldl_append, hstart]
        rw [hnormal] at hsegs
        exfalso
        apply hleft
        have hin : home ∈ ((splitSlash rel).foldl (normalStep true) [home]).reverse := by
          rw [← hsegs]
          simp
        simpa using hin
    | some kept =>
        rw [normalSegments_under hname hwalk] at hsegs
        have hkept : kept = [name] := by
          have hrev : kept.reverse = [name] := by simpa using hsegs.symm
          simpa using congrArg List.reverse hrev
        unfold loaderEntry
        rw [hwalk, hkept]

/-! ### A fresh name -/

/-- A name that is longer than all the others. -/
def freshName (lead : Bytes) (others : List Bytes) : Bytes :=
  lead ++ List.replicate (others.flatten.length + 3) 97

theorem freshName_not_mem (lead : Bytes) (others : List Bytes) :
    freshName lead others ∉ others := by
  intro hin
  have hle := (List.sublist_flatten_of_mem hin).length_le
  simp only [freshName, List.length_append, List.length_replicate] at hle
  omega

theorem mem_freshName {lead : Bytes} {others : List Bytes} {c : UInt8}
    (h : c ∈ freshName lead others) : c ∈ lead ∨ c = 97 := by
  cases List.mem_append.mp h with
  | inl hlead => exact Or.inl hlead
  | inr hrest => exact Or.inr (List.eq_of_mem_replicate hrest)

theorem freshName_names (lead : Bytes) (others : List Bytes) (hlead : slash ∉ lead) :
    Names [freshName lead others] := by
  have hlength : 3 ≤ (freshName lead others).length := by
    simp only [freshName, List.length_append, List.length_replicate]
    omega
  constructor
  · intro seg hseg
    rw [List.mem_singleton.mp hseg]
    refine ⟨?_, ?_, ?_⟩
    · rintro hnil
      rw [hnil] at hlength
      exact absurd hlength (by decide)
    · rintro hdot
      rw [hdot] at hlength
      exact absurd hlength (by decide)
    · rintro hdd
      rw [hdd] at hlength
      exact absurd hlength (by decide)
  · intro seg hseg
    rw [List.mem_singleton.mp hseg]
    intro hin
    cases mem_freshName hin with
    | inl hin' => exact hlead hin'
    | inr ha => exact absurd ha (by decide)

theorem freshName_clean (lead : Bytes) (others : List Bytes) (hlead : (0 : UInt8) ∉ lead) :
    (0 : UInt8) ∉ freshName lead others := by
  intro hin
  cases mem_freshName hin with
  | inl hin' => exact hlead hin'
  | inr ha => exact absurd ha (by decide)

theorem isUtf8_letters (n : Nat) : isUtf8 (List.replicate n (97 : UInt8)) = true := by
  induction n with
  | zero => rfl
  | succ n ih =>
      rw [List.replicate_succ, isUtf8_ascii (by decide)]
      exact ih

theorem hasToken_letters (n : Nat) : hasToken (List.replicate n (97 : UInt8)) = false := by
  induction n with
  | zero => rfl
  | succ n ih =>
      rw [List.replicate_succ, hasToken, ih]
      rfl

/-- A byte that UTF-8 never has. -/
theorem not_isUtf8_lead (rest : Bytes) : isUtf8 (0xFF :: rest) = false := by
  rw [isUtf8_cons, if_neg (by decide)]
  match rest with
  | [] => rfl
  | [b] => simp [utf8Behind]
  | [b, c] => simp [utf8Behind]
  | b :: c :: d :: rest => simp [utf8Behind]

/-- How a directory's name starts that is UTF-8 or not, and has a token or not. -/
def leadOf (textual tokens : Bool) : Bytes :=
  (if textual then [] else [0xFF]) ++ if tokens then ascii "$LIB-" else []

theorem leadOf_free (textual tokens : Bool) :
    slash ∉ leadOf textual tokens ∧ (0 : UInt8) ∉ leadOf textual tokens := by
  revert textual tokens
  decide

theorem isUtf8_freshName (textual tokens : Bool) (others : List Bytes) :
    isUtf8 (freshName (leadOf textual tokens) others) = textual := by
  cases textual with
  | false => exact not_isUtf8_lead _
  | true =>
      cases tokens with
      | false => exact isUtf8_letters _
      | true =>
          have hlead : ∀ rest, isUtf8 (leadOf true true ++ rest) = isUtf8 rest := by
            intro rest
            simp [leadOf, ascii, isUtf8_ascii]
          exact (hlead _).trans (isUtf8_letters _)

theorem hasToken_freshName (textual tokens : Bool) (others : List Bytes) :
    hasToken (freshName (leadOf textual tokens) others) = tokens := by
  cases tokens with
  | false =>
      cases textual with
      | false => exact hasToken_letters _
      | true => exact hasToken_letters _
  | true =>
      cases textual with
      | false => rfl
      | true => rfl

/-! ### Exactly the plain names -/

/-- A container that is verified where it is loaded on the machine where everything exists: each row
names an entry of the directory for both joins, the directory's own name is UTF-8, and the path that
is loaded has no token. -/
theorem entries_of_verified (hnapi : napi.Decodes)
    {v : NativeView} (hv : v ∈ nativeViews reader) (hname : Names [home])
    (hzero : (0 : UInt8) ∉ home) (hfresh : home ∉ splitSlash (cString v.sidecar))
    (h : VerifiedIsLoaded napi sha256 (fullMachine home none hname hzero) reader
      (absPath [home, home])) :
    ∃ name sidecar, auditEntry v.sidecar = some (name, skips (filename (cString v.sidecar))) ∧
      sidecarOf napi reader (nativeSpelling napi reader v) = some sidecar ∧
      (fullTree home (fullFiles home none)).resolve
        (napi.toUtf8 (addonPath napi (absPath [home]) sidecar)) = some [home, name] ∧
      isUtf8 home = true ∧
      hasToken (napi.toUtf8 (addonPath napi (absPath [home]) sidecar)) = false := by
  obtain ⟨hcanonical, hroot⟩ := fullMachine_root hname hzero none
  obtain ⟨n, hn, hentry⟩ := audited_full hname hzero hfresh
  have hsame := h.same v hv
  have hchild := h.entry v hv n
  rw [hroot] at hsame hchild
  rw [hn] at hsame
  obtain ⟨name, hname'⟩ := hchild hsame.symm
  have hplace : n = [home, name] := by
    have hdir := (fullTree_leadsTo hname none).resolve hname
    obtain ⟨(d : List Bytes), hd, hn'⟩ := Option.bind_eq_some_iff.mp hname'
    have hhome : d = [home] := Option.some.inj (hd.symm.trans hdir)
    have hadded : d ++ [name] = n := Option.some.inj hn'
    rw [← hadded, hhome]
    rfl
  obtain ⟨sidecar, hsidecar, htoken, hresolve⟩ := loaded_spec hsame.symm
  rw [hplace] at hresolve
  refine ⟨name, sidecar, hentry name hplace, hsidecar, hresolve, ?_, htoken⟩
  exact isUtf8_of_resolve (hnapi.utf8 _) hresolve List.mem_cons_self

/-- Where the entry is a file, both joins must agree on whether it may be one. -/
theorem agree_of_verified (hnapi : napi.Decodes) (hreplaces : napi.Replaces)
    {v : NativeView} (hv : v ∈ nativeViews reader)
    {audit loader : Bytes × Bool} (haudit : auditEntry v.sidecar = some audit)
    (hsidecar : sidecarOf napi reader (nativeSpelling napi reader v) = some sidecar)
    (hloader : loaderEntry (napi.ofUtf8 sidecar) = some loader) (hone : audit.1 = loader.1)
    (hname : Names [home]) (hzero : (0 : UInt8) ∉ home) (hutf : isUtf8 home = true)
    (hrootToken : hasToken (absPath [home]) = false) (htoken : hasToken loader.1 = false)
    (h : VerifiedIsLoaded napi sha256 (fullMachine home (some audit.1) hname hzero) reader
      (absPath [home, home])) : audit.2 = loader.2 := by
  obtain ⟨hcanonical, hroot⟩ := fullMachine_root hname hzero (some audit.1)
  have hsame := h.same v hv
  have hlead := fullTree_leadsTo hname (some audit.1)
  have hclean := zero_not_mem_absPath hzero
  have hrootUtf8 : isUtf8 (absPath [home]) = true := by
    rw [isUtf8_absPath]
    simpa using hutf
  have hnul := auditEntry_clean haudit
  rw [hone] at hnul
  rw [hroot, loaded_entry (m := fullMachine home (some audit.1) hname hzero) hnapi hreplaces hlead
    hname hclean hrootUtf8 hsidecar hloader hnul hrootToken htoken] at hsame
  unfold audited at hsame
  rw [resolve_audit (t := (fullMachine home (some audit.1) hname hzero).toFileTree) hlead hname hclean
    haudit] at hsame
  -- the entry is no directory there
  have hfile : (fullTree home (fullFiles home (some audit.1))).isDir [home, audit.1] = false := by
    simp [fullTree, fullFiles]
  have hnode : ∀ entry : Bytes × Bool, entry.1 = audit.1 →
      entryNode (fullTree home (fullFiles home (some audit.1))) [home] entry =
        if entry.2 then none else some [home, audit.1] := by
    intro entry hentry
    have hchild : (fullTree home (fullFiles home (some audit.1))).child [home] entry.1 =
        some [home, audit.1] := by
      rw [hentry]
      rfl
    have hnone : (fullTree home (fullFiles home (some audit.1))).asDirectory [home, audit.1] =
        none := by
      unfold FileTree.asDirectory
      exact if_neg (by rw [hfile]; decide)
    unfold entryNode
    rw [hchild]
    cases entry.2 with
    | false => rfl
    | true => exact hnone
  have hboth := (hnode audit rfl).symm.trans (hsame.trans (hnode loader hone.symm))
  cases haudit2 : audit.2 with
  | false =>
      cases hloader2 : loader.2 with
      | false => rfl
      | true =>
          rw [haudit2, hloader2] at hboth
          cases hboth
  | true =>
      cases hloader2 : loader.2 with
      | false =>
          rw [haudit2, hloader2] at hboth
          cases hboth
      | true => rfl


/-- A row that is verified where it is loaded on the machines where everything exists. -/
theorem row_of_verified (hnapi : napi.Decodes) (hreplaces : napi.Replaces) {textual tokens : Bool}
    (h : ∀ (m : Machine) (path : Bytes) (segs : List Bytes), m.canonical path = some segs →
      isUtf8 (rootDirectoryFor m path) = textual → hasToken (rootDirectoryFor m path) = tokens →
        VerifiedIsLoaded napi sha256 m reader path)
    {v : NativeView} (hv : v ∈ nativeViews reader) :
    textual = true ∧ tokens = false ∧ ∃ entry, auditEntry v.sidecar = some entry ∧
      ((sidecarOf napi reader (nativeSpelling napi reader v)).bind
        fun sidecar => loaderEntry (napi.ofUtf8 sidecar)) = some entry ∧
      hasToken entry.1 = false := by
  obtain ⟨sidecar, hsidecar⟩ : ∃ sidecar, sidecarOf napi reader (nativeSpelling napi reader v) =
      some sidecar := by
    unfold sidecarOf
    rw [← Option.isSome_iff_exists, Option.isSome_map, List.find?_isSome]
    exact ⟨v, List.mem_reverse.mpr hv, beq_self_eq_true _⟩
  -- a directory whose name is in neither path
  obtain ⟨hslash, hnul⟩ := leadOf_free textual tokens
  have hname := freshName_names (leadOf textual tokens)
    (splitSlash (cString v.sidecar) ++ splitSlash (napi.ofUtf8 sidecar)) hslash
  have hzero := freshName_clean (leadOf textual tokens)
    (splitSlash (cString v.sidecar) ++ splitSlash (napi.ofUtf8 sidecar)) hnul
  have hfresh := freshName_not_mem (leadOf textual tokens)
    (splitSlash (cString v.sidecar) ++ splitSlash (napi.ofUtf8 sidecar))
  have hutf := isUtf8_freshName textual tokens
    (splitSlash (cString v.sidecar) ++ splitSlash (napi.ofUtf8 sidecar))
  have htokens := hasToken_freshName textual tokens
    (splitSlash (cString v.sidecar) ++ splitSlash (napi.ofUtf8 sidecar))
  generalize freshName (leadOf textual tokens) (splitSlash (cString v.sidecar) ++
    splitSlash (napi.ofUtf8 sidecar)) = home at hname hzero hfresh hutf htokens
  rw [List.mem_append, not_or] at hfresh
  have hrootUtf8 : isUtf8 (absPath [home]) = textual := by
    rw [isUtf8_absPath]
    simpa using hutf
  have hrootToken : hasToken (absPath [home]) = tokens := (hasToken_split [] home).trans htokens
  have hverified : ∀ leaf, VerifiedIsLoaded napi sha256 (fullMachine home leaf hname hzero)
      reader (absPath [home, home]) := by
    intro leaf
    obtain ⟨hcanonical, hroot⟩ := fullMachine_root hname hzero leaf
    exact h _ _ _ hcanonical (by rw [hroot, hrootUtf8]) (by rw [hroot, hrootToken])
  obtain ⟨name, sidecar', haudit, hsidecar', hresolve, htext, htoken⟩ :=
    entries_of_verified hnapi hv hname hzero hfresh.1 (hverified none)
  rw [hsidecar] at hsidecar'
  cases hsidecar'
  have htextual : textual = true := hutf.symm.trans htext
  rw [htextual] at hrootUtf8
  have hloader := loaderEntry_of_loaded hnapi hreplaces hname htext hfresh.2 hresolve
  rw [(addonPath_entry hnapi hreplaces hname hrootUtf8 hloader).2,
    hasToken_entryPath hname (loaderEntry_names hloader), Bool.or_eq_false_iff] at htoken
  have hflag := agree_of_verified hnapi hreplaces hv haudit hsidecar hloader rfl hname hzero
    htext htoken.1 htoken.2 (hverified (some name))
  refine ⟨htextual, hrootToken.symm.trans htoken.1, _, haudit, ?_, htoken.2⟩
  rw [hsidecar, Option.bind_some, hloader]
  exact congrArg (fun flag => some (name, flag)) hflag.symm

end

/-- On every machine and at every path whose directory is UTF-8 (or, for `textual = false`, is not)
and is free of tokens (or, for `tokens = true`, is not), the file that is verified for each native
module of a container is the file that is loaded for it, an entry of the container's directory, and
one that a report without failures is right about: this holds exactly when the container records no
native module, or the directory is UTF-8 and without tokens and every recorded name stands for one
and the same entry in both joins, whose name has no token. -/
theorem verified_is_loaded_iff (napi : Napi) (hnapi : napi.Decodes) (hreplaces : napi.Replaces)
    (sha256 : Bytes → Bytes) (reader : BundleReader) (textual tokens : Bool) :
    (∀ (m : Machine) (path : Bytes) (segs : List Bytes), m.canonical path = some segs →
      isUtf8 (rootDirectoryFor m path) = textual → hasToken (rootDirectoryFor m path) = tokens →
        VerifiedIsLoaded napi sha256 m reader path) ↔
      nativeViews reader = [] ∨
        (textual = true ∧ tokens = false ∧ SidecarsAgree napi reader ∧ SidecarsPlain reader) := by
  constructor
  · intro h
    by_cases hempty : nativeViews reader = []
    · exact Or.inl hempty
    · obtain ⟨first, hfirst⟩ := List.exists_mem_of_ne_nil _ hempty
      obtain ⟨htextual, htokens, _⟩ := row_of_verified hnapi hreplaces h hfirst
      refine Or.inr ⟨htextual, htokens, fun v hv => ?_, fun v hv entry hentry => ?_⟩
      · obtain ⟨_, _, entry, haudit, hloader, _⟩ := row_of_verified hnapi hreplaces h hv
        rw [haudit, hloader]
        exact ⟨rfl, rfl⟩
      · obtain ⟨_, _, entry', haudit, _, hplain⟩ := row_of_verified hnapi hreplaces h hv
        cases haudit.symm.trans hentry
        exact hplain
  · rintro (hempty | ⟨htextual, htokens, hagree, hplain⟩) m path segs hcanonical hroot hrootToken
    · obtain ⟨r, d, hr, _, hdir, hlead⟩ := rootDirectoryFor_spec hcanonical
      apply verified_of_entries hdir hr hlead
      intro v hv
      rw [hempty] at hv
      cases hv
    · rw [htextual] at hroot
      rw [htokens] at hrootToken
      exact verified_of_agree hnapi hreplaces hcanonical hroot hrootToken hagree hplain

theorem replacingNapi_replaces : replacingNapi.Replaces := by
  intro bytes
  simp only [replacingNapi]
  split
  · assumption
  · decide

/-- An entry and a native module with the file `n.node`. -/
def plainContainer : Bytes :=
  ((BundleWriter.run
    [.addModule (ascii "a") .kJavaScript kRequirable [],
      .addModule (ascii "n") .kNative kRequirable [],
      .addNative 1 (ascii "n.node") 9 (List.replicate 32 7),
      .setEntry 0]).serialize 7).1

def plainReader : BundleReader where
  data := plainContainer
  header := (BundleHeader.read plainContainer).getD singleModuleHeader

/-- It is verified where it is loaded, in the directory `/srv`. -/
theorem plain_sidecar_verified :
    Check.Accepts (BundleReader.open plainContainer 7) plainReader ∧
      VerifiedIsLoaded replacingNapi id (fullMachine (ascii "srv") none (by decide) (by decide))
        plainReader (absPath [ascii "srv", ascii "srv"]) := by
  refine ⟨by unfold Check.Accepts; decide +kernel, ?_⟩
  obtain ⟨hcanonical, hroot⟩ := @fullMachine_root (ascii "srv") (by decide) (by decide) none
  apply (verified_is_loaded_iff replacingNapi replacingNapi_decodes replacingNapi_replaces id
    plainReader true false).mpr
      (Or.inr ⟨rfl, rfl, by decide +kernel, by decide +kernel⟩) _ _ _ hcanonical
  · rw [hroot]
    decide
  · rw [hroot]
    decide

/-- Three native modules, whose recorded files are `/n.node`, `../n.node` and `$LIB.node`. -/
def climbingContainer : Bytes :=
  ((BundleWriter.run
    [.addModule (ascii "a") .kJavaScript kRequirable [],
      .addModule (ascii "n") .kNative kRequirable [],
      .addModule (ascii "o") .kNative kRequirable [],
      .addModule (ascii "p") .kNative kRequirable [],
      .addNative 1 (ascii "/n.node") 9 (List.replicate 32 7),
      .addNative 2 (ascii "../n.node") 9 (List.replicate 32 7),
      .addNative 3 (ascii "$LIB.node") 9 (List.replicate 32 7),
      .setEntry 0]).serialize 7).1

def climbingReader : BundleReader where
  data := climbingContainer
  header := (BundleHeader.read climbingContainer).getD singleModuleHeader

/-- Beside a container in `/srv`, the first is verified at `/n.node` and loaded from `/srv/n.node`; the
second is verified and loaded outside the directory; and for the third, which is verified at
`/srv/$LIB.node`, another file is opened, which is missing. -/
theorem climbing_sidecars_escape :
    Check.Accepts (BundleReader.open climbingContainer 7) climbingReader ∧
      (nativeViews climbingReader).map (fun v => (audited
          (fullMachine (ascii "srv") none (by decide) (by decide)) (ascii "/srv") v :
            Option (List Bytes))) =
        [some [ascii "n.node"], some [ascii "n.node"], some [ascii "srv", ascii "$LIB.node"]] ∧
      (nativeViews climbingReader).map (fun v => (loaded replacingNapi
          (fullMachine (ascii "srv") none (by decide) (by decide)) climbingReader (ascii "/srv")
          (nativeSpelling replacingNapi climbingReader v) : Option (List Bytes))) =
        [some [ascii "srv", ascii "n.node"], some [ascii "n.node"], none] ∧
      ¬ VerifiedIsLoaded replacingNapi id (fullMachine (ascii "srv") none (by decide) (by decide))
        climbingReader (absPath [ascii "srv", ascii "srv"]) := by
  have hloaded : (nativeViews climbingReader).map (fun v => (loaded replacingNapi
      (fullMachine (ascii "srv") none (by decide) (by decide)) climbingReader (ascii "/srv")
      (nativeSpelling replacingNapi climbingReader v) : Option (List Bytes))) =
        [some [ascii "srv", ascii "n.node"], some [ascii "n.node"], none] := by
    decide +kernel
  have haudited : (nativeViews climbingReader).map (fun v => (audited
      (fullMachine (ascii "srv") none (by decide) (by decide)) (ascii "/srv") v :
        Option (List Bytes))) =
        [some [ascii "n.node"], some [ascii "n.node"], some [ascii "srv", ascii "$LIB.node"]] := by
    decide +kernel
  refine ⟨by unfold Check.Accepts; decide +kernel, haudited, hloaded, ?_⟩
  intro h
  obtain ⟨_, hroot⟩ := @fullMachine_root (ascii "srv") (by decide) (by decide) none
  have hsame := h.same
  rw [hroot] at hsame
  have hmaps := List.map_congr_left hsame
  have hboth := haudited.symm.trans (hmaps.trans hloaded)
  exact absurd hboth (by decide)

end HermesNode.Loader
