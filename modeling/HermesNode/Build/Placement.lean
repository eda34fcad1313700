/-
Module: HermesNode.Build.Placement
Purpose: Whether the copies beside the bundle are safe. The producer refuses a destination that is
  the same file as another addon's source, so no source ends at a replaced entry. It does not ask
  what a path goes through: a destination that is a link to a directory is replaced as well, and
  every path behind it is gone. Without such paths each destination gets the bytes of its own addon
  and all addons stay readable.
Trusted boundary: human-reviewed spec (transcribed from step 5b of `lib/bundle/bundle_build.cpp`)
Main exports: copySidecars, Safe, placed_safe_iff
-/
import HermesNode.Build.LinkedDisk
import HermesNode.Build.SidecarNames
import Mathlib.Data.List.TakeWhile

namespace HermesNode.Build

open HermesNode.Bundle Resolve WorkList Links

/-! ### Names of sidecars -/

/-- The name of a file in some directory. -/
structure FileName (name : Bytes) : Prop where
  nonempty : name ≠ []
  free : slash ∉ name
  nul : 0 ∉ name
  not_dot : name ≠ dot

theorem slash_not_mem_filename (p : Bytes) : slash ∉ filename p := by
  unfold filename
  cases hlast : (splitSlash p).getLast? with
  | none => simp
  | some name => exact slash_not_mem_of_mem_splitSlash (List.mem_of_getLast? hlast)

theorem mem_of_mem_extension {p : Bytes} {c : UInt8} (h : c ∈ extension p) : c ∈ filename p := by
  unfold extension at h
  dsimp only at h
  split at h
  · cases h
  · exact List.mem_of_mem_drop h

theorem mem_of_mem_stem {p : Bytes} {c : UInt8} (h : c ∈ stem p) : c ∈ filename p :=
  List.mem_of_mem_take h

theorem hexDigit_plain : ∀ d < 16, hexDigit d ≠ slash ∧ hexDigit d ≠ 0 := by decide

theorem mem_hexPadded {width n : Nat} {c : UInt8} (h : c ∈ hexPadded width n) :
    c ≠ slash ∧ c ≠ 0 := by
  induction width generalizing n with
  | zero => cases h
  | succ width ih =>
      rcases List.mem_append.mp h with hfront | hlast
      · exact ih hfront
      · rw [List.mem_singleton.mp hlast]
        exact hexDigit_plain _ (Nat.mod_lt n (by decide))

theorem native_filename {path : Bytes} (h : classifyFile path = .kNative) :
    filename path ≠ [] ∧ filename path ≠ dot := by
  have hext : extension path ≠ [] := by
    intro hnil
    simp [classifyFile, hnil] at h
  constructor
  · intro hnil
    apply hext
    simp [extension, hnil]
  · intro hdot
    apply hext
    unfold extension
    rw [hdot]
    decide

theorem filename_free {name : Bytes} (h : slash ∉ name) : filename name = name := by
  simp [filename, splitSlash_of_not_mem h]

theorem NameFor.fileName {root path name : Bytes} (h : NameFor root path name)
    (hnative : classifyFile path = .kNative) (hnul : 0 ∉ filename path) : FileName name := by
  have hfree := slash_not_mem_filename path
  have hname := native_filename hnative
  rcases h with rfl | rfl
  · exact ⟨hname.1, hfree, hnul, hname.2⟩
  · have hsame : filename (filename path) = filename path := filename_free hfree
    have hparts : ∀ c ∈ disambiguated (filename path) (identityOf root path),
        c ∈ filename path ∨ c = 45 ∨ c ≠ slash ∧ c ≠ 0 := by
      intro c hc
      unfold disambiguated at hc
      rcases List.mem_append.mp hc with hfront | hext
      · rcases List.mem_append.mp hfront with hfront' | hhex
        · rcases List.mem_append.mp hfront' with hstem | hdash
          · exact Or.inl (hsame ▸ mem_of_mem_stem hstem)
          · exact Or.inr (Or.inl (List.mem_singleton.mp hdash))
        · exact Or.inr (Or.inr (mem_hexPadded hhex))
      · exact Or.inl (hsame ▸ mem_of_mem_extension hext)
    have hdash : (45 : UInt8) ∈ disambiguated (filename path) (identityOf root path) := by
      simp [disambiguated, ascii]
    constructor
    · exact List.ne_nil_of_mem hdash
    · intro hmem
      rcases hparts slash hmem with h | h | h
      · exact hfree h
      · exact absurd h (by decide)
      · exact h.1 rfl
    · intro hmem
      rcases hparts 0 hmem with h | h | h
      · exact hnul h
      · exact absurd h (by decide)
      · exact h.2 rfl
    · intro hdot
      rw [hdot] at hdash
      exact absurd hdash (by decide)

/-! ### Destinations -/

/-- A path is a name behind a separator, or only a name. -/
theorem filename_cases (p : Bytes) :
    p = filename p ∨ ∃ front, p = front ++ slash :: filename p := by
  have hsplit : (splitSlash p).dropLast ++ [filename p] = splitSlash p := by
    apply List.dropLast_append_getLast?
    cases hlast : (splitSlash p).getLast? with
    | none => exact absurd (List.getLast?_eq_none_iff.mp hlast) (splitSlash_ne_nil p)
    | some name => simp [filename, hlast]
  have hjoin := joinSlash_splitSlash p
  rw [← hsplit] at hjoin
  by_cases hfront : (splitSlash p).dropLast = []
  · rw [hfront] at hjoin
    exact Or.inl hjoin.symm
  · rw [joinSlash_snoc hfront] at hjoin
    exact Or.inr ⟨_, hjoin.symm⟩

/-- A name in a directory is looked up behind the names of the directory. -/
theorem lookupNames_pathAppend {base name : Bytes} (h : FileName name) :
    lookupNames (pathAppend base name) = lookupNames base ++ [name] ∧
      endsInSlash (pathAppend base name) = false ∧
      isAbsolute (pathAppend base name) = isAbsolute base := by
  have hrel := not_absolute_of_free h.free
  have hend := name_not_endsInSlash h.nonempty h.free
  have hname := lookupNames_name h.nonempty h.free
  unfold pathAppend
  rw [hrel, if_neg Bool.false_ne_true]
  by_cases hbase : (base.isEmpty || endsInSlash base) = true
  · rw [if_pos hbase]
    refine ⟨?_, hend base, ?_⟩
    · cases base with
      | nil => exact hname
      | cons c cs =>
          have hlast : (c :: cs).getLast? = some slash := by simpa [endsInSlash] using hbase
          obtain ⟨front, hfront⟩ : ∃ front, c :: cs = front ++ [slash] :=
            ⟨_, (List.dropLast_append_getLast? slash hlast).symm⟩
          rw [hfront, List.append_assoc, List.singleton_append, lookupNames_append, hname,
            lookupNames_append front []]
          simp [lookupNames, splitSlash]
    · cases base with
      | nil => exact hrel
      | cons c cs => rfl
  · rw [if_neg hbase]
    refine ⟨?_, ?_, ?_⟩
    · rw [lookupNames_append, hname]
    · simpa using hend (base ++ [slash])
    · cases base with
      | nil => exact absurd rfl hbase
      | cons c cs => rfl

theorem routeOf_pathAppend {base name : Bytes} (h : FileName name) :
    routeOf (pathAppend base name) =
      { fromRoot := isAbsolute base, names := lookupNames base ++ [name] } := by
  obtain ⟨hnames, hend, habs⟩ := @lookupNames_pathAppend base name h
  rw [routeOf, routeNames, hnames, hend, habs]
  simp

theorem filename_pathAppend {base name : Bytes} (h : FileName name) :
    filename (pathAppend base name) = name := by
  have hrel := not_absolute_of_free h.free
  have hslash : ∀ front, filename (front ++ slash :: name) = name := by
    intro front
    rw [filename, splitSlash_append, splitSlash_of_not_mem h.free, List.getLast?_concat]
    rfl
  unfold pathAppend
  rw [hrel, if_neg Bool.false_ne_true]
  by_cases hbase : (base.isEmpty || endsInSlash base) = true
  · rw [if_pos hbase]
    cases base with
    | nil => exact filename_free h.free
    | cons c cs =>
        have hlast : (c :: cs).getLast? = some slash := by simpa [endsInSlash] using hbase
        have hfront := (List.dropLast_append_getLast? slash hlast).symm
        rw [hfront]
        simpa using hslash (c :: cs).dropLast
  · rw [if_neg hbase]
    exact hslash base

theorem normalSegments_eq (p : Bytes) :
    normalSegments p = ((lookupNames p).foldl (normalStep (isAbsolute p)) []).reverse := by
  have hskip : ∀ (segs kept : List Bytes), segs.foldl (normalStep (isAbsolute p)) kept =
      (segs.filter (· != [])).foldl (normalStep (isAbsolute p)) kept := by
    intro segs
    induction segs with
    | nil => exact fun _ => rfl
    | cons seg segs ih =>
        intro kept
        by_cases hseg : seg = []
        · have hstay : normalStep (isAbsolute p) kept [] = kept := by simp [normalStep]
          rw [hseg, List.foldl_cons, hstay, ih]
          rfl
        · rw [List.foldl_cons, ih, List.filter_cons_of_pos (by simpa using hseg), List.foldl_cons]
  rw [normalSegments, hskip]
  rfl

/-- Two paths with the same start, the same names and the same end are normalized to one. -/
theorem lexicallyNormal_congr {p q : Bytes} (hp : p ≠ []) (hq : q ≠ [])
    (habs : isAbsolute p = isAbsolute q) (hnames : lookupNames p = lookupNames q)
    (hfile : filename p = filename q) : lexicallyNormal p = lexicallyNormal q := by
  have hsegs : normalSegments p = normalSegments q := by
    rw [normalSegments_eq, normalSegments_eq, habs, hnames]
  have hempty : ∀ {r : Bytes}, r ≠ [] → r.isEmpty = false := fun h => by simpa using h
  have hdir : endsInDirectory p = endsInDirectory q := by rw [endsInDirectory, hfile]; rfl
  rw [lexicallyNormal, lexicallyNormal, hempty hp, hempty hq, hsegs, habs, hdir]

/-- Any number of separators stands for one. -/
theorem lookupNames_slashes {tail : Bytes} (h : ∀ c ∈ tail, c = slash) (front rest : Bytes) :
    lookupNames (front ++ (tail ++ slash :: rest)) = lookupNames front ++ lookupNames rest := by
  induction tail generalizing front with
  | nil => exact lookupNames_append front rest
  | cons c cs ih =>
      have hrest := ih (fun c hc => h c (List.mem_cons_of_mem _ hc)) []
      rw [h c (by simp), List.cons_append, lookupNames_append]
      rw [List.nil_append] at hrest
      rw [hrest]
      rfl

theorem parentPath_slash (front : Bytes) {name : Bytes} (hfree : slash ∉ name) (hname : name ≠ []) :
    parentPath (front ++ slash :: name) =
      if (Disk.trimSlashes front).isEmpty && isAbsolute (front ++ slash :: name) then [slash]
      else Disk.trimSlashes front :=
  parentPath_behind front hfree hname

/-- The names of a path are those of its directory and its own. -/
theorem lookupNames_parent {p : Bytes} (h : filename p ≠ []) :
    lookupNames p = lookupNames (parentPath p) ++ [filename p] ∧
      isAbsolute (parentPath p) = isAbsolute p := by
  have hfree := slash_not_mem_filename p
  rcases filename_cases p with hp | ⟨front, hp⟩
  · have hparent : parentPath p = [] := by
      have hrel := not_absolute_of_free hfree
      rw [← hp] at h hfree hrel
      have hall := not_all_slash hfree h (List.Subset.refl p)
      have hdrop : p.reverse.dropWhile (· != slash) = [] := by
        rw [List.dropWhile_eq_nil_iff]
        intro c hc
        rw [bne_iff_ne]
        rintro rfl
        exact hfree (List.mem_reverse.mp hc)
      simp [parentPath, hall, hdrop, hrel]
    have hrel := not_absolute_of_free hfree
    rw [hparent]
    constructor
    · rw [← hp] at h hfree ⊢
      exact lookupNames_name h hfree
    · rw [← hp] at hrel
      exact hrel.symm
  · obtain ⟨tail, hfront, htail⟩ := Disk.trimSlashes_spec front
    have hparent := @parentPath_slash front _ hfree h
    rw [← hp] at hparent
    have hnames : lookupNames p = lookupNames (Disk.trimSlashes front) ++ [filename p] := by
      conv_lhs => rw [hp, hfront, List.append_assoc]
      rw [lookupNames_slashes htail, lookupNames_name h hfree]
    rw [hparent, hnames]
    by_cases htrim : Disk.trimSlashes front = []
    · have habs : isAbsolute p = true := by
        rw [htrim, List.nil_append] at hfront
        rw [hp, hfront]
        cases tail with
        | nil => rfl
        | cons c cs => rw [htail c (by simp)]; rfl
      rw [htrim, habs]
      exact ⟨rfl, rfl⟩
    · have hempty : (Disk.trimSlashes front).isEmpty = false := by simpa using htrim
      rw [hempty]
      refine ⟨rfl, ?_⟩
      rw [hp]
      conv_rhs => rw [hfront]
      cases hcons : Disk.trimSlashes front with
      | nil => exact absurd hcons htrim
      | cons c cs => rfl

theorem lexicallyNormal_beside {out name : Bytes} (h : FileName name) (hout : filename out = name) :
    lexicallyNormal (pathAppend (parentPath out) name) = lexicallyNormal out := by
  have hparent := @lookupNames_parent out (by rw [hout]; exact h.nonempty)
  obtain ⟨hnames, _, habs⟩ := @lookupNames_pathAppend (parentPath out) name h
  have hfile := @filename_pathAppend (parentPath out) name h
  have hnonempty : ∀ {p : Bytes}, filename p = name → p ≠ [] := by
    rintro p hp rfl
    exact h.nonempty hp.symm
  apply lexicallyNormal_congr (hnonempty hfile) (hnonempty hout)
  · rw [habs, hparent.2]
  · rw [hnames, hparent.1, hout]
  · rw [hfile, hout]

/-! ### The copies -/

/-- Step 5b: the addons that are not in place, in order, each read and put beside the bundle. -/
def copySidecars : List NativePlacement → Files Bytes Bytes → Option (Files Bytes Bytes)
  | [], fs => some fs
  | copy :: rest, fs =>
      if copy.inPlace then copySidecars rest fs
      else (fs.copy (routeOf (cstr copy.path)) (routeOf (cstr copy.dst))).bind (copySidecars rest)

/-- What is copied where. -/
def copyRoutes (placements : List NativePlacement) : List (Route Bytes × Route Bytes) :=
  (placements.filter (!·.inPlace)).map fun copy =>
    (routeOf (cstr copy.path), routeOf (cstr copy.dst))

theorem copySidecars_eq (placements : List NativePlacement) (fs : Files Bytes Bytes) :
    copySidecars placements fs = fs.copyAll (copyRoutes placements) := by
  induction placements generalizing fs with
  | nil => rfl
  | cons copy rest ih =>
      have hrest : copySidecars rest = fun fs => fs.copyAll (copyRoutes rest) := funext ih
      cases hplace : copy.inPlace with
      | true => simp [copySidecars, copyRoutes, hplace, ih]
      | false => simp [copySidecars, copyRoutes, hplace, hrest, Files.copyAll]

section

variable (d : LinkedDisk) (opts : Options) (placements : List NativePlacement)

/-- What the copies must be like: all names different, no destination in the bundle's place, and
once the copies are done every destination and every addon's path has the bytes of the addon. -/
structure Safe : Prop where
  names : (placements.map (·.sidecarName)).Nodup
  bundle : ∀ p ∈ placements, ∀ target, d.tree.locate (routeOf (cstr p.dst)) = some target →
    d.tree.locate (routeOf (cstr opts.outPath)) ≠ some target
  copies : ∃ fs, copySidecars placements d.toFiles = some fs ∧
    ∀ p ∈ placements, ∃ bytes, d.read (routeOf (cstr p.path)) = some bytes ∧
      fs.read (routeOf (cstr p.dst)) = some bytes ∧ fs.read (routeOf (cstr p.path)) = some bytes

/-- The path goes through an entry that some copies replace, to something behind it. -/
def PassesThrough (copies : List (Route Bytes × Route Bytes)) (route : Route Bytes) : Prop :=
  (d.tree.findMeet (Files.among (d.targets copies)) route).through = true

/-- No addon goes through an entry that is replaced before the addon is read, and no addon and no
destination goes through an entry that is replaced at all. -/
structure Clear : Prop where
  whenRead : ∀ before copy after, copyRoutes placements = before ++ copy :: after →
    ¬ PassesThrough d before copy.1
  atEnd : ∀ p ∈ placements, ∀ path ∈ [p.path, p.dst],
    ¬ PassesThrough d (copyRoutes placements) (routeOf (cstr path))

/-- A file can be put at the destination, and `stat` sees what is there now: the links above it do
not use up those a walk may follow. -/
def Room (p : NativePlacement) : Prop :=
  ∃ target, d.tree.locate (routeOf (cstr p.dst)) = some target ∧
    (∀ id, d.tree.entry target.1 target.2 ≠ some (.directory id)) ∧
    d.tree.find (routeOf (cstr p.dst)) = d.tree.walk d.tree.limit target.1 [target.2]

end

/-! ### Safe and clear are the same -/

theorem mem_of_mem_parentPath {p : Bytes} {c : UInt8} (hc : c ≠ slash) (h : c ∈ parentPath p) :
    c ∈ p := by
  unfold parentPath at h
  split at h
  · exact h
  · dsimp only at h
    split at h
    · exact absurd (List.mem_singleton.mp h) hc
    · rw [List.mem_reverse] at h
      have hdrop := (List.dropWhile_sublist _).subset ((List.dropWhile_sublist _).subset h)
      exact List.mem_reverse.mp hdrop

/-- Placements that step 3b let through, of addons that are regular files, with room for copies. -/
structure Ready (d : LinkedDisk) (opts : Options) (root : Bytes) (natives : List (Nat × Bytes))
    (placements : List NativePlacement) : Prop where
  placed : AsPlaced d.disk opts root natives placements
  indices : (placements.map (·.index)).Nodup
  regular : ∀ p ∈ placements, ∃ inode, d.stat (cstr p.path) = some (.file inode)
  fileName : ∀ p ∈ placements, FileName p.sidecarName
  outPath : 0 ∉ opts.outPath
  room : ∀ p ∈ placements, p.inPlace = false → Room d p

variable {p : NativePlacement}

namespace Ready

variable {d : LinkedDisk} {opts : Options} {root : Bytes} {natives : List (Nat × Bytes)}
  {placements : List NativePlacement} (h : Ready d opts root natives placements)

include h

/-- Every destination is a name in the directory of the bundle. -/
theorem dst_route (hp : p ∈ placements) :
    cstr p.dst ≠ [] ∧ routeOf (cstr p.dst) =
      { fromRoot := isAbsolute (sidecarDir opts)
        names := lookupNames (sidecarDir opts) ++ [p.sidecarName] } := by
  have hname := h.fileName p hp
  have hnul : 0 ∉ p.dst := by
    rw [h.placed.dst p hp]
    refine not_mem_pathAppend (by decide) ?_ hname.nul
    exact fun hmem => h.outPath (mem_of_mem_parentPath (by decide) hmem)
  rw [cstr_of_no_nul hnul, h.placed.dst p hp]
  refine ⟨?_, routeOf_pathAppend hname⟩
  intro hnil
  have hfile := @filename_pathAppend (sidecarDir opts) _ hname
  rw [hnil] at hfile
  exact hname.nonempty hfile.symm

theorem locate_dst (hp : p ∈ placements) {target : Nat × Bytes} :
    d.tree.locate (routeOf (cstr p.dst)) = some target ↔
      ∃ dir, d.tree.walk d.tree.limit (d.tree.start (isAbsolute (sidecarDir opts)) d.tree.cwd)
        (lookupNames (sidecarDir opts)) = some (.directory dir) ∧ target = (dir, p.sidecarName) := by
  rw [(h.dst_route hp).2, Tree.locate_snoc]

theorem find_source (hp : p ∈ placements) :
    ∃ inode, d.tree.find (routeOf (cstr p.path)) = some (.file inode) := by
  obtain ⟨inode, hinode⟩ := h.regular p hp
  unfold LinkedDisk.stat at hinode
  split at hinode
  · cases hinode
  · exact ⟨inode, hinode⟩

theorem same_of_index {p q : NativePlacement} (hp : p ∈ placements) (hq : q ∈ placements)
    (hindex : p.index = q.index) : p = q :=
  List.inj_on_of_nodup_map h.indices hp hq hindex

/-- No addon is the same file as what another one is copied over. -/
theorem apart {p q : NativePlacement} (hp : p ∈ placements) (hq : q ∈ placements)
    (hcopy : q.inPlace = false) {place : Place}
    (hsource : d.tree.find (routeOf (cstr p.path)) = some place)
    (hdst : d.tree.find (routeOf (cstr q.dst)) = some place) : p.index = q.index := by
  by_contra hindex
  have hnot := h.placed.apart q hq hcopy p hp hindex
  have hsame : d.isSameFile (cstr q.dst) (cstr p.path) = true := by
    rw [LinkedDisk.isSameFile_iff]
    refine ⟨place, ?_, ?_⟩
    · rw [LinkedDisk.stat_eq (h.dst_route hq).1, hdst]
    · obtain ⟨inode, hinode⟩ := h.regular p hp
      have hpath : cstr p.path ≠ [] := by
        intro hnil
        rw [hnil] at hinode
        cases hinode
      rw [LinkedDisk.stat_eq hpath, hsource]
  exact absurd (hsame.symm.trans hnot) (by decide)

/-- An addon that ends at a replaced entry is the one that is copied there. -/
theorem meets_own {copies : List NativePlacement}
    (hcopies : ∀ q ∈ copies, q ∈ placements ∧ q.inPlace = false)
    (hp : p ∈ placements) {dir : Nat} {name : Bytes}
    (hmeet : d.tree.findMeet (Files.among (d.targets (copyRoutes copies))) (routeOf (cstr p.path)) =
      .meets dir name []) :
    ∃ q ∈ copies, d.tree.locate (routeOf (cstr q.dst)) = some (dir, name) ∧ q.index = p.index := by
  have htells := @Tree.meet_tells _ d.tree (Files.among (d.targets (copyRoutes copies))) d.tree.limit
    (d.tree.start (routeOf (cstr p.path)).fromRoot d.tree.cwd) (routeOf (cstr p.path)).names
  rw [← Tree.findMeet, hmeet] at htells
  obtain ⟨hmark, left, hleft, hwalk⟩ := htells
  have hin : (dir, name) ∈ d.targets (copyRoutes copies) := by simpa [Files.among] using hmark
  obtain ⟨copy, hcopy, hlocate⟩ := List.mem_filterMap.mp hin
  obtain ⟨q, hq, rfl⟩ := List.mem_map.mp hcopy
  have hq' := (List.mem_filter.mp hq).1
  obtain ⟨hmem, hwritten⟩ := hcopies q hq'
  obtain ⟨inode, hfile⟩ := h.find_source hp
  obtain ⟨target, htarget, _, hstat⟩ := h.room q hmem hwritten
  rw [hlocate] at htarget
  cases htarget
  have hdst : d.tree.find (routeOf (cstr q.dst)) = some (.file inode) := by
    rw [hstat]
    apply Tree.walk_mono _ hleft
    rw [← hwalk]
    exact hfile
  exact ⟨q, hq', hlocate, (h.apart hp hmem hwritten hfile hdst).symm⟩

theorem targets_nodup : (d.targets (copyRoutes placements)).Nodup := by
  have hnames : (placements.filter (!·.inPlace)).Pairwise
      fun p q => p.sidecarName ≠ q.sidecarName :=
    (List.pairwise_map.mp h.placed.distinct).sublist List.filter_sublist
  have hdiffer : (placements.filter (!·.inPlace)).Pairwise fun p q =>
      ∀ a ∈ d.tree.locate (routeOf (cstr p.dst)), ∀ b ∈ d.tree.locate (routeOf (cstr q.dst)),
        a ≠ b := by
    apply hnames.imp_of_mem
    rintro p q hp hq hpq a ha b hb rfl
    obtain ⟨dir, _, hdir⟩ := (h.locate_dst (List.mem_filter.mp hp).1).mp ha
    obtain ⟨dir', _, hdir'⟩ := (h.locate_dst (List.mem_filter.mp hq).1).mp hb
    rw [hdir, Prod.mk.injEq] at hdir'
    exact hpq hdir'.2
  rw [Files.targets, copyRoutes, List.filterMap_map]
  exact hdiffer.filterMap _ fun _ _ hpq => hpq

theorem harmless (hclear : Clear d placements) : d.toFiles.Harmless (copyRoutes placements) := by
  have hmem : ∀ copy ∈ copyRoutes placements, ∃ p ∈ placements, p.inPlace = false ∧
      copy = (routeOf (cstr p.path), routeOf (cstr p.dst)) := by
    intro copy hcopy
    obtain ⟨p, hp, rfl⟩ := List.mem_map.mp hcopy
    obtain ⟨hp', hwritten⟩ := List.mem_filter.mp hp
    exact ⟨p, hp', by simpa using hwritten, rfl⟩
  constructor
  · intro copy hcopy
    obtain ⟨p, hp, hwritten, rfl⟩ := hmem copy hcopy
    obtain ⟨target, hlocate, hentry, _⟩ := h.room p hp hwritten
    exact ⟨target, hlocate, hentry⟩
  · exact h.targets_nodup
  · intro copy hcopy
    obtain ⟨p, hp, _, rfl⟩ := hmem copy hcopy
    obtain ⟨inode, hinode⟩ := h.find_source hp
    simp [Files.read, hinode]
  · -- What a source meets before it is read belongs to an earlier copy, and so to another addon.
    intro before copy after hsplit
    have hthrough := hclear.whenRead before copy after hsplit
    obtain ⟨earlier, rest, hlist, hbefore, hrest⟩ := List.map_eq_append_iff.mp hsplit
    obtain ⟨p, later, hlater, hp, _⟩ := List.map_eq_cons_iff.mp hrest
    rw [hlater] at hlist
    have hall : ∀ q ∈ earlier ++ p :: later, q ∈ placements ∧ q.inPlace = false := by
      intro q hq
      rw [← hlist] at hq
      obtain ⟨hq', hwritten⟩ := List.mem_filter.mp hq
      exact ⟨hq', by simpa using hwritten⟩
    have hearlier : ∀ q ∈ earlier, q ∈ placements ∧ q.inPlace = false :=
      fun q hq => hall q (List.mem_append_left _ hq)
    have hcopies : copyRoutes earlier = before := by
      have hfilter : earlier.filter (!·.inPlace) = earlier := by
        rw [List.filter_eq_self]
        intro q hq
        simp [(hearlier q hq).2]
      rw [copyRoutes, hfilter, hbefore]
    have hindices : (earlier.map (·.index) ++ (p :: later).map (·.index)).Nodup := by
      rw [← List.map_append, ← hlist]
      exact h.indices.sublist (List.filter_sublist.map _)
    obtain ⟨inode, hfile⟩ := h.find_source (hall p (by simp)).1
    have htells := @Tree.meet_tells _ d.tree (Files.among (d.targets before)) d.tree.limit
      (d.tree.start (routeOf (cstr p.path)).fromRoot d.tree.cwd) (routeOf (cstr p.path)).names
    rw [← Tree.findMeet] at htells
    rw [← hp] at hthrough ⊢
    unfold PassesThrough at hthrough
    dsimp only at hthrough ⊢
    cases hmeet : d.tree.findMeet (Files.among (d.targets before)) (routeOf (cstr p.path)) with
    | ends place => exact ⟨place, rfl⟩
    | lost =>
        rw [hmeet] at htells
        exact absurd (hfile.symm.trans htells) (by simp)
    | meets dir name names =>
        cases names with
        | cons next more =>
            rw [hmeet] at hthrough
            exact absurd rfl hthrough
        | nil =>
            rw [← hcopies] at hmeet
            obtain ⟨q, hq, _, hindex⟩ := h.meets_own hearlier (hall p (by simp)).1 hmeet
            have hne := (List.nodup_append.mp hindices).2.2 q.index (List.mem_map_of_mem hq) p.index
              (by simp)
            exact absurd hindex hne
  · intro copy hcopy
    obtain ⟨p, hp, _, rfl⟩ := hmem copy hcopy
    have hnot := hclear.atEnd p hp p.dst (by simp)
    simpa [PassesThrough] using hnot

theorem bundle_apart (hp : p ∈ placements) {target : Nat × Bytes}
    (htarget : d.tree.locate (routeOf (cstr p.dst)) = some target) :
    d.tree.locate (routeOf (cstr opts.outPath)) ≠ some target := by
  intro hout
  have hname := h.fileName p hp
  obtain ⟨dir, _, rfl⟩ := (h.locate_dst hp).mp htarget
  rw [cstr_of_no_nul h.outPath] at hout
  have hlast : (routeOf opts.outPath).names.getLast? = some p.sidecarName := by
    unfold Tree.locate at hout
    cases hlast : (routeOf opts.outPath).names.getLast? with
    | none =>
        rw [hlast] at hout
        cases hout
    | some last =>
        rw [hlast] at hout
        split at hout
        · rename_i name hname _
          cases hname
          cases hout
          rfl
        · cases hout
  simp only [routeOf, routeNames] at hlast
  cases hend : endsInSlash opts.outPath with
  | true =>
      rw [hend, if_pos rfl, List.getLast?_concat] at hlast
      exact hname.not_dot (Option.some.inj hlast).symm
  | false =>
      rw [hend, if_neg Bool.false_ne_true, List.append_nil] at hlast
      have hfile : filename opts.outPath = p.sidecarName := by
        rcases filename_cases opts.outPath with hcase | ⟨front, hcase⟩
        · by_cases hnil : opts.outPath = []
          · rw [hnil] at hlast
            cases hlast
          · have hfree := slash_not_mem_filename opts.outPath
            rw [← hcase] at hfree
            rw [lookupNames_name hnil hfree] at hlast
            rw [← hcase]
            exact Option.some.inj hlast
        · have hfree := slash_not_mem_filename opts.outPath
          by_cases hnil : filename opts.outPath = []
          · rw [hnil] at hcase
            rw [hcase] at hend
            simp [endsInSlash] at hend
          · rw [hcase, lookupNames_append, lookupNames_name hnil hfree, List.getLast?_concat] at hlast
            exact Option.some.inj hlast
      have hnormal := lexicallyNormal_beside hname hfile
      rw [← sidecarDir, ← h.placed.dst p hp] at hnormal
      exact (h.placed.bundle p hp).2 hnormal

/-- What is at a destination that is in place is the addon itself, and no link. -/
theorem inPlace_entry (hp : p ∈ placements) (hplace : p.inPlace = true) :
    ∃ inode target, d.tree.find (routeOf (cstr p.path)) = some (.file inode) ∧
      d.tree.locate (routeOf (cstr p.dst)) = some target ∧
      d.tree.entry target.1 target.2 = some (.file inode) := by
  have hflag := h.placed.inPlace p hp
  rw [hplace] at hflag
  obtain ⟨hlink, hsame⟩ := Bool.and_eq_true_iff.mp hflag.symm
  obtain ⟨place, hsource, hdst⟩ := LinkedDisk.isSameFile_iff.mp hsame
  obtain ⟨inode, hinode⟩ := h.regular p hp
  rw [hsource] at hinode
  cases hinode
  obtain ⟨hne, hroute⟩ := h.dst_route hp
  obtain ⟨found, hfound⟩ := h.find_source hp
  have hpath : cstr p.path ≠ [] := by
    intro hnil
    rw [hnil] at hsource
    cases hsource
  rw [LinkedDisk.stat_eq hpath, hfound] at hsource
  cases hsource
  rw [LinkedDisk.stat_eq hne] at hdst
  have hwalk := hdst
  rw [Tree.find, hroute] at hwalk
  obtain ⟨dir, hdir⟩ := Tree.walk_append.2 _ (by simp) hwalk
  have htarget := (h.locate_dst hp).mpr ⟨dir, hdir, rfl⟩
  obtain ⟨left, _, hleft⟩ := Tree.walk_append.1 dir hdir
  refine ⟨inode, _, hfound, htarget, ?_⟩
  have hnolink : ∀ target, d.tree.entry dir p.sidecarName ≠ some (.link target) := by
    intro target hentry
    have hsym : d.isSymlink (cstr p.dst) = true := by
      have hempty : (cstr p.dst).isEmpty = false := by simpa using hne
      simp [LinkedDisk.isSymlink, LinkedDisk.lstat, hempty, htarget, hentry]
    simp [LinkedDisk.disk, hsym] at hlink
  rw [hleft] at hwalk
  exact Tree.entry_of_walk hwalk hnolink

/-- After the copies, what an addon's path leads to has the bytes of the addon. -/
theorem source_kept (hclear : Clear d placements) {fs : Files Bytes Bytes}
    {new : Nat → Bytes → Option Nat}
    (hrep : d.toFiles.Replaced fs new (d.targets (copyRoutes placements)))
    (hholds : Files.Holds d.toFiles fs new (copyRoutes placements))
    (hp : p ∈ placements) :
    fs.read (routeOf (cstr p.path)) = d.read (routeOf (cstr p.path)) := by
  have hthrough := hclear.atEnd p hp p.path (by simp)
  unfold PassesThrough at hthrough
  cases hmeet : d.tree.findMeet (Files.among (d.targets (copyRoutes placements)))
      (routeOf (cstr p.path)) with
  | ends place => exact hrep.read_ends hmeet
  | lost =>
      have htells := @Tree.meet_tells _ d.tree (Files.among (d.targets (copyRoutes placements)))
        d.tree.limit (d.tree.start (routeOf (cstr p.path)).fromRoot d.tree.cwd)
        (routeOf (cstr p.path)).names
      rw [← Tree.findMeet, hmeet] at htells
      obtain ⟨inode, hfile⟩ := h.find_source hp
      exact absurd (hfile.symm.trans htells) (by simp)
  | meets dir name names =>
      cases names with
      | cons next more =>
          rw [hmeet] at hthrough
          exact absurd rfl hthrough
      | nil =>
          have hall : ∀ q ∈ placements.filter (!·.inPlace), q ∈ placements ∧ q.inPlace = false := by
            intro q hq
            obtain ⟨hq', hwritten⟩ := List.mem_filter.mp hq
            exact ⟨hq', by simpa using hwritten⟩
          have hsame : copyRoutes (placements.filter (!·.inPlace)) = copyRoutes placements := by
            simp [copyRoutes]
          have hmeet' := hmeet
          rw [← hsame] at hmeet'
          obtain ⟨q, hq, hlocate, hindex⟩ := h.meets_own hall hp hmeet'
          have hqp := h.same_of_index (hall q hq).1 hp hindex
          rw [hqp] at hq hlocate
          obtain ⟨inode, hnew, hread⟩ := hholds _ (List.mem_map_of_mem hq) _ hlocate
          rw [hrep.read_meets hmeet hnew, hread]

/-- After the copies, every destination has the bytes of its own addon. -/
theorem dst_holds (hclear : Clear d placements) {fs : Files Bytes Bytes}
    {new : Nat → Bytes → Option Nat}
    (hrep : d.toFiles.Replaced fs new (d.targets (copyRoutes placements)))
    (hholds : Files.Holds d.toFiles fs new (copyRoutes placements))
    (hp : p ∈ placements) :
    fs.read (routeOf (cstr p.dst)) = d.read (routeOf (cstr p.path)) := by
  have hnot : (d.tree.findMeet (Files.among (d.targets (copyRoutes placements)))
      (routeOf (cstr p.dst))).through ≠ true := hclear.atEnd p hp p.dst (by simp)
  cases hplace : p.inPlace with
  | false =>
      have hmem : p ∈ placements.filter (!·.inPlace) := List.mem_filter.mpr ⟨hp, by simp [hplace]⟩
      obtain ⟨target, hlocate, _⟩ := h.room p hp hplace
      have hin : target ∈ d.targets (copyRoutes placements) :=
        Files.mem_targets (List.mem_map_of_mem hmem) hlocate
      obtain ⟨inode, hnew, hread⟩ := hholds _ (List.mem_map_of_mem hmem) _ hlocate
      rcases @Tree.meet_locate _ d.tree (Files.among (d.targets (copyRoutes placements))) _ _ _
        hlocate with ⟨left, _, hmeet⟩ | hthrough
      · have hmeets : d.tree.findMeet (Files.among (d.targets (copyRoutes placements)))
            (routeOf (cstr p.dst)) = .meets target.1 target.2 [] := by
          rw [hmeet]
          cases left with
          | zero => simp [Tree.meet, Tree.scanMeet, Files.among, hin]
          | succ left => simp [Tree.meet, Tree.scanMeet, Files.among, hin]
        rw [hrep.read_meets hmeets hnew, hread]
      · exact absurd hthrough hnot
  | true =>
      obtain ⟨inode, target, hsource, hlocate, hentry⟩ := h.inPlace_entry hp hplace
      have hout : target ∉ d.targets (copyRoutes placements) := by
        -- Another addon's copy has another name.
        intro hin
        obtain ⟨copy, hcopy, hfound⟩ := List.mem_filterMap.mp hin
        obtain ⟨q, hq, rfl⟩ := List.mem_map.mp hcopy
        obtain ⟨hq', hwritten⟩ := List.mem_filter.mp hq
        obtain ⟨dir, _, htarget⟩ := (h.locate_dst hp).mp hlocate
        obtain ⟨dir', _, htarget'⟩ := (h.locate_dst hq').mp hfound
        rw [htarget, Prod.mk.injEq] at htarget'
        have hqp := List.inj_on_of_nodup_map h.placed.distinct hp hq' htarget'.2
        rw [← hqp, hplace] at hwritten
        cases hwritten
      rcases @Tree.meet_locate _ d.tree (Files.among (d.targets (copyRoutes placements))) _ _ _
        hlocate with ⟨left, _, hmeet⟩ | hthrough
      · have hends : d.tree.findMeet (Files.among (d.targets (copyRoutes placements)))
            (routeOf (cstr p.dst)) = .ends (.file inode) := by
          rw [hmeet]
          cases left with
          | zero => simp [Tree.meet, Tree.scanMeet, Files.among, hout, hentry]
          | succ left => simp [Tree.meet, Tree.scanMeet, Files.among, hout, hentry]
        have htells := @Tree.meet_tells _ d.tree (Files.among (d.targets (copyRoutes placements)))
          d.tree.limit (d.tree.start (routeOf (cstr p.dst)).fromRoot d.tree.cwd)
          (routeOf (cstr p.dst)).names
        rw [← Tree.findMeet, hends] at htells
        have hfind : d.tree.find (routeOf (cstr p.dst)) = some (.file inode) := htells
        rw [hrep.read_ends hends, Files.read, hfind, Files.read, hsource]
      · exact absurd hthrough hnot

theorem safe (hclear : Clear d placements) : Safe d opts placements where
  names := h.placed.distinct
  bundle _ hp _ htarget := h.bundle_apart hp htarget
  copies := by
    obtain ⟨fs, new, hcopy, hrep, hholds⟩ := (h.harmless hclear).copyAll
    refine ⟨fs, by rw [copySidecars_eq, hcopy], ?_⟩
    intro p hp
    obtain ⟨inode, hinode⟩ := h.find_source hp
    have hread : d.read (routeOf (cstr p.path)) = some (d.content inode) := by
      simp [Files.read, hinode]
    refine ⟨d.content inode, hread, ?_, ?_⟩
    · rw [h.dst_holds hclear hrep hholds hp, hread]
    · rw [h.source_kept hclear hrep hholds hp, hread]

end Ready

variable {placements : List NativePlacement}

/-- Copies that leave everything readable met nothing that was replaced. -/
theorem Safe.clear {d : LinkedDisk} {opts : Options}
    (h : Safe d opts placements) : Clear d placements:= by
  obtain ⟨fs, hcopy, hread⟩ := h.copies
  rw [copySidecars_eq] at hcopy
  constructor
  · intro before copy after hsplit hthrough
    rw [hsplit, Files.copyAll_append] at hcopy
    obtain ⟨fs₁, hbefore, hrest⟩ := Option.bind_eq_some_iff.mp hcopy
    obtain ⟨fs₂, hcopy', _⟩ := Option.bind_eq_some_iff.mp hrest
    obtain ⟨data, hdata, _⟩ := Option.bind_eq_some_iff.mp hcopy'
    obtain ⟨new, hrep⟩ := Files.copyAll_replaced hbefore
    rw [hrep.read_through hthrough] at hdata
    cases hdata
  · intro p hp path hpath hthrough
    obtain ⟨new, hrep⟩ := Files.copyAll_replaced hcopy
    obtain ⟨bytes, _, hdst, hsource⟩ := hread p hp
    have hgone := hrep.read_through hthrough
    rcases List.mem_cons.mp hpath with rfl | hpath
    · rw [hgone] at hsource
      cases hsource
    · rw [List.mem_singleton.mp hpath] at hgone
      rw [hgone] at hdst
      cases hdst

/-- What step 3b and the walk before it establish. -/
theorem placeNatives_ready {d : LinkedDisk} {opts : Options} {root : Bytes}
    {files : List PackagedFile} (hplaced : placeNatives d.disk opts root files = .ok placements)
    (hpaths : ((nativesOf files).map Prod.snd).Nodup)
    (haddon : ∀ native ∈ nativesOf files, d.disk.isRegularFile (cstr native.2) = true ∧
      classifyFile native.2 = .kNative) (hnul : ∀ native ∈ nativesOf files, 0 ∉ filename native.2)
    (hout : 0 ∉ opts.outPath) (hroom : ∀ p ∈ placements, p.inPlace = false → Room d p) :
    Ready d opts root (nativesOf files) placements := by
  have has := placeNatives_placed hpaths hplaced
  have hof : ∀ p ∈ placements, ∃ native ∈ nativesOf files, p.path = native.2 := by
    intro p hp
    obtain ⟨native, hnative, _, hpath⟩ := forall₂_mem_left has.sources.flip hp
    exact ⟨native, hnative, hpath⟩
  refine ⟨has, ?_, ?_, ?_, hout, hroom⟩
  · have heq : placements.map (·.index) = (nativesOf files).map Prod.fst :=
      forall₂_map_eq has.sources fun _ _ hrel => hrel.1
    rw [heq]
    exact nativesOf_nodup files
  · intro p hp
    obtain ⟨native, hnative, hpath⟩ := hof p hp
    rw [hpath]
    exact LinkedDisk.isRegularFile_iff.mp (haddon native hnative).1
  · intro p hp
    obtain ⟨native, hnative, hpath⟩ := hof p hp
    have hnamed := has.named p hp
    rw [hpath] at hnamed
    exact hnamed.fileName (haddon native hnative).2 (hnul native hnative)

/-- Whatever the addons and the links around them: when the build goes on to the copies, these are
safe exactly when no path they need goes through an entry they replace. -/
theorem placed_safe_iff {d : LinkedDisk} {opts : Options} {root : Bytes}
    {files : List PackagedFile} {placements : List NativePlacement}
    (hplaced : placeNatives d.disk opts root files = .ok placements)
    (hpaths : ((nativesOf files).map Prod.snd).Nodup)
    (haddon : ∀ native ∈ nativesOf files, d.disk.isRegularFile (cstr native.2) = true ∧
      classifyFile native.2 = .kNative)
    (hnul : ∀ native ∈ nativesOf files, 0 ∉ filename native.2) (hout : 0 ∉ opts.outPath)
    (hroom : ∀ p ∈ placements, p.inPlace = false → Room d p) :
    Safe d opts placements ↔ Clear d placements := by
  have hready := placeNatives_ready hplaced hpaths haddon hnul hout hroom
  exact ⟨fun h => h.clear, hready.safe⟩

/-- `/p/lib/c.node` and `/p/sub/b.node`, and a link `/p/b.node` to `/p/lib` when `linked`. -/
def libraryEntries (linked : Bool) : List ((Nat × Bytes) × Entry Bytes) :=
  [((0, ascii "p"), .directory 1), ((1, ascii "lib"), .directory 2), ((1, ascii "sub"), .directory 3),
    ((2, ascii "c.node"), .file 0), ((3, ascii "b.node"), .file 1)] ++
  if linked then [((1, ascii "b.node"), .link { fromRoot := false, names := [ascii "lib"] })] else []

def library (linked : Bool) : LinkedDisk :=
  LinkedDisk.ofEntries (libraryEntries linked) [ascii "C", ascii "B"] (by cases linked <;> decide)

def libraryOptions : Options where
  entryPath := ascii "/p/main.js"
  outPath := ascii "/p/app.hnb"
  entry_nul := by decide

/-- The addons, `c.node` by the path the program requires it by. -/
def libraryFiles (c : Bytes) : List PackagedFile :=
  [{ path := c, info := { kind := .kNative } },
    { path := ascii "/p/sub/b.node", info := { kind := .kNative } }]

def libraryPlacements (c : Bytes) : List NativePlacement :=
  [{ index := 0, path := c, sidecarName := ascii "c.node", dst := ascii "/p/c.node", inPlace := false },
    { index := 1, path := ascii "/p/sub/b.node", sidecarName := ascii "b.node"
      dst := ascii "/p/b.node", inPlace := false }]

deriving instance DecidableEq for NativePlacement

theorem ok_of_toOption {ε α : Type} {result : Except ε α} {a : α} (h : result.toOption = some a) :
    result = .ok a := by
  cases result with
  | error e => cases h
  | ok found => rw [Option.some.inj h]

/-- The path of `c.node`: through the link, or where it is. -/
def libraryPath (linked : Bool) : Bytes :=
  if linked then ascii "/p/b.node/c.node" else ascii "/p/lib/c.node"

/-- Both addons are files that can be copied where they go. -/
def libraryReady (linked : Bool) : Bool :=
  (libraryPlacements (libraryPath linked)).all fun p =>
    (library linked).disk.isRegularFile (cstr p.path) &&
      ((library linked).disk.writeError (cstr p.dst)).isNone

theorem library_runs :
    (∀ linked, (placeNatives (library linked).disk libraryOptions (ascii "/p")
        (libraryFiles (libraryPath linked))).toOption =
          some (libraryPlacements (libraryPath linked)) ∧ libraryReady linked = true ∧
      (∀ p ∈ libraryPlacements (libraryPath linked),
        (library linked).tree.locate (routeOf (cstr p.dst)) = some (1, p.sidecarName) ∧
        (library linked).tree.find (routeOf (cstr p.dst)) =
          (library linked).tree.walk 40 1 [p.sidecarName])) ∧
    (copySidecars (libraryPlacements (libraryPath true)) (library true).toFiles).map
      (fun fs => (fs.read (routeOf (libraryPath true)), fs.read (routeOf (ascii "/p/b.node")))) =
      some (none, some (ascii "B")) ∧
    (∀ p ∈ libraryPlacements (libraryPath false), ∀ path ∈ [p.path, p.dst],
      ∀ copies ∈ (copyRoutes (libraryPlacements (libraryPath false))).inits,
        ((library false).tree.findMeet (Files.among ((library false).targets copies))
          (routeOf (cstr path))).through = false) := by
  decide +kernel

/-- An addon that is required through a link is gone after the addon of the link's name has been
copied: the check compares what the paths lead to, a directory and a file. -/
theorem linkedLibrary_lost :
    placeNatives (library true).disk libraryOptions (ascii "/p") (libraryFiles (libraryPath true)) =
      .ok (libraryPlacements (libraryPath true)) ∧
    libraryReady true = true ∧
    (copySidecars (libraryPlacements (libraryPath true)) (library true).toFiles).map
      (fun fs => fs.read (routeOf (libraryPath true))) = some none ∧
    ¬ Safe (library true) libraryOptions (libraryPlacements (libraryPath true)) := by
  obtain ⟨hplaced, hready, _⟩ := library_runs.1 true
  have hlost := congrArg (Option.map Prod.fst) library_runs.2.1
  rw [Option.map_map] at hlost
  refine ⟨ok_of_toOption hplaced, hready, hlost, ?_⟩
  intro hsafe
  obtain ⟨fs, hcopy, hread⟩ := hsafe.copies
  rw [hcopy] at hlost
  obtain ⟨bytes, _, _, hsource⟩ := hread _ (List.mem_cons_self ..)
  have hgone : fs.read (routeOf (libraryPath true)) = none := Option.some.inj hlost
  have hpath : cstr (libraryPath true) = libraryPath true := by decide
  rw [← hpath] at hgone
  exact absurd (hsource.symm.trans hgone) (by simp)

theorem room_of_writeError {d : LinkedDisk} {target : Nat × Bytes}
    (hlocate : d.tree.locate (routeOf (cstr p.dst)) = some target)
    (hwrite : d.writeError (cstr p.dst) = none)
    (hstat : d.tree.find (routeOf (cstr p.dst)) = d.tree.walk d.tree.limit target.1 [target.2]) :
    Room d p := by
  refine ⟨target, hlocate, ?_, hstat⟩
  intro id hid
  simp [LinkedDisk.writeError, hlocate, hid] at hwrite

theorem clear_of_inits {d : LinkedDisk}
    (h : ∀ p ∈ placements, ∀ path ∈ [p.path, p.dst], ∀ copies ∈ (copyRoutes placements).inits,
    (d.tree.findMeet (Files.among (d.targets copies)) (routeOf (cstr path))).through = false) :
    Clear d placements := by
  constructor
  · intro before copy after hsplit hthrough
    have hcopy : copy ∈ copyRoutes placements := by simp [hsplit]
    obtain ⟨p, hp, rfl⟩ := List.mem_map.mp hcopy
    have hinit : before ∈ (copyRoutes placements).inits :=
      (List.mem_inits _ _).mpr ⟨_, hsplit.symm⟩
    have hnot := h p (List.mem_filter.mp hp).1 p.path (by simp) before hinit
    exact absurd (hthrough.symm.trans hnot) (by decide)
  · intro p hp path hpath hthrough
    have hinit : copyRoutes placements ∈ (copyRoutes placements).inits :=
      (List.mem_inits _ _).mpr List.prefix_rfl
    have hnot := h p hp path hpath _ hinit
    exact absurd (hthrough.symm.trans hnot) (by decide)

/-- Required where it is, the same addon stays, and both are copied. -/
theorem plainLibrary_safe :
    Safe (library false) libraryOptions (libraryPlacements (libraryPath false)) := by
  obtain ⟨hplaced, hready, hroom⟩ := library_runs.1 false
  have hboth : ∀ p ∈ libraryPlacements (libraryPath false),
      (library false).disk.isRegularFile (cstr p.path) = true ∧
        (library false).disk.writeError (cstr p.dst) = none := by
    intro p hp
    simpa using List.all_eq_true.mp hready p hp
  have hnatives : ∀ native ∈ nativesOf (libraryFiles (libraryPath false)),
      (∃ p ∈ libraryPlacements (libraryPath false), p.path = native.2) ∧
        classifyFile native.2 = .kNative ∧ 0 ∉ filename native.2 := by
    decide
  refine (placed_safe_iff (ok_of_toOption hplaced) (by decide) ?_ ?_ (by decide) ?_).mpr
    (clear_of_inits library_runs.2.2)
  · intro native hnative
    obtain ⟨⟨p, hp, hpath⟩, hkind, _⟩ := hnatives native hnative
    rw [← hpath] at hkind ⊢
    exact ⟨(hboth p hp).1, hkind⟩
  · exact fun native hnative => (hnatives native hnative).2.2
  · intro p hp _
    obtain ⟨hlocate, hstat⟩ := hroom p hp
    exact room_of_writeError hlocate (hboth p hp).2 hstat

end HermesNode.Build
