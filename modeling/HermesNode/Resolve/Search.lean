/-
Module: HermesNode.Resolve.Search
Purpose: The resolver as a search. `search` lists the paths `resolveSpecifier` asks for, in order,
  each with the directories it stands behind and the `main` fields that led to it; the answer is the
  first of them that is a file. A source that shows less of a tree searches the same list less what
  stands behind a directory or a `package.json` that it does not show. Two sources therefore answer
  differently exactly when the smaller one is diverted.
Trusted boundary: none
Main exports: Gate, Probe, search_within, answers_agree_iff
-/
import HermesNode.Resolve.Answers

namespace HermesNode.Resolve

/-- A directory on the way to a path, and whether its `main` was followed there. -/
structure Gate where
  dir : Bytes
  main : Bool
deriving Repr, DecidableEq

/-- A path the resolver asks for, and what it stands behind. -/
structure Probe where
  path : Bytes
  gates : List Gate := []
deriving Repr, DecidableEq

def Probe.behind (gate : Gate) (probe : Probe) : Probe :=
  { probe with gates := gate :: probe.gates }

/-- The source shows the directory, and its `package.json` where the `main` is needed. -/
def Gate.shown (src : FileSource) (gate : Gate) : Bool :=
  src.isDirectory gate.dir && (!gate.main || (src.readPackageJson gate.dir).isSome)

def Probe.shown (src : FileSource) (probe : Probe) : Bool := probe.gates.all (Gate.shown src)

/-- The source gets as far as the path, and finds a file there. -/
def Probe.met (src : FileSource) (probe : Probe) : Bool :=
  probe.shown src && src.isRegularFile probe.path

/-- What `resolveBase` asks for, as long as nothing is a file. -/
def searchBase (src : FileSource) : Nat → Bytes → List Probe
  | 0, _ => []
  | fuel + 1, base =>
      (extensionCandidates base).map (Probe.mk · []) ++
        if src.isDirectory base then
          (match (src.readPackageJson base).bind packageMain with
            | some main =>
                (searchBase src fuel (joinNormalized base main)).map (Probe.behind ⟨base, true⟩)
            | none => []) ++
          (indexCandidates base).map (Probe.mk · [⟨base, false⟩])
        else []

def searchFrom (src : FileSource) (base : Bytes) : List Probe :=
  searchBase src (kMaxResolveDepth + 1) base

def searchWalk (src : FileSource) (specifier : Bytes) : Nat → Bytes → List Probe
  | 0, _ => []
  | fuel + 1, dir =>
      (if filename dir != ascii "node_modules" then
        searchFrom src (joinNormalized (pathAppend dir (ascii "node_modules")) specifier)
      else []) ++
      if parentPath dir = dir then []
      else searchWalk src specifier fuel (parentPath dir)

/-- What `resolveSpecifier` asks for, as long as nothing is a file. -/
def search (src : FileSource) (fromFile specifier : Bytes) : List Probe :=
  let fromDir := parentPath fromFile
  if isRelative specifier then searchFrom src (joinNormalized fromDir specifier)
  else if specifier.head? == some slash then searchFrom src (joinNormalized [slash] specifier)
  else searchWalk src specifier (fromDir.length + 1) fromDir

/-! ### The answer is the first file -/

/-- The first path of the list that is a file. -/
def firstFile (src : FileSource) (probes : List Probe) : Option Bytes :=
  (probes.find? fun probe => src.isRegularFile probe.path).map (·.path)

section

variable {src : FileSource}

@[simp]
theorem firstFile_nil : firstFile src [] = none := rfl

@[simp]
theorem firstFile_append (xs ys : List Probe) :
    firstFile src (xs ++ ys) = (firstFile src xs).or (firstFile src ys) := by
  simp only [firstFile, List.find?_append]
  cases xs.find? fun probe => src.isRegularFile probe.path with
  | none => rfl
  | some probe => rfl

@[simp]
theorem firstFile_behind (gate : Gate) (probes : List Probe) :
    firstFile src (probes.map (Probe.behind gate)) = firstFile src probes := by
  simp only [firstFile, List.find?_map, Option.map_map]
  rfl

@[simp]
theorem firstFile_paths (gates : List Gate) (paths : List Bytes) :
    firstFile src (paths.map (Probe.mk · gates)) = paths.find? src.isRegularFile := by
  simp only [firstFile, List.find?_map, Option.map_map]
  exact Option.map_id'

@[simp]
theorem probe_target (candidates : List Bytes) :
    (probe src candidates).target = candidates.find? src.isRegularFile := by
  unfold probe
  split
  · rename_i path hfind
    simp [Resolution.found, hfind]
  · rename_i hfind
    simp [Resolution.nothing, hfind]

@[simp]
theorem orElse_target_eq (r next : Resolution) :
    (r.orElse next).target = r.target.or next.target := by
  unfold Resolution.orElse
  cases r.target with
  | none => rfl
  | some path => rfl

theorem resolveBase_eq_find (fuel : Nat) (base : Bytes) :
    (resolveBase src fuel base).target = firstFile src (searchBase src fuel base) := by
  induction fuel generalizing base with
  | zero => rfl
  | succ fuel ih =>
      simp only [resolveBase, searchBase, orElse_target_eq, probe_target, firstFile_append,
        firstFile_paths]
      congr 1
      split
      · simp only [Resolution.consult, firstFile_append, firstFile_paths]
        cases (src.readPackageJson base).bind packageMain with
        | none => simp
        | some main => simp [ih]
      · rfl

theorem nodeModulesWalk_eq_find (specifier : Bytes) (fuel : Nat) (dir : Bytes) :
    (nodeModulesWalk src specifier fuel dir).target =
      firstFile src (searchWalk src specifier fuel dir) := by
  induction fuel generalizing dir with
  | zero => rfl
  | succ fuel ih =>
      simp only [nodeModulesWalk, searchWalk, orElse_target_eq, firstFile_append]
      congr 1
      · split
        · exact resolveBase_eq_find _ _
        · rfl
      · split
        · rfl
        · exact ih _

theorem resolveSpecifier_eq_find (fromFile specifier : Bytes) :
    (resolveSpecifier src fromFile specifier).target =
      firstFile src (search src fromFile specifier) := by
  unfold resolveSpecifier search
  dsimp only
  split
  · exact resolveBase_eq_find _ _
  · split
    · exact resolveBase_eq_find _ _
    · exact nodeModulesWalk_eq_find _ _ _

end

/-! ### A source that shows less -/

/-- Among paths in normal form, the directories of `C` are directories of `D`, and the
`package.json` texts `C` has are those of `D`. Nothing is asked of the files. -/
structure FileSource.Within (C D : FileSource) : Prop where
  directories : ∀ dir, NormalPath dir → C.isDirectory dir = true → D.isDirectory dir = true
  packageJson : ∀ dir text, NormalPath dir → C.readPackageJson dir = some text →
    D.readPackageJson dir = some text

section

variable {C D : FileSource}

theorem filter_shown_behind (gate : Gate) (probes : List Probe) :
    (probes.map (Probe.behind gate)).filter (Probe.shown C) =
      if gate.shown C then (probes.filter (Probe.shown C)).map (Probe.behind gate) else [] := by
  cases hgate : gate.shown C with
  | true =>
      have hsame : Probe.shown C ∘ Probe.behind gate = Probe.shown C := by
        funext probe
        simp [Probe.shown, Probe.behind, hgate]
      rw [if_pos rfl, List.filter_map, hsame]
  | false =>
      rw [if_neg (by decide), List.filter_eq_nil_iff]
      intro probe hprobe
      obtain ⟨inner, _, rfl⟩ := List.mem_map.mp hprobe
      simp [Probe.shown, Probe.behind, hgate]

theorem filter_shown_paths (gates : List Gate) (paths : List Bytes) :
    (paths.map (Probe.mk · gates)).filter (Probe.shown C) =
      if gates.all (Gate.shown C) then paths.map (Probe.mk · gates) else [] := by
  cases hgates : gates.all (Gate.shown C) with
  | true =>
      rw [if_pos rfl, List.filter_eq_self]
      intro probe hprobe
      obtain ⟨path, _, rfl⟩ := List.mem_map.mp hprobe
      exact hgates
  | false =>
      rw [if_neg (by decide), List.filter_eq_nil_iff]
      intro probe hprobe
      obtain ⟨path, _, rfl⟩ := List.mem_map.mp hprobe
      simp [Probe.shown, hgates]

/-- The induction is on the remaining depth. What `C` leaves out stands behind a gate that `C` does
not show. -/
theorem searchBase_within (h : C.Within D) {fuel : Nat} {base : Bytes} (hbase : NormalPath base) :
    searchBase C fuel base = (searchBase D fuel base).filter (Probe.shown C) := by
  induction fuel generalizing base with
  | zero => rfl
  | succ fuel ih =>
      simp only [searchBase, List.filter_append, filter_shown_paths, List.all_nil, if_true]
      congr 1
      cases hC : C.isDirectory base with
      | false =>
          have hgate : ∀ main, Gate.shown C ⟨base, main⟩ = false := by
            intro main
            simp [Gate.shown, hC]
          simp only [Bool.false_eq_true, if_false]
          split
          · simp only [List.filter_append, filter_shown_paths, List.all_cons, hgate]
            cases (D.readPackageJson base).bind packageMain with
            | none => simp
            | some main => simp [filter_shown_behind, hgate]
          · rfl
      | true =>
          have hindex : Gate.shown C ⟨base, false⟩ = true := by simp [Gate.shown, hC]
          simp only [h.directories base hbase hC, if_true, List.filter_append, filter_shown_paths,
            List.all_cons, List.all_nil, hindex, Bool.and_self]
          congr 1
          cases htext : C.readPackageJson base with
          | none =>
              -- the `main` of `D`, if there is one, is not shown by `C`
              have hmain : Gate.shown C ⟨base, true⟩ = false := by simp [Gate.shown, htext]
              cases (D.readPackageJson base).bind packageMain with
              | none => rfl
              | some main => simp [filter_shown_behind, hmain]
          | some text =>
              have hmain : Gate.shown C ⟨base, true⟩ = true := by simp [Gate.shown, hC, htext]
              rw [h.packageJson base text hbase htext]
              simp only [Option.bind_some]
              cases packageMain text with
              | none => rfl
              | some main =>
                  simp only [filter_shown_behind, hmain, if_true]
                  rw [ih (joinNormalized_normal hbase.absolute)]

theorem searchWalk_within (h : C.Within D) {specifier : Bytes} {fuel : Nat} {dir : Bytes}
    (hdir : isAbsolute dir = true) :
    searchWalk C specifier fuel dir =
      (searchWalk D specifier fuel dir).filter (Probe.shown C) := by
  induction fuel generalizing dir with
  | zero => rfl
  | succ fuel ih =>
      simp only [searchWalk, List.filter_append]
      congr 1
      · split
        · exact searchBase_within h (nodeModules_normal hdir)
        · rfl
      · split
        · rfl
        · exact ih (isAbsolute_parentPath hdir)

/-- `C` searches what `D` searches, less what stands behind something it does not show. -/
theorem search_within (h : C.Within D) {fromFile specifier : Bytes}
    (habs : isAbsolute fromFile = true) :
    search C fromFile specifier = (search D fromFile specifier).filter (Probe.shown C) := by
  have hdir := isAbsolute_parentPath habs
  unfold search
  dsimp only
  split
  · exact searchBase_within h (joinNormalized_normal hdir)
  · split
    · exact searchBase_within h (joinNormalized_normal rfl)
    · exact searchWalk_within h hdir

/-! ### Diversions -/

/-- Where `D` finds the first file of the search, `C` ends up elsewhere: a path `D` asked for in
vain is a file of `C`; or `C` does not get to the place of the answer, and of what stands behind it
the first path it does get to and finds is another one. -/
def diverted (D C : FileSource) (probes : List Probe) : Bool :=
  let inVain (probe : Probe) := !D.isRegularFile probe.path
  (probes.takeWhile inVain).any (Probe.met C) ||
    match probes.dropWhile inVain with
    | [] => false
    | answer :: later =>
        !answer.shown C && (later.find? (Probe.met C)).any fun probe => probe.path != answer.path

/-- The first file of `C` is that of `D`, or there is none, exactly when `C` is not diverted. -/
theorem firstFile_agree_iff {probes : List Probe} {target : Bytes}
    (htarget : firstFile D probes = some target) (hfile : C.isRegularFile target = true) :
    (∀ found, firstFile C (probes.filter (Probe.shown C)) = some found → found = target) ↔
      diverted D C probes = false := by
  obtain ⟨answer, hanswer, rfl⟩ := Option.map_eq_some_iff.mp htarget
  obtain ⟨hregular, before, later, rfl, hbefore⟩ := List.find?_eq_some_iff_append.mp hanswer
  have hvain : ∀ probe ∈ before, (!D.isRegularFile probe.path) = true := hbefore
  have hstop : (!D.isRegularFile answer.path) = false := by simp [hregular]
  have hfirst : firstFile C ((before ++ answer :: later).filter (Probe.shown C)) =
      ((before ++ answer :: later).find? (Probe.met C)).map (·.path) := by
    simp only [firstFile, List.find?_filter]
    congr 2
    funext probe
    simp [Probe.met]
  have hsplit : diverted D C (before ++ answer :: later) =
      (before.any (Probe.met C) || (!answer.shown C &&
        (later.find? (Probe.met C)).any fun probe => probe.path != answer.path)) := by
    simp only [diverted, List.takeWhile_append_of_pos hvain, List.dropWhile_append_of_pos hvain,
      List.takeWhile_cons, List.dropWhile_cons, hstop, Bool.false_eq_true, if_false,
      List.append_nil]
  rw [hfirst, hsplit, List.find?_append]
  cases hmet : before.find? (Probe.met C) with
  | some probe =>
      -- what `D` asked for in vain is not the answer
      have hmem := List.mem_of_find?_eq_some hmet
      have hother : probe.path ≠ answer.path := by
        intro heq
        have hnot := hvain probe hmem
        rw [heq, hstop] at hnot
        cases hnot
      have hany : before.any (Probe.met C) = true :=
        List.any_eq_true.mpr ⟨probe, hmem, List.find?_some hmet⟩
      simp [hany, hother]
  | none =>
      have hnone : before.any (Probe.met C) = false := by
        simpa using List.find?_eq_none.mp hmet
      have hat : answer.met C = answer.shown C := by simp [Probe.met, hfile]
      rw [hnone, Option.none_or, List.find?_cons, hat]
      cases answer.shown C with
      | true => simp
      | false =>
          cases later.find? (Probe.met C) with
          | none => simp
          | some probe => simp

/-- A source within another, asked for a target it has, answers with the same target or nothing
exactly when it is not diverted. -/
theorem answers_agree_iff (h : C.Within D) {fromFile specifier target : Bytes}
    (habs : isAbsolute fromFile = true)
    (htarget : (resolveSpecifier D fromFile specifier).target = some target)
    (hfile : C.isRegularFile target = true) :
    (∀ found, (resolveSpecifier C fromFile specifier).target = some found → found = target) ↔
      diverted D C (search D fromFile specifier) = false := by
  rw [resolveSpecifier_eq_find] at htarget ⊢
  rw [search_within h habs]
  exact firstFile_agree_iff htarget hfile

end

end HermesNode.Resolve
