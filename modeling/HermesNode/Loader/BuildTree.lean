/-
Module: HermesNode.Loader.BuildTree
Purpose: A build tree below a root, as the resolver sees it, and where a lookup in it ends. The paths
  a lookup probes are given by their names: those a base itself stands for, then the index files in
  it. A base that is not at or below the root finds nothing; in a tree whose files are empty the
  first probed name that is a file is the answer. The last part lists the directories in whose
  `node_modules` a bare specifier is looked up, and builds trees of two files to tell lookups apart.
Trusted boundary: human-reviewed spec (a file tree without permissions; a link stands for what it
  leads to)
Main exports: BuildTree, BuildTree.source, resolveFrom_blank, nodeModulesWalk_hosts
-/
import HermesNode.Build.Backends
import HermesNode.Lib.PosixPath
import HermesNode.Lib.Wander
import HermesNode.Loader.Relocation

namespace HermesNode.Loader

open Resolve
open Build (pathNames pathNames_absPath pathNames_trailing)

/-- The files of a tree with their bytes, and its directories, by their names below the root. -/
structure BuildTree where
  file : List Bytes → Option Bytes
  directory : List Bytes → Bool
  root_directory : directory [] = true
  /-- What lies in something lies in a directory. -/
  directory_above : ∀ names name, (file (names ++ [name])).isSome = true ∨
    directory (names ++ [name]) = true → directory names = true
  apart : ∀ names, directory names = true → file names = none

/-- The names of a path below the root, if it is there. -/
def namesBelow (root : List Bytes) (p : Bytes) : Option (List Bytes) :=
  if isAbsolute p && root.isPrefixOf (pathNames p) then some ((pathNames p).drop root.length)
  else none

namespace BuildTree

/-- The tree with its root at the given directory. What is above the root is a directory. -/
def source (tree : BuildTree) (root : List Bytes) : FileSource where
  isRegularFile p := !endsInSlash p && ((namesBelow root p).bind tree.file).isSome
  isDirectory p :=
    match namesBelow root p with
    | some names => tree.directory names
    | none => isAbsolute p && (pathNames p).isPrefixOf root
  readPackageJson dir :=
    (namesBelow root dir).bind fun names => tree.file (names ++ [ascii "package.json"])

/-- The tree has a file at the names, counted from the filesystem root. -/
def holds (tree : BuildTree) (root names : List Bytes) : Bool :=
  root.isPrefixOf names && (tree.file (names.drop root.length)).isSome

end BuildTree

/-- A base of a lookup: its names, and whether a separator stands behind them. -/
def basePath (names : List Bytes) (trail : Bool) : Bytes :=
  absPath names ++ if trail && !names.isEmpty then [slash] else []

def extensions : List Bytes := [ascii ".js", ascii ".ts", ascii ".json"]

/-- The files a base may stand for itself. -/
def extensionNames (names : List Bytes) (trail : Bool) : List (List Bytes) :=
  if trail || names.isEmpty then extensions.map fun ext => names ++ [ext]
  else ([] :: extensions).map fun ext => names.dropLast ++ [names.getLast?.getD [] ++ ext]

def indexNames (names : List Bytes) : List (List Bytes) :=
  [ascii "index.js", ascii "index.ts", ascii "index.json"].map fun name => names ++ [name]

/-- All files a lookup at a base may end at, if no `main` leads away. -/
def probedNames (names : List Bytes) (trail : Bool) : List (List Bytes) :=
  extensionNames names trail ++ indexNames names

/-! ### Bases -/

theorem basePath_normal {names : List Bytes} (h : Names names) (trail : Bool) :
    NormalPath (basePath names trail) := by
  unfold basePath
  split
  · rename_i htrail
    have hne : names ≠ [] := by simpa using (Bool.and_eq_true_iff.mp htrail).2
    exact NormalPath.trailing h hne
  · rw [List.append_nil]
    exact NormalPath.file h

theorem pathNames_basePath {names : List Bytes} (h : Names names) (trail : Bool) :
    pathNames (basePath names trail) = names := by
  unfold basePath
  split
  · exact pathNames_trailing h
  · rw [List.append_nil]
    exact pathNames_absPath h

theorem namesBelow_basePath {root names : List Bytes} (h : Names names) (trail : Bool) :
    namesBelow root (basePath names trail) =
      if root.isPrefixOf names then some (names.drop root.length) else none := by
  have habs := (basePath_normal h trail).absolute
  rw [namesBelow, habs, pathNames_basePath h, Bool.true_and]

theorem joinNormalized_landing {dir : List Bytes} (hdir : Names dir) {rel : Bytes}
    (hrel : isAbsolute rel = false) :
    joinNormalized (absPath dir) rel =
      basePath (landing dir (wander 0 [] (splitSlash rel)).1 (wander 0 [] (splitSlash rel)).2.reverse)
        (endsInDirectory rel) := by
  have hfree : ∀ seg ∈ splitSlash rel, slash ∉ seg := fun _ => slash_not_mem_of_mem_splitSlash
  have hnothing : ∀ kept, normalStep true kept [] = kept := fun kept => by simp [normalStep]
  have hsplit : (splitSlash (pathAppend (absPath dir) rel)).foldl (normalStep true) [] =
      (splitSlash rel).foldl (normalStep true) dir.reverse := by
    rw [pathAppend_absPath hdir hrel]
    split
    · rename_i hnil
      subst hnil
      rw [splitSlash, if_pos rfl, List.foldl_cons, hnothing]
      rfl
    · have hroot := normalSegments_absPath hdir
      rw [normalSegments, absPath_isAbsolute] at hroot
      have hfold : (splitSlash (absPath dir)).foldl (normalStep true) [] = dir.reverse :=
        List.reverse_eq_iff.mp hroot
      rw [under, splitSlash_append, List.foldl_append, hfold]
  have hname : filename (pathAppend (absPath dir) rel) = filename rel := by
    rw [pathAppend_absPath hdir hrel]
    split
    · have hslash : splitSlash (slash :: rel) = [[]] ++ splitSlash rel := by
        rw [splitSlash, if_pos rfl]
        rfl
      rw [filename, hslash, List.getLast?_append_of_ne_nil _ (splitSlash_ne_nil rel)]
      rfl
    · exact filename_under dir rel
  have habs : isAbsolute (pathAppend (absPath dir) rel) = true :=
    isAbsolute_pathAppend (absPath_isAbsolute dir)
  have hempty : (pathAppend (absPath dir) rel).isEmpty = false := by
    cases hp : pathAppend (absPath dir) rel with
    | nil =>
        rw [hp] at habs
        cases habs
    | cons c p => rfl
  have hsegs : normalSegments (pathAppend (absPath dir) rel) =
      landing dir (wander 0 [] (splitSlash rel)).1 (wander 0 [] (splitSlash rel)).2.reverse := by
    rw [normalSegments, habs, hsplit, foldl_normalStep_landing hdir hfree]
  have hend : endsInDirectory (pathAppend (absPath dir) rel) = endsInDirectory rel := by
    simp only [endsInDirectory, hname]
  have hkept : ∀ segs : List Bytes, basePath segs (endsInDirectory rel) =
      slash :: if (endsInDirectory rel && !segs.isEmpty) = true then joinSlash segs ++ [slash]
        else joinSlash segs := by
    intro segs
    unfold basePath absPath
    split
    · rfl
    · rw [List.append_nil]
  simp only [joinNormalized, lexicallyNormal, hempty, habs, hsegs, hend, Bool.false_eq_true, if_false,
    if_true, hkept]

/-! ### What a lookup probes -/

theorem extension_name {seg ext : Bytes} (hseg : slash ∉ seg) (hext : ext ∈ extensions) :
    Names [seg ++ ext] := by
  have hplain : ∀ ext ∈ extensions, slash ∉ ext ∧ 2 < ext.length := by decide
  rcases hplain ext hext with ⟨hfree, hlength⟩
  exact names_extension hseg hfree hlength

theorem index_name {name : Bytes} (h : name ∈ [ascii "index.js", ascii "index.ts", ascii "index.json"]) :
    Names [name] := by
  rcases index_names name h with ⟨hne, hdot, hdotDot, hfree⟩
  exact names_nil.cons ⟨hne, hdot, hdotDot⟩ hfree

theorem extensionNames_names {names probed : List Bytes} (h : Names names) {trail : Bool}
    (hprobed : probed ∈ extensionNames names trail) : Names probed := by
  unfold extensionNames at hprobed
  split at hprobed
  · obtain ⟨ext, hext, rfl⟩ := List.mem_map.mp hprobed
    exact h.append (@extension_name [] ext (by simp) hext)
  · rename_i hne
    obtain ⟨ext, hext, rfl⟩ := List.mem_map.mp hprobed
    rcases List.eq_nil_or_concat' names with rfl | ⟨front, name, rfl⟩
    · simp at hne
    · rw [List.dropLast_concat, List.getLast?_concat, Option.getD_some]
      rcases List.mem_cons.mp hext with rfl | hin
      · rw [List.append_nil]
        exact h
      · exact h.left.append (extension_name (h.free name (by simp)) hin)

theorem indexNames_names {names probed : List Bytes} (h : Names names)
    (hprobed : probed ∈ indexNames names) : Names probed := by
  obtain ⟨name, hname, rfl⟩ := List.mem_map.mp hprobed
  exact h.append (index_name hname)

section

variable {tree : BuildTree} {root names : List Bytes} {trail : Bool}

/-- A name of a file lies below the root, and so does its directory. -/
theorem holds_below {front : List Bytes} {name : Bytes}
    (h : tree.holds root (front ++ [name]) = true) : root <+: front := by
  rw [BuildTree.holds, Bool.and_eq_true] at h
  obtain ⟨below, hbelow⟩ := List.isPrefixOf_iff_prefix.mp h.1
  rcases List.eq_nil_or_concat' below with rfl | ⟨rest, last, rfl⟩
  · -- the root itself is no file
    rw [List.append_nil] at hbelow
    rw [← hbelow, List.drop_length, tree.apart [] tree.root_directory] at h
    cases h.2
  · rw [← List.append_assoc] at hbelow
    obtain ⟨rfl, _⟩ := List.append_inj' hbelow rfl
    exact List.prefix_append root rest

theorem isRegularFile_absPath (h : Names names) :
    (tree.source root).isRegularFile (absPath names) = tree.holds root names := by
  have hpath : basePath names false = absPath names := List.append_nil _
  have hbelow := @namesBelow_basePath root names h false
  rw [hpath] at hbelow
  rcases List.eq_nil_or_concat' names with rfl | ⟨front, name, rfl⟩
  · have hroot : (tree.source root).isRegularFile (absPath []) = false := rfl
    rw [hroot]
    cases root with
    | nil => simp [BuildTree.holds, tree.apart [] tree.root_directory]
    | cons seg rest => rfl
  · have hend := absPath_not_endsInSlash h (by simp)
    simp only [BuildTree.source, BuildTree.holds, hend, hbelow, Bool.not_false, Bool.true_and]
    split
    · rename_i hstarts
      rw [hstarts, Bool.true_and]
      rfl
    · rename_i hstarts
      simp [hstarts]

theorem find_absPath {probed : List (List Bytes)} (h : ∀ names ∈ probed, Names names) :
    (probed.map absPath).find? (tree.source root).isRegularFile =
      (probed.find? (tree.holds root)).map absPath := by
  induction probed with
  | nil => rfl
  | cons names probed ih =>
      have hrest := ih fun n hn => h n (List.mem_cons_of_mem _ hn)
      rw [List.map_cons, List.find?_cons, List.find?_cons,
        isRegularFile_absPath (h names List.mem_cons_self), hrest]
      split <;> rfl

theorem indexCandidates_basePath (h : Names names) :
    indexCandidates (basePath names trail) = (indexNames names).map absPath := by
  have hpath : ∀ name ∈ [ascii "index.js", ascii "index.ts", ascii "index.json"],
      pathAppend (basePath names trail) name = absPath (names ++ [name]) := by
    intro name hname
    have hone := index_name hname
    have hrel := not_absolute_of_free (hone.free name (by simp))
    unfold basePath
    split
    · rename_i htrail
      have hne : names ≠ [] := by simpa using (Bool.and_eq_true_iff.mp htrail).2
      have hend : endsInSlash (absPath names ++ [slash]) = true := by simp [endsInSlash]
      rw [absPath_snoc hne]
      simp [pathAppend, hrel, hend]
    · rw [List.append_nil]
      exact pathAppend_directory h hone
  rw [indexCandidates, indexNames, List.map_map]
  exact List.map_congr_left hpath

theorem find_extensions (h : Names names) :
    (extensionCandidates (basePath names trail)).find? (tree.source root).isRegularFile =
      ((extensionNames names trail).find? (tree.holds root)).map absPath := by
  rw [← find_absPath fun n hn => extensionNames_names h hn]
  unfold extensionNames
  by_cases hdir : (trail || names.isEmpty) = true
  · -- a path that ends in a separator is no file
    have hend : endsInSlash (basePath names trail) = true := by
      unfold basePath
      cases names with
      | nil => simp [endsInSlash, absPath, joinSlash]
      | cons seg segs =>
          have htrail : trail = true := by simpa using hdir
          simp [htrail, endsInSlash]
    have hself : (tree.source root).isRegularFile (basePath names trail) = false := by
      simp [BuildTree.source, hend]
    have hext : ∀ ext ∈ extensions, basePath names trail ++ ext = absPath (names ++ [ext]) := by
      intro ext _
      unfold basePath
      cases names with
      | nil => simp [absPath, joinSlash]
      | cons seg segs =>
          have htrail : trail = true := by simpa using hdir
          rw [absPath_snoc (by simp)]
          simp [htrail]
    have hlist : extensionCandidates (basePath names trail) =
        basePath names trail :: extensions.map (basePath names trail ++ ·) := rfl
    have hmap : extensions.map (basePath names trail ++ ·) =
        (extensions.map fun ext => names ++ [ext]).map absPath := by
      rw [List.map_map]
      exact List.map_congr_left hext
    rw [if_pos hdir, hlist, List.find?_cons, hself, hmap]
  · rw [if_neg hdir]
    rw [Bool.not_eq_true, Bool.or_eq_false_iff] at hdir
    rcases List.eq_nil_or_concat' names with rfl | ⟨front, name, rfl⟩
    · cases hdir.2
    · have hext : ∀ ext : Bytes, absPath (front ++ [name]) ++ ext = absPath (front ++ [name ++ ext]) := by
        intro ext
        by_cases hfront : front = []
        · subst hfront
          rfl
        · rw [absPath_snoc hfront, absPath_snoc hfront]
          simp
      have hpath : basePath (front ++ [name]) trail = absPath (front ++ [name]) := by
        simp [basePath, hdir.1]
      have hlist : extensionCandidates (absPath (front ++ [name])) =
          ([] :: extensions).map (absPath (front ++ [name]) ++ ·) := by
        simp [extensionCandidates, extensions]
      rw [hpath, hlist, List.map_map, List.dropLast_concat, List.getLast?_concat]
      exact congrArg _ (List.map_congr_left fun ext _ => hext ext)

/-- A file that a base stands for or holds lies below the root only if the base is at or below it. -/
theorem probed_below {probed : List Bytes} (hprobed : probed ∈ probedNames names trail)
    (hfile : tree.holds root probed = true) : root <+: names := by
  rcases List.mem_append.mp hprobed with hext | hindex
  · unfold extensionNames at hext
    split at hext
    · obtain ⟨ext, _, rfl⟩ := List.mem_map.mp hext
      exact holds_below hfile
    · obtain ⟨ext, _, rfl⟩ := List.mem_map.mp hext
      exact (holds_below hfile).trans (List.dropLast_prefix names)
  · obtain ⟨name, _, rfl⟩ := List.mem_map.mp hindex
    exact holds_below hfile

theorem resolveFrom_elsewhere (h : Names names) (hroot : ¬ root <+: names) :
    (resolveFrom (tree.source root) (basePath names trail)).target = none := by
  have hnone : ∀ probed ∈ probedNames names trail, tree.holds root probed = false := by
    intro probed hprobed
    cases hfile : tree.holds root probed with
    | false => rfl
    | true => exact absurd (probed_below hprobed hfile) hroot
  have hext : (extensionNames names trail).find? (tree.holds root) = none := by
    rw [List.find?_eq_none]
    intro probed hprobed
    rw [hnone probed (List.mem_append_left _ hprobed)]
    exact Bool.false_ne_true
  have hindex : (indexNames names).find? (tree.holds root) = none := by
    rw [List.find?_eq_none]
    intro probed hprobed
    rw [hnone probed (List.mem_append_right _ hprobed)]
    exact Bool.false_ne_true
  have hstarts : root.isPrefixOf names = false := by
    rw [Bool.eq_false_iff]
    intro heq
    exact hroot (List.isPrefixOf_iff_prefix.mp heq)
  have hjson : (tree.source root).readPackageJson (basePath names trail) = none := by
    simp [BuildTree.source, namesBelow_basePath h, hstarts]
  simp only [resolveFrom, resolveBase, orElse_target_eq, probe_target,
    find_extensions h, hext, Option.map_none, Option.none_or, hjson, Option.bind_none]
  split
  · simp only [Resolution.consult, probe_target, indexCandidates_basePath h,
      find_absPath fun n hn => indexNames_names h hn, hindex, Option.map_none]
  · rfl

/-- In a tree of empty files the first probed name that is a file is the answer. -/
theorem resolveFrom_blank (hblank : ∀ below content, tree.file below = some content → content = [])
    (h : Names names) :
    (resolveFrom (tree.source root) (basePath names trail)).target =
      ((probedNames names trail).find? (tree.holds root)).map absPath := by
  have hmain : ((tree.source root).readPackageJson (basePath names trail)).bind packageMain = none := by
    cases hread : (tree.source root).readPackageJson (basePath names trail) with
    | none => rfl
    | some content =>
        simp only [BuildTree.source, Option.bind_eq_some_iff] at hread
        obtain ⟨below, _, hfile⟩ := hread
        rw [hblank _ _ hfile]
        rfl
  have hdirectory : (tree.source root).isDirectory (basePath names trail) = false →
      (indexNames names).find? (tree.holds root) = none := by
    intro hno
    rw [List.find?_eq_none]
    intro probed hprobed hfile
    obtain ⟨name, _, rfl⟩ := List.mem_map.mp hprobed
    -- what holds an index file is a directory
    have hstarts := holds_below hfile
    have hlen := hstarts.length_le
    rw [BuildTree.holds, Bool.and_eq_true, List.drop_append_of_le_length hlen] at hfile
    have habove := tree.directory_above _ name (Or.inl hfile.2)
    simp [BuildTree.source, namesBelow_basePath h, List.isPrefixOf_iff_prefix.mpr hstarts, habove]
      at hno
  simp only [resolveFrom, resolveBase, orElse_target_eq, probe_target,
    find_extensions h, hmain, probedNames, List.find?_append, Option.map_or]
  congr 1
  split
  · simp only [Resolution.consult, probe_target, indexCandidates_basePath h,
      find_absPath fun n hn => indexNames_names h hn]
  · rename_i hno
    rw [hdirectory (by simpa using hno)]
    rfl

end

/-! ### Bare specifiers -/

/-- The directories whose `node_modules` a walk asks, from the directory up: all but those that are
called `node_modules` themselves. The names stand topmost first. -/
def hostsUp : List Bytes → List (List Bytes)
  | [] => [[]]
  | name :: above =>
      if name = ascii "node_modules" then hostsUp above
      else (name :: above).reverse :: hostsUp above

def hosts (dir : List Bytes) : List (List Bytes) := hostsUp dir.reverse

example : hosts [ascii "a", ascii "node_modules"] = [[ascii "a"], []] := by decide

theorem hosts_snoc (front : List Bytes) (name : Bytes) :
    hosts (front ++ [name]) =
      if name = ascii "node_modules" then hosts front else (front ++ [name]) :: hosts front := by
  simp only [hosts, List.reverse_append, List.reverse_cons, List.reverse_nil, List.nil_append,
    List.singleton_append, hostsUp, List.reverse_reverse]

theorem mem_hosts {dir host : List Bytes} (h : host ∈ hosts dir) :
    host <+: dir ∧ host.getLast? ≠ some (ascii "node_modules") := by
  induction dir using List.reverseRecOn with
  | nil =>
      rw [List.mem_singleton.mp h]
      exact ⟨List.prefix_rfl, by simp⟩
  | append_singleton front name ih =>
      rw [hosts_snoc] at h
      split at h
      · exact ⟨(ih h).1.trans (List.prefix_append _ _), (ih h).2⟩
      · rename_i hname
        rcases List.mem_cons.mp h with rfl | hin
        · exact ⟨List.prefix_rfl, by simpa using hname⟩
        · exact ⟨(ih hin).1.trans (List.prefix_append _ _), (ih hin).2⟩

theorem hosts_deepest_first (dir : List Bytes) :
    (hosts dir).Pairwise fun host above => above.length < host.length := by
  induction dir using List.reverseRecOn with
  | nil => exact List.pairwise_singleton _ _
  | append_singleton front name ih =>
      rw [hosts_snoc]
      split
      · exact ih
      · rw [List.pairwise_cons]
        refine ⟨fun host hin => ?_, ih⟩
        have hshort := (mem_hosts hin).1.length_le
        rw [List.length_append, List.length_singleton]
        omega

theorem landing_zero (home down : List Bytes) : landing home 0 down = home ++ down := by
  rw [landing, Nat.sub_zero, List.take_length]

theorem endsInDirectory_joinSlash {names : List Bytes} (h : Names names) (hne : names ≠ []) :
    endsInDirectory (joinSlash names) = false := by
  rcases List.eq_nil_or_concat' names with rfl | ⟨front, name, rfl⟩
  · exact absurd rfl hne
  · have hname := h.plain name (by simp)
    have hfile : filename (joinSlash (front ++ [name])) = name := by
      rw [filename, splitSlash_joinSlash hne h.free, List.getLast?_concat]
      rfl
    simp [endsInDirectory, hfile, hname]

theorem isAbsolute_joinSlash {names : List Bytes} (h : Names names) :
    isAbsolute (joinSlash names) = false := by
  by_cases hne : names = []
  · subst hne
    rfl
  · obtain ⟨c, p, hp, hc⟩ := joinSlash_cons_ne h hne
    rw [hp]
    simp [isAbsolute, hc]

theorem joinNormalized_names {dir below : List Bytes} (hdir : Names dir) (hbelow : Names below)
    (hne : below ≠ []) :
    joinNormalized (absPath dir) (joinSlash below) = basePath (dir ++ below) false := by
  rw [joinNormalized_landing hdir (isAbsolute_joinSlash hbelow), splitSlash_joinSlash hne hbelow.free,
    wander_plain hbelow.plain, endsInDirectory_joinSlash hbelow hne]
  simp [landing_zero]

/-- The walk for a bare specifier asks one `node_modules` after another. -/
theorem nodeModulesWalk_hosts (src : FileSource) {dir below : List Bytes} (hdir : Names dir)
    (hbelow : Names below) (hne : below ≠ []) {fuel : Nat} (hfuel : dir.length < fuel) :
    (nodeModulesWalk src (joinSlash below) fuel (absPath dir)).target =
      (hosts dir).findSome? fun host =>
        (resolveFrom src (basePath (host ++ ascii "node_modules" :: below) false)).target := by
  have hask : ∀ host, Names host →
      joinNormalized (absPath (host ++ [ascii "node_modules"])) (joinSlash below) =
        basePath (host ++ ascii "node_modules" :: below) false := by
    intro host hhost
    rw [joinNormalized_names (hhost.append names_nodeModules) hbelow hne, List.append_assoc]
    rfl
  induction dir using List.reverseRecOn generalizing fuel with
  | nil =>
      obtain ⟨n, rfl⟩ : ∃ n, fuel = n + 1 := ⟨fuel - 1, by omega⟩
      have hparent : parentPath (absPath []) = absPath [] := by decide
      have hname := filename_ne_nodeModules hdir (by simp)
      have hhosts : hosts [] = [[]] := rfl
      simp only [nodeModulesWalk, hname, if_true, orElse_target_eq, hparent,
        pathAppend_directory hdir names_nodeModules, hask [] hdir, hhosts, List.findSome?_cons,
        List.findSome?_nil, Resolution.nothing, Option.or_none]
      split
      · rename_i found hfound
        exact hfound
      · rename_i hnone
        exact hnone
  | append_singleton front name ih =>
      rw [List.length_append, List.length_singleton] at hfuel
      obtain ⟨n, rfl⟩ : ∃ n, fuel = n + 1 := ⟨fuel - 1, by omega⟩
      have hup := @ih hdir.left n (by omega)
      rw [hosts_snoc]
      by_cases hname : name = ascii "node_modules"
      · subst hname
        rw [nodeModulesWalk_skip src _ n hdir, hup, if_pos rfl]
      · rw [nodeModulesWalk_succ src _ n hdir hname, hup, if_neg hname, hask _ hdir,
          List.findSome?_cons]
        split
        · rename_i found hfound
          rw [hfound]
          rfl
        · rename_i hnone
          rw [hnone]
          rfl

/-! ### Trees that tell lookups apart -/

/-- The tree of two empty files, neither of which lies in the other. -/
def BuildTree.pair (x y : List Bytes) (hx : x ≠ []) (hy : y ≠ []) (hxy : x <+: y → x = y)
    (hyx : y <+: x → x = y) : BuildTree where
  file names := if names = x ∨ names = y then some [] else none
  directory names := (names.isPrefixOf x && names != x) || (names.isPrefixOf y && names != y)
  root_directory := by
    simp [hx.symm, List.isPrefixOf]
  directory_above names name h := by
    have hin : names ++ [name] <+: x ∨ names ++ [name] <+: y := by
      rcases h with hfile | hdir
      · split at hfile
        · rename_i heq
          rcases heq with heq | heq
          · exact Or.inl (by rw [heq])
          · exact Or.inr (by rw [heq])
        · cases hfile
      · simp only [Bool.or_eq_true, Bool.and_eq_true, List.isPrefixOf_iff_prefix] at hdir
        rcases hdir with hdir | hdir
        · exact Or.inl hdir.1
        · exact Or.inr hdir.1
    have hproper : ∀ z : List Bytes, names ++ [name] <+: z → names <+: z ∧ names ≠ z := by
      intro z hz
      refine ⟨(List.prefix_append _ _).trans hz, ?_⟩
      rintro rfl
      have hlen := hz.length_le
      rw [List.length_append, List.length_singleton] at hlen
      omega
    simp only [Bool.or_eq_true, Bool.and_eq_true, List.isPrefixOf_iff_prefix, bne_iff_ne]
    rcases hin with hin | hin
    · exact Or.inl (hproper x hin)
    · exact Or.inr (hproper y hin)
  apart names h := by
    simp only [Bool.or_eq_true, Bool.and_eq_true, List.isPrefixOf_iff_prefix, bne_iff_ne] at h
    rw [if_neg]
    rintro (rfl | rfl)
    · rcases h with ⟨_, hne⟩ | ⟨hpre, hne⟩
      · exact hne rfl
      · exact hne (hxy hpre)
    · rcases h with ⟨hpre, hne⟩ | ⟨_, hne⟩
      · exact hne (hyx hpre).symm
      · exact hne rfl

theorem pair_blank {x y : List Bytes} {hx : x ≠ []} {hy : y ≠ []} {hxy : x <+: y → x = y}
    {hyx : y <+: x → x = y} {below : List Bytes} {content : Bytes}
    (h : (BuildTree.pair x y hx hy hxy hyx).file below = some content) : content = [] := by
  simp only [BuildTree.pair] at h
  split at h
  · exact (Option.some.inj h).symm
  · cases h

theorem pair_holds {root x y names : List Bytes} {hx : x ≠ []} {hy : y ≠ []} {hxy : x <+: y → x = y}
    {hyx : y <+: x → x = y} :
    (BuildTree.pair x y hx hy hxy hyx).holds root names = true ↔
      names = root ++ x ∨ names = root ++ y := by
  simp only [BuildTree.holds, Bool.and_eq_true, List.isPrefixOf_iff_prefix, BuildTree.pair]
  constructor
  · rintro ⟨⟨below, rfl⟩, hfile⟩
    rw [List.drop_left] at hfile
    split at hfile
    · rename_i heq
      rcases heq with rfl | rfl
      · exact Or.inl rfl
      · exact Or.inr rfl
    · cases hfile
  · rintro (rfl | rfl)
    · simp
    · simp

end HermesNode.Loader
