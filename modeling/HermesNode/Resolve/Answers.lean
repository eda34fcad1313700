/-
Module: HermesNode.Resolve.Answers
Purpose: What the resolver can answer and ask. From an absolute importer every base it probes is an
  absolute path in normal form; an answer is a regular file among the candidates of such a base, and
  a consulted directory is one of these bases.
Trusted boundary: none
Main exports: Candidate, resolveSpecifier_answer, resolveSpecifier_consulted
-/
import HermesNode.Lib.Relative
import HermesNode.Resolve.Refinement

namespace HermesNode.Resolve

/-- The paths probed for a base. -/
def Candidate (base path : Bytes) : Prop :=
  path ∈ extensionCandidates base ∨ path ∈ indexCandidates base

theorem isAbsolute_append {p q : Bytes} (h : isAbsolute p = true) : isAbsolute (p ++ q) = true := by
  cases p with
  | nil => cases h
  | cons c cs => exact h

theorem isAbsolute_pathAppend {base rel : Bytes} (h : isAbsolute base = true) :
    isAbsolute (pathAppend base rel) = true := by
  unfold pathAppend
  split
  · assumption
  · split
    · exact isAbsolute_append h
    · exact isAbsolute_append h

theorem isAbsolute_parentPath {p : Bytes} (h : isAbsolute p = true) :
    isAbsolute (parentPath p) = true := by
  unfold parentPath
  split
  · exact h
  · dsimp only
    split
    · rfl
    · rename_i hfront
      -- what is left of the path is a front of it
      have hstarts : ((p.reverse.dropWhile (· != slash)).dropWhile (· == slash)).reverse <+: p := by
        rw [← List.reverse_suffix, List.reverse_reverse]
        exact (List.dropWhile_suffix _).trans (List.dropWhile_suffix _)
      generalize ((p.reverse.dropWhile (· != slash)).dropWhile (· == slash)).reverse = front at *
      rcases hstarts with ⟨rest, rfl⟩
      cases front with
      | nil =>
          have hrest : isAbsolute rest = true := h
          simp [hrest] at hfront
      | cons c cs => exact h

theorem joinNormalized_normal {base rel : Bytes} (h : isAbsolute base = true) :
    NormalPath (joinNormalized base rel) :=
  lexicallyNormal_normal (isAbsolute_pathAppend h)

/-- A suffix that starts with a dot makes the last name longer, or stands alone as a name. -/
theorem normal_append_extension {base ext : Bytes} (h : NormalPath base)
    (hext : ext ∈ [ascii ".js", ascii ".ts", ascii ".json"]) :
    ∃ segs seg, Names (segs ++ [seg]) ∧ base ++ ext = absPath (segs ++ [seg]) := by
  have hplain : ∀ ext ∈ [ascii ".js", ascii ".ts", ascii ".json"],
      slash ∉ ext ∧ 2 < ext.length := by
    decide
  rcases hplain ext hext with ⟨hfree, hlength⟩
  have hname : ∀ seg : Bytes, slash ∉ seg → Names [seg ++ ext] :=
    fun _ hseg => names_extension hseg hfree hlength
  cases h with
  | @file segs hsegs =>
      rcases List.eq_nil_or_concat segs with hnil | ⟨front, seg, hconcat⟩
      · subst hnil
        exact ⟨[], ext, hname [] (by simp), rfl⟩
      · rw [List.concat_eq_append] at hconcat
        subst hconcat
        refine ⟨front, seg ++ ext, hsegs.left.append (hname seg (hsegs.free seg (by simp))), ?_⟩
        by_cases hfront : front = []
        · subst hfront
          rfl
        · rw [absPath_snoc hfront, absPath_snoc hfront]
          simp
  | @trailing segs hsegs hne =>
      refine ⟨segs, ext, hsegs.append (hname [] (by simp)), ?_⟩
      rw [absPath_snoc hne]
      simp

theorem index_names : ∀ name ∈ [ascii "index.js", ascii "index.ts", ascii "index.json"],
    name ≠ [] ∧ name ≠ dot ∧ name ≠ dotDot ∧ slash ∉ name := by
  decide

theorem candidate_normal {base path : Bytes} (h : NormalPath base) (hc : Candidate base path) :
    path = base ∨ ∃ segs seg, Names (segs ++ [seg]) ∧ path = absPath (segs ++ [seg]) := by
  rcases hc with hext | hindex
  · simp only [extensionCandidates, List.mem_cons, List.not_mem_nil, or_false] at hext
    rcases hext with rfl | rfl | rfl | rfl
    · exact Or.inl rfl
    · exact Or.inr (normal_append_extension h (by simp))
    · exact Or.inr (normal_append_extension h (by simp))
    · exact Or.inr (normal_append_extension h (by simp))
  · rcases List.mem_map.mp hindex with ⟨name, hname, rfl⟩
    rcases index_names name hname with ⟨hne, hdot, hdotDot, hfree⟩
    have hnames : Names [name] := names_nil.cons ⟨hne, hdot, hdotDot⟩ hfree
    rcases pathAppend_name h hnames with ⟨segs, hsegs, heq, _⟩
    exact Or.inr ⟨segs, name, hsegs.append hnames, heq⟩

theorem candidate_normalPath {base path : Bytes} (h : NormalPath base) (hc : Candidate base path) :
    NormalPath path := by
  rcases candidate_normal h hc with rfl | ⟨segs, seg, hsegs, rfl⟩
  · exact h
  · exact NormalPath.file hsegs

/-! ### Answers -/

variable {src : FileSource}

theorem probe_answer {candidates : List Bytes} {path : Bytes}
    (h : (probe src candidates).target = some path) :
    path ∈ candidates ∧ src.isRegularFile path = true := by
  unfold probe at h
  cases hfind : candidates.find? src.isRegularFile with
  | none => simp [hfind, Resolution.nothing] at h
  | some found =>
      have heq : found = path := by simpa [hfind, Resolution.found] using h
      subst heq
      exact ⟨List.mem_of_find?_eq_some hfind, List.find?_some hfind⟩

theorem orElse_target {r next : Resolution} {path : Bytes}
    (h : (r.orElse next).target = some path) :
    r.target = some path ∨ (r.target = none ∧ next.target = some path) := by
  cases hr : r.target with
  | none => exact Or.inr ⟨rfl, by simpa [Resolution.orElse, hr] using h⟩
  | some found => exact Or.inl (by simpa [Resolution.orElse, hr] using h)

theorem orElse_consulted {r next : Resolution} {dir : Bytes}
    (h : dir ∈ (r.orElse next).consulted) : dir ∈ r.consulted ∨ dir ∈ next.consulted := by
  cases hr : r.target with
  | none => simpa [Resolution.orElse, hr] using h
  | some found => exact Or.inl (by simpa [Resolution.orElse, hr] using h)

theorem probe_consulted {candidates : List Bytes} : (probe src candidates).consulted = [] := by
  unfold probe
  split
  · rfl
  · rfl

/-- An answer found from `base`. -/
def Answer (src : FileSource) (path : Bytes) : Prop :=
  src.isRegularFile path = true ∧ ∃ base, NormalPath base ∧ Candidate base path

theorem resolveBase_answer {fuel : Nat} {base path : Bytes} (hbase : NormalPath base)
    (h : (resolveBase src fuel base).target = some path) : Answer src path := by
  induction fuel generalizing base with
  | zero => cases h
  | succ fuel ih =>
      rw [resolveBase_succ] at h
      have hindex : (probe src (indexCandidates base)).target = some path → Answer src path := by
        intro hprobe
        rcases probe_answer hprobe with ⟨hmem, hfile⟩
        exact ⟨hfile, base, hbase, Or.inr hmem⟩
      rcases orElse_target h with hext | ⟨_, hrest⟩
      · rcases probe_answer hext with ⟨hmem, hfile⟩
        exact ⟨hfile, base, hbase, Or.inl hmem⟩
      · split at hrest
        · have hdir : (resolveDirectory src fuel base).target = some path := hrest
          unfold resolveDirectory at hdir
          split at hdir
          · rcases orElse_target hdir with hmain | ⟨_, hidx⟩
            · exact ih (joinNormalized_normal hbase.absolute) hmain
            · exact hindex hidx
          · exact hindex hdir
        · cases hrest

theorem resolveBase_consulted {fuel : Nat} {base dir : Bytes} (hbase : NormalPath base)
    (h : dir ∈ (resolveBase src fuel base).consulted) :
    NormalPath dir ∧ src.isDirectory dir = true := by
  induction fuel generalizing base with
  | zero => cases h
  | succ fuel ih =>
      rw [resolveBase_succ] at h
      rcases orElse_consulted h with hext | hrest
      · rw [probe_consulted] at hext
        cases hext
      · split at hrest
        · rename_i hdir
          rcases List.mem_cons.mp hrest with rfl | hinner
          · exact ⟨hbase, hdir⟩
          · unfold resolveDirectory at hinner
            split at hinner
            · rcases orElse_consulted hinner with hmain | hidx
              · exact ih (joinNormalized_normal hbase.absolute) hmain
              · rw [probe_consulted] at hidx
                cases hidx
            · rw [probe_consulted] at hinner
              cases hinner
        · cases hrest

/-- The bases one climb of the `node_modules` walk starts from are in normal form. -/
theorem nodeModules_normal {dir specifier : Bytes} (h : isAbsolute dir = true) :
    NormalPath (joinNormalized (pathAppend dir (ascii "node_modules")) specifier) :=
  joinNormalized_normal (isAbsolute_pathAppend h)

theorem nodeModulesWalk_answer {specifier : Bytes} {fuel : Nat} {dir path : Bytes}
    (hdir : isAbsolute dir = true)
    (h : (nodeModulesWalk src specifier fuel dir).target = some path) : Answer src path := by
  induction fuel generalizing dir with
  | zero => cases h
  | succ fuel ih =>
      unfold nodeModulesWalk at h
      rcases orElse_target h with hhere | ⟨_, hup⟩
      · split at hhere
        · exact resolveBase_answer (nodeModules_normal hdir) hhere
        · cases hhere
      · split at hup
        · cases hup
        · exact ih (isAbsolute_parentPath hdir) hup

theorem nodeModulesWalk_consulted {specifier : Bytes} {fuel : Nat} {dir d : Bytes}
    (hdir : isAbsolute dir = true)
    (h : d ∈ (nodeModulesWalk src specifier fuel dir).consulted) :
    NormalPath d ∧ src.isDirectory d = true := by
  induction fuel generalizing dir with
  | zero => cases h
  | succ fuel ih =>
      unfold nodeModulesWalk at h
      rcases orElse_consulted h with hhere | hup
      · split at hhere
        · exact resolveBase_consulted (nodeModules_normal hdir) hhere
        · cases hhere
      · split at hup
        · cases hup
        · exact ih (isAbsolute_parentPath hdir) hup

/-- From an absolute importer the resolver answers with a regular file in normal form. -/
theorem resolveSpecifier_answer {fromFile specifier path : Bytes}
    (habs : isAbsolute fromFile = true)
    (h : (resolveSpecifier src fromFile specifier).target = some path) : Answer src path := by
  have hdir := isAbsolute_parentPath habs
  unfold resolveSpecifier at h
  dsimp only at h
  split at h
  · exact resolveBase_answer (joinNormalized_normal hdir) h
  · split at h
    · exact resolveBase_answer (joinNormalized_normal rfl) h
    · exact nodeModulesWalk_answer hdir h

theorem resolveSpecifier_consulted {fromFile specifier dir : Bytes}
    (habs : isAbsolute fromFile = true)
    (h : dir ∈ (resolveSpecifier src fromFile specifier).consulted) :
    NormalPath dir ∧ src.isDirectory dir = true := by
  have hdir := isAbsolute_parentPath habs
  unfold resolveSpecifier at h
  dsimp only at h
  split at h
  · exact resolveBase_consulted (joinNormalized_normal hdir) h
  · split at h
    · exact resolveBase_consulted (joinNormalized_normal rfl) h
    · exact nodeModulesWalk_consulted hdir h

end HermesNode.Resolve
