/-
Module: HermesNode.Resolve.Canonical
Purpose: That the resolver comes to an end, and that what it ends with is canonical. The recursion of
  `resolveBase` and the climb of `resolveSpecifier` are stated again without fuel, as the calls that
  return; every call returns, with the answer of the executable resolver and no other. Over a source
  whose files have no trailing slash the answer is a regular file spelled as `lexically_normal` spells
  it, so a file has one spelling however it was asked for.
Trusted boundary: none
Main exports: BaseReturns, WalkReturns, resolveSpecifier_canonical
-/
import HermesNode.Resolve.Answers

namespace HermesNode.Resolve

/-! ### The calls that return -/

/-- `resolveBase(src, base, depth)` returns `r`. A `main` is followed one level deeper, and nothing
but the depth stops a chain of them. -/
inductive BaseReturns (src : FileSource) : Nat → Bytes → Resolution → Prop where
  | tooDeep {depth : Nat} {base : Bytes} (hdepth : kMaxResolveDepth < depth) :
      BaseReturns src depth base Resolution.nothing
  | file {depth : Nat} {base path : Bytes} (hdepth : depth ≤ kMaxResolveDepth)
      (hfile : (extensionCandidates base).find? src.isRegularFile = some path) :
      BaseReturns src depth base (Resolution.found path)
  | absent {depth : Nat} {base : Bytes} (hdepth : depth ≤ kMaxResolveDepth)
      (hfile : (extensionCandidates base).find? src.isRegularFile = none)
      (hdir : src.isDirectory base = false) : BaseReturns src depth base Resolution.nothing
  | index {depth : Nat} {base : Bytes} (hdepth : depth ≤ kMaxResolveDepth)
      (hfile : (extensionCandidates base).find? src.isRegularFile = none)
      (hdir : src.isDirectory base = true)
      (hmain : (src.readPackageJson base).bind packageMain = none) :
      BaseReturns src depth base (Resolution.consult base (probe src (indexCandidates base)))
  | main {depth : Nat} {base main : Bytes} {r : Resolution} (hdepth : depth ≤ kMaxResolveDepth)
      (hfile : (extensionCandidates base).find? src.isRegularFile = none)
      (hdir : src.isDirectory base = true)
      (hmain : (src.readPackageJson base).bind packageMain = some main)
      (inner : BaseReturns src (depth + 1) (joinNormalized base main) r) :
      BaseReturns src depth base
        (Resolution.consult base (r.orElse (probe src (indexCandidates base))))

/-- What one directory of the `node_modules` walk contributes. -/
inductive LookReturns (src : FileSource) (specifier dir : Bytes) : Resolution → Prop where
  | skipped (hname : filename dir = ascii "node_modules") :
      LookReturns src specifier dir Resolution.nothing
  | probed {r : Resolution} (hname : filename dir ≠ ascii "node_modules")
      (inner : BaseReturns src 0
        (joinNormalized (pathAppend dir (ascii "node_modules")) specifier) r) :
      LookReturns src specifier dir r

/-- The loop of the walk, entered with `dir`, returns `r`. -/
inductive WalkReturns (src : FileSource) (specifier : Bytes) : Bytes → Resolution → Prop where
  | found {dir path : Bytes} {r : Resolution} (look : LookReturns src specifier dir r)
      (hfound : r.target = some path) : WalkReturns src specifier dir r
  | root {dir : Bytes} {r : Resolution} (look : LookReturns src specifier dir r)
      (hnone : r.target = none) (hroot : parentPath dir = dir) : WalkReturns src specifier dir r
  | climb {dir : Bytes} {r up : Resolution} (look : LookReturns src specifier dir r)
      (hnone : r.target = none) (hroot : parentPath dir ≠ dir)
      (rest : WalkReturns src specifier (parentPath dir) up) :
      WalkReturns src specifier dir (r.orElse up)

/-- `resolveSpecifier(src, fromFile, specifier)` returns `r`. -/
inductive Returns (src : FileSource) (fromFile specifier : Bytes) : Resolution → Prop where
  | relative {r : Resolution} (hrel : isRelative specifier = true)
      (inner : BaseReturns src 0 (joinNormalized (parentPath fromFile) specifier) r) :
      Returns src fromFile specifier r
  | absolute {r : Resolution} (hrel : isRelative specifier = false)
      (habs : specifier.head? = some slash)
      (inner : BaseReturns src 0 (joinNormalized [slash] specifier) r) :
      Returns src fromFile specifier r
  | bare {r : Resolution} (hrel : isRelative specifier = false)
      (habs : specifier.head? ≠ some slash)
      (walk : WalkReturns src specifier (parentPath fromFile) r) :
      Returns src fromFile specifier r

variable {src : FileSource} {specifier : Bytes}

/-! ### Every call returns -/

theorem probe_found {candidates : List Bytes} {path : Bytes}
    (h : candidates.find? src.isRegularFile = some path) :
    probe src candidates = Resolution.found path := by
  simp only [probe, h]

theorem probe_nothing {candidates : List Bytes}
    (h : candidates.find? src.isRegularFile = none) : probe src candidates = Resolution.nothing := by
  simp only [probe, h]

theorem nothing_orElse (r : Resolution) : Resolution.nothing.orElse r = r := rfl

theorem orElse_of_found {r next : Resolution} {path : Bytes} (h : r.target = some path) :
    r.orElse next = r := by
  obtain ⟨target, consulted⟩ := r
  subst h
  rfl

theorem resolveBase_directory {fuel : Nat} {base : Bytes}
    (hfile : (extensionCandidates base).find? src.isRegularFile = none)
    (hdir : src.isDirectory base = true) :
    resolveBase src (fuel + 1) base =
      Resolution.consult base (resolveDirectory src fuel base) := by
  rw [resolveBase_succ, probe_nothing hfile, nothing_orElse, if_pos hdir]

/-- A call at some depth returns what the resolver has with the levels left below that depth. -/
theorem resolveBase_returns (fuel : Nat) {depth : Nat} (base : Bytes)
    (hfuel : fuel = kMaxResolveDepth + 1 - depth) :
    BaseReturns src depth base (resolveBase src fuel base) := by
  induction fuel generalizing depth base with
  | zero => exact BaseReturns.tooDeep (by omega)
  | succ fuel ih =>
      have hdepth : depth ≤ kMaxResolveDepth := by omega
      cases hfile : (extensionCandidates base).find? src.isRegularFile with
      | some path =>
          rw [resolveBase_succ, probe_found hfile, orElse_of_found rfl]
          exact BaseReturns.file hdepth hfile
      | none =>
          cases hdir : src.isDirectory base with
          | false =>
              rw [resolveBase_succ, probe_nothing hfile, hdir]
              exact BaseReturns.absent hdepth hfile hdir
          | true =>
              rw [resolveBase_directory hfile hdir]
              cases hmain : (src.readPackageJson base).bind packageMain with
              | none =>
                  simp only [resolveDirectory, hmain]
                  exact BaseReturns.index hdepth hfile hdir hmain
              | some main =>
                  simp only [resolveDirectory, hmain]
                  exact BaseReturns.main hdepth hfile hdir hmain (ih _ (by omega))

theorem BaseReturns.eq {depth : Nat} {base : Bytes} {r : Resolution}
    (h : BaseReturns src depth base r) :
    r = resolveBase src (kMaxResolveDepth + 1 - depth) base := by
  induction h with
  | tooDeep hdepth =>
      rw [Nat.sub_eq_zero_of_le hdepth]
      rfl
  | file hdepth hfile =>
      rw [Nat.succ_sub hdepth, resolveBase_succ, probe_found hfile]
      rfl
  | absent hdepth hfile hdir =>
      rw [Nat.succ_sub hdepth, resolveBase_succ, probe_nothing hfile, hdir]
      rfl
  | index hdepth hfile hdir hmain =>
      rw [Nat.succ_sub hdepth, resolveBase_directory hfile hdir]
      simp only [resolveDirectory, hmain]
  | main hdepth hfile hdir hmain inner ih =>
      rw [Nat.succ_sub hdepth, resolveBase_directory hfile hdir]
      simp only [resolveDirectory, hmain]
      rw [ih, Nat.succ_sub_succ]

theorem resolveFrom_iff {base : Bytes} {r : Resolution} :
    BaseReturns src 0 base r ↔ r = resolveFrom src base := by
  constructor
  · exact BaseReturns.eq
  · rintro rfl
    exact resolveBase_returns _ base rfl

/-- What the walk finds in one directory. -/
theorem lookReturns_iff {dir : Bytes} {r : Resolution} :
    LookReturns src specifier dir r ↔
      r = if filename dir != ascii "node_modules" then
          resolveFrom src (joinNormalized (pathAppend dir (ascii "node_modules")) specifier)
        else Resolution.nothing := by
  by_cases hname : filename dir = ascii "node_modules"
  · rw [hname, bne_self_eq_false, if_neg Bool.false_ne_true]
    constructor
    · intro h
      cases h with
      | skipped _ => rfl
      | probed hother _ => exact absurd hname hother
    · rintro rfl
      exact LookReturns.skipped hname
  · rw [if_pos (bne_iff_ne.mpr hname)]
    constructor
    · intro h
      cases h with
      | skipped hother => exact absurd hother hname
      | probed _ inner => exact resolveFrom_iff.mp inner
    · intro h
      exact LookReturns.probed hname (resolveFrom_iff.mpr h)

/-- The climb returns: every parent that differs from its directory is a shorter path. -/
theorem nodeModulesWalk_returns {fuel : Nat} {dir : Bytes} (hfuel : dir.length < fuel) :
    WalkReturns src specifier dir (nodeModulesWalk src specifier fuel dir) := by
  induction fuel generalizing dir with
  | zero => exact absurd hfuel (Nat.not_lt_zero _)
  | succ fuel ih =>
      rw [nodeModulesWalk]
      have hlook := (@lookReturns_iff src specifier dir _).mpr rfl
      generalize (if filename dir != ascii "node_modules" then
          resolveFrom src (joinNormalized (pathAppend dir (ascii "node_modules")) specifier)
        else Resolution.nothing) = here at hlook ⊢
      cases htarget : here.target with
      | some path =>
          rw [orElse_of_found htarget]
          exact WalkReturns.found hlook htarget
      | none =>
          by_cases hroot : parentPath dir = dir
          · rw [if_pos hroot]
            have hhere : here.orElse Resolution.nothing = here := by
              obtain ⟨target, consulted⟩ := here
              subst htarget
              simp [Resolution.orElse, Resolution.nothing]
            rw [hhere]
            exact WalkReturns.root hlook htarget hroot
          · rw [if_neg hroot]
            have hshorter := parentPath_length hroot
            exact WalkReturns.climb hlook htarget hroot (ih (by omega))

theorem WalkReturns.unique {dir : Bytes} {r r' : Resolution}
    (h : WalkReturns src specifier dir r) (h' : WalkReturns src specifier dir r') : r = r' := by
  have hsame : ∀ {d : Bytes} {x y : Resolution}, LookReturns src specifier d x →
      LookReturns src specifier d y → x = y :=
    fun hx hy => (lookReturns_iff.mp hx).trans (lookReturns_iff.mp hy).symm
  induction h generalizing r' with
  | found look hfound =>
      cases h' with
      | found look' _ => exact hsame look look'
      | root look' _ _ => exact hsame look look'
      | climb look' hnone _ _ =>
          rw [hsame look look', hnone] at hfound
          cases hfound
  | root look hnone hroot =>
      cases h' with
      | found look' _ => exact hsame look look'
      | root look' _ _ => exact hsame look look'
      | climb _ _ hother _ => exact absurd hroot hother
  | climb look hnone hroot rest ih =>
      cases h' with
      | found look' hfound =>
          rw [hsame look look', hfound] at hnone
          cases hnone
      | root _ _ hother => exact absurd hother hroot
      | climb look' _ _ rest' => rw [hsame look look', ih rest']

theorem returns_iff {fromFile : Bytes} {r : Resolution} :
    Returns src fromFile specifier r ↔ r = resolveSpecifier src fromFile specifier := by
  have hwalk := @nodeModulesWalk_returns src specifier _ _ (Nat.lt_succ_self (parentPath fromFile).length)
  unfold resolveSpecifier
  dsimp only
  cases hrel : isRelative specifier with
  | true =>
      rw [if_pos rfl]
      constructor
      · intro h
        cases h with
        | relative _ inner => exact resolveFrom_iff.mp inner
        | absolute hother _ _ => exact absurd hother (by simp [hrel])
        | bare hother _ _ => exact absurd hother (by simp [hrel])
      · intro h
        exact Returns.relative hrel (resolveFrom_iff.mpr h)
  | false =>
      rw [if_neg Bool.false_ne_true]
      by_cases habs : specifier.head? = some slash
      · rw [if_pos (beq_iff_eq.mpr habs)]
        constructor
        · intro h
          cases h with
          | relative hother _ => exact absurd hother (by simp [hrel])
          | absolute _ _ inner => exact resolveFrom_iff.mp inner
          | bare _ hother _ => exact absurd habs hother
        · intro h
          exact Returns.absolute hrel habs (resolveFrom_iff.mpr h)
      · rw [if_neg (mt beq_iff_eq.mp habs)]
        constructor
        · intro h
          cases h with
          | relative hother _ => exact absurd hother (by simp [hrel])
          | absolute _ hother _ => exact absurd hother habs
          | bare _ _ walk => exact walk.unique hwalk
        · rintro rfl
          exact Returns.bare hrel habs hwalk

/-! ### The answer is canonical -/

/-- A path that `lexically_normal` leaves alone and that names no directory. -/
structure Canonical (path : Bytes) : Prop where
  absolute : isAbsolute path = true
  normal : lexicallyNormal path = path
  file : endsInSlash path = false

/-- Paths in normal form without a trailing slash are told apart by their segments. -/
theorem Canonical.eq_absPath {path : Bytes} (h : Canonical path) :
    path = absPath (normalSegments path) := by
  have hnormal := lexicallyNormal_normal h.absolute
  rw [h.normal] at hnormal
  have hend := h.file
  cases hnormal with
  | file hsegs => rw [normalSegments_absPath hsegs]
  | trailing hsegs hne => simp [endsInSlash] at hend

theorem Answer.canonical {path : Bytes}
    (hfiles : ∀ p, src.isRegularFile p = true → endsInSlash p = false)
    (h : Answer src path) : Canonical path := by
  rcases h with ⟨hfile, base, hbase, hcandidate⟩
  have hnormal := candidate_normalPath hbase hcandidate
  exact ⟨hnormal.absolute, hnormal.lexicallyNormal_eq, hfiles path hfile⟩

/-- The resolver always returns, and what it returns is a regular file of the source in its one
canonical spelling: another request that leads to a path with the same segments leads to the same
path, and so does normalizing any other spelling of the file. -/
theorem resolveSpecifier_canonical {src : FileSource}
    (hfiles : ∀ p, src.isRegularFile p = true → endsInSlash p = false)
    {fromFile : Bytes} (habs : isAbsolute fromFile = true) (specifier : Bytes) :
    (∃ r, Returns src fromFile specifier r) ∧
      (∀ r, Returns src fromFile specifier r → r = resolveSpecifier src fromFile specifier) ∧
      ∀ path, (resolveSpecifier src fromFile specifier).target = some path →
        src.isRegularFile path = true ∧ isAbsolute path = true ∧ lexicallyNormal path = path ∧
        endsInSlash path = false ∧
        (∀ fromFile' specifier' path', isAbsolute fromFile' = true →
          (resolveSpecifier src fromFile' specifier').target = some path' →
          normalSegments path' = normalSegments path → path' = path) ∧
        ∀ spelling, isAbsolute spelling = true → endsInDirectory spelling = false →
          normalSegments spelling = normalSegments path → lexicallyNormal spelling = path := by
  refine ⟨⟨_, returns_iff.mpr rfl⟩, fun r hr => returns_iff.mp hr, ?_⟩
  intro path hpath
  have hanswer := resolveSpecifier_answer habs hpath
  have hcanonical := hanswer.canonical hfiles
  refine ⟨hanswer.1, hcanonical.absolute, hcanonical.normal, hcanonical.file, ?_, ?_⟩
  · intro fromFile' specifier' path' habs' hpath' hsegs
    have hcanonical' := (resolveSpecifier_answer habs' hpath').canonical hfiles
    rw [hcanonical'.eq_absPath, hsegs, ← hcanonical.eq_absPath]
  · intro spelling hspelling hdir hsegs
    have hne : spelling.isEmpty = false := by
      cases spelling with
      | nil => cases hspelling
      | cons c cs => rfl
    rw [hcanonical.eq_absPath, ← hsegs]
    simp only [lexicallyNormal, hne, hspelling, hdir, Bool.false_eq_true, if_false, if_true,
      Bool.false_and]
    rfl

/-- A tree with one package whose `main` climbs out of it and back in, and a `main` cycle. -/
def mainTree : FileSource where
  isRegularFile p := p == ascii "/a/lib/m.js" || p == ascii "/a/in.js"
  isDirectory p := p == ascii "/a/lib/" || p == ascii "/a/lib" || p == ascii "/b"
  readPackageJson p :=
    if p == ascii "/a/lib/" || p == ascii "/a/lib" then
      some (ascii "\x7b\"main\": \"../lib/./m\"\x7d")
    else if p == ascii "/b" then some (ascii "\x7b\"main\": \"../b\"\x7d") else none

theorem mainTree_canonical :
    isAbsolute (ascii "/a/in.js") = true ∧
      (resolveSpecifier mainTree (ascii "/a/in.js") (ascii "./lib/")).target =
        some (ascii "/a/lib/m.js") ∧
      endsInSlash (ascii "/a/lib/m.js") = false ∧
      ∃ r, Returns mainTree (ascii "/a/in.js") (ascii "../b") r := by
  have hfiles : ∀ p, mainTree.isRegularFile p = true → endsInSlash p = false := by
    intro p hp
    simp only [mainTree, Bool.or_eq_true, beq_iff_eq] at hp
    rcases hp with rfl | rfl
    · decide
    · decide
  have habs : isAbsolute (ascii "/a/in.js") = true := rfl
  have hlib : (resolveSpecifier mainTree (ascii "/a/in.js") (ascii "./lib/")).target =
      some (ascii "/a/lib/m.js") := by
    decide
  have hfile := (resolveSpecifier_canonical hfiles habs (ascii "./lib/")).2.2 _ hlib
  exact ⟨habs, hlib, hfile.2.2.2.1, (resolveSpecifier_canonical hfiles habs (ascii "../b")).1⟩

end HermesNode.Resolve
