/-
Module: HermesNode.Loader.Suggestion
Purpose: The `--include` value that the loader prints for a relative request it could not serve. The
  loader joins the request to the importer's directory and writes the result relative to the entry's,
  as `path.relative` sees them from the working directory; the producer resolves the value from the
  entry's file under the build root. Here the value and the base it leads to are computed by names.
Trusted boundary: human-reviewed spec (transcribed from `libjs/bundle-loader.js`)
Main exports: includeSuggestion, Miss, Miss.resolve_relative, Miss.resolve_bare
-/
import HermesNode.Loader.BuildTree

namespace HermesNode.Loader

open HermesNode.Bundle Resolve

/-- The `--include` value for a request, or nothing when there is no correct one. -/
def includeSuggestion (cwd entryIdentity request importer : JsString) (importerIsIdentity : Bool) :
    Option JsString :=
  if request.head? ≠ some dotByte then some request
  else if !importerIsIdentity then none
  else
    let target := posixJoin (posixDirname importer) request
    let value := posixRelative cwd (posixDirname entryIdentity) target
    if value = [] then none
    else if value.head? = some dotByte then some value
    else some (ascii "./" ++ value)

/-- A relative request that was missed at run time, and where: the names of the build root and of
the working directory, and the identities of the entry and of the importer. -/
structure Miss where
  root : List Bytes
  cwd : List Bytes
  entry : Bytes
  importer : Bytes
  request : Bytes
  root_names : Names root
  cwd_names : Names cwd
  entry_valid : isValidIdentity entry = true
  importer_valid : isValidIdentity importer = true
  request_relative : isRelative request = true

/-- The names of the directory of an identity. -/
def identityDir (identity : Bytes) : List Bytes := (splitSlash identity).dropLast

namespace Miss

variable (m : Miss)

/-- The file of an identity on the build machine. -/
def fileOf (identity : Bytes) : Bytes := absPath (m.root ++ splitSlash identity)

/-- What the loader prints. -/
def value : Option JsString := includeSuggestion (absPath m.cwd) m.entry m.request m.importer true

/-- Whatever tree is built below the root: where the request leads to a file, so does the value. -/
def Works : Prop :=
  ∀ (tree : BuildTree) (target value : Bytes),
    (resolveSpecifier (tree.source m.root) (m.fileOf m.importer) m.request).target = some target →
    m.value = some value →
    (resolveSpecifier (tree.source m.root) (m.fileOf m.entry) value).target = some target

/-! ### Where the request leads -/

/-- The directories above the root that the request climbs to. -/
def ups : Nat := (wander 0 [] (identityDir m.importer ++ splitSlash m.request)).1

/-- The names it goes down from there. -/
def down : List Bytes := (wander 0 [] (identityDir m.importer ++ splitSlash m.request)).2.reverse

/-- Where it leads under the build root. -/
def asked : List Bytes := landing m.root m.ups m.down

/-- Where it leads under the working directory. -/
def seen : List Bytes := landing m.cwd m.ups m.down

/-- The entry's directory under the working directory. -/
def here : List Bytes := m.cwd ++ identityDir m.entry

/-- What has to be left on the way from the entry's directory to the target. -/
def left : List Bytes := (mismatch m.here m.seen).1

/-- What has to be entered then. -/
def below : List Bytes := (mismatch m.here m.seen).2

variable {m}

theorem identity_names {identity : Bytes} (h : isValidIdentity identity = true) :
    ∃ name, splitSlash identity = identityDir identity ++ [name] ∧
      Names (identityDir identity ++ [name]) := by
  have hnames := names_of_isValidIdentity h
  rcases List.eq_nil_or_concat' (splitSlash identity) with hnil | ⟨front, name, hsplit⟩
  · exact absurd hnil (splitSlash_ne_nil identity)
  · rw [hsplit] at hnames
    have hdir : identityDir identity = front := by rw [identityDir, hsplit, List.dropLast_concat]
    exact ⟨name, by rw [hdir, hsplit], by rwa [hdir]⟩

theorem identityDir_names {identity : Bytes} (h : isValidIdentity identity = true) :
    Names (identityDir identity) := by
  obtain ⟨name, _, hnames⟩ := identity_names h
  exact hnames.left

theorem parentPath_fileOf {identity : Bytes} (h : isValidIdentity identity = true) :
    parentPath (m.fileOf identity) = absPath (m.root ++ identityDir identity) := by
  obtain ⟨name, hsplit, hnames⟩ := identity_names h
  have hall := m.root_names.append hnames
  rw [← List.append_assoc] at hall
  rw [fileOf, hsplit, ← List.append_assoc]
  exact parentPath_absPath hall

theorem relative_head {specifier : Bytes} (h : isRelative specifier = true) :
    ∃ rest, specifier = dotByte :: rest := by
  unfold isRelative at h
  split at h
  · cases h
  · rename_i c
    exact ⟨[], by rw [eq_of_beq h]; rfl⟩
  · rename_i c d rest
    exact ⟨d :: rest, by rw [eq_of_beq (Bool.and_eq_true_iff.mp h).1]; rfl⟩

theorem relative_not_absolute {specifier : Bytes} (h : isRelative specifier = true) :
    isAbsolute specifier = false := by
  obtain ⟨rest, rfl⟩ := relative_head h
  rfl

theorem request_free {seg : Bytes} (h : seg ∈ identityDir m.importer ++ splitSlash m.request) :
    slash ∉ seg := by
  rcases List.mem_append.mp h with hin | hin
  · exact (identityDir_names m.importer_valid).free seg hin
  · exact slash_not_mem_of_mem_splitSlash hin

theorem down_names : Names m.down :=
  (wander_names (segmentWalk_of names_nil fun _ => request_free)).reverse

theorem asked_names : Names m.asked := landing_names m.root_names down_names

theorem seen_names : Names m.seen := landing_names m.cwd_names down_names

theorem here_names : Names m.here := m.cwd_names.append (identityDir_names m.entry_valid)

/-- A directory that is gone through first makes no difference. -/
theorem landing_through {home dir segs : List Bytes} (hhome : Names home) (hdir : Names dir)
    (hfree : ∀ seg ∈ segs, slash ∉ seg) :
    landing (home ++ dir) (wander 0 [] segs).1 (wander 0 [] segs).2.reverse =
      landing home (wander 0 [] (dir ++ segs)).1 (wander 0 [] (dir ++ segs)).2.reverse := by
  have hall : ∀ seg ∈ dir ++ segs, slash ∉ seg := by
    intro seg hseg
    rcases List.mem_append.mp hseg with hin | hin
    · exact hdir.free seg hin
    · exact hfree seg hin
  rw [← foldl_normalStep_landing (hhome.append hdir) hfree, ← foldl_normalStep_landing hhome hall,
    List.foldl_append, foldl_normalStep_plain hdir.plain, List.reverse_append]

/-- The producer looks the request up where it leads under the root. -/
theorem resolve_request (src : FileSource) :
    resolveSpecifier src (m.fileOf m.importer) m.request =
      resolveFrom src (basePath m.asked (endsInDirectory m.request)) := by
  have hdir := m.root_names.append (identityDir_names m.importer_valid)
  have hland := @landing_through _ _ (splitSlash m.request) m.root_names
    (identityDir_names m.importer_valid) fun _ => slash_not_mem_of_mem_splitSlash
  simp only [resolveSpecifier, m.request_relative, if_true, parentPath_fileOf m.importer_valid,
    joinNormalized_landing hdir (relative_not_absolute m.request_relative)]
  rw [hland]
  rfl

/-! ### What the loader sees -/

/-- The directory of an identity is where it is under the working directory. -/
theorem resolve_dirname {identity : Bytes} (h : isValidIdentity identity = true) :
    posixResolve (absPath m.cwd) (posixDirname identity) =
      absPath (m.cwd ++ identityDir identity) := by
  obtain ⟨name, hsplit, hnames⟩ := identity_names h
  have hdirname := posixDirname_joinSlash hnames
  rw [← hsplit, joinSlash_splitSlash] at hdirname
  rw [hdirname]
  split
  · rename_i hnil
    rw [hnil, List.append_nil]
    rfl
  · rename_i hne
    rw [posixResolve_relative m.cwd_names (isAbsolute_joinSlash hnames.left),
      splitSlash_joinSlash hne hnames.left.free, foldl_normalStep_plain hnames.left.plain,
      List.reverse_append, List.reverse_reverse, List.reverse_reverse]

/-- A normalized relative path leads where the path leads. -/
theorem normalized_wander {p : Bytes} (hrel : isAbsolute p = false) (hne : p ≠ []) :
    isAbsolute (posixNormalize p) = false ∧
      wander 0 [] (splitSlash (posixNormalize p)) = wander 0 [] (splitSlash p) := by
  generalize hw : wander 0 [] (splitSlash p) = w
  have hnames : Names w.2 := by
    rw [← hw]
    exact wander_names (segmentWalk_split p)
  have hsegs : normalSegments p = List.replicate w.1 dotDot ++ w.2.reverse := by
    have hfold := @foldl_normalStep_relative 0 [] _ (segmentWalk_split p)
    rw [List.replicate_zero, List.append_nil, hw] at hfold
    rw [normalSegments, hrel, hfold, List.reverse_append, List.reverse_replicate]
  have hwritten : wander 0 [] (List.replicate w.1 dotDot ++ w.2.reverse) = w := by
    rw [wander_written hnames.reverse.plain, List.reverse_reverse]
  have hsolid : Solid (List.replicate w.1 dotDot ++ w.2.reverse) := by
    intro seg hseg
    rcases List.mem_append.mp hseg with hdd | hin
    · rw [(List.mem_replicate.mp hdd).2]
      decide
    · exact hnames.reverse.solid seg hin
  have hempty : p.isEmpty = false := by simpa using hne
  by_cases hnil : List.replicate w.1 dotDot ++ w.2.reverse = []
  · -- the path stays where it is
    rw [hnil] at hsegs hwritten
    have hbody : (joinSlash ([] : List Bytes)).isEmpty = true := rfl
    simp only [posixNormalize, hempty, hsegs, hbody, hrel, if_true, Bool.false_eq_true, if_false]
    split
    · exact ⟨rfl, by rw [← hwritten]; rfl⟩
    · exact ⟨rfl, by rw [← hwritten]; rfl⟩
  · have hjoin := (joinSlash_not_endsInSlash hsolid hnil).2
    have hbody : (joinSlash (List.replicate w.1 dotDot ++ w.2.reverse)).isEmpty = false := by
      simpa using hjoin
    have hsplit := splitSlash_joinSlash hnil fun seg hseg => (hsolid seg hseg).2
    have hstart : isAbsolute (joinSlash (List.replicate w.1 dotDot ++ w.2.reverse)) = false := by
      cases hj : joinSlash (List.replicate w.1 dotDot ++ w.2.reverse) with
      | nil => rfl
      | cons c q =>
          by_cases hc : c = slash
          · -- the first segment would be empty
            rw [hj, hc, splitSlash, if_pos rfl] at hsplit
            have hin : ([] : Bytes) ∈ List.replicate w.1 dotDot ++ w.2.reverse := by
              rw [← hsplit]
              exact List.mem_cons_self
            exact absurd rfl (hsolid [] hin).1
          · simp [isAbsolute, hc]
    simp only [posixNormalize, hempty, hsegs, hbody, hrel, Bool.false_eq_true, if_false]
    split
    · refine ⟨?_, ?_⟩
      · cases hj : joinSlash (List.replicate w.1 dotDot ++ w.2.reverse) with
        | nil => exact absurd hj hjoin
        | cons c q =>
            rw [hj] at hstart
            exact hstart
      · rw [splitSlash_append, hsplit, wander_append, hwritten]
        simp [splitSlash, wander]
    · exact ⟨hstart, by rw [hsplit, hwritten]⟩

/-- The target the loader computes is where the request leads under the working directory. -/
theorem resolve_target :
    posixResolve (absPath m.cwd) (posixJoin (posixDirname m.importer) m.request) =
      absPath m.seen := by
  obtain ⟨name, hsplit, hnames⟩ := identity_names m.importer_valid
  obtain ⟨rest, hrest⟩ := relative_head m.request_relative
  have hdirname := posixDirname_joinSlash hnames
  rw [← hsplit, joinSlash_splitSlash] at hdirname
  generalize hd : posixDirname m.importer = d at hdirname
  have hdir : d ≠ [] ∧ isAbsolute d = false ∧
      ∀ segs, wander 0 [] (splitSlash d ++ segs) = wander 0 [] (identityDir m.importer ++ segs) := by
    rw [hdirname]
    split
    · rename_i hnil
      rw [hnil]
      exact ⟨by decide, rfl, fun segs => rfl⟩
    · rename_i hne
      refine ⟨(joinSlash_not_endsInSlash hnames.left.solid hne).2,
        isAbsolute_joinSlash hnames.left, fun segs => ?_⟩
      rw [splitSlash_joinSlash hne hnames.left.free]
  obtain ⟨hne, hrel, hwalk⟩ := hdir
  have hjoin : posixJoin d m.request = posixNormalize (d ++ slash :: m.request) := by
    simp [posixJoin, hne, hrest, joinSlash]
  have hstart : isAbsolute (d ++ slash :: m.request) = false := by
    cases d with
    | nil => exact absurd rfl hne
    | cons c d => exact hrel
  obtain ⟨habs, hwander⟩ := normalized_wander hstart (by simp)
  rw [hjoin, posixResolve_relative m.cwd_names habs,
    foldl_normalStep_landing m.cwd_names fun _ => slash_not_mem_of_mem_splitSlash, hwander,
    splitSlash_append, hwalk]
  rfl

/-! ### What is printed -/

theorem left_below : ∃ front, m.here = front ++ m.left ∧ m.seen = front ++ m.below ∧
    (m.left = [] ∨ m.below = [] ∨ m.left.head? ≠ m.below.head?) :=
  mismatch_spec m.here m.seen

/-- The way from the entry's directory to the target as it is written. -/
def way (m : Miss) : List Bytes := List.replicate m.left.length dotDot ++ m.below

theorem below_names : Names m.below := by
  obtain ⟨front, _, hseen, _⟩ := @left_below m
  have hnames := @seen_names m
  rw [hseen] at hnames
  exact hnames.right

theorem way_solid : Solid m.way := by
  intro seg hseg
  rcases List.mem_append.mp hseg with hdd | hin
  · rw [(List.mem_replicate.mp hdd).2]
    decide
  · exact below_names.solid seg hin

/-- Nothing is left and nothing to be entered exactly at the entry's directory. -/
theorem way_eq_nil_iff : m.way = [] ↔ m.seen = m.here := by
  obtain ⟨front, hhere, hseen, happart⟩ := @left_below m
  rw [way, List.append_eq_nil_iff, List.replicate_eq_nil_iff, List.length_eq_zero_iff]
  constructor
  · rintro ⟨hleft, hbelow⟩
    rw [hhere, hseen, hleft, hbelow]
  · intro heq
    rw [hhere, hseen] at heq
    have hsame := List.append_cancel_left heq
    rcases happart with hleft | hbelow | hheads
    · exact ⟨hleft, hsame.trans hleft⟩
    · exact ⟨hsame.symm.trans hbelow, hbelow⟩
    · exact absurd (congrArg List.head? hsame.symm) hheads

/-- Nothing has to be entered exactly when the target is the entry's directory or above it. -/
theorem below_eq_nil_iff : m.below = [] ↔ m.seen <+: m.here := by
  obtain ⟨front, hhere, hseen, happart⟩ := @left_below m
  constructor
  · intro hbelow
    rw [hhere, hseen, hbelow, List.append_nil]
    exact List.prefix_append _ _
  · intro hstarts
    rw [hhere, hseen, List.prefix_append_right_inj] at hstarts
    rcases happart with hleft | hbelow | hheads
    · rw [hleft] at hstarts
      exact List.prefix_nil.mp hstarts
    · exact hbelow
    · obtain ⟨tail, htail⟩ := hstarts
      cases hb : m.below with
      | nil => rfl
      | cons seg rest =>
          rw [← htail, hb] at hheads
          exact absurd rfl hheads

theorem relative_target (hne : m.seen ≠ m.here) :
    posixRelative (absPath m.cwd) (posixDirname m.entry)
      (posixJoin (posixDirname m.importer) m.request) = joinSlash m.way := by
  obtain ⟨front, hhere, hseen, happart⟩ := @left_below m
  have hhereNames := @here_names m
  have hseenNames := @seen_names m
  have hentry := @resolve_dirname m _ m.entry_valid
  have htarget := @resolve_target m
  have hdiffer : m.left ≠ m.below := by
    intro heq
    apply hne
    rw [hhere, hseen, heq]
  have hraw : posixDirname m.entry ≠ posixJoin (posixDirname m.importer) m.request := by
    intro heq
    rw [heq, htarget] at hentry
    exact hne (absPath_inj hseenNames hhereNames hentry)
  have hhere' : m.cwd ++ identityDir m.entry = front ++ m.left := hhere
  rw [posixRelative, if_neg hraw, hentry, htarget, hhere', hseen]
  rw [hhere] at hhereNames
  rw [hseen] at hseenNames
  exact relativeResolved_absPath hhereNames hseenNames hdiffer happart

theorem relative_here (heq : m.seen = m.here) :
    posixRelative (absPath m.cwd) (posixDirname m.entry)
      (posixJoin (posixDirname m.importer) m.request) = [] := by
  have hentry := @resolve_dirname m _ m.entry_valid
  have htarget := @resolve_target m
  have hhere : m.cwd ++ identityDir m.entry = m.here := rfl
  rw [posixRelative]
  split
  · rfl
  · rw [hentry, htarget, heq, hhere, relativeResolved, if_pos rfl]

/-- The printed value is the way from the entry's directory, behind `./` unless it starts with a
dot. -/
theorem value_eq :
    m.value = if m.seen = m.here then none
      else if (joinSlash m.way).head? = some dotByte then some (joinSlash m.way)
      else some (ascii "./" ++ joinSlash m.way) := by
  obtain ⟨rest, hrest⟩ := relative_head m.request_relative
  have hhead : ¬ m.request.head? ≠ some dotByte := by simp [hrest]
  rw [value, includeSuggestion, if_neg hhead, if_neg (by decide)]
  by_cases hsame : m.seen = m.here
  · rw [if_pos hsame]
    exact if_pos (relative_here hsame)
  · have hway : m.way ≠ [] := fun hnil => hsame (way_eq_nil_iff.mp hnil)
    dsimp only
    rw [if_neg hsame, relative_target hsame,
      if_neg (joinSlash_not_endsInSlash way_solid hway).2]

/-- A name with one dot in front. -/
def dotNamed (name : Bytes) : Prop := name.head? = some dotByte ∧ name[1]? ≠ some dotByte

/-- The value starts with such a name: nothing stands in front of it, because a dot does. -/
def Hidden (m : Miss) : Prop := ∃ name rest, m.seen = m.here ++ name :: rest ∧ dotNamed name

theorem hidden_iff : m.Hidden ↔ m.left = [] ∧ ∃ name rest, m.below = name :: rest ∧ dotNamed name := by
  obtain ⟨front, hhere, hseen, happart⟩ := @left_below m
  constructor
  · rintro ⟨name, rest, hbehind, hname⟩
    rw [hhere, hseen, List.append_assoc, List.append_cancel_left_eq] at hbehind
    rcases happart with hleft | hbelow | hheads
    · rw [hleft, List.nil_append] at hbehind
      exact ⟨hleft, name, rest, hbehind, hname⟩
    · rw [hbelow] at hbehind
      exact absurd hbehind.symm (by simp)
    · cases hl : m.left with
      | nil =>
          rw [hl, List.nil_append] at hbehind
          exact ⟨rfl, name, rest, hbehind, hname⟩
      | cons seg segs =>
          rw [hbehind, hl] at hheads
          exact absurd rfl hheads
  · rintro ⟨hleft, name, rest, hbelow, hname⟩
    refine ⟨name, rest, ?_, hname⟩
    rw [hhere, hseen, hleft, hbelow, List.append_nil]

/-- The first byte of a path of segments, and the second one. -/
theorem joinSlash_head {seg : Bytes} {segs : List Bytes} (hseg : seg ≠ []) :
    (joinSlash (seg :: segs)).head? = seg.head? := by
  obtain ⟨c, rest, rfl⟩ := List.exists_cons_of_ne_nil hseg
  cases segs with
  | nil => rfl
  | cons next segs => rfl

theorem joinSlash_second {seg : Bytes} {segs : List Bytes} (hseg : 2 ≤ seg.length) :
    (joinSlash (seg :: segs))[1]? = seg[1]? := by
  cases seg with
  | nil => simp at hseg
  | cons c rest =>
      cases rest with
      | nil => simp at hseg
      | cons d rest =>
          cases segs with
          | nil => rfl
          | cons next segs => rfl

theorem isRelative_iff_second {specifier : Bytes} {d : UInt8} (hhead : specifier.head? = some dotByte)
    (hsecond : specifier[1]? = some d) :
    isRelative specifier = (d == dotByte || d == slash) := by
  cases specifier with
  | nil => cases hhead
  | cons c rest =>
      cases rest with
      | nil => cases hsecond
      | cons e rest =>
          cases hhead
          cases hsecond
          rfl

/-- A name with a dot in front has a second byte, which is no separator. -/
theorem dot_name_second {name : Bytes} (h : Names [name]) (hhead : name.head? = some dotByte) :
    2 ≤ name.length ∧ ∃ d, name[1]? = some d ∧ d ≠ slash := by
  have hplain := h.plain name (by simp)
  have hfree := h.free name (by simp)
  cases name with
  | nil => cases hhead
  | cons c rest =>
      cases hhead
      cases rest with
      | nil => exact absurd rfl hplain.2.1
      | cons d rest =>
          refine ⟨by simp, d, rfl, ?_⟩
          rintro rfl
          exact hfree (by simp)

theorem splitSlash_way (hne : m.way ≠ []) : splitSlash (joinSlash m.way) = m.way :=
  splitSlash_joinSlash hne fun seg hseg => (way_solid seg hseg).2

theorem endsInDirectory_way (hne : m.way ≠ []) :
    endsInDirectory (joinSlash m.way) = decide (m.below = []) := by
  have hfile : filename (joinSlash m.way) = m.way.getLast?.getD [] := by
    rw [filename, splitSlash_way hne]
  by_cases hbelow : m.below = []
  · have hlast : m.way.getLast? = some dotDot := by
      rw [way, hbelow, List.append_nil, List.getLast?_replicate, if_neg]
      intro hzero
      rw [way, hbelow, hzero] at hne
      exact hne rfl
    rw [endsInDirectory, hfile, hlast, hbelow]
    rfl
  · rcases List.eq_nil_or_concat' m.below with hnil | ⟨front, name, hsplit⟩
    · exact absurd hnil hbelow
    · have hname := below_names.plain name (by rw [hsplit]; simp)
      have hlast : m.way.getLast? = some name := by
        rw [way, hsplit, ← List.append_assoc, List.getLast?_concat]
      simp [endsInDirectory, hfile, hlast, hname, hbelow]

theorem filename_behind (p q : Bytes) : filename (p ++ slash :: q) = filename q := by
  rw [filename, splitSlash_append, List.getLast?_append_of_ne_nil _ (splitSlash_ne_nil q)]
  rfl

/-- A value that does not start with a dot-named name is relative to the producer, and goes the way
from the entry's directory to the target. -/
theorem value_relative (hne : m.seen ≠ m.here) (hnot : ¬ m.Hidden) :
    ∃ v, m.value = some v ∧ isRelative v = true ∧
      wander 0 [] (splitSlash v) = (m.left.length, m.below.reverse) ∧
      endsInDirectory v = decide (m.below = []) := by
  have hway : m.way ≠ [] := fun hnil => hne (way_eq_nil_iff.mp hnil)
  have hsplit := splitSlash_way hway
  have hwander : wander 0 [] m.way = (m.left.length, m.below.reverse) :=
    wander_written below_names.plain
  have hend := endsInDirectory_way hway
  rw [value_eq, if_neg hne]
  cases hleft : m.left with
  | cons seg segs =>
      have hfirst : m.way = dotDot :: (List.replicate segs.length dotDot ++ m.below) := by
        rw [way, hleft, List.length_cons, List.replicate_succ, List.cons_append]
      have hhead : (joinSlash m.way).head? = some dotByte := by
        rw [hfirst, joinSlash_head (by decide)]
        rfl
      have hsecond : (joinSlash m.way)[1]? = some dotByte := by
        rw [hfirst, joinSlash_second (by decide)]
        rfl
      rw [if_pos hhead]
      refine ⟨_, rfl, ?_, ?_, hend⟩
      · rw [isRelative_iff_second hhead hsecond]
        rfl
      · rw [hsplit, hwander, hleft]
  | nil =>
      have hsame : m.way = m.below := by
        rw [way, hleft]
        rfl
      obtain ⟨name, rest, hbelow⟩ := List.exists_cons_of_ne_nil (hsame ▸ hway)
      have hname : Names [name] := by
        have hnames := @below_names m
        rw [hbelow] at hnames
        exact @Names.left [name] rest hnames
      have hne' := (hname.plain name (by simp)).1
      rw [hleft] at hwander
      by_cases hhead : (joinSlash m.way).head? = some dotByte
      · -- two dots stand in front
        rw [if_pos hhead]
        refine ⟨_, rfl, ?_, by rw [hsplit, hwander], hend⟩
        have hdot := hhead
        rw [hsame, hbelow, joinSlash_head hne'] at hdot
        obtain ⟨hlong, d, hsecond, _⟩ := dot_name_second hname hdot
        have hd : d = dotByte := by
          by_contra hother
          refine hnot (hidden_iff.mpr ⟨hleft, name, rest, hbelow, hdot, ?_⟩)
          rw [hsecond]
          simpa using hother
        have hsecond' : (joinSlash m.way)[1]? = some d := by
          rw [hsame, hbelow, joinSlash_second hlong, hsecond]
        rw [isRelative_iff_second hhead hsecond', hd]
        rfl
      · rw [if_neg hhead]
        have hbehind : ascii "./" ++ joinSlash m.way = dot ++ slash :: joinSlash m.way := rfl
        refine ⟨_, rfl, rfl, ?_, ?_⟩
        · rw [hbehind, splitSlash_append, hsplit, ← hwander]
          rfl
        · rw [hbehind, endsInDirectory, filename_behind]
          exact hend

/-- A value that starts with a dot-named name is printed as it is, and bare to the producer. -/
theorem value_bare (h : m.Hidden) :
    m.value = some (joinSlash m.below) ∧ isRelative (joinSlash m.below) = false ∧ m.below ≠ [] := by
  obtain ⟨hleft, name, rest, hbelow, hhead, hsecond⟩ := hidden_iff.mp h
  have hname : Names [name] := by
    have hnames := @below_names m
    rw [hbelow] at hnames
    exact @Names.left [name] rest hnames
  have hsame : m.way = m.below := by
    rw [way, hleft]
    rfl
  have hne : m.seen ≠ m.here := by
    intro heq
    have hnil := way_eq_nil_iff.mpr heq
    rw [hsame, hbelow] at hnil
    cases hnil
  obtain ⟨hlong, d, hd, hslash⟩ := dot_name_second hname hhead
  have hfirst : (joinSlash m.below).head? = some dotByte := by
    rw [hbelow, joinSlash_head (hname.plain name (by simp)).1, hhead]
  have hnext : (joinSlash m.below)[1]? = some d := by
    rw [hbelow, joinSlash_second hlong, hd]
  refine ⟨?_, ?_, by rw [hbelow]; simp⟩
  · rw [value_eq, if_neg hne, hsame, if_pos hfirst]
  · have hdot : d ≠ dotByte := by
      rintro rfl
      exact hsecond hd
    simp [isRelative_iff_second hfirst hnext, hdot, hslash]

/-- The producer looks a relative value up at the end of its way from the entry's directory. -/
theorem resolve_relative (hne : m.seen ≠ m.here) (hnot : ¬ m.Hidden) :
    ∃ v, m.value = some v ∧ ∀ src, resolveSpecifier src (m.fileOf m.entry) v =
      resolveFrom src (basePath (landing (m.root ++ identityDir m.entry) m.left.length m.below)
        (decide (m.below = []))) := by
  obtain ⟨v, hv, hrel, hwander, hend⟩ := value_relative hne hnot
  have hdir := m.root_names.append (identityDir_names m.entry_valid)
  refine ⟨v, hv, fun src => ?_⟩
  simp only [resolveSpecifier, hrel, if_true, parentPath_fileOf m.entry_valid,
    joinNormalized_landing hdir (relative_not_absolute hrel), hwander, hend, List.reverse_reverse]

/-- It looks a bare one up in the `node_modules` directories above the entry. -/
theorem resolve_bare (h : m.Hidden) (src : FileSource) :
    (resolveSpecifier src (m.fileOf m.entry) (joinSlash m.below)).target =
      (hosts (m.root ++ identityDir m.entry)).findSome? fun host =>
        (resolveFrom src (basePath (host ++ ascii "node_modules" :: m.below) false)).target := by
  obtain ⟨_, hbare, hne⟩ := value_bare h
  have hdir := m.root_names.append (identityDir_names m.entry_valid)
  have hrel := isAbsolute_joinSlash (@below_names m)
  have hslash : ((joinSlash m.below).head? == some slash) = false := hrel
  simp only [resolveSpecifier, hbare, Bool.false_eq_true, if_false, hslash,
    parentPath_fileOf m.entry_valid]
  exact nodeModulesWalk_hosts src hdir below_names hne (length_lt_absPath hdir)

end Miss

end HermesNode.Loader
