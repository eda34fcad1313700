/-
Module: HermesNode.Loader.SuggestionWorks
Purpose: When the printed `--include` value works. Whatever tree is built below the root, the value
  leads where the missed request leads if the producer looks both up from the same base; and where
  the bases differ, some tree tells them apart. The bases agree unless the climb of the request is
  cut short at a filesystem root, the value starts with a dot-named name and is bare to the producer,
  or one of the two ends as a directory and the other one does not.
Trusted boundary: none
Main exports: Miss.SameClimb, Miss.Hosted, Miss.Agrees.works, Miss.told_apart
-/
import HermesNode.Loader.Suggestion

namespace HermesNode.Loader

open HermesNode.Bundle Resolve

namespace Miss

variable (m : Miss)

/-- How many of its directories a place loses to the climb of the request. -/
def lost (place : List Bytes) : Nat := min m.ups place.length

/-- The build root and the working directory lose equally many; or the root loses fewer and the
first name the request goes down is not the one that stands there under the working directory. -/
def SameClimb : Prop :=
  m.lost m.root = m.lost m.cwd ∨
    (m.lost m.root < m.lost m.cwd ∧
      m.down.head? ≠ (m.here.drop (m.cwd.length - m.ups)).head?)

/-- Where the `node_modules` of a directory has the value. -/
def hostedAt (host : List Bytes) : List Bytes := host ++ ascii "node_modules" :: m.below

/-- From the entry's directory upward, the first `node_modules` that has the value at or below the
root has it where the request leads. -/
def Hosted : Prop :=
  ((hosts (m.root ++ identityDir m.entry)).find? fun host =>
    m.root.isPrefixOf (m.hostedAt host)).map m.hostedAt = some m.asked

/-- The request leads nowhere below the root, there is no value, or the value and the request are
looked up from one base. -/
def Agrees : Prop :=
  ¬ m.root <+: m.asked ∨ m.seen = m.here ∨
    (m.Hidden ∧ endsInDirectory m.request = false ∧ m.Hosted) ∨
    (¬ m.Hidden ∧ m.SameClimb ∧
      (m.asked = [] ∨ (endsInDirectory m.request = true ↔ m.seen <+: m.here)))

variable {m}

/-! ### The way from the entry's directory under the root -/

/-- A list that starts with `xs` and one that starts with `ys` behind equally long fronts. -/
theorem take_common {r c e f left below : List Bytes} (hlen : r.length = c.length)
    (hleft : c ++ e = f ++ left) (hroot : r <+: f ++ below) : (r ++ e).take f.length = f := by
  by_cases hshort : f.length ≤ r.length
  · -- the front lies within the directories of the root
    rw [List.take_append_of_le_length hshort]
    have hf : f <+: f ++ below := List.prefix_append f below
    have hstarts := List.prefix_of_prefix_length_le hf hroot hshort
    exact (List.prefix_iff_eq_take.mp hstarts).symm
  · have hr : r <+: f := List.prefix_of_prefix_length_le hroot (List.prefix_append f below) (by omega)
    have hc : c <+: f := by
      have hbegin : c <+: f ++ left := by
        rw [← hleft]
        exact List.prefix_append c e
      exact List.prefix_of_prefix_length_le hbegin (List.prefix_append f left) (by omega)
    have hsame : r = c := by
      obtain ⟨tail, htail⟩ := hr
      obtain ⟨tail', htail'⟩ := hc
      exact (List.append_inj (htail.trans htail'.symm) hlen).1
    rw [hsame, hleft, List.take_left]

/-- What a place keeps of its directories, and what it loses. -/
theorem lost_split (place : List Bytes) :
    ∃ kept gone, place = kept ++ gone ∧ gone.length = m.lost place ∧
      kept.length = place.length - m.ups ∧ ∀ down, landing place m.ups down = kept ++ down := by
  refine ⟨place.take (place.length - m.ups), place.drop (place.length - m.ups),
    (List.take_append_drop _ _).symm, ?_, ?_, fun down => rfl⟩
  · rw [List.length_drop, lost]
    omega
  · rw [List.length_take]
    omega

/-- The way leads from the entry's directory under the root to where the request leads. -/
theorem way_leads_iff (hroot : m.root <+: m.asked) :
    landing (m.root ++ identityDir m.entry) m.left.length m.below = m.asked ↔ m.SameClimb := by
  obtain ⟨kept, gone, hplace, hgone, _, hland⟩ := @lost_split m m.root
  obtain ⟨kept', gone', hplace', hgone', hlen', hland'⟩ := @lost_split m m.cwd
  have hasked : m.asked = kept ++ m.down := hland m.down
  have hseen : m.seen = kept' ++ m.down := hland' m.down
  have hhere : m.here = kept' ++ (gone' ++ identityDir m.entry) := by
    rw [here, hplace', List.append_assoc]
  have hdrop : m.here.drop (m.cwd.length - m.ups) = gone' ++ identityDir m.entry := by
    rw [hhere, ← hlen', List.drop_left]
  -- what the two have in common begins behind what both places keep
  have hmismatch : mismatch m.here m.seen = mismatch (gone' ++ identityDir m.entry) m.down := by
    rw [hhere, hseen, mismatch_append]
  obtain ⟨front, hleft, hbelow, happart⟩ := mismatch_spec (gone' ++ identityDir m.entry) m.down
  rw [← hmismatch] at hleft hbelow happart
  change _ = front ++ m.left at hleft
  change _ = front ++ m.below at hbelow
  change m.left = [] ∨ m.below = [] ∨ m.left.head? ≠ m.below.head? at happart
  have hcount := congrArg List.length hleft
  simp only [List.length_append] at hcount
  have hstarts : gone <+: front ++ m.below := by
    rw [hasked] at hroot
    nth_rewrite 1 [hplace] at hroot
    rw [List.prefix_append_right_inj, hbelow] at hroot
    exact hroot
  have hwhole : m.root ++ identityDir m.entry = kept ++ (gone ++ identityDir m.entry) := by
    nth_rewrite 1 [hplace]
    rw [List.append_assoc]
  have hleads : landing (m.root ++ identityDir m.entry) m.left.length m.below = m.asked ↔
      (kept ++ (gone ++ identityDir m.entry)).take
        (kept.length + (gone.length + (identityDir m.entry).length) - m.left.length) =
        kept ++ front := by
    rw [hasked, hbelow, ← List.append_assoc kept front, landing, List.append_cancel_right_eq, hwhole]
    simp only [List.length_append]
  rw [hleads, SameClimb, hdrop, ← hgone, ← hgone']
  rcases Nat.lt_trichotomy gone.length gone'.length with hlt | heq | hgt
  · -- the root loses all it has, and is left with what is shared only if nothing is
    have hkept : kept = [] := by
      have hshort : m.root.length ≤ m.ups := by
        rw [hgone, hgone', lost, lost] at hlt
        omega
      have hnone := hland []
      rw [landing, Nat.sub_eq_zero_of_le hshort] at hnone
      simpa using hnone.symm
    subst hkept
    have hnot : ¬ gone.length = gone'.length := by omega
    have hne : gone' ++ identityDir m.entry ≠ [] := by
      intro hnil
      rw [(List.append_eq_nil_iff.mp hnil).1] at hlt
      exact Nat.not_lt_zero _ hlt
    have hfront : front = [] ↔ m.down.head? ≠ (gone' ++ identityDir m.entry).head? := by
      constructor
      · rintro rfl
        rw [hleft, hbelow]
        rw [hleft] at hne
        rcases happart with hnil | hnil | hheads
        · rw [hnil] at hne
          exact absurd rfl hne
        · obtain ⟨seg, rest, hcons⟩ := List.exists_cons_of_ne_nil hne
          rw [hcons, hnil]
          simp
        · exact hheads.symm
      · intro hheads
        cases hf : front with
        | nil => rfl
        | cons seg rest =>
            rw [hleft, hbelow, hf] at hheads
            exact absurd rfl hheads
    rw [← hfront]
    constructor
    · intro htake
      have hlong := congrArg List.length htake
      simp only [List.nil_append, List.length_nil, List.length_take, List.length_append] at hlong
      exact Or.inr ⟨hlt, List.length_eq_zero_iff.mp (by omega)⟩
    · rintro (hsame | ⟨_, rfl⟩)
      · exact absurd hsame hnot
      · rw [List.length_nil] at hcount
        have hzero : ([] : List Bytes).length + (gone.length + (identityDir m.entry).length) -
            m.left.length = 0 := by
          rw [List.length_nil]
          omega
        rw [hzero]
        rfl
  · refine iff_of_true ?_ (Or.inl heq)
    have hnumber : kept.length + (gone.length + (identityDir m.entry).length) - m.left.length =
        kept.length + front.length := by omega
    rw [hnumber, List.take_length_add_append, take_common heq hleft hstarts]
  · refine iff_of_false ?_ ?_
    · intro htake
      have hlong := congrArg List.length htake
      simp only [List.length_take, List.length_append] at hlong
      omega
    · rintro (hsame | ⟨hless, _⟩)
      · omega
      · omega

/-! ### Bases that agree -/

/-- The separator behind a base only matters where there are names. -/
theorem basePath_trail {names : List Bytes} {trail trail' : Bool}
    (h : names = [] ∨ trail = trail') : basePath names trail = basePath names trail' := by
  rcases h with rfl | rfl
  · simp [basePath]
  · rfl

theorem trail_eq_iff :
    endsInDirectory m.request = decide (m.below = []) ↔
      (endsInDirectory m.request = true ↔ m.seen <+: m.here) := by
  rw [Bool.eq_iff_iff, decide_eq_true_eq, below_eq_nil_iff]

/-- A search whose first candidates find nothing finds what the first other one finds. -/
theorem findSome_of_find {α β : Type} {p : α → Bool} {f : α → Option β} {l : List α} {a : α} {b : β}
    (hfind : l.find? p = some a) (hnone : ∀ x ∈ l, p x = false → f x = none) (ha : f a = some b) :
    l.findSome? f = some b := by
  induction l with
  | nil => cases hfind
  | cons x l ih =>
      rw [List.find?_cons] at hfind
      rw [List.findSome?_cons]
      split at hfind
      · cases hfind
        rw [ha]
      · rename_i hx
        rw [hnone x List.mem_cons_self hx]
        exact ih hfind fun y hy => hnone y (List.mem_cons_of_mem _ hy)

theorem hostedAt_names {host : List Bytes} (h : host ∈ hosts (m.root ++ identityDir m.entry)) :
    Names (m.hostedAt host) := by
  have hdir := m.root_names.append (identityDir_names m.entry_valid)
  obtain ⟨tail, htail⟩ := (mem_hosts h).1
  rw [← htail] at hdir
  have hall := (hdir.left.append names_nodeModules).append (@below_names m)
  rwa [List.append_assoc] at hall

/-- Agreeing bases lead to the same file. -/
theorem Agrees.works (h : m.Agrees) : m.Works := by
  intro tree target value hrequest hvalue
  rw [resolve_request] at hrequest
  rcases h with houtside | hhere | ⟨hhidden, hfile, hhosted⟩ | ⟨hopen, hclimb, htrail⟩
  · rw [resolveFrom_elsewhere asked_names houtside] at hrequest
    cases hrequest
  · rw [value_eq, if_pos hhere] at hvalue
    cases hvalue
  · obtain ⟨hprinted, _⟩ := value_bare hhidden
    rw [hprinted] at hvalue
    cases hvalue
    obtain ⟨host, hfind, hasked⟩ := Option.map_eq_some_iff.mp hhosted
    rw [resolve_bare hhidden]
    -- the directories before it have the value outside the root
    have hask : ∀ other ∈ hosts (m.root ++ identityDir m.entry),
        m.root.isPrefixOf (m.hostedAt other) = false →
        (resolveFrom (tree.source m.root) (basePath (m.hostedAt other) false)).target = none := by
      intro other hother hroot
      apply resolveFrom_elsewhere (hostedAt_names hother)
      intro hstarts
      rw [List.isPrefixOf_iff_prefix.mpr hstarts] at hroot
      cases hroot
    rw [hfile, ← hasked] at hrequest
    exact findSome_of_find hfind hask hrequest
  · by_cases hroot : m.root <+: m.asked
    · by_cases hsame : m.seen = m.here
      · rw [value_eq, if_pos hsame] at hvalue
        cases hvalue
      · obtain ⟨v, hv, hresolve⟩ := resolve_relative hsame hopen
        rw [hv] at hvalue
        cases hvalue
        rw [hresolve, (way_leads_iff hroot).mpr hclimb]
        rw [← trail_eq_iff] at htrail
        rw [← basePath_trail htrail]
        exact hrequest
    · rw [resolveFrom_elsewhere asked_names hroot] at hrequest
      cases hrequest

/-! ### Bases that differ -/

theorem mem_probedNames {names dir : List Bytes} {trail : Bool} {x : Bytes} (hnames : Names names)
    (h : dir ++ [x] ∈ probedNames names trail) :
    (names = dir ∧ (x ∈ extensions → trail = true ∨ names = [])) ∨
      (trail = false ∧ ∃ name ext, names = dir ++ [name] ∧ name ≠ [] ∧ ext ∈ [] :: extensions ∧
        x = name ++ ext) := by
  rcases List.mem_append.mp h with hext | hindex
  · unfold extensionNames at hext
    split at hext
    · rename_i hdir
      obtain ⟨ext, _, heq⟩ := List.mem_map.mp hext
      refine Or.inl ⟨(List.append_inj' heq rfl).1, fun _ => ?_⟩
      simpa using hdir
    · rename_i hdir
      rw [Bool.not_eq_true, Bool.or_eq_false_iff] at hdir
      obtain ⟨ext, hin, heq⟩ := List.mem_map.mp hext
      rcases List.eq_nil_or_concat' names with rfl | ⟨front, name, rfl⟩
      · cases hdir.2
      · rw [List.dropLast_concat, List.getLast?_concat, Option.getD_some] at heq
        obtain ⟨rfl, hx⟩ := List.append_inj' heq rfl
        exact Or.inr ⟨hdir.1, name, ext, rfl, (hnames.plain name (by simp)).1, hin,
          (List.singleton_inj.mp hx).symm⟩
  · obtain ⟨name, hname, heq⟩ := List.mem_map.mp hindex
    obtain ⟨hdir, hx⟩ := List.append_inj' heq rfl
    refine Or.inl ⟨hdir, fun hext => ?_⟩
    have hneither : ∀ y ∈ [ascii "index.js", ascii "index.ts", ascii "index.json"],
        y ∉ extensions := by decide
    rw [← List.singleton_inj.mp hx] at hext
    exact absurd hext (hneither name hname)

theorem blank_finds {tree : BuildTree} {root names found : List Bytes} {trail : Bool}
    (hblank : ∀ below content, tree.file below = some content → content = []) (h : Names names)
    (hfound : Names found) :
    (resolveFrom (tree.source root) (basePath names trail)).target = some (absPath found) ↔
      (probedNames names trail).find? (tree.holds root) = some found := by
  rw [resolveFrom_blank hblank h, Option.map_eq_some_iff]
  constructor
  · rintro ⟨probed, hfind, hsame⟩
    have hin := List.mem_of_find?_eq_some hfind
    have hprobed : Names probed := by
      rcases List.mem_append.mp hin with hext | hindex
      · exact extensionNames_names h hext
      · exact indexNames_names h hindex
    rw [hfind, absPath_inj hprobed hfound hsame]
  · intro hfind
    exact ⟨found, hfind, rfl⟩

/-- Two files of one directory. -/
def siblings (dir : List Bytes) (x y : Bytes) : BuildTree :=
  BuildTree.pair (dir ++ [x]) (dir ++ [y]) (by simp) (by simp)
    (fun h => h.eq_of_length (by simp)) (fun h => (h.eq_of_length (by simp)).symm)

theorem siblings_holds {root dir names : List Bytes} {x y : Bytes} :
    (siblings dir x y).holds root names = true ↔
      names = root ++ dir ++ [x] ∨ names = root ++ dir ++ [y] := by
  rw [siblings, pair_holds, List.append_assoc, List.append_assoc]

theorem siblings_find {root dir names : List Bytes} {x y : Bytes} {trail : Bool}
    {found : List Bytes}
    (h : (probedNames names trail).find? ((siblings dir x y).holds root) = some found) :
    found ∈ probedNames names trail ∧ (found = root ++ dir ++ [x] ∨ found = root ++ dir ++ [y]) :=
  ⟨List.mem_of_find?_eq_some h, siblings_holds.mp (List.find?_some h)⟩

/-- A lookup in a directory finds an index file if nothing else is there. -/
theorem find_index {p : List Bytes → Bool} {names : List Bytes} {trail : Bool} {x : Bytes}
    (hx : x = ascii "index.js" ∨ (x = ascii "index.ts" ∧ p (names ++ [ascii "index.js"]) = false))
    (hext : ∀ probed ∈ extensionNames names trail, p probed = false)
    (hp : p (names ++ [x]) = true) : (probedNames names trail).find? p = some (names ++ [x]) := by
  have hnone : (extensionNames names trail).find? p = none := by
    rw [List.find?_eq_none]
    intro probed hprobed
    rw [hext probed hprobed]
    exact Bool.false_ne_true
  rw [probedNames, List.find?_append, hnone, Option.none_or, indexNames, List.map_cons,
    List.find?_cons]
  rcases hx with rfl | ⟨rfl, hjs⟩
  · rw [hp]
  · rw [hjs, List.map_cons, List.find?_cons, hp]

theorem length_extensionNames {names probed : List Bytes} {trail : Bool}
    (h : probed ∈ extensionNames names trail) :
    ((trail = true ∨ names = []) ∧ ∃ ext ∈ extensions, probed = names ++ [ext]) ∨
      probed.length = names.length := by
  unfold extensionNames at h
  split at h
  · rename_i hdir
    obtain ⟨ext, hext, rfl⟩ := List.mem_map.mp h
    exact Or.inl ⟨by simpa using hdir, ext, hext, rfl⟩
  · rename_i hdir
    rw [Bool.not_eq_true, Bool.or_eq_false_iff] at hdir
    obtain ⟨ext, _, rfl⟩ := List.mem_map.mp h
    have hne : names ≠ [] := by simpa using hdir.2
    have hpos := List.length_pos_iff.mpr hne
    refine Or.inr ?_
    rw [List.length_append, List.length_dropLast, List.length_singleton]
    omega

/-- Beside index files nothing else is in the directory. -/
theorem siblings_no_extension {root dir : List Bytes} {x y : Bytes} {trail : Bool}
    (hx : x ∉ extensions) (hy : y ∉ extensions) :
    ∀ probed ∈ extensionNames (root ++ dir) trail, (siblings dir x y).holds root probed = false := by
  intro probed hprobed
  rw [Bool.eq_false_iff]
  intro hholds
  rw [siblings_holds] at hholds
  rcases length_extensionNames hprobed with ⟨_, ext, hext, rfl⟩ | hlen
  · rcases hholds with heq | heq
    · exact hx (List.singleton_inj.mp (List.append_cancel_left heq) ▸ hext)
    · exact hy (List.singleton_inj.mp (List.append_cancel_left heq) ▸ hext)
  · rcases hholds with rfl | rfl
    · simp at hlen
    · simp at hlen

theorem siblings_blank {dir : List Bytes} {x y : Bytes} :
    ∀ below content, (siblings dir x y).file below = some content → content = [] :=
  fun _ _ => pair_blank

/-- What holds of every name that `x` could be with an extension behind it. -/
theorem stem_cases {x name ext : Bytes} {P : Bytes → Prop} (hext : ext ∈ [] :: extensions)
    (h : x = name ++ ext)
    (hall : ∀ e ∈ [] :: extensions, x = x.take (x.length - e.length) ++ e →
      P (x.take (x.length - e.length))) : P name := by
  have hstem : name = x.take (x.length - ext.length) := by
    rw [h, List.length_append, Nat.add_sub_cancel, List.take_left]
  rw [hstem] at h ⊢
  exact hall ext hext h

/-- A tree in which a lookup at `root ++ dir` finds a file that no lookup at the other bases finds,
when at most one of them is a name in that directory. -/
theorem told_apart {root dir : List Bytes} {trail : Bool} (hnames : Names (root ++ dir))
    {others : List Bytes → Bool → Prop}
    (hothers : ∀ names trail', others names trail' → Names names ∧ names ≠ root ++ dir)
    (hone : ∀ x y, others (root ++ dir ++ [x]) false → others (root ++ dir ++ [y]) false → x = y) :
    ∃ (tree : BuildTree) (target : Bytes),
      (resolveFrom (tree.source root) (basePath (root ++ dir) trail)).target = some target ∧
        ∀ names trail', others names trail' →
          (resolveFrom (tree.source root) (basePath names trail')).target ≠ some target := by
  by_cases hjs : others (root ++ dir ++ [ascii "index.js"]) false
  · have hfound : Names (root ++ dir ++ [ascii "index.ts"]) := hnames.append (index_name (by decide))
    refine ⟨siblings dir (ascii "index.ts") (ascii "index.ts"),
      absPath (root ++ dir ++ [ascii "index.ts"]), ?_, ?_⟩
    · rw [blank_finds siblings_blank hnames hfound]
      apply find_index (Or.inr ⟨rfl, ?_⟩) (siblings_no_extension (by decide) (by decide))
      · exact siblings_holds.mpr (Or.inl rfl)
      · rw [Bool.eq_false_iff]
        intro hholds
        rw [siblings_holds] at hholds
        simp only [List.append_cancel_left_eq] at hholds
        revert hholds
        decide
    · intro names trail' hother
      obtain ⟨hother', hne⟩ := hothers names trail' hother
      rw [ne_eq, blank_finds siblings_blank hother' hfound]
      intro hfind
      rcases mem_probedNames hother' (siblings_find hfind).1 with
        ⟨hsame, _⟩ | ⟨rfl, name, ext, rfl, _, hext, hx⟩
      · exact hne hsame
      · have heq := hone _ _ hother hjs
        subst heq
        revert ext
        decide
  · have hfound : Names (root ++ dir ++ [ascii "index.js"]) := hnames.append (index_name (by decide))
    refine ⟨siblings dir (ascii "index.js") (ascii "index"),
      absPath (root ++ dir ++ [ascii "index.js"]), ?_, ?_⟩
    · rw [blank_finds siblings_blank hnames hfound]
      apply find_index (Or.inl rfl) (siblings_no_extension (by decide) (by decide))
      exact siblings_holds.mpr (Or.inl rfl)
    · intro names trail' hother
      obtain ⟨hother', hne⟩ := hothers names trail' hother
      rw [ne_eq, blank_finds siblings_blank hother' hfound]
      intro hfind
      rcases mem_probedNames hother' (siblings_find hfind).1 with
        ⟨hsame, _⟩ | ⟨rfl, name, ext, rfl, _, hext, hx⟩
      · exact hne hsame
      · have hindex : name = ascii "index.js" ∨ name = ascii "index" :=
          @stem_cases _ _ _ (fun n => n = ascii "index.js" ∨ n = ascii "index") hext hx (by decide)
        rcases hindex with rfl | rfl
        · exact hjs hother
        · -- the file of the bare name comes first
          have hfirst : (probedNames (root ++ dir ++ [ascii "index"]) false).find?
              ((siblings dir (ascii "index.js") (ascii "index")).holds root) =
                some (root ++ dir ++ [ascii "index"]) := by
            have hself : (siblings dir (ascii "index.js") (ascii "index")).holds root
                (root ++ dir ++ [ascii "index"]) = true := siblings_holds.mpr (Or.inr rfl)
            have hlist : extensionNames (root ++ dir ++ [ascii "index"]) false =
                (root ++ dir ++ [ascii "index"]) ::
                  extensions.map fun ext => root ++ dir ++ [ascii "index" ++ ext] := by
              simp [extensionNames]
            rw [probedNames, hlist, List.cons_append, List.find?_cons, hself]
          rw [hfirst] at hfind
          have hsame := List.append_cancel_left (Option.some.inj hfind)
          revert hsame
          decide

/-- A tree in which a lookup in the directory itself finds a file that no lookup without the
separator finds. -/
theorem directory_told_apart {root dir : List Bytes} (hnames : Names (root ++ dir))
    (hne : root ++ dir ≠ []) {others : List Bytes → Prop} (hothers : ∀ names, others names → Names names)
    (hone : ∀ x y, others (root ++ dir ++ [x]) → others (root ++ dir ++ [y]) → x = y) :
    ∃ (tree : BuildTree) (target : Bytes),
      (resolveFrom (tree.source root) (basePath (root ++ dir) true)).target = some target ∧
        ∀ names, others names →
          (resolveFrom (tree.source root) (basePath names false)).target ≠ some target := by
  -- one of two names that no other base has in the directory
  obtain ⟨ext, hext, hfresh⟩ : ∃ ext, (ext = ascii ".js" ∨ ext = ascii ".ts") ∧
      ¬ others (root ++ dir ++ [ext]) := by
    by_cases hjs : others (root ++ dir ++ [ascii ".js"])
    · refine ⟨ascii ".ts", Or.inr rfl, fun hts => ?_⟩
      have heq := hone _ _ hjs hts
      revert heq
      decide
    · exact ⟨ascii ".js", Or.inl rfl, hjs⟩
  have hin : ext ∈ extensions := by
    rcases hext with rfl | rfl
    · decide
    · decide
  have hfound : Names (root ++ dir ++ [ext]) :=
    hnames.append (@extension_name [] ext (by simp) hin)
  refine ⟨siblings dir ext ext, absPath (root ++ dir ++ [ext]), ?_, ?_⟩
  · rw [blank_finds siblings_blank hnames hfound]
    have hholds : ∀ name, (siblings dir ext ext).holds root (root ++ dir ++ [name]) =
        (name == ext) := by
      intro name
      rw [Bool.eq_iff_iff, siblings_holds, beq_iff_eq, List.append_cancel_left_eq]
      simp
    have hlist : extensionNames (root ++ dir) true =
        extensions.map fun e => root ++ dir ++ [e] := by
      simp [extensionNames]
    rw [probedNames, hlist, List.find?_append]
    have hfind : (extensions.map fun e => root ++ dir ++ [e]).find?
        ((siblings dir ext ext).holds root) = some (root ++ dir ++ [ext]) := by
      simp only [extensions, List.map_cons, List.find?_cons, hholds]
      rcases hext with rfl | rfl
      · rfl
      · rfl
    rw [hfind]
    rfl
  · intro names hother
    have hother' := hothers names hother
    rw [ne_eq, blank_finds siblings_blank hother' hfound]
    intro hfind
    rcases mem_probedNames hother' (siblings_find hfind).1 with
      ⟨hsame, hdir⟩ | ⟨_, name, e, rfl, hname, he, hx⟩
    · rcases hdir hin with hfalse | hnil
      · cases hfalse
      · rw [hsame] at hnil
        exact hne hnil
    · have hself : name = [] ∨ name = ext := by
        rcases hext with rfl | rfl
        · exact @stem_cases _ _ _ (fun n => n = [] ∨ n = ascii ".js") he hx (by decide)
        · exact @stem_cases _ _ _ (fun n => n = [] ∨ n = ascii ".ts") he hx (by decide)
      rw [hself.resolve_left hname] at hother
      exact hfresh hother

/-- A tree in which a lookup with the separator finds another file than one without. -/
theorem separator_told_apart {root dir : List Bytes} (hnames : Names (root ++ dir))
    (hne : root ++ dir ≠ []) :
    ∃ (tree : BuildTree) (target : Bytes),
      (resolveFrom (tree.source root) (basePath (root ++ dir) false)).target = some target ∧
        (resolveFrom (tree.source root) (basePath (root ++ dir) true)).target ≠ some target := by
  have hfound : Names (root ++ dir ++ [ascii "index.js"]) := hnames.append (index_name (by decide))
  refine ⟨siblings dir (ascii "index.js") (ascii ".js"),
    absPath (root ++ dir ++ [ascii "index.js"]), ?_, ?_⟩
  · rw [blank_finds siblings_blank hnames hfound]
    apply find_index (Or.inl rfl)
    · intro probed hprobed
      rw [Bool.eq_false_iff]
      intro hholds
      rw [siblings_holds] at hholds
      rcases length_extensionNames hprobed with ⟨hdir, _⟩ | hlen
      · rcases hdir with hfalse | hnil
        · cases hfalse
        · exact hne hnil
      · rcases hholds with rfl | rfl
        · simp at hlen
        · simp at hlen
    · exact siblings_holds.mpr (Or.inl rfl)
  · rw [ne_eq, blank_finds siblings_blank hnames hfound]
    intro hfind
    have hself : (siblings dir (ascii "index.js") (ascii ".js")).holds root
        (root ++ dir ++ [ascii ".js"]) = true := siblings_holds.mpr (Or.inr rfl)
    have hlist : extensionNames (root ++ dir) true =
        (root ++ dir ++ [ascii ".js"]) ::
          [ascii ".ts", ascii ".json"].map fun e => root ++ dir ++ [e] := by
      simp [extensionNames, extensions]
    rw [probedNames, hlist, List.cons_append, List.find?_cons, hself] at hfind
    have hsame := List.append_cancel_left (Option.some.inj hfind)
    revert hsame
    decide

end Miss

end HermesNode.Loader
