/-
Module: HermesNode.Loader.SuggestionFails
Purpose: Trees in which the printed `--include` value leads elsewhere than the missed request. Where the
  bases of the two lookups differ, the files are placed so that the lookups tell them apart: a file
  that only the request finds, or two files of which each lookup finds its own.
Trusted boundary: none
Main exports: Miss.both_found, Miss.agrees_of_works, Miss.works_iff
-/
import HermesNode.Loader.SuggestionWorks

namespace HermesNode.Loader

open HermesNode.Bundle Resolve

namespace Miss

variable {m : Miss}

/-! ### A file that only the request finds -/

theorem below_ne_nil (h : m.Hidden) : m.below ≠ [] := (value_bare h).2.2

/-- Where a `node_modules` has the value, it ends as the value does. -/
theorem hostedAt_snoc {host names : List Bytes} {x : Bytes} (h : m.Hidden)
    (heq : m.hostedAt host = names ++ [x]) : m.below.getLast? = some x := by
  have hlast := congrArg List.getLast? heq
  rw [List.getLast?_concat, hostedAt, List.getLast?_append_of_ne_nil _ (by simp),
    List.getLast?_cons_of_ne_nil (below_ne_nil h)] at hlast
  exact hlast

/-- A hidden value leads behind the entry's directory, so the request goes down some name. -/
theorem asked_ne_nil (h : m.Hidden) : m.asked ≠ [] := by
  rintro hnil
  rcases h with ⟨name, rest, hseen, _⟩
  have hdown : m.down = [] := by
    rw [asked, landing] at hnil
    exact (List.append_eq_nil_iff.mp hnil).2
  have hlen := congrArg List.length hseen
  rw [seen, landing, hdown, here] at hlen
  simp only [List.length_append, List.length_take, List.length_nil, List.length_cons] at hlen
  omega

/-- What a hidden value leads to is found in one of the `node_modules`. -/
theorem hosted_target {tree : BuildTree} {target : Bytes} (h : m.Hidden)
    (hfound : (resolveSpecifier (tree.source m.root) (m.fileOf m.entry)
      (joinSlash m.below)).target = some target) :
    ∃ host ∈ hosts (m.root ++ identityDir m.entry),
      (resolveFrom (tree.source m.root) (basePath (m.hostedAt host) false)).target =
        some target := by
  rw [resolve_bare h] at hfound
  exact List.exists_of_findSome?_eq_some hfound

/-- A request that ends as a directory can lead to a file that no bare value finds. -/
theorem Hidden.fails_of_directory (h : m.Hidden) (hroot : m.root <+: m.asked)
    (hdir : endsInDirectory m.request = true) : ¬ m.Works := by
  intro hworks
  rcases hroot with ⟨dir, hasked⟩
  have hnames : Names (m.root ++ dir) := by
    rw [hasked]
    exact asked_names
  have hne : m.root ++ dir ≠ [] := by
    rw [hasked]
    exact asked_ne_nil h
  rcases @directory_told_apart m.root dir hnames hne
    (fun names => ∃ host ∈ hosts (m.root ++ identityDir m.entry), names = m.hostedAt host)
    (by rintro names ⟨host, hhost, rfl⟩; exact hostedAt_names hhost)
    (by
      rintro x y ⟨host, _, hx⟩ ⟨host', _, hy⟩
      exact Option.some.inj ((hostedAt_snoc h hx.symm).symm.trans (hostedAt_snoc h hy.symm)))
    with ⟨tree, target, hfound, hothers⟩
  have hrequest : (resolveSpecifier (tree.source m.root) (m.fileOf m.importer) m.request).target =
      some target := by
    rw [resolve_request, hdir, ← hasked]
    exact hfound
  rcases hosted_target h (hworks tree target _ hrequest (value_bare h).1) with ⟨host, hin, hhost⟩
  exact hothers _ ⟨host, hin, rfl⟩ hhost

/-- A value that does not start with a dot-named name leads elsewhere if its way does. -/
theorem fails_of_way (hroot : m.root <+: m.asked) (hne : m.seen ≠ m.here) (hopen : ¬ m.Hidden)
    (hclimb : ¬ m.SameClimb) : ¬ m.Works := by
  intro hworks
  have haway := mt (way_leads_iff hroot).mp hclimb
  rcases hroot with ⟨dir, hasked⟩
  have hnames : Names (m.root ++ dir) := by
    rw [hasked]
    exact asked_names
  rcases resolve_relative hne hopen with ⟨v, hv, hresolve⟩
  have hway : Names (landing (m.root ++ identityDir m.entry) m.left.length m.below) :=
    landing_names (m.root_names.append (identityDir_names m.entry_valid)) below_names
  rcases @told_apart m.root dir (endsInDirectory m.request) hnames
    (fun names trail => names = landing (m.root ++ identityDir m.entry) m.left.length m.below ∧
      trail = decide (m.below = []))
    (by rintro names trail ⟨rfl, _⟩; exact ⟨hway, by rwa [hasked]⟩)
    (by
      rintro x y ⟨hx, _⟩ ⟨hy, _⟩
      simpa using hx.trans hy.symm)
    with ⟨tree, target, hfound, hothers⟩
  have hrequest : (resolveSpecifier (tree.source m.root) (m.fileOf m.importer) m.request).target =
      some target := by
    rw [resolve_request, ← hasked]
    exact hfound
  have hvalue := hworks tree target v hrequest hv
  rw [hresolve] at hvalue
  exact hothers _ _ ⟨rfl, rfl⟩ hvalue

/-- So it does if the value ends as a directory and the request does not, or the other way round. -/
theorem fails_of_trail (hroot : m.root <+: m.asked) (hne : m.seen ≠ m.here) (hopen : ¬ m.Hidden)
    (hclimb : m.SameClimb) (hsome : m.asked ≠ [])
    (htrail : ¬ (endsInDirectory m.request = true ↔ m.seen <+: m.here)) : ¬ m.Works := by
  intro hworks
  have hway := (way_leads_iff hroot).mpr hclimb
  rw [← trail_eq_iff] at htrail
  rcases hroot with ⟨dir, hasked⟩
  have hnames : Names (m.root ++ dir) := by
    rw [hasked]
    exact asked_names
  have hsome' : m.root ++ dir ≠ [] := by rwa [hasked]
  rcases resolve_relative hne hopen with ⟨v, hv, hresolve⟩
  have hlookup : ∀ (tree : BuildTree) (target : Bytes),
      (resolveFrom (tree.source m.root) (basePath (m.root ++ dir) (endsInDirectory m.request))).target =
        some target →
      (resolveFrom (tree.source m.root) (basePath (m.root ++ dir) (decide (m.below = [])))).target =
        some target := by
    intro tree target hfound
    rw [hasked] at hfound ⊢
    rw [← resolve_request] at hfound
    have hvalue := hworks tree target v hfound hv
    rwa [hresolve, hway] at hvalue
  cases hrequest : endsInDirectory m.request with
  | true =>
      have hfile : decide (m.below = []) = false := by
        rw [hrequest] at htrail
        exact Bool.eq_false_iff.mpr fun h => htrail h.symm
      rw [hrequest, hfile] at hlookup
      rcases @directory_told_apart m.root dir hnames hsome' (fun names => names = m.root ++ dir)
        (by rintro names rfl; exact hnames) (by intro x y hx; simp at hx)
        with ⟨tree, target, hfound, hothers⟩
      exact hothers _ rfl (hlookup tree target hfound)
  | false =>
      have hdir : decide (m.below = []) = true := by
        rw [hrequest] at htrail
        exact Bool.not_eq_false _ |>.mp fun h => htrail h.symm
      rw [hrequest, hdir] at hlookup
      rcases separator_told_apart hnames hsome' with ⟨tree, target, hfound, hother⟩
      exact hother (hlookup tree target hfound)

/-! ### A file for each lookup -/

/-- A tree in which lookups at two bases find two files, where the second base is deeper and no name
in the first. -/
theorem both_found {root dir dir' : List Bytes} (hnames : Names (root ++ dir))
    (hnames' : Names (root ++ dir')) (hne : root ++ dir ≠ []) (hlen : dir.length < dir'.length)
    (hbehind : ∀ x, dir' ≠ dir ++ [x]) :
    ∃ (tree : BuildTree) (target other : Bytes), target ≠ other ∧
      (resolveFrom (tree.source root) (basePath (root ++ dir) false)).target = some target ∧
      (resolveFrom (tree.source root) (basePath (root ++ dir') false)).target = some other := by
  -- an index file that the second base does not lie in
  obtain ⟨x, hx, hfresh⟩ : ∃ x, (x = ascii "index.js" ∨ x = ascii "index.ts") ∧
      ¬ dir ++ [x] <+: dir' := by
    by_cases hjs : dir ++ [ascii "index.js"] <+: dir'
    · refine ⟨ascii "index.ts", Or.inr rfl, fun hts => ?_⟩
      have hsame := (List.prefix_of_prefix_length_le hjs hts (by simp)).eq_of_length (by simp)
      have hnot : ascii "index.js" ≠ ascii "index.ts" := by decide
      exact hnot (List.singleton_inj.mp (List.append_cancel_left hsame))
    · exact ⟨ascii "index.js", Or.inl rfl, hjs⟩
  have hnot : ¬ dir' <+: dir ++ [x] := by
    intro hstarts
    have hle := hstarts.length_le
    rw [List.length_append, List.length_singleton] at hle
    refine hbehind x (hstarts.eq_of_length ?_)
    rw [List.length_append, List.length_singleton]
    omega
  have hne' : dir' ≠ [] := List.ne_nil_of_length_pos (by omega)
  let tree := BuildTree.pair (dir ++ [x]) dir' (by simp) hne' (fun h => absurd h hfresh)
    (fun h => absurd h hnot)
  have hblank : ∀ below content, tree.file below = some content → content = [] :=
    fun _ _ => pair_blank
  have hholds : ∀ names, tree.holds root names = true ↔
      names = root ++ (dir ++ [x]) ∨ names = root ++ dir' := fun _ => pair_holds
  have hfound : Names (root ++ (dir ++ [x])) := by
    rw [← List.append_assoc]
    refine hnames.append ?_
    rcases hx with rfl | rfl
    · exact index_name (by decide)
    · exact index_name (by decide)
  refine ⟨tree, absPath (root ++ (dir ++ [x])), absPath (root ++ dir'), ?_, ?_, ?_⟩
  · intro heq
    have hsame := List.append_cancel_left (absPath_inj hfound hnames' heq)
    exact hbehind x hsame.symm
  · rw [blank_finds hblank hnames hfound]
    have hindex := @find_index (tree.holds root) (root ++ dir) false x
    simp only [List.append_assoc] at hindex
    refine hindex ?_ ?_ ((hholds _).mpr (Or.inl rfl))
    · rcases hx with rfl | rfl
      · exact Or.inl rfl
      · refine Or.inr ⟨rfl, ?_⟩
        rw [Bool.eq_false_iff]
        intro hjs
        rw [hholds, List.append_cancel_left_eq, List.append_cancel_left_eq,
          List.append_cancel_left_eq] at hjs
        rcases hjs with hts | hsame
        · exact absurd hts (by decide)
        · exact hbehind _ hsame.symm
    · intro probed hprobed
      rw [Bool.eq_false_iff]
      intro hfile
      rw [hholds] at hfile
      rcases length_extensionNames hprobed with ⟨hdir, _⟩ | hshort
      · rcases hdir with hfalse | hnil
        · cases hfalse
        · exact hne hnil
      · rcases hfile with rfl | rfl
        · simp at hshort
        · rw [List.length_append, List.length_append] at hshort
          omega
  · rw [blank_finds hblank hnames' hnames']
    have hlist : extensionNames (root ++ dir') false =
        (root ++ dir') :: extensions.map fun ext => (root ++ dir').dropLast ++
          [(root ++ dir').getLast?.getD [] ++ ext] := by
      rcases List.eq_nil_or_concat' (root ++ dir') with hnil | ⟨front, name, hsnoc⟩
      · exact absurd (List.append_eq_nil_iff.mp hnil).2 hne'
      · rw [hsnoc]
        simp [extensionNames]
    rw [probedNames, hlist, List.cons_append, List.find?_cons, (hholds _).mpr (Or.inr rfl)]

/-- The first hit of a search comes before every other one. -/
theorem find_first {α : Type} {p : α → Bool} {R : α → α → Prop} {l : List α} {a b : α}
    (hsorted : l.Pairwise R) (hfind : l.find? p = some a) (hb : b ∈ l) (hp : p b = true) :
    a = b ∨ R a b := by
  induction l with
  | nil => cases hfind
  | cons x l ih =>
      rw [List.pairwise_cons] at hsorted
      rw [List.find?_cons] at hfind
      split at hfind
      · cases hfind
        rcases List.mem_cons.mp hb with rfl | hin
        · exact Or.inl rfl
        · exact Or.inr (hsorted.1 b hin)
      · rename_i hx
        rcases List.mem_cons.mp hb with rfl | hin
        · rw [hp] at hx
          cases hx
        · exact ih hsorted.2 hfind hin

/-- In two `node_modules` of one way up, a deeper host has the value elsewhere than right behind. -/
theorem hostedAt_not_behind {host deeper : List Bytes} {x : Bytes}
    (hin : host ∈ hosts (m.root ++ identityDir m.entry))
    (hin' : deeper ∈ hosts (m.root ++ identityDir m.entry)) :
    m.hostedAt deeper ≠ m.hostedAt host ++ [x] := by
  intro heq
  have hlen := congrArg List.length heq
  simp only [hostedAt, List.length_append, List.length_cons, List.length_nil] at hlen
  have hstarts : host <+: deeper :=
    List.prefix_of_prefix_length_le (mem_hosts hin).1 (mem_hosts hin').1 (by omega)
  rcases hstarts with ⟨tail, rfl⟩
  obtain ⟨c, rfl⟩ : ∃ c, tail = [c] := by
    rw [← List.length_eq_one_iff]
    rw [List.length_append] at hlen
    omega
  -- the name between the two would be that of a `node_modules`
  rw [hostedAt, hostedAt, List.append_assoc, List.append_assoc, List.append_cancel_left_eq] at heq
  have hc : c = ascii "node_modules" := (List.cons.inj heq).1
  refine (mem_hosts hin').2 ?_
  rw [hc, List.getLast?_concat]

/-- A bare value leads elsewhere unless the first `node_modules` that can have it does where the
request leads. -/
theorem Hidden.fails_of_host (h : m.Hidden) (hroot : m.root <+: m.asked)
    (hfile : endsInDirectory m.request = false) (hhosted : ¬ m.Hosted) : ¬ m.Works := by
  intro hworks
  rcases id hroot with ⟨dir, hasked⟩
  have hnames : Names (m.root ++ dir) := by
    rw [hasked]
    exact asked_names
  have hrequest : ∀ (tree : BuildTree) (target : Bytes),
      (resolveFrom (tree.source m.root) (basePath (m.root ++ dir) false)).target = some target →
      (resolveSpecifier (tree.source m.root) (m.fileOf m.entry) (joinSlash m.below)).target =
        some target := by
    intro tree target hfound
    refine hworks tree target _ ?_ (value_bare h).1
    rw [resolve_request, hfile, ← hasked]
    exact hfound
  by_cases hsome : ∃ host ∈ hosts (m.root ++ identityDir m.entry), m.hostedAt host = m.asked
  · rcases hsome with ⟨host, hin, hhost⟩
    have hstarts : m.root.isPrefixOf (m.hostedAt host) = true := by
      rw [hhost]
      exact List.isPrefixOf_iff_prefix.mpr hroot
    -- another `node_modules` below the root comes first
    cases hfind : (hosts (m.root ++ identityDir m.entry)).find? fun host =>
        m.root.isPrefixOf (m.hostedAt host) with
    | none =>
        rw [List.find?_eq_none] at hfind
        exact hfind host hin hstarts
    | some first =>
        have hin' := List.mem_of_find?_eq_some hfind
        have hstarts' : m.root.isPrefixOf (m.hostedAt first) = true := by
          have hhit := List.find?_some hfind
          exact hhit
        have hdeeper : host.length < first.length := by
          rcases find_first (hosts_deepest_first _) hfind hin hstarts with rfl | hlt
          · exact absurd (by rw [Hosted, hfind, Option.map_some, hhost]) hhosted
          · exact hlt
        rcases List.isPrefixOf_iff_prefix.mp hstarts' with ⟨dir', hfirst⟩
        have hnames' : Names (m.root ++ dir') := by
          rw [hfirst]
          exact hostedAt_names hin'
        have hlen : dir.length < dir'.length := by
          have hlong := congrArg List.length (hasked.trans hhost.symm)
          have hlong' := congrArg List.length hfirst
          simp only [hostedAt, List.length_append] at hlong hlong'
          omega
        have hbehind : ∀ x, dir' ≠ dir ++ [x] := by
          rintro x rfl
          rw [← List.append_assoc, hasked, ← hhost] at hfirst
          exact hostedAt_not_behind hin hin' hfirst.symm
        have hne : m.root ++ dir ≠ [] := by
          rw [hasked]
          exact asked_ne_nil h
        rcases both_found hnames hnames' hne hlen hbehind with
          ⟨tree, target, other, hdiffer, hfound, hother⟩
        have hvalue := hrequest tree target hfound
        rw [hfirst] at hother
        have hask : ∀ early ∈ hosts (m.root ++ identityDir m.entry),
            m.root.isPrefixOf (m.hostedAt early) = false →
            (resolveFrom (tree.source m.root) (basePath (m.hostedAt early) false)).target = none := by
          intro early hearly hout
          apply resolveFrom_elsewhere (hostedAt_names hearly)
          intro hpre
          rw [List.isPrefixOf_iff_prefix.mpr hpre] at hout
          cases hout
        rw [resolve_bare h] at hvalue
        have hfirstFound := findSome_of_find hfind hask hother
        exact hdiffer (Option.some.inj (hvalue.symm.trans hfirstFound))
  · rcases @told_apart m.root dir false hnames
      (fun names trail => trail = false ∧
        ∃ host ∈ hosts (m.root ++ identityDir m.entry), names = m.hostedAt host)
      (by
        rintro names trail ⟨_, host, hin, rfl⟩
        refine ⟨hostedAt_names hin, fun heq => hsome ⟨host, hin, ?_⟩⟩
        rw [heq, hasked])
      (by
        rintro x y ⟨_, host, _, hx⟩ ⟨_, host', _, hy⟩
        exact Option.some.inj ((hostedAt_snoc h hx.symm).symm.trans (hostedAt_snoc h hy.symm)))
      with ⟨tree, target, hfound, hothers⟩
    rcases hosted_target h (hrequest tree target hfound) with ⟨host, hin, hhost⟩
    exact hothers _ _ ⟨rfl, host, hin, rfl⟩ hhost

/-! ### When the value works -/

theorem agrees_of_works (h : m.Works) : m.Agrees := by
  by_cases hroot : m.root <+: m.asked
  · by_cases hne : m.seen = m.here
    · exact Or.inr (Or.inl hne)
    · by_cases hhidden : m.Hidden
      · refine Or.inr (Or.inr (Or.inl ⟨hhidden, ?_, ?_⟩))
        · rw [Bool.eq_false_iff]
          exact fun hdir => hhidden.fails_of_directory hroot hdir h
        · by_contra hhosted
          by_cases hdir : endsInDirectory m.request = true
          · exact hhidden.fails_of_directory hroot hdir h
          · exact hhidden.fails_of_host hroot (Bool.eq_false_iff.mpr hdir) hhosted h
      · have hclimb : m.SameClimb := by
          by_contra hclimb
          exact fails_of_way hroot hne hhidden hclimb h
        refine Or.inr (Or.inr (Or.inr ⟨hhidden, hclimb, ?_⟩))
        by_cases hsome : m.asked = []
        · exact Or.inl hsome
        · right
          by_contra htrail
          exact fails_of_trail hroot hne hhidden hclimb hsome htrail h
  · exact Or.inl hroot

/-- The printed value works in every tree if and only if it is looked up where the request is. -/
theorem works_iff (m : Miss) : m.Works ↔ m.Agrees := ⟨agrees_of_works, Agrees.works⟩

/-- A module in `/app` asks for `./.cfg/x`. -/
def dotRequest : Miss where
  root := [ascii "app"]
  cwd := [ascii "app"]
  entry := ascii "main.js"
  importer := ascii "main.js"
  request := ascii "./.cfg/x"
  root_names := by decide
  cwd_names := by decide
  entry_valid := by decide
  importer_valid := by decide
  request_relative := by decide

/-- The value `.cfg/x` is printed, and looked up as a package. -/
theorem dotRequest_fails : dotRequest.value = some (ascii ".cfg/x") ∧ ¬ dotRequest.Works := by
  refine ⟨by decide, fun hworks => ?_⟩
  have hfound := hworks (siblings [ascii ".cfg"] (ascii "x.js") (ascii "x.js"))
    (ascii "/app/.cfg/x.js") (ascii ".cfg/x") (by decide +kernel) (by decide)
  exact absurd hfound (by decide +kernel)

end Miss

end HermesNode.Loader
