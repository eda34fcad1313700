/-
Module: HermesNode.Url.Sync
Purpose: A URL and its searchParams, along every run of operations on the object: the list is the one
  of the search as long as `href` is not assigned over a list that has been read, no undecodable
  search is assigned over one, and no unpaired surrogate is put into it.
Trusted boundary: none
Main exports: Careful, CarefulRun, searchParams_in_sync
-/
import HermesNode.Url.RoundTrip

namespace HermesNode.Url

/-! ### Lists that are parsed -/

theorem mem_intercalate {x c : UInt16} {pieces : List JsString} {piece : JsString}
    (hpiece : piece ∈ pieces) (hc : c ∈ piece) : c ∈ List.intercalate [x] pieces := by
  induction pieces with
  | nil => simp at hpiece
  | cons first pieces ih =>
      cases pieces with
      | nil =>
          rw [List.mem_singleton.mp hpiece] at hc
          simpa using hc
      | cons second pieces =>
          rw [List.intercalate_cons_cons, List.mem_append, List.mem_append]
          cases List.mem_cons.mp hpiece with
          | inl hfirst => exact Or.inl (Or.inl (hfirst ▸ hc))
          | inr hrest => exact Or.inr (ih hrest)

theorem splitOn_subset {s piece : JsString} {x : UInt16} (h : piece ∈ s.splitOn x) :
    ∀ c ∈ piece, c ∈ s := by
  intro c hc
  have hmem : c ∈ List.intercalate [x] (s.splitOn x) := mem_intercalate h hc
  rwa [List.intercalate_splitOn] at hmem

theorem plusToSpace_ascii {s : JsString} (h : ∀ c ∈ s, c.toNat < 0x80) :
    ∀ c ∈ plusToSpace s, c.toNat < 0x80 := by
  intro c hc
  obtain ⟨d, hd, heq⟩ := List.mem_map.mp hc
  rw [← heq]
  split
  · decide
  · exact h d hd

theorem parsePair_wellFormed {pair : JsString} {p : JsString × JsString}
    (hascii : ∀ c ∈ pair, c.toNat < 0x80) (h : parsePair pair = some p) :
    isWellFormed p.1 = true ∧ isWellFormed p.2 = true := by
  have hdecodes : ∀ {s decoded : JsString}, (∀ c ∈ s, c ∈ pair) →
      decodeURIComponent (plusToSpace s) = some decoded → isWellFormed decoded = true := by
    intro s decoded hs
    exact decodeURIComponent_wellFormed (plusToSpace_ascii fun c hc => hascii c (hs c hc))
  unfold parsePair at h
  split at h
  · simp only [Option.bind_eq_bind, Option.bind_eq_some_iff, Option.pure_def,
      Option.some.injEq] at h
    obtain ⟨key, hkey, value, hvalue, heq⟩ := h
    subst heq
    refine ⟨hdecodes (fun c hc => (List.takeWhile_sublist _).subset hc) hkey, ?_⟩
    refine hdecodes ?_ hvalue
    intro c hc
    exact (List.dropWhile_sublist _).subset (List.mem_of_mem_drop hc)
  · simp only [Option.bind_eq_bind, Option.bind_eq_some_iff, Option.pure_def,
      Option.some.injEq] at h
    obtain ⟨key, hkey, heq⟩ := h
    subst heq
    exact ⟨hdecodes (fun c hc => hc) hkey, rfl⟩

variable {list : Params}

theorem parsePairs_wellFormed {pairs : List JsString}
    (hascii : ∀ pair ∈ pairs, ∀ c ∈ pair, c.toNat < 0x80) (hlist : WellFormedParams list) :
    WellFormedParams (parsePairs list pairs).1 := by
  induction pairs generalizing list with
  | nil => exact hlist
  | cons pair pairs ih =>
      have hrest : ∀ p ∈ pairs, ∀ c ∈ p, c.toNat < 0x80 :=
        fun p hp => hascii p (List.mem_cons_of_mem _ hp)
      unfold parsePairs
      split
      · exact ih hrest hlist
      · split
        · exact hlist
        · rename_i p hp
          apply ih hrest
          intro q hq
          cases List.mem_append.mp hq with
          | inl hold => exact hlist q hold
          | inr hnew =>
              rw [List.mem_singleton.mp hnew]
              exact parsePair_wellFormed (hascii pair List.mem_cons_self) hp

theorem newURLSearchParams_wellFormed {search : JsString}
    (hascii : ∀ c ∈ search, c.toNat < 0x80) (h : newURLSearchParams search = some list) :
    WellFormedParams list := by
  have hparsed : ∀ qs : JsString, (∀ c ∈ qs, c.toNat < 0x80) →
      WellFormedParams (parseString [] qs).1 := by
    intro qs hqs
    unfold parseString
    split
    · simp [WellFormedParams]
    · apply parsePairs_wellFormed
      · intro pair hpair c hc
        exact hqs c (splitOn_subset hpair c hc)
      · simp [WellFormedParams]
  have hinit : ∀ c ∈ (if search.head? = some 63 then search.drop 1 else search),
      c.toNat < 0x80 := by
    intro c hc
    split at hc
    · exact hascii c (List.mem_of_mem_drop hc)
    · exact hascii c hc
  have hlist := hparsed _ hinit
  unfold newURLSearchParams at h
  split at h
  · rename_i parsed heq
    cases h
    rw [heq] at hlist
    exact hlist
  · cases h

/-! ### Operations -/

variable {ada : Ada}

/-- What an operation has to mind where it is applied. -/
def Careful (ada : Ada) (s : UrlState) : Op → Prop
  /- `href` is assigned before the list is read, or to a URL whose search has the list. -/
  | .assign .kHref value => ∀ list ctx, s.searchParams = some list →
      ada.update s.context.href .kHref value = some ctx → newURLSearchParams ctx.search = some list
  /- A search that is assigned over a list decodes. -/
  | .assign .kSearch value => s.searchParams.isSome = true →
      (newURLSearchParams (whatwgSearch s.context.special value)).isSome = true
  /- No unpaired surrogate is put into a list. -/
  | .append name value | .set name value => (readSearchParams s).isSome = true →
      isWellFormed name = true ∧ isWellFormed value = true
  | _ => True

/-- Every operation of the run minds it in the state it is applied to. -/
def CarefulRun (ada : Ada) : UrlState → List Op → Prop
  | _, [] => True
  | s, op :: ops => Careful ada s op ∧ CarefulRun ada (step ada s op).state ops

/-- The invariant of careful runs. -/
structure Inv (ada : Ada) (s : UrlState) : Prop where
  returned : ada.Returned s.context
  synced : readSearchParams s = newURLSearchParams s.context.search
  wellFormed : ∀ list, readSearchParams s = some list → WellFormedParams list

/-- An operation that keeps the invariant, and changes nothing if it throws. -/
structure Keeps (ada : Ada) (s : UrlState) (o : Outcome) : Prop where
  inv : Inv ada o.state
  threw : o.threw = true → o.state = s

variable {s : UrlState}

theorem Keeps.same (h : Inv ada s) (threw : Bool) : Keeps ada s ⟨s, threw⟩ :=
  ⟨h, fun _ => rfl⟩

/-- A URL whose list was parsed from its search. -/
theorem Inv.parsed (hada : ada.Whatwg) (hreturned : ada.Returned s.context)
    (hsynced : readSearchParams s = newURLSearchParams s.context.search) : Inv ada s where
  returned := hreturned
  synced := hsynced
  wellFormed := by
    intro list hlist
    rw [hsynced] at hlist
    exact newURLSearchParams_wellFormed (hada.ascii s.context hreturned) hlist

theorem Inv.setContext (hada : ada.Whatwg) {ctx : Context}
    (hreturned : ada.Returned ctx)
    (hlist : ∀ list, s.searchParams = some list → newURLSearchParams ctx.search = some list) :
    Inv ada { s with context := ctx } := by
  apply Inv.parsed hada hreturned
  unfold readSearchParams
  cases hparams : s.searchParams with
  | none => rfl
  | some list => exact (hlist list hparams).symm

theorem setHref_keeps (hada : ada.Whatwg) {value : JsString} (h : Inv ada s)
    (hcareful : Careful ada s (.assign .kHref value)) : Keeps ada s (setHref ada s value) := by
  unfold setHref
  cases hupdate : ada.update s.context.href .kHref value with
  | none => exact Keeps.same h true
  | some ctx =>
      refine ⟨?_, fun hthrew => by cases hthrew⟩
      apply Inv.setContext hada (.update h.returned hupdate)
      intro list hparams
      exact hcareful list ctx hparams hupdate

theorem setComponent_keeps (hada : ada.Whatwg) {action : UpdateAction}
    {value : JsString} (h : Inv ada s) (hsearch : action ≠ .kSearch) (hhref : action ≠ .kHref) :
    Keeps ada s (setComponent ada s action value) := by
  unfold setComponent
  cases hupdate : ada.update s.context.href action value with
  | none => exact Keeps.same h false
  | some ctx =>
      refine ⟨?_, fun hthrew => by cases hthrew⟩
      apply Inv.setContext hada (.update h.returned hupdate)
      intro list hparams
      have hsynced := h.synced
      rw [hada.keeps s.context ctx action value h.returned hsearch hhref hupdate, ← hsynced]
      simp [readSearchParams, hparams]

/-- A search is empty, or a question mark and a query. -/
theorem whatwgSearch_cases (special : Bool) (value : JsString) :
    whatwgSearch special value = [] ∨
      ∃ query, query ≠ [] ∧ whatwgSearch special value = 63 :: query := by
  have hcases : ∀ query : JsString, (if query.isEmpty then [] else 63 :: query) = [] ∨
      ∃ q, q ≠ [] ∧ (if query.isEmpty then [] else 63 :: query) = 63 :: q := by
    intro query
    cases query with
    | nil => exact Or.inl rfl
    | cons c query => exact Or.inr ⟨c :: query, by simp, rfl⟩
  exact hcases _

/-- The setter of `search` parses what a fresh URLSearchParams would. -/
theorem parsed_eq_fresh (special : Bool) (value : JsString) :
    let search := whatwgSearch special value
    let parsed := if 1 < search.length then parseString [] (search.drop 1) else ([], false)
    newURLSearchParams search = if parsed.2 then none else some parsed.1 := by
  simp only
  cases whatwgSearch_cases special value with
  | inl hnil =>
      rw [hnil]
      rfl
  | inr hquery =>
      obtain ⟨query, hne, hsearch⟩ := hquery
      have hlong : 1 < (63 :: query : JsString).length := by
        cases query with
        | nil => exact absurd rfl hne
        | cons c query => simp
      rw [hsearch, if_pos hlong]
      exact newURLSearchParams_eq (63 :: query)

theorem setSearch_keeps (hada : ada.Whatwg) {value : JsString} (h : Inv ada s)
    (hcareful : Careful ada s (.assign .kSearch value)) : Keeps ada s (setSearch ada s value) := by
  obtain ⟨ctx, hupdate, hsearch⟩ := hada.search s.context value h.returned
  have hreturned : ada.Returned ctx := .update h.returned hupdate
  unfold setSearch
  rw [hupdate]
  simp only
  cases hparams : s.searchParams with
  | none => exact ⟨Inv.parsed hada hreturned rfl, fun hthrew => by cases hthrew⟩
  | some list =>
      have hdecodes := hcareful (by rw [hparams]; rfl)
      have hfresh := parsed_eq_fresh s.context.special value
      simp only at hfresh ⊢
      rw [hsearch]
      generalize hparsed : (if 1 < (whatwgSearch s.context.special value).length then
        parseString [] ((whatwgSearch s.context.special value).drop 1)
        else ([], false)) = parsed at hfresh ⊢
      obtain ⟨fresh, threw⟩ := parsed
      cases threw with
      | true =>
          rw [hfresh] at hdecodes
          cases hdecodes
      | false =>
          refine ⟨?_, fun hthrew => by cases hthrew⟩
          apply Inv.parsed hada hreturned
          simp only [readSearchParams]
          rw [hsearch, hfresh]
          rfl

/-- A mutation that keeps lists well formed keeps the list and the search the same. -/
theorem mutate_keeps (hada : ada.Whatwg) {change : Params → Params} (h : Inv ada s)
    (hchange : ∀ list, readSearchParams s = some list → WellFormedParams (change list)) :
    Keeps ada s (mutate ada s change) := by
  unfold mutate
  cases hread : readSearchParams s with
  | none => exact Keeps.same h true
  | some list =>
      obtain ⟨t, htext, hround⟩ := params_round_trip s.context.special (hchange list hread)
      obtain ⟨ctx, hupdate, hsearch⟩ := hada.search s.context
        (if t.isEmpty then [] else 63 :: t) h.returned
      refine ⟨?_, ?_⟩
      · simp only [htext, setSearchFromParams, hupdate]
        apply Inv.parsed hada (.update h.returned hupdate)
        rw [hsearch, hround]
        rfl
      · intro hthrew
        simp only [htext] at hthrew
        cases hthrew

theorem append_wellFormed {name value : JsString} (hlist : WellFormedParams list)
    (hname : isWellFormed name = true) (hvalue : isWellFormed value = true) :
    WellFormedParams (appendPair name value list) := by
  intro pair hpair
  cases List.mem_append.mp hpair with
  | inl hold => exact hlist pair hold
  | inr hnew =>
      rw [List.mem_singleton.mp hnew]
      exact ⟨hname, hvalue⟩

theorem delete_wellFormed {name : JsString} {value : Option JsString}
    (hlist : WellFormedParams list) : WellFormedParams (deletePairs name value list) :=
  fun pair hpair => hlist pair (List.mem_filter.mp hpair).1

theorem sort_wellFormed (hlist : WellFormedParams list) :
    WellFormedParams (sortPairs list) :=
  fun pair hpair => hlist pair (List.mem_mergeSort.mp hpair)

theorem setLoop_wellFormed {name value : JsString} {found : Bool}
    (hlist : WellFormedParams list) (hvalue : isWellFormed value = true) :
    WellFormedParams (setLoop name value found list).1 := by
  induction list generalizing found with
  | nil => simp [setLoop, WellFormedParams]
  | cons pair list ih =>
      have hpair := hlist pair List.mem_cons_self
      have hrest : WellFormedParams list := fun p hp => hlist p (List.mem_cons_of_mem _ hp)
      unfold setLoop
      split
      · intro p hp
        cases List.mem_cons.mp hp with
        | inl hfirst =>
            rw [hfirst]
            exact hpair
        | inr hp => exact ih hrest p hp
      · split
        · intro p hp
          cases List.mem_cons.mp hp with
          | inl hfirst =>
              rw [hfirst]
              exact ⟨hpair.1, hvalue⟩
          | inr hp => exact ih hrest p hp
        · exact ih hrest

theorem set_wellFormed {name value : JsString} (hlist : WellFormedParams list)
    (hname : isWellFormed name = true) (hvalue : isWellFormed value = true) :
    WellFormedParams (setPair name value list) := by
  have hloop : WellFormedParams (setLoop name value false list).1 :=
    setLoop_wellFormed hlist hvalue
  unfold setPair
  simp only
  split
  · exact hloop
  · exact append_wellFormed hloop hname hvalue

theorem readSearchParams_keeps (h : Inv ada s) :
    Keeps ada s (step ada s .searchParams) := by
  simp only [step]
  cases hread : readSearchParams s with
  | none => exact Keeps.same h true
  | some list =>
      refine ⟨⟨h.returned, ?_, ?_⟩, fun hthrew => by cases hthrew⟩
      · rw [← h.synced, hread]
        rfl
      · intro list' hlist'
        exact h.wellFormed list' (hread.trans hlist')

/-- Every careful operation keeps the invariant, and changes nothing if it throws. -/
theorem step_keeps (hada : ada.Whatwg) {op : Op} (h : Inv ada s)
    (hcareful : Careful ada s op) : Keeps ada s (step ada s op) := by
  cases op with
  | assign action value =>
      cases action with
      | kHref => exact setHref_keeps hada h hcareful
      | kSearch => exact setSearch_keeps hada h hcareful
      | kProtocol => exact setComponent_keeps hada h (by decide) (by decide)
      | kHost => exact setComponent_keeps hada h (by decide) (by decide)
      | kHostname => exact setComponent_keeps hada h (by decide) (by decide)
      | kPort => exact setComponent_keeps hada h (by decide) (by decide)
      | kUsername => exact setComponent_keeps hada h (by decide) (by decide)
      | kPassword => exact setComponent_keeps hada h (by decide) (by decide)
      | kPathname => exact setComponent_keeps hada h (by decide) (by decide)
      | kHash => exact setComponent_keeps hada h (by decide) (by decide)
  | searchParams => exact readSearchParams_keeps h
  | append name value =>
      apply mutate_keeps hada h
      intro list hlist
      obtain ⟨hname, hvalue⟩ := hcareful (by rw [hlist]; rfl)
      exact append_wellFormed (h.wellFormed list hlist) hname hvalue
  | delete name value =>
      apply mutate_keeps hada h
      intro list hlist
      exact delete_wellFormed (h.wellFormed list hlist)
  | set name value =>
      apply mutate_keeps hada h
      intro list hlist
      obtain ⟨hname, hvalue⟩ := hcareful (by rw [hlist]; rfl)
      exact set_wellFormed (h.wellFormed list hlist) hname hvalue
  | sort =>
      apply mutate_keeps hada h
      intro list hlist
      exact sort_wellFormed (h.wellFormed list hlist)

/-! ### Runs -/

theorem newURL_inv (hada : ada.Whatwg) {input : JsString} {base : Option JsString}
    (h : newURL ada input base = some s) : Inv ada s := by
  obtain ⟨ctx, hparse, heq⟩ := Option.map_eq_some_iff.mp h
  subst heq
  exact Inv.parsed hada (.parse hparse) rfl

theorem CarefulRun.split {before : List Op} {op : Op} {after : List Op}
    (hada : ada.Whatwg) (h : CarefulRun ada s (before ++ op :: after)) (hinv : Inv ada s) :
    Inv ada (run ada s before) ∧ Careful ada (run ada s before) op := by
  induction before generalizing s with
  | nil => exact ⟨hinv, h.1⟩
  | cons first before ih => exact ih h.2 (step_keeps hada hinv h.1).inv

/-- A URL and its searchParams stay in sync. For every URL, every careful run on it and every
operation of the run: if it returns, the list of searchParams is the one that a fresh URLSearchParams
of the search has; if it throws, the href and the list are as before. -/
theorem searchParams_in_sync (hada : ada.Whatwg) {input : JsString} {base : Option JsString}
    {s : UrlState} (hnew : newURL ada input base = some s) {before : List Op} {op : Op}
    {after : List Op} (hrun : CarefulRun ada s (before ++ op :: after)) :
    let t := run ada s before
    let o := step ada t op
    (o.threw = false → readSearchParams o.state = newURLSearchParams o.state.context.search) ∧
    (o.threw = true → o.state.context.href = t.context.href ∧
      readSearchParams o.state = readSearchParams t) := by
  intro t o
  obtain ⟨hinv, hcareful⟩ := hrun.split hada (newURL_inv hada hnew)
  have hkeeps : Keeps ada t o := step_keeps hada hinv hcareful
  constructor
  · intro _
    exact hkeeps.inv.synced
  · intro hthrew
    rw [hkeeps.threw hthrew]
    exact ⟨rfl, rfl⟩

/-! ### One host -/

/-- The code units of an ASCII text. -/
def units (text : String) : JsString := text.toList.map fun c => UInt16.ofNat c.toNat

/-- The URL `http://h/` with a search. -/
def hostContext (search : JsString) : Context where
  href := units "http://h/" ++ search
  search_start := if search.isEmpty then kOmittedSigned else 9
  hash_start := kOmittedSigned
  scheme_type := 0

/-- The URLs of the host's root with a query and no fragment. -/
def hostParse (input : JsString) : Option Context :=
  let search := input.drop 9
  if (units "http://h/").isPrefixOf input && (search.isEmpty || search.head? == some 63) &&
      !input.contains 35 then
    some (hostContext (whatwgSearch true search))
  else none

/-- A binding that knows the root of one host; its other components cannot be set. -/
def hostAda : Ada where
  parse := fun input base => if base.isNone then hostParse input else none
  update := fun _ action value =>
    match action with
    | .kSearch => some (hostContext (whatwgSearch true value))
    | .kHref => hostParse value
    | _ => none

theorem hostParse_eq {input : JsString} {ctx : Context} (h : hostParse input = some ctx) :
    ∃ value, ctx = hostContext (whatwgSearch true value) := by
  unfold hostParse at h
  simp only at h
  split at h
  · cases h
    exact ⟨_, rfl⟩
  · cases h

theorem hostAda_returned {ctx : Context} (h : hostAda.Returned ctx) :
    ∃ value, ctx = hostContext (whatwgSearch true value) := by
  cases h with
  | parse h =>
      simp only [hostAda] at h
      split at h
      · exact hostParse_eq h
      · cases h
  | update before h =>
      simp only [hostAda] at h
      split at h
      · cases h
        exact ⟨_, rfl⟩
      · exact hostParse_eq h
      · cases h

theorem hostContext_long {search : JsString} (h : 1 < search.length) :
    (hostContext search).search = search := by
  have hne : search.isEmpty = false := by
    cases search with
    | nil => simp at h
    | cons c search => rfl
  have hlength : ((units "http://h/" ++ search).length : Int) = 9 + search.length := by
    simp [units]
    omega
  have hdrop : (units "http://h/" ++ search).drop (Int.toNat 9) = search := rfl
  have htake : (9 + (search.length : Int) - 9).toNat = search.length := by
    omega
  simp only [Context.search, hostContext, hne, kOmittedSigned, Bool.false_eq_true, if_false,
    if_true, hlength, hdrop, htake, List.take_length]
  rw [if_neg (by decide), if_neg (by omega)]

theorem hostContext_search (value : JsString) :
    (hostContext (whatwgSearch true value)).search = whatwgSearch true value := by
  cases whatwgSearch_cases true value with
  | inl hnil =>
      rw [hnil]
      rfl
  | inr hquery =>
      obtain ⟨query, hne, hsearch⟩ := hquery
      rw [hsearch]
      apply hostContext_long
      cases query with
      | nil => exact absurd rfl hne
      | cons c query => simp

theorem isFormUnit_ascii {c : UInt16} (h : isFormUnit c = true) : c.toNat < 0x80 := by
  have hlt : c.toNat < 127 := isQueryUnit_lt (by simp [isQueryUnit, h])
  omega

theorem whatwgSearch_ascii (special : Bool) (value : JsString) :
    ∀ c ∈ whatwgSearch special value, c.toNat < 0x80 := by
  have hpoint : ∀ input : JsString, ∀ cp ∈ (codePoints input).map (fun cp => cp.getD 0xFFFD),
      ∀ c ∈ queryPoint special cp, c.toNat < 0x80 := by
    intro input cp hcp c hc
    obtain ⟨point, hpoint, heq⟩ := List.mem_map.mp hcp
    have hscalar : IsScalar cp := by
      cases point with
      | none => exact Or.inr (by rw [← heq]; decide)
      | some cp' =>
          rw [← heq]
          exact codePoints_scalar hpoint
    unfold queryPoint at hc
    split at hc
    · exact isFormUnit_ascii (percentPoint_form hscalar c hc)
    · rename_i hplain
      have hlt : cp < 0x7F := by
        simp only [inQuerySet, Bool.or_eq_true, decide_eq_true_eq, not_or] at hplain
        omega
      rw [utf16Of, if_pos (by omega), List.mem_singleton] at hc
      rw [hc, UInt16.toNat_ofNat']
      omega
  have hquery : ∀ input query : JsString,
      query = (((codePoints input).map fun cp => cp.getD 0xFFFD).filter
        (!isTabOrNewline ·)).flatMap (queryPoint special) →
      ∀ c ∈ (if query.isEmpty then [] else 63 :: query), c.toNat < 0x80 := by
    intro input query hquery c hc
    split at hc
    · cases hc
    · cases List.mem_cons.mp hc with
      | inl hmark =>
          rw [hmark]
          decide
      | inr hc =>
          rw [hquery] at hc
          obtain ⟨cp, hcp, hunit⟩ := List.mem_flatMap.mp hc
          exact hpoint input cp (List.mem_filter.mp hcp).1 c hunit
  exact hquery _ _ rfl

theorem hostAda_whatwg : hostAda.Whatwg where
  ascii := by
    intro ctx hctx
    obtain ⟨value, heq⟩ := hostAda_returned hctx
    rw [heq, hostContext_search]
    exact whatwgSearch_ascii true value
  keeps := by
    intro ctx ctx' action value hctx hsearch hhref hupdate
    simp only [hostAda] at hupdate
    cases hupdate
  search := by
    intro ctx value hctx
    obtain ⟨before, heq⟩ := hostAda_returned hctx
    refine ⟨_, rfl, ?_⟩
    rw [hostContext_search, heq]
    rfl

/-- The object of `http://h/?a=1`. -/
def hostUrl : UrlState := { context := hostContext (units "?a=1"), searchParams := none }

/-- An operation on the object after its list was read. -/
def readThen (op : Op) : Outcome := step hostAda (run hostAda hostUrl [.searchParams]) op

/-- The list is not parsed again when `href` is assigned; an undecodable search and an unpaired
surrogate make an operation throw after it has changed the URL or the list. -/
theorem desynchronized :
    newURL hostAda (units "http://h/?a=1") none = some hostUrl ∧
    ((readThen (.assign .kHref (units "http://h/?b=2"))).threw = false ∧
      readSearchParams (readThen (.assign .kHref (units "http://h/?b=2"))).state ≠
        newURLSearchParams
          (readThen (.assign .kHref (units "http://h/?b=2"))).state.context.search) ∧
    ((readThen (.assign .kSearch (units "?%"))).threw = true ∧
      (readThen (.assign .kSearch (units "?%"))).state.context.href ≠
        (run hostAda hostUrl [.searchParams]).context.href) ∧
    ((readThen (.append [0xD800] [])).threw = true ∧
      readSearchParams (readThen (.append [0xD800] [])).state ≠
        readSearchParams (run hostAda hostUrl [.searchParams])) := by
  decide +kernel

/-- A search with an apostrophe is set through the list, and another one over it. -/
theorem apostrophe_in_sync :
    let t := run hostAda hostUrl [.set (units "a") (units "it's")]
    t.context.href = units "http://h/?a=it%27s" ∧
    readSearchParams (step hostAda t (.assign .kSearch (units "b+c"))).state =
      some [(units "b c", [])] := by
  intro t
  have hhref : t.context.href = units "http://h/?a=it%27s" := by decide +kernel
  have hrun : CarefulRun hostAda hostUrl
      ([.set (units "a") (units "it's")] ++ [.assign .kSearch (units "b+c")]) := by
    refine ⟨fun _ => by decide, fun _ => by decide +kernel, trivial⟩
  have hnew : newURL hostAda (units "http://h/?a=1") none = some hostUrl := by decide +kernel
  have hsync := searchParams_in_sync hostAda_whatwg hnew hrun
  have hthrew : (step hostAda t (.assign .kSearch (units "b+c"))).threw = false := by
    decide +kernel
  refine ⟨hhref, ?_⟩
  rw [hsync.1 hthrew]
  decide +kernel

end HermesNode.Url
