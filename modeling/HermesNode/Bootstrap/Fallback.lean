/-
Module: HermesNode.Bootstrap.Fallback
Purpose: The `Module._load` that `__initCJS` puts around Node's own. Node's may run the module it
  found, whose code calls the wrapper again, so a run is a sequence of events over one stack of
  public loads and fallbacks, beside the loader the fallback uses. Kept beside it is what the wrapper
  cannot see: whether what was thrown came from the request or from a module that was found. The
  wrapper stands aside exactly when no step meets a value it cannot read, a not-found error of a
  found module that it can answer, or a fallback that fails.
Trusted boundary: human-reviewed spec (transcribed from `libjs/loader.js`; what Node's
  `Module._load` does for a request, parent and `isMain` is part of the event)
Main exports: Thrown, catchClause, fallback_transparent_iff
-/
import HermesNode.Bootstrap.Loader

namespace HermesNode.Bootstrap.Fallback

open Resolve (stripNodeScheme)

/-! ### Thrown values -/

/-- A JavaScript value that is thrown, as far as reading its `code` tells. -/
inductive Thrown where
  | undefined
  | null
  /-- The engine's own, for a property of `undefined` or `null`. -/
  | typeError
  | value (id : Nat) (code : Option JsString)
  /-- `code` is a getter that throws something else, or the object itself. -/
  | getter (id : Nat) (throws : Thrown)
  | selfGetter (id : Nat)
deriving DecidableEq, Repr

/-- `e.code`. -/
def Thrown.code : Thrown → Except Thrown (Option JsString)
  | .undefined | .null => .error .typeError
  | .typeError => .ok none
  | .value _ code => .ok code
  | .getter _ throws => .error throws
  | .selfGetter id => .error (.selfGetter id)

def moduleNotFound : JsString := ascii "MODULE_NOT_FOUND"

/-! ### The wrapper -/

/-- Where an exception came from, which the wrapper is not told. -/
inductive Origin where
  /-- The request could not be resolved. -/
  | unresolved
  /-- A module was found, and it or what it required failed. -/
  | found
deriving DecidableEq, Repr

/-- What the wrapper does about an exception. -/
inductive Decision where
  | rethrown (e : Thrown)
  /-- It returns the exports of a module that is there. -/
  | served (source : Source) (exports : Nat)
  /-- It runs the function of a module, for its exports. -/
  | loading (source : Source)
  /-- Its own load throws. -/
  | failed (error : LoadError)
deriving DecidableEq, Repr

/-- What the last entry of the log says that the fallback did. -/
def Decision.ofEntry (e : Thrown) : LogEntry → Decision
  | .answered source exports => .served source exports
  | .started source _ _ => .loading source
  | .failed (.notFound _) | .completed _ | .threw _ | .assigned _ _ => .rethrown e
  | .failed error => .failed error

/-- The `catch` clause, with the loader behind it. -/
def catchClause (h : Host) (boot : State) (request : JsString) (e : Thrown) : Decision × State :=
  match e.code with
  | .error e' => (.rethrown e', boot)
  | .ok code =>
      if code = some moduleNotFound then
        let boot' := loadFallback h boot request
        match boot'.log.head? with
        | some entry => (.ofEntry e entry, boot')
        | none => (.rethrown e, boot')
      else (.rethrown e, boot)

/-! ### States -/

inductive Pending where
  /-- Node's own `_load` runs the module it found, above so many loads of the bootstrap loader. -/
  | load (request : JsString) (depth : Nat)
  /-- The wrapper runs a module in place of `thrown`. -/
  | fallback (thrown : Thrown) (depth : Nat)

def Pending.depth : Pending → Nat
  | .load _ depth | .fallback _ depth => depth

/-- An exception that reached the wrapper. -/
structure Caught where
  request : JsString
  origin : Origin
  thrown : Thrown
  decision : Decision
deriving DecidableEq, Repr

structure Loads where
  boot : State
  stack : List Pending
  caught : List Caught
  /-- What was thrown at first, and what the module run in its place threw, if it did. -/
  finished : List (Thrown × Option Thrown)

def Loads.init : Loads where
  boot := Bootstrap.init
  stack := []
  caught := []
  finished := []

def Loads.catch (h : Host) (s : Loads) (origin : Origin) (request : JsString) (e : Thrown) :
    Loads :=
  let clause := catchClause h s.boot request e
  { s with
    boot := clause.2
    stack := match clause.1 with
      | .loading _ => .fallback e s.boot.stack.length :: s.stack
      | .rethrown _ | .served _ _ | .failed _ => s.stack
    caught := ⟨request, origin, e, clause.1⟩ :: s.caught }

/-! ### Steps -/

/-- What Node's `Module._load` comes to. -/
inductive Orig where
  /-- A module that is there already, or a builtin. -/
  | answers
  | unresolved (e : Thrown)
  /-- The module cannot be read or compiled. -/
  | broken (e : Thrown)
  | runs

inductive Event where
  /-- Some code calls `Module._load`. -/
  | load (request : JsString) (orig : Orig)
  /-- The function of the module on top returns or throws. -/
  | returns
  | throws (e : Thrown)
  /-- The same for the bootstrap loader. -/
  | bootReturns
  | bootThrows (e : Thrown)
  /-- Anything else that the bootstrap loader is asked for. -/
  | boot (event : Bootstrap.Event)

/-- How deep the bootstrap loader was when the top of the stack began. -/
def depthOf (stack : List Pending) : Nat := (stack.head?.map Pending.depth).getD 0

/-- A module function of the bootstrap loader is over, perhaps one that a fallback waits for. -/
def Loads.leave (s : Loads) (boot : State) (threw : Option Thrown) : Loads :=
  match s.stack with
  | .fallback e depth :: rest =>
      if boot.stack.length = depth then
        { s with boot, stack := rest, finished := (e, threw) :: s.finished }
      else { s with boot }
  | _ => { s with boot }

def Event.isOrdinary : Bootstrap.Event → Bool
  | .bodyReturns | .bodyThrows | .loadFallback _ => false
  | _ => true

def step (h : Host) (s : Loads) : Event → Option Loads
  | .load _ .answers => some s
  | .load request (.unresolved e) => some (s.catch h .unresolved request e)
  | .load request (.broken e) => some (s.catch h .found request e)
  | .load request .runs =>
      some { s with stack := .load request s.boot.stack.length :: s.stack }
  | .returns =>
      match s.stack with
      | .load _ depth :: rest =>
          if s.boot.stack.length = depth then some { s with stack := rest } else none
      | _ => none
  | .throws e =>
      match s.stack with
      | .load request depth :: rest =>
          if s.boot.stack.length = depth then
            some ({ s with stack := rest }.catch h .found request e)
          else none
      | _ => none
  | .bootReturns =>
      if depthOf s.stack < s.boot.stack.length then
        (Bootstrap.step h s.boot .bodyReturns).map fun boot => s.leave boot none
      else none
  | .bootThrows e =>
      if depthOf s.stack < s.boot.stack.length then
        (Bootstrap.step h s.boot .bodyThrows).map fun boot => s.leave boot (some e)
      else none
  | .boot event =>
      if Event.isOrdinary event then
        (Bootstrap.step h s.boot event).map fun boot => { s with boot }
      else none

/-! ### Standing aside -/

def Source.isEmbedded : Source → Bool
  | .embedded _ => true
  | .file _ => false

/-- The very same value goes on, or the request, which was not resolved, gets an embedded module. -/
def Caught.Transparent (c : Caught) : Prop :=
  match c.decision with
  | .rethrown e => e = c.thrown
  | .served source _ | .loading source => c.origin = .unresolved ∧ Source.isEmbedded source = true
  | .failed _ => False

/-- What was run in place of an exception returned, or threw the same. -/
def Stands (finished : Thrown × Option Thrown) : Prop :=
  ∀ e, finished.2 = some e → e = finished.1

structure Transparent (s : Loads) : Prop where
  caught : ∀ c ∈ s.caught, c.Transparent
  finished : ∀ f ∈ s.finished, Stands f

/-! ### The condition -/

/-- The bootstrap loader knows the request. -/
def Known (h : Host) (boot : State) (request : JsString) : Prop :=
  (boot.cache request).isSome = true ∨ (h.loadBytecodeModule request).isSome = true ∨
    (h.vendoredPackage request).isSome = true ∨ objectPrototype.contains request = true

/-- `requireModule` finds an embedded module under a name without its scheme. -/
def Requirable (h : Host) (boot : State) (bareName : JsString) : Prop :=
  Source.isEmbedded (h.named bareName) = true ∧
    ((boot.cache bareName).isSome = true ∨ (h.vendoredPackage bareName).isSome = true ∨
      objectPrototype.contains bareName = false)

/-- It has an embedded module for it. -/
def HasEmbedded (h : Host) (boot : State) (request : JsString) : Prop :=
  if (boot.cache request).isSome then Source.isEmbedded (h.named request) = true
  else Requirable h boot (stripNodeScheme request)

/-- The `code` of what was thrown can be read, and if it says that a module was not found, then the
bootstrap loader does not know the request, or the request was the one not found and there is an
embedded module for it. -/
def CatchSafe (h : Host) (boot : State) (origin : Origin) (request : JsString) (e : Thrown) :
    Prop :=
  match e.code with
  | .error e' => e' = e
  | .ok code => code = some moduleNotFound →
      Known h boot request → origin = .unresolved ∧ HasEmbedded h boot request

def Careful (h : Host) (s : Loads) : Event → Prop
  | .load request (.unresolved e) => CatchSafe h s.boot .unresolved request e
  | .load request (.broken e) => CatchSafe h s.boot .found request e
  | .load _ .answers | .load _ .runs | .returns | .bootReturns | .boot _ => True
  | .throws e =>
      match s.stack with
      | .load request _ :: _ => CatchSafe h s.boot .found request e
      | _ => True
  | .bootThrows e =>
      match s.stack with
      | .fallback thrown depth :: _ => s.boot.stack.length = depth + 1 → e = thrown
      | _ => True

/-! ### What the fallback decides -/

/-- The wrapper does something else than to throw on. -/
def Decision.answers : Decision → Bool
  | .rethrown _ => false
  | .served _ _ | .loading _ | .failed _ => true

def Decision.isEmbedded : Decision → Bool
  | .served source _ | .loading source => Source.isEmbedded source
  | .rethrown _ | .failed _ => false

theorem transparent_of_answers {c : Caught} (h : c.decision.answers = true) :
    c.Transparent ↔ c.origin = .unresolved ∧ c.decision.isEmbedded = true := by
  rcases c with ⟨request, origin, thrown, decision⟩
  cases decision with
  | rethrown e => cases h
  | served source exports => exact Iff.rfl
  | loading source => exact Iff.rfl
  | failed error => exact ⟨False.elim, fun ⟨_, h⟩ => by cases h⟩

/-- A load that has to find or fail: its last entry, and whether that is an embedded module. -/
def Answers (log : List LogEntry) (isEmbedded : Prop) : Prop :=
  ∃ entry, log.head? = some entry ∧ ∀ e, (Decision.ofEntry e entry).answers = true ∧
    ((Decision.ofEntry e entry).isEmbedded = true ↔ isEmbedded)

variable {h : Host} {s : State}

theorem loadModule_answers (id : JsString) (bareName compiling : Option JsString) :
    Answers (loadModule h s id bareName compiling).log
      (Source.isEmbedded (h.sourceOf id) = true) := by
  rw [loadModule, compiledFn, Host.sourceOf]
  cases hid : h.loadBytecodeModule id with
  | some m => exact ⟨_, rfl, fun e => ⟨rfl, Iff.rfl⟩⟩
  | none =>
      by_cases hclosed : s.diskLoadingClosed = true
      · rw [if_pos hclosed]
        exact ⟨_, rfl, fun e => ⟨rfl, Iff.rfl⟩⟩
      · rw [if_neg hclosed]
        cases hdisk : s.disk id with
        | none => exact ⟨_, rfl, fun e => ⟨rfl, Iff.rfl⟩⟩
        | some source =>
            by_cases hcompiled :
                h.compileAndRun (wrap (stripShebang source) id) id (isTS id) = true
            · simp only [hcompiled, if_true]
              exact ⟨_, rfl, fun e => ⟨rfl, Iff.rfl⟩⟩
            · simp only [hcompiled]
              exact ⟨_, rfl, fun e => ⟨rfl, Iff.rfl⟩⟩

theorem Answers.and {log : List LogEntry} {p q : Prop} (h : Answers log p) (hq : q) :
    Answers log (p ∧ q) := by
  rcases h with ⟨entry, hentry, hall⟩
  exact ⟨entry, hentry, fun e => ⟨(hall e).1, (hall e).2.trans (and_iff_left hq).symm⟩⟩

theorem requireModule_answers (name : JsString) :
    Answers (requireModule h s name none).log (Requirable h s (stripNodeScheme name)) := by
  unfold requireModule Requirable
  generalize stripNodeScheme name = bareName
  have hnamed : h.named bareName = h.sourceOf ((h.vendoredPackage bareName).getD bareName) := rfl
  cases hcache : s.cache bareName with
  | some record =>
      simp only [hcache]
      refine Answers.and ?_ (.inl rfl)
      exact ⟨.answered (h.named bareName) _, rfl, fun e => ⟨rfl, Iff.rfl⟩⟩
  | none =>
      rw [hnamed]
      cases hvendored : h.vendoredPackage bareName with
      | some vendoredId =>
          simp only [hcache, hvendored]
          exact Answers.and (loadModule_answers _ _ _) (.inr (.inl rfl))
      | none =>
          by_cases hproto : objectPrototype.contains bareName = true
          · simp only [hcache, hvendored, hproto, if_true]
            refine ⟨.failed .notAString, rfl, fun e => ⟨rfl, ?_⟩⟩
            simp [Decision.ofEntry, Decision.isEmbedded]
          · simp only [hcache, hvendored, hproto]
            exact Answers.and (loadModule_answers _ _ _) (.inr (.inr (by simp)))

theorem loadFallback_unknown {request : JsString} (hunknown : ¬Known h s request) :
    (loadFallback h s request).log.head? = some (.failed (.notFound request)) := by
  rw [Known, not_or, not_or, not_or] at hunknown
  rcases hunknown with ⟨hcache, hbytecode, hvendored, hproto⟩
  have hnone : s.cache request = none := by simpa using hcache
  simp only [Bool.not_eq_true] at hbytecode hvendored hproto
  simp only [loadFallback, hnone, hbytecode, hvendored, hproto]
  rfl

/-- What it knows is answered, with an embedded module if it has one. -/
theorem loadFallback_answers {request : JsString} (hknown : Known h s request) :
    Answers (loadFallback h s request).log (HasEmbedded h s request) := by
  unfold HasEmbedded
  cases hcache : s.cache request with
  | some record =>
      simp only [loadFallback, hcache]
      exact ⟨.answered (h.named request) _, rfl, fun e => ⟨rfl, Iff.rfl⟩⟩
  | none =>
      have hrest : ((h.loadBytecodeModule request).isSome || (h.vendoredPackage request).isSome ||
          objectPrototype.contains request) = true := by
        rw [Known, hcache] at hknown
        simpa [or_assoc] using hknown
      simp only [loadFallback, hcache, hrest]
      exact requireModule_answers request

theorem catchClause_transparent {origin : Origin} {request : JsString} {e : Thrown} :
    (Caught.mk request origin e (catchClause h s request e).1).Transparent ↔
      CatchSafe h s origin request e := by
  unfold catchClause CatchSafe
  cases hcode : e.code with
  | error e' => exact Iff.rfl
  | ok code =>
      by_cases hmissing : code = some moduleNotFound
      · simp only [hmissing, if_true, true_imp_iff]
        by_cases hknown : Known h s request
        · rcases loadFallback_answers hknown with ⟨entry, hentry, hall⟩
          simp only [hentry]
          rw [transparent_of_answers (hall e).1, (hall e).2]
          exact ⟨fun h _ => h, fun h => h hknown⟩
        · rw [loadFallback_unknown hknown]
          exact ⟨fun _ h => absurd h hknown, fun _ => rfl⟩
      · simp only [hmissing, if_false]
        exact ⟨fun _ h => h.elim, fun _ => rfl⟩

/-! ### Runs -/

variable {l l' : Loads} {event : Event}

theorem Transparent.init : Transparent Loads.init where
  caught c hc := by cases hc
  finished f hf := by cases hf

/-- Only what was caught and what was finished matters. -/
theorem transparent_moved (l : Loads) (boot : State) (stack : List Pending) :
    Transparent { l with boot, stack } ↔ Transparent l :=
  ⟨fun ⟨hc, hf⟩ => ⟨hc, hf⟩, fun ⟨hc, hf⟩ => ⟨hc, hf⟩⟩

theorem catch_transparent (l : Loads) (origin : Origin) (request : JsString) (e : Thrown) :
    Transparent (l.catch h origin request e) ↔
      Transparent l ∧ CatchSafe h l.boot origin request e := by
  rw [← catchClause_transparent]
  constructor
  · intro ⟨hc, hf⟩
    exact ⟨⟨fun c hmem => hc c (List.mem_cons_of_mem _ hmem), hf⟩, hc _ List.mem_cons_self⟩
  · intro ⟨⟨hc, hf⟩, hnew⟩
    refine ⟨fun c hmem => ?_, hf⟩
    rcases List.mem_cons.1 hmem with rfl | hmem
    · exact hnew
    · exact hc c hmem

/-- A module function is over: nothing else is finished than a fallback on top that waited for it. -/
theorem leave_transparent (l : Loads) (boot : State) (threw : Option Thrown) :
    Transparent (l.leave boot threw) ↔ Transparent l ∧
      ∀ e depth rest, l.stack = .fallback e depth :: rest → boot.stack.length = depth →
        Stands (e, threw) := by
  unfold Loads.leave
  split
  · rename_i e depth rest hstack
    split
    · rename_i hdepth
      constructor
      · intro ⟨hc, hf⟩
        refine ⟨⟨hc, fun f hmem => hf f (List.mem_cons_of_mem _ hmem)⟩, ?_⟩
        intro e' depth' rest' hstack' _
        cases hstack.symm.trans hstack'
        exact hf _ List.mem_cons_self
      · intro ⟨⟨hc, hf⟩, hnew⟩
        refine ⟨hc, fun f hmem => ?_⟩
        rcases List.mem_cons.1 hmem with rfl | hmem
        · exact hnew e depth rest hstack hdepth
        · exact hf f hmem
    · rename_i hdepth
      refine (transparent_moved l _ _).trans (and_iff_left ?_).symm
      intro e' depth' rest' hstack' hdepth'
      cases hstack.symm.trans hstack'
      exact absurd hdepth' hdepth
  · rename_i hstack
    refine (transparent_moved l _ _).trans (and_iff_left ?_).symm
    intro e' depth' rest' hstack' _
    exact absurd hstack' (hstack e' depth' rest')

/-- When the innermost function ends, the stack of the bootstrap loader is one shorter. -/
theorem bootStep_length {boot boot' : State} {ev : Bootstrap.Event}
    (hev : ev = .bodyReturns ∨ ev = .bodyThrows) (ht : Bootstrap.step h boot ev = some boot') :
    boot'.stack.length + 1 = boot.stack.length := by
  rcases hev with rfl | rfl
  · simp only [Bootstrap.step] at ht
    split at ht
    · cases ht
    · rename_i frame rest hstack
      cases ht
      rw [hstack]
      rfl
  · simp only [Bootstrap.step] at ht
    split at ht
    · cases ht
    · rename_i frame rest hstack
      cases ht
      rw [hstack]
      rfl

theorem step_transparent (ht : step h l event = some l') :
    Transparent l' ↔ Transparent l ∧ Careful h l event := by
  cases event with
  | load request orig =>
      cases orig with
      | answers =>
          cases ht
          exact (and_iff_left trivial).symm
      | unresolved e =>
          cases ht
          exact catch_transparent l .unresolved request e
      | broken e =>
          cases ht
          exact catch_transparent l .found request e
      | runs =>
          cases ht
          exact (transparent_moved l _ _).trans (and_iff_left trivial).symm
  | returns =>
      simp only [step] at ht
      split at ht
      · split at ht
        · cases ht
          exact (transparent_moved l _ _).trans (and_iff_left trivial).symm
        · cases ht
      · cases ht
  | throws e =>
      simp only [step] at ht
      split at ht
      · rename_i request depth rest hstack
        split at ht
        · cases ht
          simp only [Careful, hstack]
          rw [catch_transparent]
          exact and_congr_left fun _ => transparent_moved l _ _
        · cases ht
      · cases ht
  | bootReturns =>
      simp only [step] at ht
      split at ht
      · rcases Option.map_eq_some_iff.1 ht with ⟨boot, _, rfl⟩
        rw [leave_transparent]
        refine and_congr_right fun _ => iff_of_true ?_ trivial
        intro e depth rest _ _ e' he'
        cases he'
      · cases ht
  | bootThrows e =>
      simp only [step] at ht
      split at ht
      · rcases Option.map_eq_some_iff.1 ht with ⟨boot, hboot, rfl⟩
        have hlength := bootStep_length (.inr rfl) hboot
        rw [leave_transparent]
        refine and_congr_right fun _ => ?_
        simp only [Careful]
        split
        · rename_i thrown depth rest hstack
          constructor
          · intro hstands hdepth
            exact hstands thrown depth rest hstack (by omega) e rfl
          · intro hsame e' depth' rest' hstack' hdepth' e'' he''
            cases hstack.symm.trans hstack'
            cases he''
            exact hsame (by omega)
        · rename_i hstack
          refine iff_of_true ?_ trivial
          intro e' depth' rest' hstack' _
          exact absurd hstack' (hstack e' depth' rest')
      · cases ht
  | boot event =>
      simp only [step] at ht
      split at ht
      · rcases Option.map_eq_some_iff.1 ht with ⟨boot, _, rfl⟩
        exact (transparent_moved l _ _).trans (and_iff_left trivial).symm
      · cases ht

/-- The wrapper stands aside in a run exactly when every step of it meets the condition. -/
theorem fallback_transparent_iff {events : List Event} {s : Loads}
    (run : runEvents (step h) Loads.init events = some s) :
    Transparent s ↔ AllowedAlong (step h) (Careful h) Loads.init events := by
  have hiff := runEvents_iff_allowed (fun _ _ _ ht => step_transparent (h := h) ht) run
  exact hiff.trans (and_iff_right Transparent.init)

/-! ### Examples -/

/-- A binary with one vendored package. -/
def wsHost : Host where
  moduleIds := [ascii "vendored/ws/index"]
  packages := [⟨ascii "ws", ascii "index", ws_component⟩]
  vendoredModuleIds := [ascii "vendored/ws/index"]
  idBuf := id
  compileAndRun _ _ _ := true

/-- Node's `MODULE_NOT_FOUND` error. -/
def notFoundError : Thrown := .value 0 (some moduleNotFound)

/-- A module requires `ws`, which is not in `node_modules`, and then one that is nowhere. -/
def bareName : List Event :=
  [.load (ascii "./main.js") .runs, .load (ascii "ws") (.unresolved notFoundError), .bootReturns,
    .load (ascii "bufferutil") (.unresolved notFoundError), .returns]

theorem bareName_transparent :
    ∃ s, runEvents (step wsHost) Loads.init bareName = some s ∧ s.caught.length = 2 ∧
      (Transparent s ↔ AllowedAlong (step wsHost) (Careful wsHost) Loads.init bareName) := by
  have hends : (runEvents (step wsHost) Loads.init bareName).any
      (fun s => s.caught.length = 2) = true := by decide
  rcases (Option.any_eq_true _ _).1 hends with ⟨s, hs, hlength⟩
  exact ⟨s, hs, of_decide_eq_true hlength, fallback_transparent_iff hs⟩

/-- A module throws `undefined`. -/
def throwsUndefined : List Event := [.load (ascii "./main.js") .runs, .throws .undefined]

/-- The program's own `ws` is found and requires a module that is not. -/
def nestedMissing : List Event :=
  [.load (ascii "ws") .runs, .load (ascii "bufferutil") (.unresolved notFoundError),
    .throws notFoundError, .bootReturns]

/-- The wrapper throws a `TypeError` in place of `undefined`, and answers the request for a `ws` that
was found with the vendored one. -/
theorem fallback_not_transparent :
    (∃ s, runEvents (step wsHost) Loads.init throwsUndefined = some s ∧
      ⟨ascii "./main.js", .found, .undefined, .rethrown .typeError⟩ ∈ s.caught ∧
      ¬Transparent s) ∧
    (∃ s, runEvents (step wsHost) Loads.init nestedMissing = some s ∧
      ⟨ascii "ws", .found, notFoundError, .loading (.embedded (ascii "vendored/ws/index"))⟩ ∈
        s.caught ∧ (notFoundError, none) ∈ s.finished ∧ ¬Transparent s) := by
  have hundefined : (runEvents (step wsHost) Loads.init throwsUndefined).any (fun s =>
      ⟨ascii "./main.js", .found, .undefined, .rethrown .typeError⟩ ∈ s.caught) = true := by
    decide
  have hnested : (runEvents (step wsHost) Loads.init nestedMissing).any (fun s =>
      ⟨ascii "ws", .found, notFoundError, .loading (.embedded (ascii "vendored/ws/index"))⟩ ∈
        s.caught ∧ (notFoundError, none) ∈ s.finished) = true := by decide
  rcases (Option.any_eq_true _ _).1 hundefined with ⟨s, hs, hmem⟩
  rcases (Option.any_eq_true _ _).1 hnested with ⟨s', hs', hmem'⟩
  have hmem := of_decide_eq_true hmem
  have hmem' := of_decide_eq_true hmem'
  refine ⟨⟨s, hs, hmem, fun h => ?_⟩, s', hs', hmem'.1, hmem'.2, fun h => ?_⟩
  · cases h.caught _ hmem
  · cases (h.caught _ hmem'.1).1

end HermesNode.Bootstrap.Fallback
