/-
Module: HermesNode.Contextify.Attribution
Purpose: Who gets a SIGINT. Over every run each signal is delivered as an error or reported by
  `stopSigintWatchdog`, never both, and no break outlives the watchdog. Whether an exception is
  replaced is told after the fact from the latch and from the break, and it is told right unless a
  signal comes behind a failed script or an inner evaluation cancels a break an outer one waits for.
Trusted boundary: none
Main exports: Accounted, Careful, signals_accounted, watchdog_attributes
-/
import HermesNode.Contextify.Watchdog

namespace HermesNode.Contextify

variable {w v : Watchdog}

/-- What one step of the watchdog does. -/
inductive Effect (w : Watchdog) : Action → Watchdog → Prop where
  | start (hruns : w.jsRuns = true) : Effect w .start w.start
  | startDone (hstarting : w.starting = true) :
      Effect w .startDone { w with starting := false, watching := true }
  | stop (hruns : w.jsRuns = true) : Effect w .stop w.stop
  | signal (hinstalled : w.installed = true) : Effect w .signal w.sigintHandler
  | run (hruns : w.jsRuns = true) :
      Effect w .runInContext
        { w with depth := w.depth + 1, stack := ⟨.entering, false⟩ :: w.stack }
  | consume (hruns : w.jsRuns = true) (hbreak : w.breakPending = true) :
      Effect w .consume
        { w with
          breakPending := false
          stack := w.stack.map fun e => { e with consumed := true } }
  | returns (failed : Bool) (e : Evaluation) (rest : List Evaluation)
      (hstack : w.stack = e :: rest) (hruns : w.jsRuns = true) :
      Effect w (.returns failed) (w.goto e rest (.returned failed))
  | advance (v : Watchdog) (e : Evaluation) (rest : List Evaluation)
      (hstack : w.stack = e :: rest) (hnext : w.advance e rest = some v) : Effect w .advance v

theorem step_effect {a : Action} (h : w.step a = some v) : Effect w a v := by
  cases a with
  | start =>
      simp only [Watchdog.step, Option.ite_none_right_eq_some, Option.some.injEq] at h
      obtain ⟨hruns, hnext⟩ := h
      subst hnext
      exact Effect.start hruns
  | startDone =>
      simp only [Watchdog.step, Option.ite_none_right_eq_some, Option.some.injEq] at h
      obtain ⟨hstarting, hnext⟩ := h
      subst hnext
      exact Effect.startDone hstarting
  | stop =>
      simp only [Watchdog.step, Option.ite_none_right_eq_some, Option.some.injEq] at h
      obtain ⟨hruns, hnext⟩ := h
      subst hnext
      exact Effect.stop hruns
  | signal =>
      simp only [Watchdog.step, Option.ite_none_right_eq_some, Option.some.injEq] at h
      obtain ⟨hinstalled, hnext⟩ := h
      subst hnext
      exact Effect.signal hinstalled
  | runInContext =>
      simp only [Watchdog.step, Option.ite_none_right_eq_some, Option.some.injEq] at h
      obtain ⟨hruns, hnext⟩ := h
      subst hnext
      exact Effect.run hruns
  | consume =>
      simp only [Watchdog.step, Option.ite_none_right_eq_some, Option.some.injEq,
        Bool.and_eq_true] at h
      obtain ⟨⟨⟨hruns, hbreak⟩, _⟩, hnext⟩ := h
      subst hnext
      exact Effect.consume hruns hbreak
  | returns failed =>
      unfold Watchdog.step at h
      cases hstack : w.stack with
      | nil => simp [hstack] at h
      | cons e rest =>
          simp only [hstack, Option.ite_none_right_eq_some, Option.some.injEq] at h
          obtain ⟨hruns, hnext⟩ := h
          subst hnext
          exact Effect.returns failed e rest hstack hruns
  | advance =>
      unfold Watchdog.step at h
      cases hstack : w.stack with
      | nil => simp [hstack] at h
      | cons e rest =>
          simp only [hstack] at h
          exact Effect.advance v e rest hstack h

/-! ### What becomes of the signals -/

/-- Every signal is latched, delivered or reported, in exactly one of these ways; without a handler
nothing is latched and no break is pending. -/
structure Accounted (w : Watchdog) : Prop where
  once : (w.latched ++ (w.delivered ++ w.reported)).Perm (List.range w.signals)
  latch : w.received = true ↔ w.latched ≠ []
  handler : w.installed = (w.watching || w.starting)
  quiet : w.installed = false → w.received = false ∧ w.breakPending = false

theorem Accounted.init : Accounted Watchdog.init where
  once := List.Perm.refl _
  latch := by simp [Watchdog.init]
  handler := rfl
  quiet := fun _ => ⟨rfl, rfl⟩

theorem Accounted.latched_nil (inv : Accounted w) (h : w.received = false) : w.latched = [] := by
  cases hlatched : w.latched with
  | nil => rfl
  | cons signal rest =>
      have hreceived := inv.latch.mpr (by simp [hlatched])
      exact absurd (h.symm.trans hreceived) (by decide)

/-- The evaluations go on, and a pending break may be cancelled. -/
theorem Accounted.frame (inv : Accounted w) (hlatched : v.latched = w.latched)
    (hdelivered : v.delivered = w.delivered) (hreported : v.reported = w.reported)
    (hsignals : v.signals = w.signals) (hreceived : v.received = w.received)
    (hwatching : v.watching = w.watching) (hstarting : v.starting = w.starting)
    (hinstalled : v.installed = w.installed)
    (hbreak : v.breakPending = true → w.breakPending = true) : Accounted v where
  once := by
    rw [hlatched, hdelivered, hreported, hsignals]
    exact inv.once
  latch := by
    rw [hreceived, hlatched]
    exact inv.latch
  handler := by
    rw [hinstalled, hwatching, hstarting]
    exact inv.handler
  quiet := by
    intro h
    rw [hinstalled] at h
    obtain ⟨hlatch, hnone⟩ := inv.quiet h
    constructor
    · rw [hreceived, hlatch]
    · cases hb : v.breakPending with
      | false => rfl
      | true => exact absurd (hnone.symm.trans (hbreak hb)) (by decide)

theorem Accounted.deliver (inv : Accounted w) : Accounted w.deliver where
  once := by
    have hmove : ([] ++ ((w.delivered ++ w.latched) ++ w.reported)).Perm
        (w.latched ++ (w.delivered ++ w.reported)) := by
      rw [List.nil_append, ← List.append_assoc]
      exact List.perm_append_comm.append_right _
    exact hmove.trans inv.once
  latch := by simp [Watchdog.deliver]
  handler := inv.handler
  quiet := fun h => ⟨rfl, (inv.quiet h).2⟩

variable {rest : List Evaluation} {e : Evaluation}

theorem Accounted.advance (inv : Accounted w)
    (h : w.advance e rest = some v) : Accounted v := by
  unfold Watchdog.advance at h
  cases hphase : e.phase with
  | running => simp [hphase] at h
  | entering =>
      simp only [hphase, Option.some.injEq] at h
      subst h
      exact inv.frame rfl rfl rfl rfl rfl rfl rfl rfl id
  | refused =>
      simp only [hphase, Option.some.injEq] at h
      subst h
      exact inv.frame rfl rfl rfl rfl rfl rfl rfl rfl id
  | refusedLeft =>
      simp only [hphase, Option.some.injEq] at h
      subst h
      exact inv.deliver.frame rfl rfl rfl rfl rfl rfl rfl rfl id
  | refusedCleared =>
      simp only [hphase, Option.some.injEq] at h
      subst h
      exact inv.frame rfl rfl rfl rfl rfl rfl rfl rfl (by simp)
  | returned failed =>
      simp only [hphase, Option.some.injEq] at h
      subst h
      exact inv.frame rfl rfl rfl rfl rfl rfl rfl rfl id
  | left failed =>
      simp only [hphase, Option.some.injEq] at h
      subst h
      exact inv.frame rfl rfl rfl rfl rfl rfl rfl rfl (by simp)
  | checking failed breakWasPending =>
      simp only [hphase, Option.some.injEq] at h
      subst h
      split
      · exact inv.frame rfl rfl rfl rfl rfl rfl rfl rfl id
      · exact inv.frame rfl rfl rfl rfl rfl rfl rfl rfl id
  | converting =>
      simp only [hphase, Option.some.injEq] at h
      subst h
      exact inv.deliver.frame rfl rfl rfl rfl rfl rfl rfl rfl id

/-- Nothing is latched when a watchdog starts. -/
theorem Accounted.start (inv : Accounted w) (hstarting : w.starting = false) :
    Accounted w.start := by
  unfold Watchdog.start
  split
  · exact inv
  · rename_i hwatching
    have hnone : w.installed = false := by simp [inv.handler, hwatching, hstarting]
    have hlatched := inv.latched_nil (inv.quiet hnone).1
    have honce := inv.once
    rw [hlatched] at honce
    exact ⟨honce, by simp, by simp, by simp⟩

theorem Accounted.startDone (inv : Accounted w) (hstarting : w.starting = true) :
    Accounted { w with starting := false, watching := true } where
  once := inv.once
  latch := inv.latch
  handler := by simp [inv.handler, hstarting]
  quiet := inv.quiet

/-- What is latched when the watchdog stops is reported. -/
theorem Accounted.stop (inv : Accounted w) (hstarting : w.starting = false) :
    Accounted w.stop := by
  unfold Watchdog.stop
  split
  · constructor
    · have hreported : ([] ++ (w.delivered ++
          if w.received then w.reported ++ w.latched else w.reported)).Perm
          (w.latched ++ (w.delivered ++ w.reported)) := by
        cases hreceived : w.received with
        | false => simp [inv.latched_nil hreceived]
        | true =>
            simp only [if_true, List.nil_append]
            rw [← List.append_assoc]
            exact List.perm_append_comm
      exact hreported.trans inv.once
    · simp
    · simp [hstarting]
    · exact fun _ => ⟨rfl, rfl⟩
  · exact inv

theorem Accounted.sigintHandler (inv : Accounted w) (hinstalled : w.installed = true) :
    Accounted w.sigintHandler where
  once := by
    have hnew : (w.latched ++ [w.signals] ++ (w.delivered ++ w.reported)).Perm
        (w.signals :: (w.latched ++ (w.delivered ++ w.reported))) := by
      rw [List.append_assoc]
      exact List.perm_middle
    have hrange : (w.signals :: List.range w.signals).Perm (List.range (w.signals + 1)) := by
      rw [List.range_succ]
      exact (List.perm_append_singleton _ _).symm
    exact hnew.trans ((inv.once.cons _).trans hrange)
  latch := by simp [Watchdog.sigintHandler]
  handler := inv.handler
  quiet := fun h => absurd (hinstalled.symm.trans h) (by decide)

theorem jsRuns_starting (h : w.jsRuns = true) : w.starting = false := by
  simp only [Watchdog.jsRuns, Bool.and_eq_true, Bool.not_eq_true'] at h
  exact h.1

theorem Accounted.step (inv : Accounted w) {a : Action} (h : Effect w a v) : Accounted v := by
  cases h with
  | start hruns => exact inv.start (jsRuns_starting hruns)
  | startDone hstarting => exact inv.startDone hstarting
  | stop hruns => exact inv.stop (jsRuns_starting hruns)
  | signal hinstalled => exact inv.sigintHandler hinstalled
  | run hruns => exact inv.frame rfl rfl rfl rfl rfl rfl rfl rfl id
  | consume hruns hbreak => exact inv.frame rfl rfl rfl rfl rfl rfl rfl rfl (by simp)
  | returns failed e rest hstack hruns => exact inv.frame rfl rfl rfl rfl rfl rfl rfl rfl id
  | advance v e rest hstack hnext => exact inv.advance hnext

/-! ### The evaluations on the stack -/

/-- How many evaluations the depth counts. -/
def countedIn (stack : List Evaluation) : Nat := stack.countP fun e => e.phase.counted

/-- Only the innermost evaluation is in native code, none is while the watchdog starts, and the depth
counts those it should. -/
structure Stacked (w : Watchdog) : Prop where
  below : ∀ e ∈ w.stack.tail, e.phase = .running
  starts : w.starting = true → ∀ e ∈ w.stack, e.phase = .running
  depth : w.depth = countedIn w.stack

theorem Stacked.init : Stacked Watchdog.init where
  below := fun e h => by cases h
  starts := fun h => by cases h
  depth := rfl

theorem Stacked.not_starting (inv : Stacked w)
    (hstack : w.stack = e :: rest) (hphase : e.phase ≠ .running) : w.starting = false := by
  cases hstarting : w.starting with
  | false => rfl
  | true => exact absurd (inv.starts hstarting e (by simp [hstack])) hphase

theorem Stacked.allRun (inv : Stacked w) (hruns : w.jsRuns = true) (e : Evaluation)
    (he : e ∈ w.stack) : e.phase = .running := by
  simp only [Watchdog.jsRuns, Bool.and_eq_true] at hruns
  have hbelow := inv.below
  cases hstack : w.stack with
  | nil => simp [hstack] at he
  | cons top rest =>
      rw [hstack] at he hbelow
      have htop : top.phase = .running := by
        have h := hruns.2
        rw [hstack] at h
        exact eq_of_beq h
      cases List.mem_cons.mp he with
      | inl h => rw [h, htop]
      | inr h => exact hbelow e h

/-- The innermost evaluation goes on to another phase. -/
theorem Stacked.goto (inv : Stacked w)
    (hstack : w.stack = e :: rest) (hstarting : w.starting = false) {phase : Phase}
    {u : Watchdog} (hu : u.stack = { e with phase := phase } :: rest)
    (hsame : u.starting = w.starting)
    (hdepth : u.depth + (if e.phase.counted then 1 else 0) =
      w.depth + if phase.counted then 1 else 0) : Stacked u where
  below := by
    have hbelow := inv.below
    rw [hstack] at hbelow
    rw [hu]
    exact hbelow
  starts := by
    intro h
    rw [hsame, hstarting] at h
    cases h
  depth := by
    have hcount := inv.depth
    rw [hstack] at hcount
    rw [hu]
    simp only [countedIn, List.countP_cons] at hcount ⊢
    omega

/-- The innermost evaluation, which the depth no longer counts, ends. -/
theorem Stacked.pop (inv : Stacked w)
    (hstack : w.stack = e :: rest) (hcounted : e.phase.counted = false)
    {u : Watchdog} (hu : u.stack = rest) (hsame : u.starting = w.starting)
    (hdepth : u.depth = w.depth) : Stacked u where
  below := by
    have hbelow := inv.below
    rw [hstack] at hbelow
    rw [hu]
    exact fun f hf => hbelow f (List.mem_of_mem_tail hf)
  starts := by
    intro h f hf
    rw [hsame] at h
    rw [hu] at hf
    exact inv.starts h f (by rw [hstack]; exact List.mem_cons_of_mem _ hf)
  depth := by
    have hcount := inv.depth
    rw [hstack] at hcount
    simp only [countedIn, List.countP_cons, hcounted] at hcount
    rw [hu, hdepth, hcount]
    rfl

theorem Stacked.advance (inv : Stacked w)
    (hstack : w.stack = e :: rest) (h : w.advance e rest = some v) : Stacked v := by
  have hpos : e.phase.counted = true → 0 < w.depth := by
    intro hcounted
    rw [inv.depth, hstack]
    simp [countedIn, hcounted]
  unfold Watchdog.advance at h
  cases hphase : e.phase with
  | running => simp [hphase] at h
  | entering =>
      have hstarting := inv.not_starting hstack (by simp [hphase])
      simp only [hphase, Option.some.injEq] at h
      subst h
      refine inv.goto hstack hstarting rfl rfl ?_
      split <;> simp [hphase, Phase.counted, Watchdog.goto]
  | refused =>
      have hstarting := inv.not_starting hstack (by simp [hphase])
      simp only [hphase, Option.some.injEq] at h
      subst h
      refine inv.goto hstack hstarting rfl rfl ?_
      have hdepth := hpos (by simp [hphase, Phase.counted])
      simp [hphase, Phase.counted]
      omega
  | refusedLeft =>
      have hstarting := inv.not_starting hstack (by simp [hphase])
      simp only [hphase, Option.some.injEq] at h
      subst h
      refine inv.goto hstack hstarting rfl rfl ?_
      simp [hphase, Phase.counted, Watchdog.goto, Watchdog.deliver]
  | refusedCleared =>
      simp only [hphase, Option.some.injEq] at h
      subst h
      exact inv.pop hstack (by simp [hphase, Phase.counted]) rfl rfl rfl
  | returned failed =>
      have hstarting := inv.not_starting hstack (by simp [hphase])
      simp only [hphase, Option.some.injEq] at h
      subst h
      refine inv.goto hstack hstarting rfl rfl ?_
      have hdepth := hpos (by simp [hphase, Phase.counted])
      simp [hphase, Phase.counted]
      omega
  | left failed =>
      have hstarting := inv.not_starting hstack (by simp [hphase])
      simp only [hphase, Option.some.injEq] at h
      subst h
      refine inv.goto hstack hstarting rfl rfl ?_
      simp [hphase, Phase.counted, Watchdog.goto]
  | checking failed breakWasPending =>
      have hstarting := inv.not_starting hstack (by simp [hphase])
      simp only [hphase, Option.some.injEq] at h
      subst h
      split
      · refine inv.goto hstack hstarting rfl rfl ?_
        simp [hphase, Phase.counted, Watchdog.goto]
      · exact inv.pop hstack (by simp [hphase, Phase.counted]) rfl rfl rfl
  | converting =>
      simp only [hphase, Option.some.injEq] at h
      subst h
      exact inv.pop hstack (by simp [hphase, Phase.counted]) rfl rfl rfl

theorem Stacked.step (inv : Stacked w) {a : Action} (h : Effect w a v) : Stacked v := by
  cases h with
  | start hruns =>
      unfold Watchdog.start
      split
      · exact inv
      · exact ⟨inv.below, fun _ => inv.allRun hruns, inv.depth⟩
  | startDone hstarting => exact ⟨inv.below, (fun h => by cases h), inv.depth⟩
  | stop hruns =>
      unfold Watchdog.stop
      split
      · exact ⟨inv.below, inv.starts, inv.depth⟩
      · exact inv
  | signal hinstalled => exact ⟨inv.below, inv.starts, inv.depth⟩
  | run hruns =>
      have hstarting := jsRuns_starting hruns
      refine ⟨inv.allRun hruns, ?_, ?_⟩
      · intro h
        exact absurd (hstarting.symm.trans h) (by decide)
      · have hdepth := inv.depth
        simp only [countedIn] at hdepth
        simp [countedIn, Phase.counted, hdepth]
  | consume hruns hbreak =>
      refine ⟨?_, ?_, ?_⟩
      · intro e he
        rw [← List.map_tail] at he
        obtain ⟨f, hf, rfl⟩ := List.mem_map.mp he
        exact inv.below f hf
      · intro hstarting e he
        obtain ⟨f, hf, rfl⟩ := List.mem_map.mp he
        exact inv.starts hstarting f hf
      · have hdepth := inv.depth
        simp only [countedIn] at hdepth
        simp [countedIn, List.countP_map, hdepth, Function.comp_def]
  | returns failed e rest hstack hruns =>
      have hrunning := inv.allRun hruns e (by simp [hstack])
      refine inv.goto hstack (jsRuns_starting hruns) rfl rfl ?_
      simp [hrunning, Phase.counted, Watchdog.goto]
  | advance v e rest hstack hnext => exact inv.advance hstack hnext

/-! ### Whose signal it is -/

/-- A latched signal belongs to an evaluation through the break that waits for it or that the
interpreter took during it. -/
def Attributed (w : Watchdog) (e : Evaluation) : Prop :=
  match e.phase with
  | .running | .returned _ => w.received = true → w.breakPending = true ∨ e.consumed = true
  | .left failed =>
      failed = true → w.received = true → w.breakPending = true ∨ e.consumed = true
  | .checking failed breakWasPending =>
      failed = true → w.received = true → breakWasPending = true ∨ e.consumed = true
  | .converting => e.consumed = true
  | _ => True

/-- The phases whose next step cancels the break. -/
def Phase.cancels : Phase → Bool
  | .refusedCleared | .left _ => true
  | _ => false

/-- The steps at which attribution does not go wrong: a signal does not come behind a failed script,
where it finds no script to break; and an evaluation cancels no break of a latched signal that an
evaluation below it waits for. -/
def Careful (w : Watchdog) : Action → Prop
  | .signal =>
      ∀ e ∈ w.stack.head?, match e.phase with
        | .left true => 0 < w.depth ∨ e.consumed = true
        | .checking true breakWasPending => breakWasPending = true ∨ e.consumed = true
        | _ => True
  | .advance =>
      ∀ e ∈ w.stack.head?, e.phase.cancels = true → w.received = true → w.breakPending = true →
        ∀ outer ∈ w.stack.tail, outer.consumed = true
  | _ => True

/-- The runs of the watchdog with such steps only. -/
inductive CarefulRun : List Action → Watchdog → Prop where
  | start : CarefulRun [] Watchdog.init
  | step {actions : List Action} {w v : Watchdog} {a : Action} (run : CarefulRun actions w)
      (careful : Careful w a) (taken : w.step a = some v) : CarefulRun (actions ++ [a]) v

theorem Attributed.mono {e : Evaluation} (h : Attributed w e)
    (hreceived : v.received = true → w.received = true)
    (hbreak : w.breakPending = true → v.breakPending = true) : Attributed v e := by
  unfold Attributed at h ⊢
  cases hphase : e.phase with
  | running =>
      rw [hphase] at h
      exact fun hr => (h (hreceived hr)).imp_left hbreak
  | returned failed =>
      rw [hphase] at h
      exact fun hr => (h (hreceived hr)).imp_left hbreak
  | left failed =>
      rw [hphase] at h
      exact fun hf hr => (h hf (hreceived hr)).imp_left hbreak
  | checking failed breakWasPending =>
      rw [hphase] at h
      exact fun hf hr => h hf (hreceived hr)
  | converting =>
      rw [hphase] at h
      exact h
  | entering => trivial
  | refused => trivial
  | refusedLeft => trivial
  | refusedCleared => trivial

/-- With nothing latched there is nothing to attribute but to an exception about to be replaced. -/
theorem attributed_unlatched (hreceived : w.received = false)
    (hphase : e.phase ≠ .converting) : Attributed w e := by
  unfold Attributed
  cases hp : e.phase <;> simp_all

theorem attributed_consumed (h : e.consumed = true) : Attributed w e := by
  unfold Attributed
  cases hp : e.phase <;> simp_all

/-- Every evaluation is told right, up to now. -/
structure Told (w : Watchdog) : Prop where
  all : ∀ e ∈ w.stack, Attributed w e
  right : w.misattributed = false

/-- The break is cancelled: the evaluations below had theirs taken, or no signal waits. -/
theorem attributed_cancel (told : Told w)
    (hstack : w.stack = e :: rest) (careful : Careful w .advance) (hcancels : e.phase.cancels = true)
    (hbelow : ∀ f ∈ rest, f.phase = .running) (hreceived : v.received = w.received) (f : Evaluation)
    (hf : f ∈ rest) : Attributed v f := by
  have hw := told.all f (by rw [hstack]; exact List.mem_cons_of_mem _ hf)
  unfold Attributed at hw ⊢
  rw [hbelow f hf] at hw ⊢
  intro hr
  rw [hreceived] at hr
  apply Or.inr
  cases hw hr with
  | inl hbreak =>
      have hall := careful e (by simp [hstack]) hcancels hr hbreak
      rw [hstack] at hall
      exact hall f hf
  | inr hconsumed => exact hconsumed

theorem Told.of_cons (hstack : v.stack = e :: rest)
    (htop : Attributed v e) (hrest : ∀ f ∈ rest, Attributed v f)
    (hright : v.misattributed = false) : Told v where
  all := by
    intro f hf
    rw [hstack] at hf
    cases List.mem_cons.mp hf with
    | inl h =>
        rw [h]
        exact htop
    | inr h => exact hrest f h
  right := hright

theorem Told.advance (told : Told w) (acc : Accounted w) (inv : Stacked w)
    (hstack : w.stack = e :: rest) (careful : Careful w .advance)
    (h : w.advance e rest = some v) : Told v := by
  have htop := told.all e (by simp [hstack])
  have hrest : ∀ f ∈ rest, Attributed w f :=
    fun f hf => told.all f (by rw [hstack]; exact List.mem_cons_of_mem _ hf)
  have hbelow : ∀ f ∈ rest, f.phase = .running := by
    have hb := inv.below
    rw [hstack] at hb
    exact hb
  -- Outside of a start the handler is there only while the flag is set.
  have hquiet : e.phase ≠ .running → w.watching = false → w.received = false := by
    intro hphase hwatching
    have hstarting := inv.not_starting hstack hphase
    exact (acc.quiet (by simp [acc.handler, hwatching, hstarting])).1
  unfold Watchdog.advance at h
  unfold Attributed at htop
  cases hphase : e.phase with
  | running => simp [hphase] at h
  | entering =>
      simp only [hphase, Option.some.injEq] at h
      subst h
      apply Told.of_cons rfl
      · split
        · trivial
        · rename_i hcheck
          intro hr
          have hreceived : w.received = true := hr
          cases hwatching : w.watching with
          | true => simp [hwatching, hreceived] at hcheck
          | false =>
              have hnone := hquiet (by simp [hphase]) hwatching
              exact absurd (hnone.symm.trans hreceived) (by decide)
      · exact fun f hf => (hrest f hf).mono id id
      · exact told.right
  | refused =>
      simp only [hphase, Option.some.injEq] at h
      subst h
      exact Told.of_cons rfl trivial (fun f hf => (hrest f hf).mono id id) told.right
  | refusedLeft =>
      simp only [hphase, Option.some.injEq] at h
      subst h
      refine Told.of_cons rfl trivial ?_ told.right
      intro f hf
      exact attributed_unlatched rfl (by simp [hbelow f hf])
  | refusedCleared =>
      simp only [hphase, Option.some.injEq] at h
      subst h
      refine ⟨?_, told.right⟩
      intro f hf
      refine attributed_cancel told hstack careful ?_ hbelow ?_ f hf
      · simp [hphase, Phase.cancels]
      · rfl
  | returned failed =>
      simp only [hphase, Option.some.injEq] at h
      subst h
      rw [hphase] at htop
      exact Told.of_cons rfl (fun _ => htop) (fun f hf => (hrest f hf).mono id id) told.right
  | left failed =>
      simp only [hphase, Option.some.injEq] at h
      subst h
      rw [hphase] at htop
      apply Told.of_cons rfl
      · intro hfailed hr
        have hreceived : w.received = true := hr
        cases hwatching : w.watching with
        | true => exact (htop hfailed hreceived).imp_left (fun hb => by simp [hb])
        | false =>
            have hnone := hquiet (by simp [hphase]) hwatching
            exact absurd (hnone.symm.trans hreceived) (by decide)
      · intro f hf
        refine attributed_cancel told hstack careful ?_ hbelow ?_ f hf
        · simp [hphase, Phase.cancels]
        · rfl
      · exact told.right
  | checking failed breakWasPending =>
      simp only [hphase, Option.some.injEq] at h
      subst h
      rw [hphase] at htop
      split
      · rename_i hconvert
        simp only [Bool.and_eq_true, Bool.not_eq_true'] at hconvert
        obtain ⟨⟨hfailed, hreceived⟩, hnot⟩ := hconvert
        apply Told.of_cons rfl
        · cases htop hfailed hreceived with
          | inl hb => exact absurd (hnot.symm.trans hb) (by decide)
          | inr hconsumed => exact hconsumed
        · exact fun f hf => (hrest f hf).mono id id
        · exact told.right
      · exact ⟨fun f hf => (hrest f hf).mono id id, told.right⟩
  | converting =>
      simp only [hphase, Option.some.injEq] at h
      subst h
      rw [hphase] at htop
      constructor
      · intro f hf
        exact attributed_unlatched rfl (by simp [hbelow f hf])
      · have hconsumed : e.consumed = true := htop
        simp [told.right, hconsumed]

/-- A signal breaks every evaluation the depth counts; the one that is no longer counted is one it
may come behind. -/
theorem Told.signal (told : Told w) (inv : Stacked w) (careful : Careful w .signal) :
    Told w.sigintHandler := by
  refine ⟨?_, told.right⟩
  intro e hmem
  have he : e ∈ w.stack := hmem
  have hw := told.all e he
  have hbroken : e.phase.counted = true → w.sigintHandler.breakPending = true := by
    intro hcounted
    have hpos : 0 < w.depth := by
      rw [inv.depth]
      exact List.countP_pos_iff.mpr ⟨e, he, hcounted⟩
    simp [Watchdog.sigintHandler, hpos]
  have htop : e.phase.counted = false → e ∈ w.stack.head? := by
    intro hcounted
    cases hstack : w.stack with
    | nil => simp [hstack] at he
    | cons top rest =>
        have hbelow := inv.below
        rw [hstack] at he hbelow
        cases List.mem_cons.mp he with
        | inl h => simp [h]
        | inr h =>
            have hrunning := hbelow e h
            simp [hrunning, Phase.counted] at hcounted
  unfold Attributed at hw ⊢
  cases hphase : e.phase with
  | running => exact fun _ => Or.inl (hbroken (by simp [hphase, Phase.counted]))
  | returned failed => exact fun _ => Or.inl (hbroken (by simp [hphase, Phase.counted]))
  | left failed =>
      have hcareful := careful e (htop (by simp [hphase, Phase.counted]))
      intro hfailed _
      rw [hphase, hfailed] at hcareful
      exact hcareful.imp_left (fun hpos => by simp [Watchdog.sigintHandler, hpos])
  | checking failed breakWasPending =>
      have hcareful := careful e (htop (by simp [hphase, Phase.counted]))
      intro hfailed _
      rw [hphase, hfailed] at hcareful
      exact hcareful
  | converting =>
      rw [hphase] at hw
      exact hw
  | entering => trivial
  | refused => trivial
  | refusedLeft => trivial
  | refusedCleared => trivial

theorem Told.step (told : Told w) (acc : Accounted w) (inv : Stacked w) {a : Action}
    (careful : Careful w a) (h : Effect w a v) : Told v := by
  cases h with
  | start hruns =>
      unfold Watchdog.start
      split
      · exact told
      · refine ⟨?_, told.right⟩
        intro e he
        exact attributed_unlatched rfl (by simp [inv.allRun hruns e he])
  | startDone hstarting => exact ⟨fun e he => (told.all e he).mono id id, told.right⟩
  | stop hruns =>
      unfold Watchdog.stop
      split
      · refine ⟨?_, told.right⟩
        intro e he
        exact attributed_unlatched rfl (by simp [inv.allRun hruns e he])
      · exact told
  | signal hinstalled => exact told.signal inv careful
  | run hruns =>
      exact Told.of_cons rfl trivial (fun e he => (told.all e he).mono id id) told.right
  | consume hruns hbreak =>
      refine ⟨?_, told.right⟩
      intro e he
      obtain ⟨f, hf, rfl⟩ := List.mem_map.mp he
      exact attributed_consumed rfl
  | returns failed e rest hstack hruns =>
      have hrunning := inv.allRun hruns e (by simp [hstack])
      have htop := told.all e (by simp [hstack])
      unfold Attributed at htop
      rw [hrunning] at htop
      apply Told.of_cons rfl
      · exact htop
      · intro f hf
        exact (told.all f (by rw [hstack]; exact List.mem_cons_of_mem _ hf)).mono id id
      · exact told.right
  | advance v e rest hstack hnext => exact told.advance acc inv hstack careful hnext

/-! ### Runs -/

theorem carefulRun_told {actions : List Action} (h : CarefulRun actions w) :
    Accounted w ∧ Stacked w ∧ Told w := by
  induction h with
  | start => exact ⟨Accounted.init, Stacked.init, (fun e he => by cases he), rfl⟩
  | step run careful taken ih =>
      obtain ⟨acc, inv, told⟩ := ih
      have heffect := step_effect taken
      exact ⟨acc.step heffect, inv.step heffect, told.step acc inv careful heffect⟩

/-- However signals, evaluations and the watchdog interleave: every signal is latched, delivered or
reported, in one of these ways; the depth counts the evaluations; and no break outlives the
watchdog. -/
theorem signals_accounted {actions : List Action}
    (run : runEvents Watchdog.step Watchdog.init actions = some w) : Accounted w ∧ Stacked w := by
  have hkept : ∀ w a v, Accounted w ∧ Stacked w → Watchdog.step w a = some v →
      Accounted v ∧ Stacked v := by
    intro w a v inv hstep
    have heffect := step_effect hstep
    exact ⟨inv.1.step heffect, inv.2.step heffect⟩
  exact runEvents_invariant hkept ⟨Accounted.init, Stacked.init⟩ run

/-- A signal that finds no script. -/
theorem idle_signal_reported : ∃ w, runEvents Watchdog.step Watchdog.init
    [.start, .startDone, .signal, .stop] = some w ∧ w.reported = [0] ∧ Accounted w :=
  ⟨_, rfl, rfl, (@signals_accounted _ [.start, .startDone, .signal, .stop] rfl).1⟩

/-- In every run of careful steps an exception is replaced at the end of an evaluation only when the
interpreter took a break during it. And every signal is latched, delivered as the error or reported,
in exactly one of these ways, the last two when the watchdog is stopped, with no break pending
then. -/
theorem watchdog_attributes {actions : List Action} (h : CarefulRun actions w) :
    w.misattributed = false ∧
    (w.latched ++ (w.delivered ++ w.reported)).Perm (List.range w.signals) ∧
    (w.installed = false → w.latched = [] ∧ w.breakPending = false) := by
  obtain ⟨acc, inv, told⟩ := carefulRun_told h
  refine ⟨told.right, acc.once, ?_⟩
  intro hnone
  obtain ⟨hreceived, hbreak⟩ := acc.quiet hnone
  exact ⟨acc.latched_nil hreceived, hbreak⟩

/-- The break of a signal is taken while the script runs: the exception is replaced and the signal
delivered. -/
theorem brokenScript_delivered : ∃ w, CarefulRun
    [.start, .startDone, .runInContext, .advance, .signal, .consume, .returns true, .advance,
      .advance, .advance, .advance, .stop] w ∧
    w.delivered = [0] ∧ w.reported = [] ∧ w.misattributed = false := by
  have hstart := CarefulRun.step (a := .start) CarefulRun.start trivial rfl
  have hwatch := CarefulRun.step (a := .startDone) hstart trivial rfl
  have hrun := CarefulRun.step (a := .runInContext) hwatch trivial rfl
  have henter := CarefulRun.step (a := .advance) hrun
    (by intro e he hcancels; cases he; cases hcancels) rfl
  have hsignal := CarefulRun.step (a := .signal) henter (by intro e he; cases he; trivial) rfl
  have hconsume := CarefulRun.step (a := .consume) hsignal trivial rfl
  have hreturn := CarefulRun.step (a := .returns true) hconsume trivial rfl
  have hleft := CarefulRun.step (a := .advance) hreturn
    (by intro e he hcancels; cases he; cases hcancels) rfl
  have hcancel := CarefulRun.step (a := .advance) hleft
    (by intro e he _ _ hbreak; cases hbreak) rfl
  have hcheck := CarefulRun.step (a := .advance) hcancel
    (by intro e he hcancels; cases he; cases hcancels) rfl
  have hconvert := CarefulRun.step (a := .advance) hcheck
    (by intro e he hcancels; cases he; cases hcancels) rfl
  have hstop := CarefulRun.step (a := .stop) hconvert trivial rfl
  exact ⟨_, hstop, rfl, rfl, (watchdog_attributes hstop).1⟩

/-- A signal comes when the failed script is behind the depth but before the check: the exception the
script threw itself is replaced, though no break was ever triggered. And an inner evaluation cancels
the break of a signal that came while it ended: the outer script's own exception is replaced. -/
theorem signal_behind_script :
    (∃ w, runEvents Watchdog.step Watchdog.init
      [.start, .startDone, .runInContext, .advance, .returns true, .advance, .signal, .advance,
        .advance, .advance] = some w ∧ w.misattributed = true ∧ w.stack = []) ∧
    ∃ w, runEvents Watchdog.step Watchdog.init
      [.start, .startDone, .runInContext, .advance, .runInContext, .advance, .returns false,
        .signal, .advance, .advance, .advance, .returns true, .advance, .advance, .advance,
        .advance] = some w ∧ w.misattributed = true ∧ w.stack = [] :=
  ⟨⟨_, rfl, rfl, rfl⟩, ⟨_, rfl, rfl, rfl⟩⟩

end HermesNode.Contextify
