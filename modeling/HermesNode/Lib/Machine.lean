/-
Module: HermesNode.Lib.Machine
Purpose: Runs of a partial step function. A machine takes events; an event that is not enabled has
  no successor. `runEvents_invariant` is the one induction over runs: what a step preserves, a run
  preserves. `GuardedRun` is a run whose every event meets a condition in the state it is taken in.
Trusted boundary: none
Main exports: runEvents, GuardedRun, runEvents_iff_allowed, throughout_iff_allowed
-/
import Mathlib.Data.List.Basic

namespace HermesNode

variable {State Event : Type} {step : State → Event → Option State}
  {allowed : State → Event → Prop}

/-- The state after a list of events, when every one of them is enabled in turn. -/
def runEvents (step : State → Event → Option State) (s : State) : List Event → Option State
  | [] => some s
  | e :: es => (step s e).bind fun s' => runEvents step s' es

theorem runEvents_cons {s t : State} {e : Event} {es : List Event}
    (h : runEvents step s (e :: es) = some t) :
    ∃ s', step s e = some s' ∧ runEvents step s' es = some t := by
  simpa [runEvents, Option.bind_eq_some_iff] using h

theorem runEvents_append {s t u : State} {es fs : List Event}
    (h : runEvents step s es = some t) (h' : runEvents step t fs = some u) :
    runEvents step s (es ++ fs) = some u := by
  induction es generalizing s with
  | nil =>
      cases h
      exact h'
  | cons e es ih =>
      rcases runEvents_cons h with ⟨s', hs', hrest⟩
      simp [runEvents, hs', ih hrest]

theorem runEvents_invariant {Inv : State → Prop}
    (hstep : ∀ s e s', Inv s → step s e = some s' → Inv s') {s t : State} {es : List Event}
    (hs : Inv s) (hrun : runEvents step s es = some t) : Inv t := by
  induction es generalizing s with
  | nil =>
      cases hrun
      exact hs
  | cons e es ih =>
      rcases runEvents_cons hrun with ⟨s', hs', hrest⟩
      exact ih (hstep s e s' hs hs') hrest

/-- The runs from `first` whose every event is allowed where it happens. -/
inductive GuardedRun (step : State → Event → Option State) (allowed : State → Event → Prop)
    (first : State) : List Event → State → Prop where
  | start : GuardedRun step allowed first [] first
  | next {events : List Event} {s t : State} {e : Event}
      (run : GuardedRun step allowed first events s) (careful : allowed s e)
      (taken : step s e = some t) : GuardedRun step allowed first (events ++ [e]) t

/-- A property every allowed step preserves holds along every guarded run. -/
theorem GuardedRun.invariant {Inv : State → Prop} {first s : State} {events : List Event}
    (hstep : ∀ s e t, Inv s → allowed s e → step s e = some t → Inv t) (hfirst : Inv first)
    (run : GuardedRun step allowed first events s) : Inv s := by
  induction run with
  | start => exact hfirst
  | next run careful taken ih => exact hstep _ _ _ ih careful taken

/-- A run can be checked while it is taken. -/
theorem GuardedRun.of_runEvents [∀ s e, Decidable (allowed s e)] {first s t : State}
    {events later : List Event} (run : GuardedRun step allowed first events s)
    (h : runEvents (fun s e => if allowed s e then step s e else none) s later = some t) :
    GuardedRun step allowed first (events ++ later) t := by
  induction later generalizing events s with
  | nil =>
      cases h
      rwa [List.append_nil]
  | cons e later ih =>
      rcases runEvents_cons h with ⟨s', hs', hrest⟩
      rw [Option.ite_none_right_eq_some] at hs'
      have hnext := ih (run.next hs'.1 hs'.2) hrest
      rwa [List.append_assoc, List.singleton_append] at hnext

/-- Every event of a run is allowed where it happens. -/
def AllowedAlong (step : State → Event → Option State) (allowed : State → Event → Prop)
    (s : State) : List Event → Prop
  | [] => True
  | e :: es => allowed s e ∧ ∀ t, step s e = some t → AllowedAlong step allowed t es

/-- What a step keeps exactly when it is allowed, a run keeps exactly when all its steps are. -/
theorem runEvents_iff_allowed {P : State → Prop}
    (hstep : ∀ s e t, step s e = some t → (P t ↔ P s ∧ allowed s e)) {s t : State}
    {es : List Event} (hrun : runEvents step s es = some t) :
    P t ↔ P s ∧ AllowedAlong step allowed s es := by
  induction es generalizing s with
  | nil =>
      cases hrun
      exact (and_iff_left trivial).symm
  | cons e es ih =>
      rcases runEvents_cons hrun with ⟨s', hs', hrest⟩
      rw [ih hrest, hstep s e s' hs', and_assoc]
      refine and_congr_right fun _ => and_congr_right fun _ => ?_
      constructor
      · intro h t ht
        cases Option.some.inj (hs'.symm.trans ht)
        exact h
      · intro h
        exact h s' hs'

theorem AllowedAlong.cons {s t : State} {e : Event} {es : List Event} (ht : step s e = some t)
    (hallowed : allowed s e) (hrest : AllowedAlong step allowed t es) :
    AllowedAlong step allowed s (e :: es) := by
  refine ⟨hallowed, fun u hu => ?_⟩
  cases Option.some.inj (ht.symm.trans hu)
  exact hrest

theorem AllowedAlong.of_runEvents [∀ s e, Decidable (allowed s e)] {s t : State} {es : List Event}
    (h : runEvents (fun s e => if allowed s e then step s e else none) s es = some t) :
    AllowedAlong step allowed s es := by
  induction es generalizing s with
  | nil => trivial
  | cons e es ih =>
      rcases runEvents_cons h with ⟨s', hs', hrest⟩
      rw [Option.ite_none_right_eq_some] at hs'
      refine ⟨hs'.1, fun u hu => ?_⟩
      cases Option.some.inj (hs'.2.symm.trans hu)
      exact ih hrest

/-- Every state that a list of events goes through, its first and its last one included, has the
property. -/
def Throughout (step : State → Event → Option State) (P : State → Prop) (s : State)
    (events : List Event) : Prop :=
  ∀ done rest u, events = done ++ rest → runEvents step s done = some u → P u

theorem Throughout.tail {P : State → Prop} {s t : State} {e : Event} {es : List Event}
    (h : Throughout step P s (e :: es)) (ht : step s e = some t) : Throughout step P t es := by
  intro done rest u hsplit hrun
  refine h (e :: done) rest u (by rw [hsplit, List.cons_append]) ?_
  rw [runEvents, ht]
  exact hrun

/-- Where every allowed step keeps an invariant, all states of a run whose steps are allowed meet it. -/
theorem AllowedAlong.throughout {Inv P : State → Prop} (hinv : ∀ s, Inv s → P s)
    (hstep : ∀ s e t, Inv s → allowed s e → step s e = some t → Inv t) {s : State} {es : List Event}
    (hs : Inv s) (h : AllowedAlong step allowed s es) : Throughout step P s es := by
  induction es generalizing s with
  | nil =>
      intro done rest u hsplit hdone
      rw [(List.append_eq_nil_iff.mp hsplit.symm).1] at hdone
      cases hdone
      exact hinv s hs
  | cons e es ih =>
      intro done rest u hsplit hdone
      cases done with
      | nil =>
          cases hdone
          exact hinv s hs
      | cons d done =>
          rw [List.cons_append, List.cons.injEq] at hsplit
          rcases hsplit with ⟨rfl, htail⟩
          rcases runEvents_cons hdone with ⟨s', hs', hdone'⟩
          exact ih (hstep s e s' hs h.1 hs') (h.2 s' hs') done rest u htail hdone'

/-- A state that only a step which breaks the property leads out of is kept. -/
theorem Throughout.doomed {P Doomed : State → Prop}
    (hdoomed : ∀ s e t, Doomed s → step s e = some t → P t → Doomed t) {s t : State} {es : List Event}
    (hs : Doomed s) (hrun : runEvents step s es = some t) (h : Throughout step P s es) : Doomed t := by
  induction es generalizing s with
  | nil =>
      cases hrun
      exact hs
  | cons e es ih =>
      rcases runEvents_cons hrun with ⟨s', hs', hrest⟩
      have hnext : P s' := h [e] es s' rfl (by rw [runEvents, hs']; rfl)
      exact ih (hdoomed s e s' hs hs' hnext) hrest (h.tail hs')

/-- Where a step that is not allowed breaks the property at once or leads to a doomed state, a run that
keeps the property and does not end doomed takes allowed steps only. -/
theorem Throughout.allowedAlong {Inv P Doomed : State → Prop}
    (hstep : ∀ s e t, Inv s → allowed s e → step s e = some t → Inv t)
    (hbreak : ∀ s e t, Inv s → step s e = some t → P t → allowed s e ∨ Doomed t)
    (hdoomed : ∀ s e t, Doomed s → step s e = some t → P t → Doomed t) {s t : State} {es : List Event}
    (hs : Inv s) (hrun : runEvents step s es = some t) (ht : ¬ Doomed t)
    (h : Throughout step P s es) : AllowedAlong step allowed s es := by
  induction es generalizing s with
  | nil => trivial
  | cons e es ih =>
      rcases runEvents_cons hrun with ⟨s', hs', hrest⟩
      have hnext : P s' := h [e] es s' rfl (by rw [runEvents, hs']; rfl)
      rcases hbreak s e s' hs hs' hnext with hallowed | hlost
      · exact .cons hs' hallowed (ih (hstep s e s' hs hallowed hs') hrest (h.tail hs'))
      · exact absurd ((h.tail hs').doomed hdoomed hlost hrest) ht

/-- Where every allowed step keeps an invariant and every step that is not allowed breaks the
property at once, the property holds all along a run exactly when every step is allowed. -/
theorem throughout_iff_allowed {Inv P : State → Prop} (hinv : ∀ s, Inv s → P s)
    (hstep : ∀ s e t, Inv s → allowed s e → step s e = some t → Inv t)
    (hbreak : ∀ s e t, Inv s → step s e = some t → P t → allowed s e) {s t : State}
    {es : List Event} (hs : Inv s) (hrun : runEvents step s es = some t) :
    Throughout step P s es ↔ AllowedAlong step allowed s es := by
  constructor
  · -- no state is doomed
    exact fun h => @Throughout.allowedAlong _ _ step allowed Inv P (fun _ => False) hstep
      (fun s e t hs ht hp => .inl (hbreak s e t hs ht hp)) (fun _ _ _ hdoomed _ _ => hdoomed) _ _ _
      hs hrun id h
  · exact fun h => h.throughout hinv hstep hs

end HermesNode
