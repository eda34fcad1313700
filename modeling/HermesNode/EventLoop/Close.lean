/-
Module: HermesNode.EventLoop.Close
Purpose: When the loop is used after it was closed. A producer acts on the flag it read only after it
  released the mutex, so a thread caught between its push and its send, or between its check and its
  submission, when `close` gets to the handle or the loop uses what is gone; if none is caught, none
  ever does.
Trusted boundary: none
Main exports: Unhurried, UnhurriedRun, closed_never_used
-/
import HermesNode.EventLoop.Tasks

namespace HermesNode.EventLoop

variable {Thread : Type} [DecidableEq Thread] {loopThread : Thread} {s t : Loop Thread}
  {a : Action Thread}

/-- The step catches no producer: when `close` closes the async handle no thread has a wake-up yet to
send, and when `uv_loop_close` succeeds no thread has work yet to submit. -/
def Unhurried (s : Loop Thread) : Action Thread → Prop
  | .advance =>
      (s.phase = .flagged → ∀ thread c, s.calls thread = some c → c.owesSend = false) ∧
      (s.phase = .drained → s.work = 0 → ∀ thread, s.calls thread ≠ some .queueWork)
  | _ => True

/-- The runs whose every step catches no producer. -/
inductive UnhurriedRun (loopThread : Thread) : List (Action Thread) → Loop Thread → Prop where
  | start : UnhurriedRun loopThread [] Loop.init
  | step {actions : List (Action Thread)} {s t : Loop Thread} {a : Action Thread}
      (run : UnhurriedRun loopThread actions s) (unhurried : Unhurried s a)
      (taken : s.step loopThread a = some t) : UnhurriedRun loopThread (actions ++ [a]) t

/-- Neither the handle nor the loop was used after it was closed. -/
def Loop.ClosedUnused (s : Loop Thread) : Prop := s.sentClosed = false ∧ s.queuedClosed = false

/-- No thread is about to use what is closed. -/
structure Safe (s : Loop Thread) : Prop where
  handle : s.async = none → s.closed = true ∧ ∀ thread c, s.calls thread = some c →
    c.owesSend = false
  loop : s.loopClosed = true → s.closed = true ∧ ∀ thread, s.calls thread ≠ some .queueWork
  unused : s.ClosedUnused

omit [DecidableEq Thread] in
theorem Safe.init : Safe (Loop.init : Loop Thread) := by
  constructor
  · intro h
    cases h
  · intro h
    cases h
  · exact ⟨rfl, rfl⟩

theorem Safe.carry (inv : Safe s) (thread : Thread) (next : Option Call)
    (hcalls : t.calls = (s.setCall thread next).calls) (hclosed : t.closed = s.closed)
    (hasync : t.async = none → s.async = none) (hloop : t.loopClosed = s.loopClosed)
    (hunused : t.ClosedUnused)
    (howes : s.async = none → ∀ c, next = some c → c.owesSend = false)
    (hqueue : s.loopClosed = true → next ≠ some .queueWork) : Safe t where
  handle := by
    intro hnone
    obtain ⟨hflag, hall⟩ := inv.handle (hasync hnone)
    constructor
    · rw [hclosed, hflag]
    · intro other c hcall
      rw [hcalls] at hcall
      by_cases hthread : other = thread
      · subst hthread
        rw [setCall_self] at hcall
        exact howes (hasync hnone) c hcall
      · rw [setCall_other s next hthread] at hcall
        exact hall other c hcall
  loop := by
    intro hgone
    rw [hloop] at hgone
    obtain ⟨hflag, hall⟩ := inv.loop hgone
    constructor
    · rw [hclosed, hflag]
    · intro other
      rw [hcalls]
      by_cases hthread : other = thread
      · subst hthread
        rw [setCall_self]
        exact hqueue hgone
      · rw [setCall_other s next hthread]
        exact hall other
  unused := hunused

omit [DecidableEq Thread] in
/-- Nothing but the phase and what the loop counts changes. -/
theorem Safe.frame (inv : Safe s) (hcalls : t.calls = s.calls) (hclosed : s.closed = true →
      t.closed = true) (hasync : t.async = none → s.async = none)
    (hloop : t.loopClosed = s.loopClosed) (hsent : t.sentClosed = s.sentClosed)
    (hqueued : t.queuedClosed = s.queuedClosed) : Safe t where
  handle := by
    intro hnone
    rw [hcalls]
    exact ⟨hclosed (inv.handle (hasync hnone)).1, (inv.handle (hasync hnone)).2⟩
  loop := by
    intro hgone
    rw [hloop] at hgone
    rw [hcalls]
    exact ⟨hclosed (inv.loop hgone).1, (inv.loop hgone).2⟩
  unused := by
    unfold Loop.ClosedUnused
    rw [hsent, hqueued]
    exact inv.unused

omit [DecidableEq Thread] in
theorem Safe.handle_open (inv : Safe s) (hopen : s.closed = false) : s.async ≠ none := by
  intro hnone
  exact absurd ((inv.handle hnone).1.symm.trans hopen) (by decide)

omit [DecidableEq Thread] in
theorem Safe.loop_open (inv : Safe s) (hopen : s.closed = false) : s.loopClosed ≠ true := by
  intro hgone
  exact absurd ((inv.loop hgone).1.symm.trans hopen) (by decide)

theorem Safe.step (inv : Safe s) (stage : Stage s) (hunhurried : Unhurried s a)
    (h : Effect loopThread s a t) : Safe t := by
  cases h with
  | reject hclosed => exact inv.frame rfl id id rfl rfl rfl
  | push thread hopen hfree houtside =>
      refine inv.carry thread _ rfl rfl id rfl inv.unused ?_ ?_
      · intro hnone
        exact absurd hnone (inv.handle_open hopen)
      · intro hgone
        exact absurd hgone (inv.loop_open hopen)
  | cancel => exact inv
  | check thread hopen hfree =>
      refine inv.carry thread _ rfl rfl id rfl inv.unused ?_ ?_
      · intro hnone
        exact absurd hnone (inv.handle_open hopen)
      · intro hgone
        exact absurd hgone (inv.loop_open hopen)
  | count n hfree houtside =>
      refine inv.carry loopThread (some (.update false)) rfl rfl id rfl inv.unused ?_ ?_
      · intro _ c hc
        cases hc
        rfl
      · intro _ hc
        cases hc
  | skip thread thenSend hclosed hcall =>
      refine inv.carry thread (Call.after thenSend) rfl rfl id rfl inv.unused ?_ ?_
      · intro hnone c hc
        have howes := (inv.handle hnone).2 thread _ hcall
        cases thenSend with
        | false => cases hc
        | true => cases howes
      · intro _ hc
        cases thenSend <;> cases hc
  | read thread thenSend hopen hcall =>
      refine inv.carry thread _ rfl rfl id rfl inv.unused ?_ ?_
      · intro hnone
        exact absurd hnone (inv.handle_open hopen)
      · intro _ hc
        cases hc
  | apply thread alive thenSend hcall =>
      refine inv.carry thread (Call.after thenSend) rfl rfl ?_ rfl inv.unused ?_ ?_
      · intro hnone
        exact Option.map_eq_none_iff.mp hnone
      · intro hnone c hc
        have howes := (inv.handle hnone).2 thread _ hcall
        cases thenSend with
        | false => cases hc
        | true => cases howes
      · intro _ hc
        cases thenSend <;> cases hc
  | send thread hcall =>
      -- The handle is there: a thread about to send owes a wake-up.
      have hsome : s.async ≠ none := by
        intro hnone
        have howes := (inv.handle hnone).2 thread _ hcall
        cases howes
      refine inv.carry thread none rfl rfl ?_ rfl ?_ ?_ ?_
      · intro hnone
        exact Option.map_eq_none_iff.mp hnone
      · constructor
        · have hsent : (s.sentClosed || s.async.isNone) = false := by
            simpa [inv.unused.1] using Option.isSome_iff_ne_none.mpr hsome
          exact hsent
        · exact inv.unused.2
      · intro _ c hc
        cases hc
      · intro _ hc
        cases hc
  | queue thread hcall =>
      have hloop : s.loopClosed = false := by
        cases hgone : s.loopClosed with
        | false => rfl
        | true => exact absurd hcall ((inv.loop hgone).2 thread)
      refine inv.carry thread none rfl rfl id rfl ?_ ?_ ?_
      · constructor
        · exact inv.unused.1
        · have hqueued : (s.queuedClosed || s.loopClosed) = false := by
            simp [inv.unused.2, hloop]
          exact hqueued
      · intro _ c hc
        cases hc
      · intro _ hc
        cases hc
  | workDone => exact inv.frame rfl id id rfl rfl rfl
  | wake handle hfree hidle hasync hpending =>
      exact inv.frame rfl id (fun h => by cases h) rfl rfl rfl
  | close hfree hidle => exact inv.frame rfl (fun _ => rfl) id rfl rfl rfl
  | drainNothing closing hfree hphase hempty => exact inv.frame rfl id id rfl rfl rfl
  | drain closing task rest hfree hphase htasks => exact inv.frame rfl id id rfl rfl rfl
  | next closing task rest last hfree hphase => exact inv.frame rfl id id rfl rfl rfl
  | finish closing last hfree hphase =>
      refine inv.carry loopThread (some (.update false)) rfl rfl id rfl inv.unused ?_ ?_
      · intro _ c hc
        cases hc
        rfl
      · intro _ hc
        cases hc
  | closeHandle hfree hphase =>
      have hflag := stage.flag
      rw [hphase] at hflag
      refine ⟨fun _ => ⟨hflag.symm, hunhurried.1 hphase⟩, inv.loop, inv.unused⟩
  | closeLoop hfree hphase =>
      have hflag := stage.flag
      rw [hphase] at hflag
      refine ⟨inv.handle, ?_, inv.unused⟩
      intro hgone
      have hwork : s.work = 0 := by simpa using hgone
      exact ⟨hflag.symm, hunhurried.2 hphase hwork⟩

theorem unhurriedRun_safe {actions : List (Action Thread)}
    (h : UnhurriedRun loopThread actions s) : Stage s ∧ Safe s := by
  induction h with
  | start => exact ⟨Stage.init, Safe.init⟩
  | step run unhurried taken ih =>
      obtain ⟨stage, safe⟩ := ih
      have heffect := step_effect taken
      exact ⟨stage.step heffect, safe.step stage unhurried heffect⟩

/-- In a run that catches no producer, nothing is used after it was closed. -/
theorem closed_never_used {actions : List (Action Thread)}
    (h : UnhurriedRun loopThread actions s) : s.ClosedUnused :=
  (unhurriedRun_safe h).2.unused

/-- A task is posted and its wake-up sent before the loop is closed to the end. -/
theorem postThenClose_unused : ∃ s, UnhurriedRun (0 : Nat)
    [.postTask 1, .proceed 1, .close, .advance, .advance] s ∧ s.executed = [(0, 0)] ∧
      s.ClosedUnused := by
  have hstart : UnhurriedRun (0 : Nat) [] Loop.init := UnhurriedRun.start
  have hposted := UnhurriedRun.step (a := .postTask 1) hstart trivial rfl
  have hsent := UnhurriedRun.step (a := .proceed 1) hposted trivial rfl
  have hclosing := UnhurriedRun.step (a := .close) hsent trivial rfl
  have hshut := UnhurriedRun.step (a := .advance) hclosing (by
    constructor
    · intro _ thread c hcall
      by_cases hthread : thread = 1
      · simp [Loop.postTask, Loop.proceed, Loop.setCall, Loop.init, hthread] at hcall
      · simp [Loop.postTask, Loop.proceed, Loop.setCall, Loop.asyncSend, Loop.init, hthread]
          at hcall
    · intro hphase
      cases hphase) rfl
  have hdrained := UnhurriedRun.step (a := .advance) hshut (by
    constructor
    · intro hphase
      cases hphase
    · intro hphase
      cases hphase) rfl
  exact ⟨_, hdrained, rfl, closed_never_used hdrained⟩

/-- The producer is caught between its push and its send: `close` closes the handle under it. And
another is caught between its check and its submission: the loop is gone when it submits. -/
theorem caught_producers :
    (∃ s, runEvents (Loop.step 0) (Loop.init : Loop Nat)
      [.postTask 1, .close, .advance, .proceed 1] = some s ∧ s.sentClosed = true) ∧
    ∃ s, runEvents (Loop.step 0) (Loop.init : Loop Nat)
      [.postWork 1, .close, .advance, .advance, .advance, .proceed 1] = some s ∧
      s.queuedClosed = true :=
  ⟨⟨_, rfl, rfl⟩, ⟨_, rfl, rfl⟩⟩

end HermesNode.EventLoop
