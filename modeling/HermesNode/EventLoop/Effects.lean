/-
Module: HermesNode.EventLoop.Effects
Purpose: What a step of the event loop can do, said once: one constructor for each mutex section and
  each libuv call, with what the code knows there. Every invariant is a case analysis over them.
Trusted boundary: none
Main exports: Effect, step_effect
-/
import HermesNode.EventLoop.Loop

namespace HermesNode.EventLoop

variable {Thread : Type} [DecidableEq Thread] {loopThread : Thread} {s t : Loop Thread}

@[simp] theorem setCall_self (s : Loop Thread) (thread : Thread) (c : Option Call) :
    (s.setCall thread c).calls thread = c := by
  simp [Loop.setCall]

theorem setCall_other (s : Loop Thread) {thread other : Thread} (c : Option Call)
    (h : other ≠ thread) : (s.setCall thread c).calls other = s.calls other := by
  simp [Loop.setCall, h]

omit [DecidableEq Thread] in
/-- Sending a wake-up touches the handle, or nothing but the record of the misuse. -/
theorem asyncSend_eq (s : Loop Thread) :
    s.asyncSend =
      { s with
        async := s.async.map fun handle => { handle with pending := true }
        sentClosed := s.sentClosed || s.async.isNone } := by
  obtain ⟨tasks, loopRefs, closed, async, work, loopClosed, phase, calls, posts, pushed, rejected,
    executed, sentClosed, queuedClosed⟩ := s
  cases async with
  | none => simp [Loop.asyncSend]
  | some handle => simp [Loop.asyncSend]

omit [DecidableEq Thread] in
theorem queueWork_eq (s : Loop Thread) :
    s.queueWork =
      { s with
        work := if s.loopClosed then s.work else s.work + 1
        queuedClosed := s.queuedClosed || s.loopClosed } := by
  obtain ⟨tasks, loopRefs, closed, async, work, loopClosed, phase, calls, posts, pushed, rejected,
    executed, sentClosed, queuedClosed⟩ := s
  cases loopClosed with
  | false => simp [Loop.queueWork]
  | true => simp [Loop.queueWork]

/-- What one step of the event loop does. Which action it is matters where `close` takes something
away. -/
inductive Effect (loopThread : Thread) (s : Loop Thread) : Action Thread → Loop Thread → Prop where
  | reject {a : Action Thread} (hclosed : s.closed = true) :
      Effect loopThread s a { s with posts := s.posts + 1, rejected := s.rejected ++ [s.posts] }
  | push {a : Action Thread} (thread : Thread) (hopen : s.closed = false)
      (hfree : s.calls thread = none)
      (houtside : thread = loopThread → s.phase.outside = true) :
      Effect loopThread s a
        (Loop.setCall
          { s with
            tasks := s.posts :: s.tasks
            posts := s.posts + 1
            pushed := s.pushed ++ [s.posts] }
          thread (some (if thread = loopThread then .update true else .send)))
  | cancel {a : Action Thread} : Effect loopThread s a s
  | check {a : Action Thread} (thread : Thread) (hopen : s.closed = false)
      (hfree : s.calls thread = none) :
      Effect loopThread s a (s.setCall thread (some .queueWork))
  | count {a : Action Thread} (n : Nat) (hfree : s.calls loopThread = none)
      (houtside : s.phase.outside = true) :
      Effect loopThread s a
        (Loop.setCall { s with loopRefs := n } loopThread (some (.update false)))
  | skip {a : Action Thread} (thread : Thread) (thenSend : Bool) (hclosed : s.closed = true)
      (hcall : s.calls thread = some (.update thenSend)) :
      Effect loopThread s a (s.setCall thread (Call.after thenSend))
  | read {a : Action Thread} (thread : Thread) (thenSend : Bool) (hopen : s.closed = false)
      (hcall : s.calls thread = some (.update thenSend)) :
      Effect loopThread s a
        (s.setCall thread (some (.apply (!s.tasks.isEmpty || 0 < s.loopRefs) thenSend)))
  | apply {a : Action Thread} (thread : Thread) (alive thenSend : Bool)
      (hcall : s.calls thread = some (.apply alive thenSend)) :
      Effect loopThread s a
        (Loop.setCall
          { s with async := s.async.map fun handle => { handle with referenced := alive } }
          thread (Call.after thenSend))
  | send {a : Action Thread} (thread : Thread) (hcall : s.calls thread = some .send) :
      Effect loopThread s a
        (Loop.setCall
          { s with
            async := s.async.map fun handle => { handle with pending := true }
            sentClosed := s.sentClosed || s.async.isNone }
          thread none)
  | queue {a : Action Thread} (thread : Thread) (hcall : s.calls thread = some .queueWork) :
      Effect loopThread s a
        (Loop.setCall
          { s with
            work := if s.loopClosed then s.work else s.work + 1
            queuedClosed := s.queuedClosed || s.loopClosed }
          thread none)
  | workDone {a : Action Thread} : Effect loopThread s a { s with work := s.work - 1 }
  | wake {a : Action Thread} (handle : Async) (hfree : s.calls loopThread = none)
      (hidle : s.phase = .idle)
      (hasync : s.async = some handle) (hpending : handle.pending = true) :
      Effect loopThread s a
        { s with async := some { handle with pending := false }, phase := .entered }
  | close {a : Action Thread} (hfree : s.calls loopThread = none) (hidle : s.phase = .idle) :
      Effect loopThread s a { s with closed := true, phase := .flagged }
  | drainNothing {a : Action Thread} (closing : Bool) (hfree : s.calls loopThread = none)
      (hphase : s.phase = if closing then .shut else .entered) (hempty : s.tasks = []) :
      Effect loopThread s a { s with phase := if closing then .drained else .idle }
  | drain {a : Action Thread} (closing : Bool) (task : Entry) (rest : List Entry)
      (hfree : s.calls loopThread = none)
      (hphase : s.phase = if closing then .shut else .entered)
      (htasks : s.tasks.reverse = task :: rest) :
      Effect loopThread s a
        { s with
          tasks := []
          phase := .running task rest closing
          executed := s.executed ++ [(task, loopThread)] }
  | next {a : Action Thread} (closing : Bool) (task : Entry) (rest : List Entry) (last : Entry)
      (hfree : s.calls loopThread = none) (hphase : s.phase = .running last (task :: rest) closing) :
      Effect loopThread s a
        { s with
          phase := .running task rest closing
          executed := s.executed ++ [(task, loopThread)] }
  | finish {a : Action Thread} (closing : Bool) (last : Entry) (hfree : s.calls loopThread = none)
      (hphase : s.phase = .running last [] closing) :
      Effect loopThread s a
        (Loop.setCall { s with phase := if closing then .drained else .idle } loopThread
          (some (.update false)))
  | closeHandle (hfree : s.calls loopThread = none) (hphase : s.phase = .flagged) :
      Effect loopThread s .advance { s with async := none, phase := .shut }
  | closeLoop (hfree : s.calls loopThread = none) (hphase : s.phase = .drained) :
      Effect loopThread s .advance { s with phase := .returned, loopClosed := s.work == 0 }

theorem mayCall_iff {thread : Thread} :
    s.mayCall loopThread thread = true ↔
      s.calls thread = none ∧ (thread = loopThread → s.phase.outside = true) := by
  by_cases h : thread = loopThread
  · simp [Loop.mayCall, h]
  · simp [Loop.mayCall, h]

theorem steal_effect {a : Action Thread} {closing : Bool} (hfree : s.calls loopThread = none)
    (hphase : s.phase = if closing then .shut else .entered) :
    Effect loopThread s a (s.steal loopThread closing) := by
  unfold Loop.steal
  split
  · rename_i hempty
    exact Effect.drainNothing closing hfree hphase (List.isEmpty_iff.mp hempty)
  · rename_i hsome
    cases hstolen : s.tasks.reverse with
    | nil =>
        rw [List.reverse_eq_nil_iff] at hstolen
        exact absurd (List.isEmpty_iff.mpr hstolen) hsome
    | cons task rest => exact Effect.drain closing task rest hfree hphase hstolen

theorem advance_effect (hfree : s.calls loopThread = none) (h : s.advance loopThread = some t) :
    Effect loopThread s .advance t := by
  unfold Loop.advance at h
  cases hphase : s.phase with
  | idle => simp [hphase] at h
  | returned => simp [hphase] at h
  | entered =>
      simp only [hphase, Option.some.injEq] at h
      subst h
      exact steal_effect hfree hphase
  | shut =>
      simp only [hphase, Option.some.injEq] at h
      subst h
      exact steal_effect hfree hphase
  | flagged =>
      simp only [hphase, Option.some.injEq] at h
      subst h
      exact Effect.closeHandle hfree hphase
  | drained =>
      simp only [hphase, Option.some.injEq] at h
      subst h
      exact Effect.closeLoop hfree hphase
  | running last rest closing =>
      simp only [hphase, Option.some.injEq] at h
      subst h
      cases rest with
      | nil => exact Effect.finish closing last hfree hphase
      | cons task rest => exact Effect.next closing task rest last hfree hphase

theorem proceed_effect {a : Action Thread} {thread : Thread} {c : Call} (h : s.calls thread = some c) :
    Effect loopThread s a (s.proceed thread c) := by
  cases c with
  | update thenSend =>
      unfold Loop.proceed
      dsimp only
      split
      · rename_i hclosed
        exact Effect.skip thread thenSend hclosed h
      · rename_i hopen
        exact Effect.read thread thenSend (eq_false_of_ne_true hopen) h
  | apply alive thenSend => exact Effect.apply thread alive thenSend h
  | send =>
      unfold Loop.proceed
      rw [asyncSend_eq]
      exact Effect.send thread h
  | queueWork =>
      unfold Loop.proceed
      rw [queueWork_eq]
      exact Effect.queue thread h

theorem step_effect {a : Action Thread} (h : s.step loopThread a = some t) :
    Effect loopThread s a t := by
  cases a with
  | postTask thread =>
      simp only [Loop.step, Option.ite_none_right_eq_some, Option.some.injEq, mayCall_iff] at h
      obtain ⟨⟨hfree, houtside⟩, hnext⟩ := h
      subst hnext
      unfold Loop.postTask
      split
      · rename_i hclosed
        exact Effect.reject hclosed
      · rename_i hopen
        exact Effect.push thread (eq_false_of_ne_true hopen) hfree houtside
  | postWork thread =>
      simp only [Loop.step, Option.ite_none_right_eq_some, Option.some.injEq, mayCall_iff] at h
      obtain ⟨⟨hfree, houtside⟩, hnext⟩ := h
      subst hnext
      unfold Loop.postWork
      split
      · exact Effect.cancel
      · rename_i hopen
        exact Effect.check thread (eq_false_of_ne_true hopen) hfree
  | refLoop =>
      simp only [Loop.step, Option.ite_none_right_eq_some, Option.some.injEq, mayCall_iff] at h
      obtain ⟨⟨hfree, houtside⟩, hnext⟩ := h
      subst hnext
      exact Effect.count (s.loopRefs + 1) hfree (houtside trivial)
  | unrefLoop =>
      simp only [Loop.step, Option.ite_none_right_eq_some, Option.some.injEq, Bool.and_eq_true,
        mayCall_iff] at h
      obtain ⟨⟨⟨hfree, houtside⟩, hpos⟩, hnext⟩ := h
      subst hnext
      exact Effect.count (s.loopRefs - 1) hfree (houtside trivial)
  | proceed thread =>
      simp only [Loop.step, Option.map_eq_some_iff] at h
      obtain ⟨c, hcall, hnext⟩ := h
      subst hnext
      exact proceed_effect hcall
  | workDone =>
      simp only [Loop.step, Option.ite_none_right_eq_some, Option.some.injEq] at h
      obtain ⟨hguard, hnext⟩ := h
      subst hnext
      exact Effect.workDone
  | wake =>
      unfold Loop.step at h
      cases hasync : s.async with
      | none => simp [hasync] at h
      | some handle =>
          simp only [hasync, Option.ite_none_right_eq_some, Option.some.injEq, Bool.and_eq_true,
            Option.isNone_iff_eq_none, beq_iff_eq] at h
          obtain ⟨⟨⟨hfree, hidle⟩, hpending⟩, hnext⟩ := h
          subst hnext
          exact Effect.wake handle hfree hidle hasync hpending
  | close =>
      simp only [Loop.step, Option.ite_none_right_eq_some, Option.some.injEq, Bool.and_eq_true,
        Option.isNone_iff_eq_none, beq_iff_eq] at h
      obtain ⟨⟨hfree, hidle⟩, hnext⟩ := h
      subst hnext
      exact Effect.close hfree hidle
  | advance =>
      simp only [Loop.step, Option.ite_none_right_eq_some, Option.isNone_iff_eq_none] at h
      exact advance_effect h.1 h.2

end HermesNode.EventLoop
