/-
Module: HermesNode.Inspector.BridgeLaws
Purpose: What the bridge keeps in every interleaving of its two threads. The phases of the threads
  fit together; the flags say which handles are open and who may be in the middle of a callback; and
  with that the two mailboxes keep their laws, as long as the agent speaks to an inspector that can
  be woken and neither thread leaves with something in its queue. Where a message is pushed before
  the inspector starts, a command waits at the shutdown or a message at the end of the loop, a
  promise is broken.
Trusted boundary: none
Main exports: Placed, Flagged, nothing_lost, lawful_throughout_iff
-/
import HermesNode.Inspector.Bridge

namespace HermesNode.Inspector

variable {s t : State} {e : Event}

/-! ### The phases of the two threads -/

/-- The inspector is on its way and has not come to its loop. -/
def InspectorPhase.starts : InspectorPhase → Bool
  | .booting | .half | .bound | .registered => true
  | .absent | .looping | .stopping | .unflagged | .unsignalled | .closed | .exited => false

/-- The inspector is behind its loop and not at its end. -/
def InspectorPhase.winds : InspectorPhase → Bool
  | .stopping | .unflagged | .unsignalled | .closed => true
  | .absent | .booting | .half | .bound | .registered | .looping | .exited => false

theorem InspectorPhase.starts_of_canFail {i : InspectorPhase} (h : i.canFail = true) :
    i.starts = true := by
  cases i <;> first | rfl | cases h

/-- Which phases of the two threads occur together. -/
def Together : MainPhase → InspectorPhase → Prop
  | .starting, i => i = .absent
  | .waiting, i => i ≠ .absent
  | .running, i => i = .looping ∨ i = .exited
  | .signalled, i | .unflagged, i | .agentless, i => i ≠ .absent ∧ i.starts = false
  | .joined, i | .closed, i => i = .exited

theorem Together.waiting_of_starts {m : MainPhase} {i : InspectorPhase} (h : Together m i)
    (hi : i.starts = true) : m = .waiting := by
  cases m with
  | starting => cases h; cases hi
  | waiting => rfl
  | running => rcases h with rfl | rfl <;> cases hi
  | signalled => cases h.2.symm.trans hi
  | unflagged => cases h.2.symm.trans hi
  | agentless => cases h.2.symm.trans hi
  | joined => cases h; cases hi
  | closed => cases h; cases hi

/-- An inspector that winds up does so behind the program of the main thread, or before it. -/
theorem Together.later {m : MainPhase} {i j : InspectorPhase} (h : Together m i)
    (hi : i.winds = true) (hj : j ≠ .absent ∧ j.starts = false) : Together m j := by
  cases m with
  | starting => cases h; cases hi
  | waiting => exact hj.1
  | running => rcases h with rfl | rfl <;> cases hi
  | signalled => exact hj
  | unflagged => exact hj
  | agentless => exact hj
  | joined => cases h; cases hi
  | closed => cases h; cases hi

/-- A main thread that shuts down has not joined an inspector that still loops. -/
theorem Together.stop {m : MainPhase} (h : Together m .looping) (hm : m.shutsDown = true) :
    Together m .stopping := by
  cases m with
  | starting => cases h
  | waiting => cases hm
  | running => cases hm
  | signalled => exact ⟨by rintro ⟨⟩, rfl⟩
  | unflagged => exact ⟨by rintro ⟨⟩, rfl⟩
  | agentless => exact ⟨by rintro ⟨⟩, rfl⟩
  | joined => cases h
  | closed => cases h

structure Placed (s : State) : Prop where
  together : Together s.main s.inspector
  ready : s.ready = true →
    s.inspector = .looping ∨ s.inspector = .exited ∨ s.main.shutsDown = true
  pending : s.shutdownAsync = .opened true → s.main.shutsDown = true

theorem placed_first : Placed first where
  together := rfl
  ready := by intro h; cases h
  pending := by intro h; cases h

/-- A thread is launched while there is no other. -/
theorem Placed.absent_of_launch (h : Placed s) (hen : enabled s .launch = true) :
    s.inspector = .absent := by
  simp only [enabled, Bool.and_eq_true, beq_iff_eq] at hen
  have habsent := h.together
  rw [hen.1] at habsent
  exact habsent

theorem Placed.while_starting (h : Placed s) (hi : s.inspector.starts = true) :
    s.main = .waiting ∧ s.ready = false := by
  have hmain := h.together.waiting_of_starts hi
  refine ⟨hmain, Bool.eq_false_iff.mpr fun hready => ?_⟩
  rcases h.ready hready with heq | heq | hshut
  · rw [heq] at hi
    cases hi
  · rw [heq] at hi
    cases hi
  · rw [hmain] at hshut
    cases hshut

/-- The inspector thread goes on in its start, or leaves it. -/
theorem Placed.boot (h : Placed s) (hi : s.inspector.starts = true) (ht : t.main = s.main)
    (htready : t.ready = s.ready) (hplace : t.inspector ≠ .absent)
    (hpending : t.shutdownAsync = .opened true → s.shutdownAsync = .opened true) : Placed t := by
  rcases h.while_starting hi with ⟨hmain, hready⟩
  constructor
  · rw [ht, hmain]
    exact hplace
  · intro hr
    rw [htready, hready] at hr
    cases hr
  · intro hp
    rw [ht]
    exact h.pending (hpending hp)

theorem Placed.wind (h : Placed s) (hi : s.inspector.winds = true) (ht : t.main = s.main)
    (hj : t.inspector ≠ .absent ∧ t.inspector.starts = false)
    (hready : t.ready = true → t.inspector = .exited ∨ s.ready = true)
    (hpending : t.shutdownAsync = .opened true → s.shutdownAsync = .opened true) : Placed t := by
  constructor
  · rw [ht]
    exact h.together.later hi hj
  · intro hr
    rw [ht]
    rcases hready hr with hexited | hbefore
    · exact Or.inr (Or.inl hexited)
    · rcases h.ready hbefore with heq | heq | hshut
      · rw [heq] at hi
        cases hi
      · rw [heq] at hi
        cases hi
      · exact Or.inr (Or.inr hshut)
  · intro hp
    rw [ht]
    exact h.pending (hpending hp)

theorem Placed.step (h : Placed s) (ht : step s e = some t) : Placed t := by
  rcases step_cases ht with ⟨hen, rfl⟩
  cases e with
  | launch =>
      simp only [enabled, Bool.and_eq_true, beq_iff_eq] at hen
      have htogether := h.together
      rw [hen.1] at htogether
      have hnot := h.ready
      rw [htogether, hen.1] at hnot
      refine ⟨?_, fun hready => ?_, fun hp => ?_⟩
      · intro heq
        cases heq
      · rcases hnot hready with heq | heq | heq <;> cases heq
      · have hshut := h.pending hp
        rw [hen.1] at hshut
        cases hshut
  | proceed =>
      simp only [enabled, Bool.and_eq_true, beq_iff_eq] at hen
      have hplace := h.ready hen.2
      rw [hen.1] at hplace
      have hout : s.inspector = .looping ∨ s.inspector = .exited := by
        rcases hplace with heq | heq | heq
        · exact Or.inl heq
        · exact Or.inr heq
        · cases heq
      refine ⟨hout, fun _ => ?_, fun hp => ?_⟩
      · exact hout.imp_right Or.inl
      · have hshut := h.pending hp
        rw [hen.1] at hshut
        cases hshut
  | signalShutdown =>
      simp only [enabled, Bool.and_eq_true, beq_iff_eq] at hen
      have htogether := h.together
      rw [hen.1] at htogether
      refine ⟨?_, fun _ => Or.inr (Or.inr rfl), fun _ => rfl⟩
      change s.inspector ≠ .absent ∧ s.inspector.starts = false
      rcases htogether with heq | heq
      · rw [heq]
        exact ⟨by rintro ⟨⟩, rfl⟩
      · rw [heq]
        exact ⟨by rintro ⟨⟩, rfl⟩
  | clearAsyncActive =>
      simp only [enabled, beq_iff_eq] at hen
      have htogether := h.together
      rw [hen] at htogether
      exact ⟨htogether, fun _ => Or.inr (Or.inr rfl), fun _ => rfl⟩
  | clearAgent =>
      simp only [enabled, beq_iff_eq] at hen
      have htogether := h.together
      rw [hen] at htogether
      exact ⟨htogether, fun _ => Or.inr (Or.inr rfl), fun _ => rfl⟩
  | join =>
      simp only [enabled, Bool.and_eq_true, beq_iff_eq] at hen
      exact ⟨hen.2, fun _ => Or.inr (Or.inr rfl), fun _ => rfl⟩
  | closeAsyncHandle =>
      simp only [enabled, Bool.and_eq_true, beq_iff_eq] at hen
      have htogether := h.together
      rw [hen.1] at htogether
      exact ⟨htogether, fun _ => Or.inr (Or.inr rfl), fun _ => rfl⟩
  | initInspectorAsync =>
      simp only [enabled, beq_iff_eq] at hen
      exact h.boot (by rw [hen]; rfl) rfl rfl (by rintro ⟨⟩) id
  | initShutdownAsync =>
      simp only [enabled, beq_iff_eq] at hen
      exact h.boot (by rw [hen]; rfl) rfl rfl (by rintro ⟨⟩) (by rintro ⟨⟩)
  | setMessageCallback =>
      simp only [enabled, beq_iff_eq] at hen
      exact h.boot (by rw [hen]; rfl) rfl rfl (by rintro ⟨⟩) id
  | runLoop =>
      simp only [enabled, beq_iff_eq] at hen
      exact h.boot (by rw [hen]; rfl) rfl rfl (by rintro ⟨⟩) id
  | fail => exact h.boot (InspectorPhase.starts_of_canFail hen) rfl rfl (by rintro ⟨⟩) id
  | notifyReady =>
      simp only [enabled, Bool.and_eq_true, beq_iff_eq] at hen
      exact ⟨h.together, fun _ => Or.inl hen.1, h.pending⟩
  | onShutdownAsync =>
      simp only [enabled, Bool.and_eq_true, beq_iff_eq] at hen
      have hshut := h.pending hen.2
      have htogether := h.together
      rw [hen.1.1] at htogether
      refine ⟨htogether.stop hshut, fun _ => Or.inr (Or.inr hshut), fun hp => ?_⟩
      exact absurd hp (WakeHandle.consume_not_pending _)
  | clearInspectorAsyncActive =>
      simp only [enabled, Bool.and_eq_true, beq_iff_eq] at hen
      exact h.wind (by rw [hen.1.1]; rfl) rfl ⟨by rintro ⟨⟩, rfl⟩ Or.inr id
  | clearCanSendShutdown =>
      simp only [enabled, beq_iff_eq] at hen
      exact h.wind (by rw [hen]; rfl) rfl ⟨by rintro ⟨⟩, rfl⟩ Or.inr id
  | closeLoop =>
      simp only [enabled, beq_iff_eq] at hen
      refine h.wind (by rw [hen]; rfl) rfl ⟨by rintro ⟨⟩, rfl⟩ Or.inr fun hp => ?_
      exact absurd hp (WakeHandle.shut_not_pending _)
  | threadEnds =>
      simp only [enabled, beq_iff_eq] at hen
      exact h.wind (by rw [hen]; rfl) rfl ⟨by rintro ⟨⟩, rfl⟩ (fun _ => Or.inl rfl) id
  | _ => exact ⟨h.together, h.ready, h.pending⟩

/-! ### The flags and the handles -/

/-- `inspectorAsync` is there and nobody has begun to clear its flag. -/
def InspectorPhase.hears : InspectorPhase → Bool
  | .half | .bound | .registered | .looping | .stopping => true
  | .absent | .booting | .unflagged | .unsignalled | .closed | .exited => false

/-- `inspectorAsync` is there and the inspector has not stopped. -/
def InspectorPhase.isUp : InspectorPhase → Bool
  | .half | .bound | .registered | .looping => true
  | .absent | .booting | .stopping | .unflagged | .unsignalled | .closed | .exited => false

/-- `canSendShutdown` has been cleared. -/
def InspectorPhase.isDeaf : InspectorPhase → Bool
  | .unsignalled | .closed | .exited => true
  | .absent | .booting | .half | .bound | .registered | .looping | .stopping | .unflagged => false

def MainPhase.isFlagged : MainPhase → Bool
  | .starting | .waiting | .running | .signalled => true
  | .unflagged | .agentless | .joined | .closed => false

def MainPhase.hasAgent : MainPhase → Bool
  | .starting | .waiting | .running | .signalled | .unflagged => true
  | .agentless | .joined | .closed => false

theorem MainPhase.isFlagged_of_before {m : MainPhase} (h : m.shutsDown = false) :
    m.isFlagged = true := by
  cases m <;> first | rfl | cases h

theorem MainPhase.hasAgent_of_before {m : MainPhase} (h : m.shutsDown = false) :
    m.hasAgent = true := by
  cases m <;> first | rfl | cases h

theorem MainPhase.hasAgent_of_late {m : MainPhase} (h : m.shutsDown = true)
    (hcode : m.runsCode = true) : m.hasAgent = false := by
  cases m with
  | starting => cases h
  | waiting => cases h
  | running => cases h
  | signalled => cases hcode
  | unflagged => cases hcode
  | agentless => rfl
  | joined => rfl
  | closed => rfl

structure Flagged (s : State) : Prop where
  active : s.inspectorAsyncActive = true →
    s.outbound.handle.isOpened = true ∧ s.inspector.hears = true
  up : s.inspector.isUp = true → s.inspectorAsyncActive = true
  sendable : s.canSendShutdown = true →
    s.shutdownAsync.isOpened = true ∧ s.inspector.isDeaf = false
  flag : s.asyncActive = s.main.isFlagged
  agent : s.agent = s.main.hasAgent
  handle : s.main ≠ .closed → s.inbound.handle.isOpened = true

theorem flagged_first : Flagged first where
  active := by intro h; cases h
  up := by intro h; cases h
  sendable := by intro h; cases h
  flag := rfl
  agent := rfl
  handle := fun _ => rfl

theorem Flagged.active_step (h : Flagged s) (hp : Placed s) (ht : step s e = some t)
    (hactive : t.inspectorAsyncActive = true) :
    t.outbound.handle.isOpened = true ∧ t.inspector.hears = true := by
  rcases step_cases ht with ⟨hen, rfl⟩
  cases e with
  | launch =>
      have hhears := (h.active hactive).2
      rw [hp.absent_of_launch hen] at hhears
      cases hhears
  | sendInspectorAsync =>
      exact ⟨(Mailbox.isOpened_signal _).trans (h.active hactive).1, (h.active hactive).2⟩
  | onOutboundAsync =>
      exact ⟨(WakeHandle.isOpened_consume _).trans (h.active hactive).1, (h.active hactive).2⟩
  | initInspectorAsync => exact ⟨rfl, rfl⟩
  | initShutdownAsync => exact ⟨(h.active hactive).1, rfl⟩
  | setMessageCallback => exact ⟨(h.active hactive).1, rfl⟩
  | runLoop => exact ⟨(h.active hactive).1, rfl⟩
  | fail => exact ⟨(h.active hactive).1, rfl⟩
  | onShutdownAsync => exact ⟨(h.active hactive).1, rfl⟩
  | clearInspectorAsyncActive => cases hactive
  | clearCanSendShutdown =>
      simp only [enabled, beq_iff_eq] at hen
      have hhears := (h.active hactive).2
      rw [hen] at hhears
      cases hhears
  | closeLoop =>
      simp only [enabled, beq_iff_eq] at hen
      have hhears := (h.active hactive).2
      rw [hen] at hhears
      cases hhears
  | threadEnds =>
      simp only [enabled, beq_iff_eq] at hen
      have hhears := (h.active hactive).2
      rw [hen] at hhears
      cases hhears
  | _ => exact h.active hactive

theorem Flagged.up_step (h : Flagged s) (ht : step s e = some t)
    (hup : t.inspector.isUp = true) : t.inspectorAsyncActive = true := by
  rcases step_cases ht with ⟨hen, rfl⟩
  cases e with
  | launch | fail | onShutdownAsync | clearInspectorAsyncActive | clearCanSendShutdown | closeLoop
  | threadEnds => cases hup
  | initInspectorAsync => rfl
  | initShutdownAsync | setMessageCallback | runLoop =>
      simp only [enabled, beq_iff_eq] at hen
      exact h.up (by rw [hen]; rfl)
  | _ => exact h.up hup

/-- So may its shutdown handle. -/
theorem Flagged.sendable_step (h : Flagged s) (ht : step s e = some t)
    (hsend : t.canSendShutdown = true) :
    t.shutdownAsync.isOpened = true ∧ t.inspector.isDeaf = false := by
  rcases step_cases ht with ⟨hen, rfl⟩
  cases e with
  | launch => exact ⟨(h.sendable hsend).1, rfl⟩
  | signalShutdown =>
      refine ⟨?_, (h.sendable hsend).2⟩
      change (if s.canSendShutdown then s.shutdownAsync.signal else _).isOpened = true
      split
      · exact (WakeHandle.isOpened_signal _).trans (h.sendable hsend).1
      · exact (h.sendable hsend).1
  | initInspectorAsync => exact ⟨(h.sendable hsend).1, rfl⟩
  | initShutdownAsync => exact ⟨rfl, rfl⟩
  | setMessageCallback => exact ⟨(h.sendable hsend).1, rfl⟩
  | runLoop => exact ⟨(h.sendable hsend).1, rfl⟩
  | fail => exact ⟨(h.sendable hsend).1, rfl⟩
  | onShutdownAsync =>
      exact ⟨(WakeHandle.isOpened_consume _).trans (h.sendable hsend).1, rfl⟩
  | clearInspectorAsyncActive => exact ⟨(h.sendable hsend).1, rfl⟩
  | clearCanSendShutdown => cases hsend
  | closeLoop =>
      simp only [enabled, beq_iff_eq] at hen
      have hdeaf := (h.sendable hsend).2
      rw [hen] at hdeaf
      cases hdeaf
  | threadEnds =>
      simp only [enabled, beq_iff_eq] at hen
      have hdeaf := (h.sendable hsend).2
      rw [hen] at hdeaf
      cases hdeaf
  | _ => exact h.sendable hsend

theorem Flagged.flag_step (h : Flagged s) (ht : step s e = some t) :
    t.asyncActive = t.main.isFlagged := by
  rcases step_cases ht with ⟨hen, rfl⟩
  have hflag := h.flag
  cases e with
  | launch | proceed | signalShutdown | join | closeAsyncHandle =>
      simp only [enabled, Bool.and_eq_true, beq_iff_eq] at hen
      rw [hen.1] at hflag
      exact hflag
  | clearAsyncActive => rfl
  | clearAgent =>
      simp only [enabled, beq_iff_eq] at hen
      rw [hen] at hflag
      exact hflag
  | _ => exact hflag

theorem Flagged.agent_step (h : Flagged s) (ht : step s e = some t) :
    t.agent = t.main.hasAgent := by
  rcases step_cases ht with ⟨hen, rfl⟩
  have hagent := h.agent
  cases e with
  | launch | proceed | signalShutdown | join | closeAsyncHandle =>
      simp only [enabled, Bool.and_eq_true, beq_iff_eq] at hen
      rw [hen.1] at hagent
      exact hagent
  | clearAsyncActive =>
      simp only [enabled, beq_iff_eq] at hen
      rw [hen] at hagent
      exact hagent
  | clearAgent => rfl
  | _ => exact hagent

theorem Flagged.handle_step (h : Flagged s) (ht : step s e = some t) (hmain : t.main ≠ .closed) :
    t.inbound.handle.isOpened = true := by
  rcases step_cases ht with ⟨hen, rfl⟩
  cases e with
  | launch | proceed | signalShutdown | join =>
      simp only [enabled, Bool.and_eq_true, beq_iff_eq] at hen
      exact h.handle (by rw [hen.1]; rintro ⟨⟩)
  | clearAsyncActive | clearAgent =>
      simp only [enabled, beq_iff_eq] at hen
      exact h.handle (by rw [hen]; rintro ⟨⟩)
  | closeAsyncHandle => exact absurd rfl hmain
  | onInspectorAsync => exact (WakeHandle.isOpened_consume _).trans (h.handle hmain)
  | sendAsyncHandle => exact (Mailbox.isOpened_signal _).trans (h.handle hmain)
  | _ => exact h.handle hmain

theorem Flagged.step (h : Flagged s) (hp : Placed s) (ht : step s e = some t) : Flagged t where
  active := h.active_step hp ht
  up := h.up_step ht
  sendable := h.sendable_step ht
  flag := h.flag_step ht
  agent := h.agent_step ht
  handle := h.handle_step ht

/-! ### Who is in the middle of something -/

structure Engaged (s : State) : Prop where
  /-- Only a loop that may call back is in a callback. -/
  inspector : s.inspectorFree = false → s.inspector.loops = true
  /-- Only a runtime that may run code is in a drain. -/
  main : s.inbound.free = false → s.main.runsCode = true
  /-- The agent speaks while the program runs, to an inspector that can be woken, or without a
  signal. -/
  speaks : s.outbound.sending ≠ .idle →
    s.main = .running ∧ s.inspectorAsyncActive = true ∨
      s.main = .starting ∧ s.outbound.sending ≠ .loaded true

theorem engaged_first : Engaged first where
  inspector := by rintro ⟨⟩
  main := by rintro ⟨⟩
  speaks := by intro h; exact absurd rfl h

theorem busy_of_sending (h : s.inbound.sending ≠ .idle) : s.inspectorFree = false := by
  simp [State.inspectorFree, h]

theorem busy_of_triggering (h : s.triggering = true) : s.inspectorFree = false := by
  simp [State.inspectorFree, h]

theorem busy_of_outbound (h : s.outbound.free = false) : s.inspectorFree = false := by
  simp [State.inspectorFree, h]

theorem Engaged.free_of_quiet (h : Engaged s) (hloops : s.inspector.loops = false) :
    s.inspectorFree = true := by
  by_contra hbusy
  rw [h.inspector (Bool.eq_false_iff.mpr hbusy)] at hloops
  cases hloops

/-- A callback of the inspector loop ends before the thread goes on. -/
theorem Engaged.inspector_step (h : Engaged s) (hp : Placed s) (ht : step s e = some t)
    (hbusy : t.inspectorFree = false) : t.inspector.loops = true := by
  rcases step_cases ht with ⟨hen, rfl⟩
  cases e with
  | launch =>
      have hfree := h.free_of_quiet (by rw [hp.absent_of_launch hen]; rfl)
      cases hfree.symm.trans hbusy
  | initInspectorAsync | initShutdownAsync | setMessageCallback | clearCanSendShutdown
  | closeLoop | threadEnds =>
      simp only [enabled, beq_iff_eq] at hen
      have hfree := h.free_of_quiet (by rw [hen]; rfl)
      cases hfree.symm.trans hbusy
  | clearInspectorAsyncActive =>
      simp only [enabled, Bool.and_eq_true, beq_iff_eq] at hen
      cases hen.1.2.symm.trans hbusy
  | runLoop => rfl
  | fail => rfl
  | onShutdownAsync => rfl
  | onOutboundAsync =>
      simp only [enabled, Bool.and_eq_true] at hen
      exact hen.1.1
  | sendToMain =>
      simp only [enabled, Bool.and_eq_true] at hen
      exact hen.1
  | swapOutbound => exact h.inspector (busy_of_outbound (Mailbox.not_free_of_woken hen))
  | callMessageCallback =>
      simp only [enabled, Bool.and_eq_true, Bool.not_eq_true'] at hen
      exact h.inspector (busy_of_outbound (Mailbox.not_free_of_taken hen.2))
  | loadAsyncActive =>
      simp only [enabled, beq_iff_eq] at hen
      exact h.inspector (busy_of_sending (by rw [hen]; rintro ⟨⟩))
  | sendAsyncHandle => exact h.inspector (busy_of_sending (Sending.not_idle_of_loaded hen))
  | triggerInboundDrain =>
      simp only [enabled, Bool.and_eq_true] at hen
      exact h.inspector (busy_of_triggering hen.2)
  | _ => exact h.inspector hbusy

/-- A drain of the main thread ends before the thread goes on. -/
theorem Engaged.main_step (h : Engaged s) (ht : step s e = some t)
    (hbusy : t.inbound.free = false) : t.main.runsCode = true := by
  rcases step_cases ht with ⟨hen, rfl⟩
  cases e with
  | launch =>
      simp only [enabled, State.mainFree, Bool.and_eq_true] at hen
      cases hen.2.1.symm.trans hbusy
  | proceed => rfl
  | onInspectorAsync =>
      simp only [enabled, Bool.and_eq_true, beq_iff_eq] at hen
      exact (congrArg MainPhase.runsCode hen.1.1).trans rfl
  | onInterrupt =>
      simp only [enabled, Bool.and_eq_true] at hen
      exact hen.1.1
  | swapInbound => exact h.main (Mailbox.not_free_of_woken hen)
  | handleCommand =>
      simp only [enabled, Bool.and_eq_true, Bool.not_eq_true'] at hen
      exact h.main (Mailbox.not_free_of_taken hen.1.2)
  | signalShutdown =>
      simp only [enabled, State.mainFree, Bool.and_eq_true] at hen
      cases hen.2.1.symm.trans hbusy
  | clearAsyncActive =>
      simp only [enabled, beq_iff_eq] at hen
      have hcode := h.main hbusy
      rw [hen] at hcode
      cases hcode
  | clearAgent =>
      simp only [enabled, beq_iff_eq] at hen
      have hcode := h.main hbusy
      rw [hen] at hcode
      cases hcode
  | join => rfl
  | closeAsyncHandle => rfl
  | _ => exact h.main hbusy

/-- An agent that speaks before the end of the inspector speaks while it loops, or before it is
there. -/
theorem running_of_spoken (hp : Placed s) (hf : Flagged s) (hacts : s.main.agentActs = true)
    (hover : s.inspector.isOver = false) :
    s.main = .running ∧ s.inspectorAsyncActive = true ∨ s.main = .starting := by
  have htogether := hp.together
  cases hmain : s.main with
  | running =>
      rw [hmain] at htogether
      rcases htogether with heq | heq
      · exact Or.inl ⟨rfl, hf.up (by rw [heq]; rfl)⟩
      · rw [heq] at hover
        cases hover
  | starting => exact Or.inr rfl
  | joined | closed =>
      rw [hmain] at htogether
      rw [show s.inspector = .exited from htogether] at hover
      cases hover
  | waiting | signalled | unflagged | agentless =>
      rw [hmain] at hacts
      cases hacts

theorem inactive_of_starting (hp : Placed s) (hf : Flagged s) (hmain : s.main = .starting) :
    s.inspectorAsyncActive = false := by
  have htogether := hp.together
  rw [hmain] at htogether
  refine Bool.eq_false_iff.mpr fun hactive => ?_
  have hhears := (hf.active hactive).2
  rw [show s.inspector = .absent from htogether] at hhears
  cases hhears

theorem Engaged.speaks_step (h : Engaged s) (hp : Placed s) (hf : Flagged s)
    (hcareful : Careful s e) (ht : step s e = some t) (hspeaks : t.outbound.sending ≠ .idle) :
    t.main = .running ∧ t.inspectorAsyncActive = true ∨
      t.main = .starting ∧ t.outbound.sending ≠ .loaded true := by
  rcases step_cases ht with ⟨hen, rfl⟩
  cases e with
  | messageCallback message =>
      simp only [enabled, Bool.and_eq_true] at hen
      have hplace := running_of_spoken hp hf hen.1.1 (Bool.not_eq_true' _ ▸ hcareful)
      exact hplace.imp_right fun hmain => ⟨hmain, by rintro ⟨⟩⟩
  | loadInspectorAsyncActive =>
      simp only [enabled, beq_iff_eq] at hen
      rcases h.speaks (by rw [hen]; rintro ⟨⟩) with hrunning | hstarting
      · exact Or.inl hrunning
      · refine Or.inr ⟨hstarting.1, ?_⟩
        change Sending.loaded s.inspectorAsyncActive ≠ .loaded true
        rw [inactive_of_starting hp hf hstarting.1]
        rintro ⟨⟩
  | sendInspectorAsync => exact absurd rfl hspeaks
  | initInspectorAsync => exact (h.speaks hspeaks).imp_left fun hrunning => ⟨hrunning.1, rfl⟩
  | launch | signalShutdown =>
      simp only [enabled, State.mainFree, Bool.and_eq_true, beq_iff_eq] at hen
      exact absurd hen.2.2 hspeaks
  | proceed | join | closeAsyncHandle =>
      simp only [enabled, Bool.and_eq_true, beq_iff_eq] at hen
      rcases h.speaks hspeaks with hrunning | hstarting
      · cases hen.1.symm.trans hrunning.1
      · cases hen.1.symm.trans hstarting.1
  | clearAsyncActive | clearAgent =>
      simp only [enabled, beq_iff_eq] at hen
      rcases h.speaks hspeaks with hrunning | hstarting
      · cases hen.symm.trans hrunning.1
      · cases hen.symm.trans hstarting.1
  | clearInspectorAsyncActive =>
      simp only [enabled, Bool.and_eq_true, beq_iff_eq] at hen
      rcases h.speaks hspeaks with hrunning | hstarting
      · have htogether := hp.together
        rw [hrunning.1, hen.1.1] at htogether
        rcases htogether with heq | heq <;> cases heq
      · exact Or.inr hstarting
  | _ => exact h.speaks hspeaks

theorem Engaged.step (h : Engaged s) (hp : Placed s) (hf : Flagged s) (hcareful : Careful s e)
    (ht : step s e = some t) : Engaged t where
  inspector := h.inspector_step hp ht
  main := h.main_step ht
  speaks := h.speaks_step hp hf hcareful ht

/-! ### The commands -/

structure Told (s : State) : Prop where
  order : s.main.shutsDown = false → s.inbound.InOrder
  awake : s.main.shutsDown = false → s.inbound.Awake
  settled : s.main.shutsDown = true → s.inbound.handed = s.before

theorem told_first : Told first where
  order _ := Mailbox.inOrder_empty _
  awake _ := Mailbox.awake_of_empty rfl
  settled := by rintro ⟨⟩

/-- A shutdown is not taken back. -/
theorem before_of_before (ht : step s e = some t) (hmain : t.main.shutsDown = false) :
    s.main.shutsDown = false := by
  rcases step_cases ht with ⟨hen, rfl⟩
  cases e with
  | launch | proceed =>
      simp only [enabled, Bool.and_eq_true, beq_iff_eq] at hen
      rw [hen.1]
      rfl
  | signalShutdown | clearAsyncActive | clearAgent | join | closeAsyncHandle => cases hmain
  | _ => exact hmain

theorem inbound_order_step (h : s.main.shutsDown = false → s.inbound.InOrder) (hf : Flagged s)
    (ht : step s e = some t) (hmain : t.main.shutsDown = false) : t.inbound.InOrder := by
  have hbefore := before_of_before ht hmain
  have horder := h hbefore
  rcases step_cases ht with ⟨hen, rfl⟩
  cases e with
  | onInspectorAsync =>
      simp only [enabled, State.mainFree, Bool.and_eq_true] at hen
      exact horder.wake hen.1.2.1
  | onInterrupt =>
      simp only [enabled, State.mainFree, Bool.and_eq_true] at hen
      exact horder.interrupt hen.1.2.1
  | swapInbound => exact horder.swap hen true
  | handleCommand =>
      have hagent : s.agent = true := hf.agent.trans (MainPhase.hasAgent_of_before hbefore)
      change (s.inbound.hand s.agent).InOrder
      rw [hagent]
      exact horder.hand
  | closeAsyncHandle => exact horder.shut
  | sendToMain command => exact horder.push command
  | loadAsyncActive => exact horder.load s.asyncActive
  | sendAsyncHandle => exact horder.signal
  | _ => exact horder

theorem Told.awake_step (h : Told s) (hf : Flagged s) (ht : step s e = some t)
    (hmain : t.main.shutsDown = false) : t.inbound.Awake := by
  have hbefore := before_of_before ht hmain
  have hawake := h.awake hbefore
  rcases step_cases ht with ⟨hen, rfl⟩
  cases e with
  | onInspectorAsync => exact Mailbox.awake_of_woken rfl
  | onInterrupt => exact Mailbox.awake_of_woken rfl
  | swapInbound => exact Mailbox.awake_swap s.inbound
  | closeAsyncHandle => cases hmain
  | sendToMain command => exact s.inbound.awake_push command
  | loadAsyncActive =>
      have hflag : s.asyncActive = true := hf.flag.trans (MainPhase.isFlagged_of_before hbefore)
      change (s.inbound.load s.asyncActive).Awake
      rw [hflag]
      exact s.inbound.awake_load
  | sendAsyncHandle =>
      refine hawake.signal hen (hf.handle fun hclosed => ?_)
      rw [hclosed] at hbefore
      cases hbefore
  | _ => exact hawake

/-- What the agent got is settled when the shutdown begins. -/
theorem Told.settled_step (h : Told s) (hf : Flagged s) (hb : Engaged s) (hcareful : Careful s e)
    (ht : step s e = some t) (hmain : t.main.shutsDown = true) :
    t.inbound.handed = t.before := by
  rcases step_cases ht with ⟨hen, rfl⟩
  cases e with
  | launch | proceed => cases hmain
  | signalShutdown =>
      simp only [enabled, State.mainFree, Bool.and_eq_true, beq_iff_eq] at hen
      have horder := h.order (by rw [hen.1]; rfl)
      exact horder.settled hen.2.1 (List.isEmpty_iff.mp hcareful)
  | clearAsyncActive | clearAgent =>
      simp only [enabled, beq_iff_eq] at hen
      exact h.settled (by rw [hen]; rfl)
  | join | closeAsyncHandle =>
      simp only [enabled, Bool.and_eq_true, beq_iff_eq] at hen
      exact h.settled (by rw [hen.1]; rfl)
  | handleCommand =>
      simp only [enabled, Bool.and_eq_true, Bool.not_eq_true'] at hen
      have hcode := hb.main (Mailbox.not_free_of_taken hen.1.2)
      have hagent : s.agent = false :=
        hf.agent.trans (MainPhase.hasAgent_of_late hmain hcode)
      change (s.inbound.hand s.agent).handed = s.before
      rw [hagent]
      exact h.settled hmain
  | _ => exact h.settled hmain

theorem Told.step (h : Told s) (hf : Flagged s) (hb : Engaged s) (hcareful : Careful s e)
    (ht : step s e = some t) : Told t where
  order := inbound_order_step h.order hf ht
  awake := h.awake_step hf ht
  settled := h.settled_step hf hb hcareful ht

/-! ### The messages -/

/-- The callback is not registered. -/
def InspectorPhase.isBefore : InspectorPhase → Bool
  | .absent | .booting | .half | .bound => true
  | .registered | .looping | .stopping | .unflagged | .unsignalled | .closed | .exited => false

structure Heard (s : State) : Prop where
  order : s.outbound.InOrder
  awake : s.callback = true → s.outbound.Awake
  unheard : s.inspector.isBefore = true →
    s.callback = false ∧ s.outbound.handle ≠ .opened true
  ended : s.inspector.isOver = true → s.outbound.queue = []

theorem heard_first : Heard first where
  order := Mailbox.inOrder_empty _
  awake _ := Mailbox.awake_of_empty rfl
  unheard _ := ⟨rfl, by rintro ⟨⟩⟩
  ended _ := rfl

theorem outbound_order_step (horder : s.outbound.InOrder) (ht : step s e = some t) :
    t.outbound.InOrder := by
  rcases step_cases ht with ⟨hen, rfl⟩
  cases e with
  | messageCallback message => exact horder.push message
  | loadInspectorAsyncActive => exact horder.load s.inspectorAsyncActive
  | sendInspectorAsync => exact horder.signal
  | initInspectorAsync => exact horder.opened
  | onOutboundAsync =>
      simp only [enabled, State.inspectorFree, Bool.and_eq_true] at hen
      exact horder.wake hen.1.2.1.1
  | swapOutbound => exact horder.swap hen s.callback
  | callMessageCallback => exact horder.hand
  | closeLoop => exact horder.shut
  | _ => exact horder

/-- With the callback registered, an agent that speaks speaks to an inspector that can be woken. -/
theorem Heard.active_of_spoken (h : Heard s) (hp : Placed s) (hb : Engaged s)
    (hcallback : s.callback = true) (hspeaks : s.outbound.sending ≠ .idle) :
    s.inspectorAsyncActive = true := by
  rcases hb.speaks hspeaks with hrunning | hstarting
  · exact hrunning.2
  · have htogether := hp.together
    rw [hstarting.1] at htogether
    have hnot := h.unheard (by rw [show s.inspector = .absent from htogether]; rfl)
    cases hnot.1.symm.trans hcallback

theorem Heard.awake_step (h : Heard s) (hp : Placed s) (hf : Flagged s) (hb : Engaged s)
    (hcareful : Careful s e) (ht : step s e = some t) (hcallback : t.callback = true) :
    t.outbound.Awake := by
  rcases step_cases ht with ⟨hen, rfl⟩
  cases e with
  | messageCallback message => exact s.outbound.awake_push message
  | loadInspectorAsyncActive =>
      simp only [enabled, beq_iff_eq] at hen
      have hactive := h.active_of_spoken hp hb hcallback (by rw [hen]; rintro ⟨⟩)
      change (s.outbound.load s.inspectorAsyncActive).Awake
      rw [hactive]
      exact s.outbound.awake_load
  | sendInspectorAsync =>
      have hactive := h.active_of_spoken hp hb hcallback (Sending.not_idle_of_loaded hen)
      exact (h.awake hcallback).signal hen (hf.active hactive).1
  | initInspectorAsync =>
      simp only [enabled, beq_iff_eq] at hen
      have hnot := h.unheard (by rw [hen]; rfl)
      cases hnot.1.symm.trans hcallback
  | setMessageCallback => exact Mailbox.awake_of_empty (List.isEmpty_iff.mp hcareful)
  | onOutboundAsync => exact Mailbox.awake_of_woken rfl
  | swapOutbound =>
      have hheard : s.callback = true := hcallback
      change (s.outbound.swap s.callback).Awake
      rw [hheard]
      exact Mailbox.awake_swap s.outbound
  | closeLoop => exact Mailbox.awake_of_empty (List.isEmpty_iff.mp hcareful)
  | _ => exact h.awake hcallback

/-- Before the callback is registered there is none, and nobody signals the handle. -/
theorem Heard.unheard_step (h : Heard s) (hp : Placed s) (hb : Engaged s)
    (ht : step s e = some t) (hbefore : t.inspector.isBefore = true) :
    t.callback = false ∧ t.outbound.handle ≠ .opened true := by
  rcases step_cases ht with ⟨hen, rfl⟩
  cases e with
  | launch =>
      exact h.unheard (by rw [hp.absent_of_launch hen]; rfl)
  | sendInspectorAsync =>
      have hnot := h.unheard hbefore
      refine ⟨hnot.1, ?_⟩
      rcases hb.speaks (Sending.not_idle_of_loaded hen) with hrunning | hstarting
      · have htogether := hp.together
        rw [hrunning.1] at htogether
        change s.inspector.isBefore = true at hbefore
        rcases htogether with heq | heq
        · rw [heq] at hbefore
          cases hbefore
        · rw [heq] at hbefore
          cases hbefore
      · rw [show (after s .sendInspectorAsync).outbound.handle = s.outbound.handle from
          Mailbox.signal_of_down hstarting.2]
        exact hnot.2
  | onOutboundAsync =>
      exact ⟨(h.unheard hbefore).1, WakeHandle.consume_not_pending _⟩
  | initInspectorAsync =>
      simp only [enabled, beq_iff_eq] at hen
      exact ⟨(h.unheard (by rw [hen]; rfl)).1, by rintro ⟨⟩⟩
  | initShutdownAsync =>
      simp only [enabled, beq_iff_eq] at hen
      exact h.unheard (by rw [hen]; rfl)
  | setMessageCallback | runLoop | fail | onShutdownAsync | clearInspectorAsyncActive
  | clearCanSendShutdown | closeLoop | threadEnds => cases hbefore
  | _ => exact h.unheard hbefore

theorem queue_of_swap {m : Mailbox Message} (h : m.queue = []) (listens : Bool) :
    (m.swap listens).queue = [] := by
  cases listens with
  | false => exact h
  | true => rfl

theorem Heard.ended_step (h : Heard s) (hcareful : Careful s e)
    (ht : step s e = some t) (hover : t.inspector.isOver = true) : t.outbound.queue = [] := by
  rcases step_cases ht with ⟨hen, rfl⟩
  cases e with
  | messageCallback message =>
      have hnot : s.inspector.isOver = false := Bool.not_eq_true' _ ▸ hcareful
      cases hnot.symm.trans hover
  | swapOutbound => exact queue_of_swap (h.ended hover) s.callback
  | closeLoop => exact List.isEmpty_iff.mp hcareful
  | threadEnds =>
      simp only [enabled, beq_iff_eq] at hen
      exact h.ended (by rw [hen]; rfl)
  | launch | initInspectorAsync | initShutdownAsync | setMessageCallback | runLoop | fail
  | onShutdownAsync | clearInspectorAsyncActive | clearCanSendShutdown => cases hover
  | _ => exact h.ended hover

theorem Heard.step (h : Heard s) (hp : Placed s) (hf : Flagged s) (hb : Engaged s)
    (hcareful : Careful s e) (ht : step s e = some t) : Heard t where
  order := outbound_order_step h.order ht
  awake := h.awake_step hp hf hb hcareful ht
  unheard := h.unheard_step hp hb ht
  ended := h.ended_step hcareful ht

/-! ### The clients -/

/-- What the server got was sent on or is kept, and nothing is kept from an open client. -/
structure Server.Shows (v : Server) (heard : List Message) : Prop where
  order : heard = v.sent.map Prod.snd ++ v.pendingMessages
  fresh : ∀ client, v.activeWs = some (client, true) → v.pendingMessages = []

namespace Server.Shows

variable {v : Server} {heard : List Message}

theorem messageCallback (h : v.Shows heard) (message : Message) :
    (v.messageCallback message).Shows (heard ++ [message]) := by
  rw [Server.messageCallback]
  split
  · rename_i client hactive
    have hkept := h.fresh client hactive
    constructor
    · rw [h.order, hkept]
      simp
    · intro _ _
      exact hkept
  · rename_i hnot
    constructor
    · rw [h.order, List.append_assoc]
    · intro client hactive
      exact absurd hactive (hnot client)

theorem connection (h : v.Shows heard) (client : Client) : (v.connection client).Shows heard := by
  rw [Server.connection]
  split
  · exact h
  · constructor
    · rw [h.order]
      simp [Function.comp_def]
    · intro _ _
      rfl

theorem closing (h : v.Shows heard) : v.closing.Shows heard := by
  refine ⟨h.order, fun client hactive => ?_⟩
  cases hws : v.activeWs <;> simp [Server.closing, hws] at hactive

theorem close (h : v.Shows heard) (client : Client) : (v.close client).Shows heard := by
  rw [Server.close]
  split
  · split
    · exact ⟨h.order, by rintro _ ⟨⟩⟩
    · exact h
  · exact h

theorem shutdown (h : v.Shows heard) : v.shutdown.Shows heard :=
  ⟨h.order, by rintro _ ⟨⟩⟩

end Server.Shows

/-- The server keeps up with its callback in every run. -/
theorem shows_step (h : s.server.Shows s.outbound.handed) (ht : step s e = some t) :
    t.server.Shows t.outbound.handed := by
  rcases step_cases ht with ⟨hen, rfl⟩
  cases e with
  | callMessageCallback =>
      simp only [enabled, Bool.and_eq_true, Bool.not_eq_true'] at hen
      cases htaken : s.outbound.taken with
      | nil =>
          rw [htaken] at hen
          cases hen.2
      | cons message rest =>
          have hserver : (after s .callMessageCallback).server =
              s.server.messageCallback message := by
            simp [after, htaken]
          have hheard : (after s .callMessageCallback).outbound.handed =
              s.outbound.handed ++ [message] := by
            simp [after, Mailbox.hand, htaken]
          rw [hserver, hheard]
          exact h.messageCallback message
  | connection client => exact h.connection client
  | closing => exact h.closing
  | close client => exact h.close client
  | onShutdownAsync => exact h.shutdown
  | _ => exact h

/-! ### The signals -/

structure NoStrays (s : State) : Prop where
  inbound : s.inbound.strays = 0
  outbound : s.outbound.strays = 0
  shutdown : s.strays = 0

theorem NoStrays.step (h : NoStrays s) (hp : Placed s) (hf : Flagged s) (hb : Engaged s)
    (ht : step s e = some t) : NoStrays t := by
  rcases step_cases ht with ⟨hen, rfl⟩
  cases e with
  | sendInspectorAsync =>
      have hstrays : s.outbound.signal.strays = s.outbound.strays := by
        rcases hb.speaks (Sending.not_idle_of_loaded hen) with hrunning | hstarting
        · exact Mailbox.strays_signal (hf.active hrunning.2).1
        · exact if_neg hstarting.2
      exact ⟨h.inbound, hstrays.trans h.outbound, h.shutdown⟩
  | sendAsyncHandle =>
      -- the inspector loops, so the main thread has not joined it
      have hloops := hb.inspector (busy_of_sending (Sending.not_idle_of_loaded hen))
      have hmain : s.main ≠ .closed := by
        intro hclosed
        have htogether := hp.together
        rw [hclosed] at htogether
        rw [show s.inspector = .exited from htogether] at hloops
        cases hloops
      have hstrays := Mailbox.strays_signal (hf.handle hmain)
      exact ⟨hstrays.trans h.inbound, h.outbound, h.shutdown⟩
  | signalShutdown =>
      refine ⟨h.inbound, h.outbound, ?_⟩
      change (if s.canSendShutdown then s.strays + s.shutdownAsync.astray else s.strays) = 0
      split
      · rename_i hsend
        rw [WakeHandle.astray_of_opened (hf.sendable hsend).1, h.shutdown]
      · exact h.shutdown
  | _ => exact ⟨h.inbound, h.outbound, h.shutdown⟩

/-! ### Every interleaving -/

structure Kept (s : State) : Prop where
  placed : Placed s
  flagged : Flagged s
  engaged : Engaged s
  told : Told s
  heard : Heard s
  shown : s.server.Shows s.outbound.handed
  noStrays : NoStrays s

theorem kept_first : Kept first where
  placed := placed_first
  flagged := flagged_first
  engaged := engaged_first
  told := told_first
  heard := heard_first
  shown := ⟨rfl, by rintro _ ⟨⟩⟩
  noStrays := ⟨rfl, rfl, rfl⟩

theorem Kept.step (h : Kept s) (hcareful : Careful s e) (ht : step s e = some t) : Kept t where
  placed := h.placed.step ht
  flagged := h.flagged.step h.placed ht
  engaged := h.engaged.step h.placed h.flagged hcareful ht
  told := h.told.step h.flagged h.engaged hcareful ht
  heard := h.heard.step h.placed h.flagged h.engaged hcareful ht
  shown := shows_step h.shown ht
  noStrays := h.noStrays.step h.placed h.flagged h.engaged ht

theorem Kept.lawful (h : Kept s) : Lawful s where
  commands_in_order hmain := (h.told.order hmain).order
  commands_awake := h.told.awake
  commands_settled := h.told.settled
  messages_in_order := h.heard.order.order
  messages_awake := h.heard.awake
  messages_settled := by
    intro hover
    have hquiet : s.inspector.loops = false := by
      cases hi : s.inspector <;> rw [hi] at hover <;> first | rfl | cases hover
    have hfree := h.engaged.free_of_quiet hquiet
    simp only [State.inspectorFree, Bool.and_eq_true] at hfree
    exact h.heard.order.settled hfree.1.1 (h.heard.ended hover)
  sent_in_order := h.shown.order
  client_up_to_date := h.shown.fresh
  no_stray_signal := ⟨h.noStrays.inbound, h.noStrays.outbound, h.noStrays.shutdown⟩

/-- Careful or not: in every interleaving the messages are with a client, with the server or in the
mailbox, each once and in the order of the pushes; so are the commands until the shutdown; and while
a flag says that a handle may be signalled, the handle is open. -/
theorem nothing_lost {events : List Event} (run : runEvents step first events = some s) :
    s.outbound.given = s.server.sent.map Prod.snd ++ s.server.pendingMessages ++
      s.outbound.taken ++ s.outbound.queue ∧
    (s.main.shutsDown = false →
      s.inbound.given = s.inbound.handed ++ s.inbound.taken ++ s.inbound.queue) ∧
    (s.inspectorAsyncActive = true → s.outbound.handle.isOpened = true) ∧
    (s.canSendShutdown = true → s.shutdownAsync.isOpened = true) := by
  have hkept : ∀ s e t, (Placed s ∧ Flagged s ∧ (s.main.shutsDown = false → s.inbound.InOrder) ∧
      s.outbound.InOrder ∧ s.server.Shows s.outbound.handed) → step s e = some t →
      Placed t ∧ Flagged t ∧ (t.main.shutsDown = false → t.inbound.InOrder) ∧
        t.outbound.InOrder ∧ t.server.Shows t.outbound.handed := by
    rintro s e t ⟨hp, hf, hin, hout, hshown⟩ ht
    exact ⟨hp.step ht, hf.step hp ht, inbound_order_step hin hf ht, outbound_order_step hout ht,
      shows_step hshown ht⟩
  obtain ⟨-, hf, hin, hout, hshown⟩ := runEvents_invariant hkept ⟨placed_first, flagged_first,
    told_first.order, heard_first.order, kept_first.shown⟩ run
  refine ⟨?_, fun hmain => (hin hmain).order, fun h => (hf.active h).1, fun h => (hf.sendable h).1⟩
  rw [← hshown.order]
  exact hout.order

/-- A client gets a message, and the agent a command. -/
def exchange : List Event :=
  [.launch, .initInspectorAsync, .initShutdownAsync, .setMessageCallback, .runLoop, .notifyReady,
    .proceed, .connection 1, .messageCallback "paused", .loadInspectorAsyncActive,
    .sendInspectorAsync, .onOutboundAsync, .swapOutbound, .callMessageCallback, .sendToMain "resume",
    .loadAsyncActive, .sendAsyncHandle, .onInspectorAsync, .swapInbound, .handleCommand]

theorem exchange_kept : ∃ s, runEvents step first exchange = some s ∧
    s.server.sent = [(1, "paused")] ∧ s.outbound.given = ["paused"] ∧
    s.inbound.handed = ["resume"] ∧ s.inbound.given = ["resume"] ∧
    s.outbound.handle.isOpened = true := by
  refine ⟨_, rfl, rfl, ?_⟩
  obtain ⟨hmessages, hcommands, hopened, -⟩ := @nothing_lost _ exchange rfl
  exact ⟨hmessages, rfl, hcommands rfl, hopened rfl⟩

/-! ### Steps that are not careful -/

/-- A callback that is registered with a message in the queue is not told of it. -/
theorem queue_of_registered (h : Kept s) (ht : step s .setMessageCallback = some t)
    (hlawful : Lawful t) : s.outbound.queue = [] := by
  rcases step_cases ht with ⟨hen, rfl⟩
  simp only [enabled, beq_iff_eq] at hen
  by_contra hqueue
  have hfree := h.engaged.free_of_quiet (by rw [hen]; rfl)
  simp only [State.inspectorFree, Mailbox.free, Bool.and_eq_true, Bool.not_eq_true'] at hfree
  have hmain := h.placed.together.waiting_of_starts (by rw [hen]; rfl)
  have hidle : s.outbound.sending = .idle := by
    by_contra hspeaks
    rcases h.engaged.speaks hspeaks with hrunning | hstarting
    · cases hmain.symm.trans hrunning.1
    · cases hmain.symm.trans hstarting.1
  rcases hlawful.messages_awake rfl hqueue with hpending | hwoken | hpushed | hloaded
  · exact (h.heard.unheard (by rw [hen]; rfl)).2 hpending
  · cases hfree.1.1.1.symm.trans hwoken
  · cases hidle.symm.trans hpushed
  · cases hidle.symm.trans hloaded

theorem queue_of_settled {m : Mailbox Message} {more : List Message} (h : m.InOrder)
    (hsettled : m.handed = m.given ++ more) : m.queue ++ more = [] := by
  have hlength := congrArg List.length h.order
  rw [hsettled] at hlength
  simp only [List.length_append] at hlength
  apply List.eq_nil_of_length_eq_zero
  rw [List.length_append]
  omega

/-- A step that is not careful breaks a promise at once. -/
theorem careful_of_lawful (h : Kept s) (ht : step s e = some t) (hlawful : Lawful t) :
    Careful s e := by
  cases e with
  | setMessageCallback => exact List.isEmpty_iff.mpr (queue_of_registered h ht hlawful)
  | messageCallback message =>
      rcases step_cases ht with ⟨hen, rfl⟩
      refine (Bool.not_eq_true' _).mpr (Bool.eq_false_iff.mpr fun hover => ?_)
      have hsettled := queue_of_settled h.heard.order (hlawful.messages_settled hover)
      cases (List.append_eq_nil_iff.mp hsettled).2
  | signalShutdown =>
      rcases step_cases ht with ⟨hen, rfl⟩
      simp only [enabled, Bool.and_eq_true, beq_iff_eq] at hen
      have horder := h.told.order (by rw [hen.1]; rfl)
      have hsettled : s.inbound.handed = s.inbound.given ++ [] := by
        rw [List.append_nil]
        exact hlawful.commands_settled rfl
      exact List.isEmpty_iff.mpr (List.append_eq_nil_iff.mp (queue_of_settled horder hsettled)).1
  | closeLoop =>
      rcases step_cases ht with ⟨hen, rfl⟩
      have hsettled : s.outbound.handed = s.outbound.given ++ [] := by
        rw [List.append_nil]
        exact hlawful.messages_settled rfl
      exact List.isEmpty_iff.mpr
        (List.append_eq_nil_iff.mp (queue_of_settled h.heard.order hsettled)).1
  | _ => rfl

/-- In an interleaving of the two threads the bridge keeps its promises all along exactly when every
step is careful. -/
theorem lawful_throughout_iff {events : List Event} {s : State}
    (run : runEvents step first events = some s) :
    Throughout step Lawful first events ↔ AllowedAlong step Careful first events :=
  throughout_iff_allowed (fun _ h => Kept.lawful h) (fun _ _ _ h hcareful ht => h.step hcareful ht)
    (fun _ _ _ h ht hlawful => careful_of_lawful h ht hlawful) kept_first run

/-- Both threads start, and a client connects. -/
def startUp : List Event :=
  [.launch, .initInspectorAsync, .initShutdownAsync, .setMessageCallback, .runLoop, .notifyReady,
    .proceed, .connection 1]

def firstMessage : List Event :=
  [.messageCallback "paused", .loadInspectorAsyncActive, .sendInspectorAsync]

def firstCommand : List Event :=
  [.sendToMain "resume", .loadAsyncActive, .sendAsyncHandle, .triggerInboundDrain]

/-- A message and a command go through, and both threads end. -/
def plainSession : List Event :=
  startUp ++ firstMessage ++ [.onOutboundAsync, .swapOutbound, .callMessageCallback] ++
    firstCommand ++ [.onInterrupt, .swapInbound, .handleCommand, .onInspectorAsync, .swapInbound] ++
    [.signalShutdown, .onShutdownAsync, .clearInspectorAsyncActive, .clearCanSendShutdown,
      .closeLoop, .threadEnds, .clearAsyncActive, .clearAgent, .join, .closeAsyncHandle]

theorem plainSession_lawful :
    (∃ s, runEvents step first plainSession = some s ∧ s.inbound.handed = ["resume"] ∧
      s.server.sent = [(1, "paused")]) ∧
    Throughout step Lawful first plainSession := by
  have hends : (runEvents step first plainSession).any (fun s =>
      s.inbound.handed = ["resume"] ∧ s.server.sent = [(1, "paused")]) = true := by
    decide
  have hcareful : (runEvents (fun s e => if Careful s e then step s e else none) first
      plainSession).isSome = true := by
    decide
  rcases (Option.any_eq_true _ _).1 hends with ⟨s, hs, hdone⟩
  rcases Option.isSome_iff_exists.mp hcareful with ⟨last, hlast⟩
  have hthroughout := (lawful_throughout_iff hs).2 (AllowedAlong.of_runEvents hlast)
  exact ⟨⟨s, hs, of_decide_eq_true hdone⟩, hthroughout⟩

/-- The agent speaks before the inspector thread is launched. -/
def earlyMessage : List Event := firstMessage ++ startUp

/-- The main thread shuts down with a wake-up and an interrupt on their way. -/
def lateCommand : List Event :=
  startUp ++ firstCommand ++ [.signalShutdown, .clearAsyncActive, .clearAgent]

/-- The script of the inspector fails behind `setMessageCallback`, and then the agent speaks. -/
def messageBehindFailure : List Event :=
  [.launch, .initInspectorAsync, .initShutdownAsync, .setMessageCallback, .fail,
    .clearInspectorAsyncActive, .clearCanSendShutdown, .closeLoop, .threadEnds, .proceed] ++
    firstMessage

/-- A message waits for a registered callback and no wake-up is on its way. -/
def State.Stuck (s : State) : Prop :=
  s.callback = true ∧ s.outbound.queue ≠ [] ∧ s.outbound.handle ≠ .opened true ∧
    s.outbound.woken = false ∧ s.outbound.sending = .idle

instance (s : State) : Decidable s.Stuck :=
  inferInstanceAs (Decidable (_ ∧ _))

theorem State.Stuck.not_lawful (h : s.Stuck) : ¬ Lawful s := by
  rcases h with ⟨hcallback, hqueue, hhandle, hwoken, hidle⟩
  intro hlawful
  rcases hlawful.messages_awake hcallback hqueue with hpending | hup | hpushed | hloaded
  · exact hhandle hpending
  · cases hwoken.symm.trans hup
  · cases hidle.symm.trans hpushed
  · cases hidle.symm.trans hloaded

/-- A message from before the launch stays in the queue while a client is connected, and so does one
from behind a failed start; a command that was given before the shutdown never gets to the agent. -/
theorem bridge_promises_broken :
    (∃ s, runEvents step first earlyMessage = some s ∧ s.server.activeWs = some (1, true) ∧
      s.Stuck ∧ ¬ Lawful s) ∧
    (∃ s, runEvents step first lateCommand = some s ∧ s.before = ["resume"] ∧
      s.inbound.handed = [] ∧ ¬ Lawful s) ∧
    (∃ s, runEvents step first messageBehindFailure = some s ∧ s.Stuck ∧ ¬ Lawful s) := by
  have hearly : (runEvents step first earlyMessage).any
      (fun s => s.server.activeWs = some (1, true) ∧ s.Stuck) = true := by decide
  have hlate : (runEvents step first lateCommand).any
      (fun s => s.main.shutsDown = true ∧ s.before = ["resume"] ∧ s.inbound.handed = []) = true := by
    decide
  have hfailed : (runEvents step first messageBehindFailure).any (fun s => s.Stuck) = true := by
    decide
  refine ⟨?_, ?_, ?_⟩
  · rcases (Option.any_eq_true _ _).1 hearly with ⟨s, hs, hdone⟩
    rcases of_decide_eq_true hdone with ⟨hactive, hstuck⟩
    exact ⟨s, hs, hactive, hstuck, hstuck.not_lawful⟩
  · rcases (Option.any_eq_true _ _).1 hlate with ⟨s, hs, hdone⟩
    rcases of_decide_eq_true hdone with ⟨hmain, hbefore, hhanded⟩
    refine ⟨s, hs, hbefore, hhanded, fun hlawful => ?_⟩
    have hsettled := hlawful.commands_settled hmain
    rw [hbefore, hhanded] at hsettled
    cases hsettled
  · rcases (Option.any_eq_true _ _).1 hfailed with ⟨s, hs, hdone⟩
    have hstuck : s.Stuck := of_decide_eq_true hdone
    exact ⟨s, hs, hstuck, hstuck.not_lawful⟩

end HermesNode.Inspector
