/-
Module: HermesNode.Zlib.Lifecycle
Purpose: The life of a compression stream over whole runs, re-entrant calls included. As long as no
  call comes where the flags do not tell what is going on, the context is not closed or reset under
  a write, a close requested during a write takes effect once behind it, and no write starts on a
  closed context.
Trusted boundary: none
Main exports: Careful, CarefulRun, lifecycle_orderly
-/
import HermesNode.Zlib.Stream

namespace HermesNode.Zlib

variable {kind : Kind} {s t : Stream}

/-- What the life of a stream has to keep to. -/
structure Orderly (s : Stream) : Prop where
  closedBusy : s.closedBusy = false
  resetBusy : s.resetBusy = false
  closedTwice : s.closedTwice = false
  wroteClosed : s.wroteClosed = false
  /-- A close requested during a write took effect when no write is left. -/
  carriedOut : s.stack = [] → s.outstanding = 0 → s.owed = false

/-- An error handed to `onerror` finds no close pending that took effect with a cancelled write. -/
def MayReport (s : Stream) (outcome : Outcome) : Prop :=
  outcome = .error true → s.pendingClose = true → s.closed = false

/-- The calls that come where the flags tell what is going on. -/
def Careful (kind : Kind) (s : Stream) : Action → Prop
  | .init outcome => kind.initResets = true → s.outstanding = 0 ∧ MayReport s outcome
  | .write =>
      s.initDone = true → s.closed = false →
        s.outstanding = 0 ∧ s.pendingClose = false ∧ ∀ frame ∈ s.stack, frame.isError = false
  | .writeSync outcome =>
      s.initDone = true → s.closed = false → outcome = .error true → s.outstanding = 0
  | .close => s.stack ≠ [] → s.outstanding = 0 ∧ s.pendingClose = false
  | .reset outcome => s.outstanding = 0 ∧ MayReport s outcome
  | .complete _ | .cancelled | .resume => True

/-- The runs of a stream whose every call is such a one. -/
inductive CarefulRun (kind : Kind) : List Action → Stream → Prop where
  | start : CarefulRun kind [] Stream.new
  | step {actions : List Action} {s t : Stream} {a : Action} (run : CarefulRun kind actions s)
      (careful : Careful kind s a) (taken : s.step kind a = some t) :
      CarefulRun kind (actions ++ [a]) t

/-! ### The invariant -/

/-- What the flags say of the writes and of the context. -/
structure Core (s : Stream) : Prop where
  flag : s.outstanding = if s.writeInProgress then 1 else 0
  /-- No write is outstanding under `EmitError`, which clears the flag. -/
  errors : ∀ frame ∈ s.stack, frame.isError = true → s.outstanding = 0
  owed : s.owed = (s.pendingClose && !s.closed)
  idle : s.closed = true → s.outstanding = 0
  context : s.contextClosed = s.closed
  closedBusy : s.closedBusy = false
  resetBusy : s.resetBusy = false
  closedTwice : s.closedTwice = false
  wroteClosed : s.wroteClosed = false

/-- A pending close waits for a write, or for the user code of its completion to return; one that
a cancelled write overtook is left alone. -/
structure Inv (s : Stream) : Prop extends Core s where
  waiting : s.pendingClose = true → s.closed = false → (s.stack = [] ↔ s.outstanding ≠ 0)
  stale : s.pendingClose = true → s.closed = true → s.stack = []

theorem Inv.new : Inv Stream.new := by
  constructor
  · constructor <;> simp [Stream.new]
  · intro h
    cases h
  · intro h
    cases h

theorem Inv.orderly (inv : Inv s) : Orderly s where
  closedBusy := inv.closedBusy
  resetBusy := inv.resetBusy
  closedTwice := inv.closedTwice
  wroteClosed := inv.wroteClosed
  carriedOut := by
    intro hstack hnone
    rw [inv.owed]
    cases hpending : s.pendingClose with
    | false => rfl
    | true =>
        cases hclosed : s.closed with
        | true => rfl
        | false => exact absurd hnone ((inv.waiting hpending hclosed).mp hstack)

theorem Core.closeContext (core : Core s) (hnone : s.outstanding = 0) : Core s.closeContext where
  flag := core.flag
  errors := core.errors
  owed := by simp [Stream.closeContext]
  idle := fun _ => hnone
  context := rfl
  closedBusy := by simp [Stream.closeContext, core.closedBusy, hnone]
  resetBusy := core.resetBusy
  closedTwice := core.closedTwice
  wroteClosed := core.wroteClosed

theorem Core.carryOut (core : Core s)
    (h : s.pendingClose = true → s.outstanding = 0 ∧ s.closed = false) : Inv s.carryOut := by
  unfold Stream.carryOut
  split
  · rename_i hpending
    obtain ⟨hnone, hopen⟩ := h hpending
    have hclosed := core.closeContext hnone
    have howed : s.owed = true := by simp [core.owed, hpending, hopen]
    constructor
    · exact {
        flag := hclosed.flag
        errors := hclosed.errors
        owed := rfl
        idle := hclosed.idle
        context := rfl
        closedBusy := hclosed.closedBusy
        resetBusy := hclosed.resetBusy
        closedTwice := by simp [core.closedTwice, howed]
        wroteClosed := hclosed.wroteClosed }
    · intro h
      cases h
    · intro h
      cases h
  · rename_i hpending
    exact ⟨core, fun h => absurd h hpending, fun h => absurd h hpending⟩

theorem Stream.carryOut_pending (s : Stream) : s.carryOut.pendingClose = false := by
  unfold Stream.carryOut
  split
  · rfl
  · rename_i hpending
    exact eq_false_of_ne_true hpending

theorem Stream.carryOut_carryOut (s : Stream) : s.carryOut.carryOut = s.carryOut := by
  have hpending := Stream.carryOut_pending s
  generalize s.carryOut = t at hpending
  simp [Stream.carryOut, hpending]

theorem Inv.pending_frame (inv : Inv s) (hstack : s.stack ≠ []) (hpending : s.pendingClose = true) :
    s.outstanding = 0 ∧ s.closed = false := by
  have hopen : s.closed = false := by
    cases hclosed : s.closed with
    | false => rfl
    | true => exact absurd (inv.stale hpending hclosed) hstack
  constructor
  · cases hout : s.outstanding with
    | zero => rfl
    | succ n =>
        have hbusy : s.outstanding ≠ 0 := by simp [hout]
        exact absurd ((inv.waiting hpending hopen).mpr hbusy) hstack
  · exact hopen

/-! ### What each action does -/

/-- User code starts above a new frame of `EmitError`, or returns at once. -/
theorem Inv.emitError (inv : Inv s) {handled : Bool}
    (hnone : handled = true → s.outstanding = 0 ∧ (s.pendingClose = true → s.closed = false)) :
    Inv (s.emitError handled false) := by
  unfold Stream.emitError
  cases handled with
  | false => exact inv
  | true =>
      obtain ⟨hnone, hopen⟩ := hnone rfl
      constructor
      · exact { inv.toCore with errors := fun _ _ _ => hnone }
      · intro hpending hopen
        simp [hnone]
      · intro hpending hclosed
        exact absurd ((hopen hpending).symm.trans hclosed) (by decide)

theorem Inv.report (inv : Inv s) {outcome : Outcome}
    (hnone : outcome = .error true →
      s.outstanding = 0 ∧ (s.pendingClose = true → s.closed = false)) :
    Inv (s.report outcome) := by
  cases outcome with
  | ok => exact inv
  | error handled =>
      apply inv.emitError
      intro h
      exact hnone (by rw [h])

theorem Inv.resetContext (inv : Inv s) (hnone : s.outstanding = 0) : Inv s.resetContext := by
  constructor
  · exact { inv.toCore with resetBusy := by simp [Stream.resetContext, inv.resetBusy, hnone] }
  · exact inv.waiting
  · exact inv.stale

theorem Inv.init (inv : Inv s) {outcome : Outcome} (careful : Careful kind s (.init outcome)) :
    Inv (s.init kind outcome) := by
  have hdone : Inv { s with initDone := true } :=
    ⟨{ inv.toCore with }, inv.waiting, inv.stale⟩
  unfold Stream.init
  dsimp only
  split
  · rename_i hresets
    obtain ⟨hnone, hreport⟩ := careful hresets
    apply (hdone.resetContext hnone).report
    intro herror
    exact ⟨hnone, hreport herror⟩
  · exact hdone

theorem Inv.write (inv : Inv s) (careful : Careful kind s .write) : Inv s.write := by
  unfold Stream.write
  split
  · exact inv
  · rename_i hready
    simp only [Bool.or_eq_true, Bool.not_eq_true', not_or, Bool.not_eq_false,
      Bool.not_eq_true] at hready
    obtain ⟨hdone, hopen⟩ := hready
    obtain ⟨hnone, hpending, hframes⟩ := careful hdone hopen
    constructor
    · exact { inv.toCore with
        flag := by simp [hnone]
        errors := by
          intro frame hframe herror
          exact absurd (herror.symm.trans (hframes frame hframe)) (by decide)
        idle := by
          intro hclosed
          exact absurd (hopen.symm.trans hclosed) (by decide)
        wroteClosed := by simp [inv.wroteClosed, inv.context, hopen] }
    · intro h
      exact absurd (hpending.symm.trans h) (by decide)
    · intro h
      exact absurd (hpending.symm.trans h) (by decide)

theorem Inv.writeSync (inv : Inv s) {outcome : Outcome}
    (careful : Careful kind s (.writeSync outcome)) : Inv (s.writeSync outcome) := by
  unfold Stream.writeSync
  split
  · exact inv
  · rename_i hready
    simp only [Bool.or_eq_true, Bool.not_eq_true', not_or, Bool.not_eq_false,
      Bool.not_eq_true] at hready
    obtain ⟨hdone, hopen⟩ := hready
    have hstarted : Inv { s with wroteClosed := s.wroteClosed || s.contextClosed } := by
      constructor
      · exact { inv.toCore with
          wroteClosed := by simp [inv.wroteClosed, inv.context, hopen] }
      · exact inv.waiting
      · exact inv.stale
    apply hstarted.report
    intro herror
    exact ⟨careful hdone hopen herror, fun _ => hopen⟩

theorem Inv.doClose (inv : Inv s) (careful : Careful kind s .close) : Inv s.doClose := by
  unfold Stream.doClose
  split
  · rename_i hprogress
    have hone : s.outstanding = 1 := by rw [inv.flag, if_pos hprogress]
    have hopen : s.closed = false := by
      cases hclosed : s.closed with
      | false => rfl
      | true => exact absurd (inv.idle hclosed) (by simp [hone])
    -- The write was not started by user code that has yet to return.
    have hstack : s.stack = [] := by
      cases hframes : s.stack with
      | nil => rfl
      | cons frame rest =>
          have hnone := (careful (by simp [hframes])).1
          simp [hone] at hnone
    constructor
    · exact { inv.toCore with owed := by simp [hopen] }
    · intro _ _
      simp [hstack, hone]
    · intro _ _
      exact hstack
  · rename_i hprogress
    have hnone : s.outstanding = 0 := by rw [inv.flag, if_neg hprogress]
    have hpending : s.stack ≠ [] → s.pendingClose = false := fun h => (careful h).2
    constructor
    · exact inv.toCore.closeContext hnone
    · intro _ hopen
      cases hopen
    · intro hp _
      by_cases hstack : s.stack = []
      · exact hstack
      · exact absurd ((hpending hstack).symm.trans hp) (by decide)

theorem Inv.doReset (inv : Inv s) {outcome : Outcome}
    (careful : Careful kind s (.reset outcome)) : Inv (s.doReset outcome) := by
  obtain ⟨hnone, hreport⟩ := careful
  apply (inv.resetContext hnone).report
  intro herror
  exact ⟨hnone, hreport herror⟩

theorem Inv.completing (inv : Inv s) (hbusy : 0 < s.outstanding) :
    Core s.completing ∧ s.completing.outstanding = 0 ∧ s.closed = false := by
  have hone : s.outstanding = 1 := by
    have hflag := inv.flag
    split at hflag
    · exact hflag
    · rw [hflag] at hbusy
      exact absurd hbusy (by decide)
  have hnone : s.outstanding - 1 = 0 := by simp [hone]
  have hopen : s.closed = false := by
    cases hclosed : s.closed with
    | false => rfl
    | true => exact absurd (inv.idle hclosed) (by simp [hone])
  refine ⟨?_, hnone, hopen⟩
  exact { inv.toCore with
    flag := by simp [Stream.completing, hone]
    errors := fun _ _ _ => hnone
    idle := fun _ => hnone }

theorem Inv.complete (inv : Inv s) (hbusy : 0 < s.outstanding) (outcome : Outcome) :
    Inv (s.complete outcome) := by
  obtain ⟨core, hnone, hopen⟩ := inv.completing hbusy
  have hclosed : s.completing.closed = true → False := by
    intro h
    exact absurd (hopen.symm.trans h) (by decide)
  cases outcome with
  | ok =>
      constructor
      · exact { core with errors := fun _ _ _ => hnone }
      · intro _ _
        have hout : s.completing.outstanding = 0 := hnone
        simp [Stream.complete, hout]
      · intro _ h
        exact (hclosed h).elim
  | error handled =>
      unfold Stream.complete Stream.emitError
      cases handled with
      | false => exact core.carryOut (fun _ => ⟨hnone, hopen⟩)
      | true =>
          constructor
          · exact { core with errors := fun _ _ _ => hnone }
          · intro _ _
            simp [hnone]
          · intro _ h
            exact (hclosed h).elim

theorem Inv.cancelled (inv : Inv s) (hbusy : 0 < s.outstanding) :
    Inv s.completing.closeContext := by
  obtain ⟨core, hnone, hopen⟩ := inv.completing hbusy
  constructor
  · exact core.closeContext hnone
  · intro _ h
    cases h
  · intro hpending _
    exact (inv.waiting hpending hopen).mpr (Nat.ne_of_gt hbusy)

theorem Inv.resume (inv : Inv s) {frame : Frame} {rest : List Frame}
    (hstack : s.stack = frame :: rest) : Inv (Stream.resume { s with stack := rest } frame) := by
  have hpending := inv.pending_frame (by simp [hstack])
  have hpopped : Core { s with stack := rest } :=
    { inv.toCore with
      errors := fun f hf => inv.errors f (by rw [hstack]; exact List.mem_cons_of_mem _ hf) }
  cases frame with
  | callback => exact hpopped.carryOut hpending
  | onerror completes =>
      have hnone : s.outstanding = 0 := inv.errors (.onerror completes) (by simp [hstack]) rfl
      have hcleared : Core { s with stack := rest, writeInProgress := false } :=
        { hpopped with flag := by simp [hnone] }
      have hdone := hcleared.carryOut hpending
      unfold Stream.resume
      dsimp only
      split
      · rw [Stream.carryOut_carryOut]
        exact hdone
      · exact hdone

theorem Inv.step (inv : Inv s) {a : Action} (careful : Careful kind s a)
    (h : s.step kind a = some t) : Inv t := by
  cases a with
  | init outcome =>
      cases h
      exact inv.init careful
  | write =>
      cases h
      exact inv.write careful
  | writeSync outcome =>
      cases h
      exact inv.writeSync careful
  | close =>
      cases h
      exact inv.doClose careful
  | reset outcome =>
      cases h
      exact inv.doReset careful
  | complete outcome =>
      simp only [Stream.step, Option.ite_none_right_eq_some, Option.some.injEq, Bool.and_eq_true,
        decide_eq_true_eq] at h
      obtain ⟨⟨_, hbusy⟩, hnext⟩ := h
      subst hnext
      exact inv.complete hbusy outcome
  | cancelled =>
      simp only [Stream.step, Option.ite_none_right_eq_some, Option.some.injEq] at h
      obtain ⟨hbusy, hnext⟩ := h
      subst hnext
      exact inv.cancelled hbusy
  | resume =>
      unfold Stream.step at h
      cases hstack : s.stack with
      | nil => simp [hstack] at h
      | cons frame rest =>
          simp only [hstack, Option.some.injEq] at h
          subst h
          exact inv.resume hstack

theorem carefulRun_inv {actions : List Action} (h : CarefulRun kind actions s) : Inv s := by
  induction h with
  | start => exact Inv.new
  | step run careful taken ih => exact ih.step careful taken

/-- In every run of careful calls the stream keeps to its life, whatever is called from where and
however the writes complete. -/
theorem lifecycle_orderly {actions : List Action} (h : CarefulRun kind actions s) : Orderly s :=
  (carefulRun_inv h).orderly

/-- A close requested during a write takes effect behind its callback. -/
theorem closeDuringWrite_orderly : ∃ s, CarefulRun .zlib
    [.init .ok, .write, .close, .complete .ok, .resume] s ∧ s.contextClosed = true ∧
      Orderly s := by
  have hinit := CarefulRun.step (a := .init .ok) (CarefulRun.start : CarefulRun .zlib [] _)
    (by intro h; cases h) rfl
  have hwrite := CarefulRun.step (a := .write) hinit
    (fun _ _ => ⟨rfl, rfl, fun frame h => by cases h⟩) rfl
  have hclose := CarefulRun.step (a := .close) hwrite (fun h => absurd rfl h) rfl
  have hcomplete := CarefulRun.step (a := .complete .ok) hclose trivial rfl
  have hresume := CarefulRun.step (a := .resume) hcomplete trivial rfl
  exact ⟨_, hresume, rfl, lifecycle_orderly hresume⟩

/-- A write issued from the callback of a write with a pending close is queued when the context is
closed, and `reset` does not ask for writes at all. -/
theorem closed_under_write :
    (∃ s, runEvents (Stream.step .zlib) Stream.new
      [.init .ok, .write, .close, .complete .ok, .write, .resume] = some s ∧
      s.closedBusy = true ∧ s.outstanding = 1) ∧
    ∃ s, runEvents (Stream.step .zlib) Stream.new [.init .ok, .write, .reset .ok] = some s ∧
      s.resetBusy = true :=
  ⟨⟨_, rfl, rfl, rfl⟩, ⟨_, rfl, rfl⟩⟩

end HermesNode.Zlib
