/-
Module: HermesNode.EventLoop.Tasks
Purpose: The task queue over whole runs, whatever the threads do in between: every task that was
  pushed runs once, in the order of the pushes and on the loop's thread; a queue with tasks in it has
  a wake-up on the way; and between operations the handle is referenced when something holds the loop.
Trusted boundary: none
Main exports: Ledger, Stage, taskQueue_faithful
-/
import HermesNode.EventLoop.Effects

namespace HermesNode.EventLoop

variable {Thread : Type} [DecidableEq Thread] {loopThread : Thread} {s t : Loop Thread}
  {a : Action Thread}

/-! ### What was pushed, what was run -/

/-- The tasks that ran, that were stolen and that are queued are those that were pushed, in order;
no entry was both pushed and rejected, or twice. -/
structure Ledger (loopThread : Thread) (s : Loop Thread) : Prop where
  order : s.executed.map Prod.fst ++ (s.phase.rest ++ s.tasks.reverse) = s.pushed
  onLoop : ∀ x ∈ s.executed, x.2 = loopThread
  fresh : ∀ e ∈ s.pushed ++ s.rejected, e < s.posts
  once : (s.pushed ++ s.rejected).Nodup

omit [DecidableEq Thread] in
theorem Ledger.init : Ledger loopThread (Loop.init : Loop Thread) where
  order := rfl
  onLoop := by
    intro x hx
    cases hx
  fresh := by
    intro e he
    cases he
  once := List.nodup_nil

/-- A new entry goes to the end of either list. -/
theorem fresh_entry {pushed rejected pushed' rejected' : List Entry} {posts : Nat}
    (hsame : (pushed' ++ rejected').Perm (posts :: (pushed ++ rejected)))
    (hfresh : ∀ e ∈ pushed ++ rejected, e < posts) (honce : (pushed ++ rejected).Nodup) :
    (∀ e ∈ pushed' ++ rejected', e < posts + 1) ∧ (pushed' ++ rejected').Nodup := by
  constructor
  · intro e he
    cases List.mem_cons.mp (hsame.mem_iff.mp he) with
    | inl hnew => simp [hnew]
    | inr hold => exact Nat.lt_succ_of_lt (hfresh e hold)
  · apply hsame.nodup_iff.mpr
    apply List.nodup_cons.mpr
    exact ⟨fun hold => Nat.lt_irrefl _ (hfresh _ hold), honce⟩

omit [DecidableEq Thread] in
theorem Ledger.start {task : Entry} {rest tasks : List Entry} {closing : Bool}
    (inv : Ledger loopThread s) (hnext : s.phase.rest ++ s.tasks.reverse =
      task :: (rest ++ tasks.reverse)) :
    Ledger loopThread
      { s with
        tasks := tasks
        phase := .running task rest closing
        executed := s.executed ++ [(task, loopThread)] } where
  order := by
    have horder := inv.order
    rw [hnext] at horder
    rw [← horder]
    simp [Phase.rest]
  onLoop := by
    intro x hx
    cases List.mem_append.mp hx with
    | inl hold => exact inv.onLoop x hold
    | inr hnew => rw [List.mem_singleton.mp hnew]
  fresh := inv.fresh
  once := inv.once

omit [DecidableEq Thread] in
/-- Nothing but the phase changes, and not what was stolen. -/
theorem Ledger.frame {t : Loop Thread} (inv : Ledger loopThread s)
    (hrest : t.phase.rest = s.phase.rest) (htasks : t.tasks = s.tasks)
    (hexecuted : t.executed = s.executed) (hpushed : t.pushed = s.pushed)
    (hrejected : t.rejected = s.rejected) (hposts : t.posts = s.posts) : Ledger loopThread t where
  order := by
    rw [hexecuted, hrest, htasks, hpushed]
    exact inv.order
  onLoop := by
    rw [hexecuted]
    exact inv.onLoop
  fresh := by
    rw [hpushed, hrejected, hposts]
    exact inv.fresh
  once := by
    rw [hpushed, hrejected]
    exact inv.once

theorem Ledger.step (inv : Ledger loopThread s) (h : Effect loopThread s a t) :
    Ledger loopThread t := by
  cases h with
  | reject hclosed =>
      have hsame : (s.pushed ++ (s.rejected ++ [s.posts])).Perm
          (s.posts :: (s.pushed ++ s.rejected)) := by
        rw [← List.append_assoc]
        exact List.perm_append_singleton _ _
      obtain ⟨hfresh, honce⟩ := fresh_entry hsame inv.fresh inv.once
      exact ⟨inv.order, inv.onLoop, hfresh, honce⟩
  | push thread hopen hfree houtside =>
      have hsame : (s.pushed ++ [s.posts] ++ s.rejected).Perm
          (s.posts :: (s.pushed ++ s.rejected)) := by
        rw [List.append_assoc]
        exact List.perm_middle
      obtain ⟨hfresh, honce⟩ := fresh_entry hsame inv.fresh inv.once
      have horder : s.executed.map Prod.fst ++ (s.phase.rest ++ (s.posts :: s.tasks).reverse) =
          s.pushed ++ [s.posts] := by
        rw [← inv.order]
        simp
      exact ⟨horder, inv.onLoop, hfresh, honce⟩
  | cancel => exact inv
  | check thread hopen hfree => exact inv.frame rfl rfl rfl rfl rfl rfl
  | count n hfree houtside => exact inv.frame rfl rfl rfl rfl rfl rfl
  | skip thread thenSend hclosed hcall => exact inv.frame rfl rfl rfl rfl rfl rfl
  | read thread thenSend hopen hcall => exact inv.frame rfl rfl rfl rfl rfl rfl
  | apply thread alive thenSend hcall => exact inv.frame rfl rfl rfl rfl rfl rfl
  | send thread hcall => exact inv.frame rfl rfl rfl rfl rfl rfl
  | queue thread hcall => exact inv.frame rfl rfl rfl rfl rfl rfl
  | workDone => exact inv.frame rfl rfl rfl rfl rfl rfl
  | wake handle hfree hidle hasync hpending =>
      exact inv.frame (by rw [hidle]; rfl) rfl rfl rfl rfl rfl
  | close hfree hidle => exact inv.frame (by rw [hidle]; rfl) rfl rfl rfl rfl rfl
  | drainNothing closing hfree hphase hempty =>
      apply inv.frame
      · rw [hphase]
        cases closing <;> rfl
      all_goals rfl
  | drain closing task rest hfree hphase htasks =>
      apply inv.start
      rw [htasks, hphase]
      cases closing <;> simp [Phase.rest]
  | next closing task rest last hfree hphase =>
      apply inv.start
      rw [hphase]
      rfl
  | finish closing last hfree hphase =>
      apply inv.frame
      · rw [hphase]
        cases closing <;> rfl
      all_goals rfl
  | closeHandle hfree hphase => exact inv.frame (by rw [hphase]; rfl) rfl rfl rfl rfl rfl
  | closeLoop hfree hphase => exact inv.frame (by rw [hphase]; rfl) rfl rfl rfl rfl rfl

/-! ### How far close is -/

/-- The phases behind the flag. -/
def Phase.closing : Phase → Bool
  | .idle | .entered => false
  | .running _ _ closing => closing
  | _ => true

/-- The phases behind the last theft of the queue. -/
def Phase.emptied : Phase → Bool
  | .running _ _ closing => closing
  | .drained | .returned => true
  | _ => false

/-- The flag, the handle and the queue are as far as the loop's thread is with closing. -/
structure Stage (s : Loop Thread) : Prop where
  flag : s.phase.closing = s.closed
  handle : s.closed = false → s.async.isSome = true
  queue : s.phase.emptied = true → s.tasks = []

omit [DecidableEq Thread] in
theorem Stage.init : Stage (Loop.init : Loop Thread) := by
  constructor
  · rfl
  · intro h
    rfl
  · intro h
    rfl

theorem Stage.step (inv : Stage s) (h : Effect loopThread s a t) : Stage t := by
  cases h with
  | reject hclosed => exact ⟨inv.flag, inv.handle, inv.queue⟩
  | push thread hopen hfree houtside =>
      refine ⟨inv.flag, inv.handle, ?_⟩
      intro hemptied
      -- The queue is stolen for the last time behind the flag.
      have hflag := inv.flag
      have hphase : s.phase.emptied = true := hemptied
      rw [hopen] at hflag
      cases hp : s.phase <;> simp_all [Phase.closing, Phase.emptied]
  | cancel => exact inv
  | check thread hopen hfree => exact ⟨inv.flag, inv.handle, inv.queue⟩
  | count n hfree houtside => exact ⟨inv.flag, inv.handle, inv.queue⟩
  | skip thread thenSend hclosed hcall => exact ⟨inv.flag, inv.handle, inv.queue⟩
  | read thread thenSend hopen hcall => exact ⟨inv.flag, inv.handle, inv.queue⟩
  | apply thread alive thenSend hcall =>
      refine ⟨inv.flag, ?_, inv.queue⟩
      intro hopen
      exact (Option.isSome_map).trans (inv.handle hopen)
  | send thread hcall =>
      refine ⟨inv.flag, ?_, inv.queue⟩
      intro hopen
      exact (Option.isSome_map).trans (inv.handle hopen)
  | queue thread hcall => exact ⟨inv.flag, inv.handle, inv.queue⟩
  | workDone => exact ⟨inv.flag, inv.handle, inv.queue⟩
  | wake handle hfree hidle hasync hpending =>
      have hflag := inv.flag
      rw [hidle] at hflag
      exact ⟨hflag, fun _ => rfl, fun h => by cases h⟩
  | close hfree hidle => exact ⟨rfl, (fun h => by cases h), (fun h => by cases h)⟩
  | drainNothing closing hfree hphase hempty =>
      have hflag := inv.flag
      rw [hphase] at hflag
      refine ⟨?_, inv.handle, fun _ => hempty⟩
      cases closing <;> exact hflag
  | drain closing task rest hfree hphase htasks =>
      have hflag := inv.flag
      rw [hphase] at hflag
      refine ⟨?_, inv.handle, fun _ => rfl⟩
      cases closing <;> exact hflag
  | next closing task rest last hfree hphase =>
      have hflag := inv.flag
      have hqueue := inv.queue
      rw [hphase] at hflag hqueue
      exact ⟨hflag, inv.handle, hqueue⟩
  | finish closing last hfree hphase =>
      have hflag := inv.flag
      have hqueue := inv.queue
      rw [hphase] at hflag hqueue
      refine ⟨?_, inv.handle, ?_⟩
      · cases closing <;> exact hflag
      · cases closing with
        | true => exact hqueue
        | false => exact fun h => by cases h
  | closeHandle hfree hphase =>
      have hflag := inv.flag
      rw [hphase] at hflag
      have hclosed : s.closed = true := hflag.symm
      refine ⟨hflag, ?_, fun h => by cases h⟩
      intro hopen
      exact absurd (hclosed.symm.trans hopen) (by decide)
  | closeLoop hfree hphase =>
      have hflag := inv.flag
      have hqueue := inv.queue
      rw [hphase] at hflag hqueue
      exact ⟨hflag, inv.handle, hqueue⟩

/-! ### The wake-up -/

/-- A wake-up is pending, or was taken up by a drain that has yet to steal the queue. -/
def Loop.WakePending (s : Loop Thread) : Prop :=
  (∃ handle, s.async = some handle ∧ handle.pending = true) ∨ s.phase = .entered

/-- A thread pushed a task and has yet to send the wake-up. -/
def Loop.Owing (s : Loop Thread) : Prop :=
  ∃ thread c, s.calls thread = some c ∧ c.owesSend = true

/-- A queue with tasks in it has a wake-up on the way. -/
def Woken (s : Loop Thread) : Prop :=
  s.tasks ≠ [] → s.closed = false → s.WakePending ∨ s.Owing

theorem Woken.carry (inv : Woken s) (thread : Thread) (next : Option Call)
    (hcalls : t.calls = (s.setCall thread next).calls) (htasks : t.tasks = s.tasks)
    (hclosed : t.closed = s.closed) (hpending : s.WakePending → t.WakePending)
    (hkeep : ∀ c, s.calls thread = some c → c.owesSend = true →
      ∃ c', next = some c' ∧ c'.owesSend = true) : Woken t := by
  intro hsome hopen
  rw [htasks] at hsome
  rw [hclosed] at hopen
  cases inv hsome hopen with
  | inl hwake => exact Or.inl (hpending hwake)
  | inr howing =>
      apply Or.inr
      obtain ⟨other, c, hcall, howes⟩ := howing
      by_cases hthread : other = thread
      · subst hthread
        obtain ⟨c', hnext, howes'⟩ := hkeep c hcall howes
        exact ⟨other, c', by rw [hcalls, setCall_self, hnext], howes'⟩
      · exact ⟨other, c, by rw [hcalls, setCall_other s next hthread, hcall], howes⟩

omit [DecidableEq Thread] in
theorem owes_nothing {thread : Thread} {next : Option Call} (h : s.calls thread = none) (c : Call)
    (hcall : s.calls thread = some c) (_ : c.owesSend = true) :
    ∃ c', next = some c' ∧ c'.owesSend = true := by
  rw [h] at hcall
  cases hcall

theorem owesSend_after {thenSend : Bool} (h : thenSend = true) :
    ∃ c, Call.after thenSend = some c ∧ c.owesSend = true :=
  ⟨.send, by simp [Call.after, h], rfl⟩

omit [DecidableEq Thread] in
theorem wakePending_running {task : Entry} {rest : List Entry} {closing : Bool}
    (hphase : s.phase = .running task rest closing) (h : s.WakePending) (hasync : t.async = s.async) :
    t.WakePending := by
  cases h with
  | inl hpending =>
      apply Or.inl
      rw [hasync]
      exact hpending
  | inr hentered =>
      rw [hphase] at hentered
      cases hentered

omit [DecidableEq Thread] in
/-- Behind the flag there is nothing to show. -/
theorem Woken.closing (stage : Stage s) (hphase : s.phase.closing = true)
    (hclosed : t.closed = s.closed) : Woken t := by
  intro _ hopen
  rw [hclosed, ← stage.flag, hphase] at hopen
  cases hopen

theorem Woken.step (inv : Woken s) (stage : Stage s) (h : Effect loopThread s a t) : Woken t := by
  cases h with
  | reject hclosed => exact inv
  | push thread hopen hfree houtside =>
      intro htasks hopen'
      apply Or.inr
      exists thread
      by_cases hthread : thread = loopThread
      · exact ⟨.update true, by rw [setCall_self, if_pos hthread], rfl⟩
      · exact ⟨.send, by rw [setCall_self, if_neg hthread], rfl⟩
  | cancel => exact inv
  | check thread hopen hfree =>
      exact inv.carry thread _ rfl rfl rfl id (owes_nothing hfree)
  | count n hfree houtside =>
      exact inv.carry loopThread (some (.update false)) rfl rfl rfl id (owes_nothing hfree)
  | skip thread thenSend hclosed hcall =>
      intro htasks hopen
      exact absurd (hclosed.symm.trans hopen) (by decide)
  | read thread thenSend hopen hcall =>
      apply inv.carry thread _ rfl rfl rfl id
      intro c hc howes
      rw [hcall] at hc
      cases hc
      exact ⟨_, rfl, howes⟩
  | apply thread alive thenSend hcall =>
      refine inv.carry thread (Call.after thenSend) rfl rfl rfl ?_ ?_
      · intro hpending
        cases hpending with
        | inl hpending =>
            obtain ⟨handle, hasync, hpending⟩ := hpending
            apply Or.inl
            exact ⟨{ handle with referenced := alive }, by simp [Loop.setCall, hasync], hpending⟩
        | inr hentered => exact Or.inr hentered
      · intro c hc howes
        rw [hcall] at hc
        cases hc
        exact owesSend_after howes
  | send thread hcall =>
      intro htasks hopen
      obtain ⟨handle, hasync⟩ := Option.isSome_iff_exists.mp (stage.handle hopen)
      apply Or.inl
      apply Or.inl
      exact ⟨{ handle with pending := true }, by simp [Loop.setCall, hasync], rfl⟩
  | queue thread hcall =>
      apply inv.carry thread none rfl rfl rfl id
      intro c hc howes
      rw [hcall] at hc
      cases hc
      cases howes
  | workDone => exact inv
  | wake handle hfree hidle hasync hpending =>
      intro htasks hopen
      exact Or.inl (Or.inr rfl)
  | close hfree hidle =>
      intro htasks hopen
      cases hopen
  | drainNothing closing hfree hphase hempty =>
      intro htasks
      exact absurd hempty htasks
  | drain closing task rest hfree hphase htasks =>
      intro htasks
      exact absurd rfl htasks
  | next closing task rest last hfree hphase =>
      intro htasks hopen
      cases inv htasks hopen with
      | inl hpending => exact Or.inl (wakePending_running hphase hpending rfl)
      | inr howing => exact Or.inr howing
  | finish closing last hfree hphase =>
      refine inv.carry loopThread (some (.update false)) rfl rfl rfl ?_ (owes_nothing hfree)
      intro hpending
      exact wakePending_running hphase hpending rfl
  | closeHandle hfree hphase => exact Woken.closing stage (by rw [hphase]; rfl) rfl
  | closeLoop hfree hphase => exact Woken.closing stage (by rw [hphase]; rfl) rfl

/-! ### The reference -/

/-- The async handle keeps the loop alive. -/
def Loop.referenced (s : Loop Thread) : Bool := s.async.any (·.referenced)

/-- The handle is referenced for the references taken, and not for nothing. -/
def Loop.Balanced (s : Loop Thread) : Prop :=
  (0 < s.loopRefs → s.referenced = true) ∧
    (s.referenced = true → s.tasks ≠ [] ∨ 0 < s.loopRefs)

/-- What holds of the reference at each point of a call on the loop's thread. Between the read and
the `uv_ref` other threads can only push. -/
def RefsSettle (s : Loop Thread) : Option Call → Prop
  | some (.update _) => True
  | some (.apply alive _) =>
      (0 < s.loopRefs → alive = true) ∧ (alive = true → s.tasks ≠ [] ∨ 0 < s.loopRefs)
  | _ => s.phase = .idle ∨ s.phase = .entered → s.Balanced

/-- Only the loop's thread re-evaluates the reference, and at the end of every operation on it. -/
structure Held (loopThread : Thread) (s : Loop Thread) : Prop where
  producers : ∀ thread, thread ≠ loopThread → ∀ c, s.calls thread = some c →
    c = .send ∨ c = .queueWork
  refs : s.closed = false → RefsSettle s (s.calls loopThread)

omit [DecidableEq Thread] in
theorem RefsSettle.mono {c : Option Call} (h : RefsSettle s c)
    (htasks : s.tasks ≠ [] → t.tasks ≠ []) (hrefs : t.loopRefs = s.loopRefs)
    (hreferenced : t.referenced = s.referenced)
    (hphase : t.phase = .idle ∨ t.phase = .entered → s.phase = .idle ∨ s.phase = .entered) :
    RefsSettle t c := by
  have hbalanced : s.Balanced → t.Balanced := by
    intro hb
    unfold Loop.Balanced at hb ⊢
    rw [hrefs, hreferenced]
    exact ⟨hb.1, fun hr => (hb.2 hr).imp_left htasks⟩
  cases c with
  | none => exact fun hp => hbalanced (h (hphase hp))
  | some c =>
      cases c with
      | update thenSend => trivial
      | apply alive thenSend =>
          unfold RefsSettle at h ⊢
          rw [hrefs]
          exact ⟨h.1, fun ha => (h.2 ha).imp_left htasks⟩
      | send => exact fun hp => hbalanced (h (hphase hp))
      | queueWork => exact fun hp => hbalanced (h (hphase hp))

/-- The calls of producers are the same, or one of them is at a step of a producer. -/
theorem producers_setCall {thread : Thread} {next : Option Call}
    (h : ∀ thread, thread ≠ loopThread → ∀ c, s.calls thread = some c → c = .send ∨ c = .queueWork)
    (hnext : thread ≠ loopThread → ∀ c, next = some c → c = .send ∨ c = .queueWork)
    (other : Thread) (hother : other ≠ loopThread) (c : Call)
    (hcall : (s.setCall thread next).calls other = some c) : c = .send ∨ c = .queueWork := by
  by_cases hthread : other = thread
  · subst hthread
    rw [setCall_self] at hcall
    exact hnext hother c hcall
  · rw [setCall_other s next hthread] at hcall
    exact h other hother c hcall

/-- A call that re-evaluates the reference is one of the loop's thread. -/
theorem Held.onLoop (inv : Held loopThread s) {thread : Thread} {c : Call}
    (hcall : s.calls thread = some c) (hc : ¬ (c = .send ∨ c = .queueWork)) :
    thread = loopThread := by
  by_cases hthread : thread = loopThread
  · exact hthread
  · exact absurd (inv.producers thread hthread c hcall) hc

/-- A step of some thread that leaves alone what the reference depends on: the loop's thread comes to
a call of which the same holds. -/
theorem Held.carry (inv : Held loopThread s) (thread : Thread) (next : Option Call)
    (hcalls : t.calls = (s.setCall thread next).calls) (hclosed : t.closed = s.closed)
    (hproducer : thread ≠ loopThread → ∀ c, next = some c → c = .send ∨ c = .queueWork)
    (hrefs : ∀ c, RefsSettle s c → RefsSettle t c)
    (hloop : thread = loopThread → s.closed = false → RefsSettle t next) : Held loopThread t where
  producers := by
    rw [hcalls]
    exact producers_setCall inv.producers hproducer
  refs := by
    intro hopen
    rw [hclosed] at hopen
    rw [hcalls]
    by_cases hthread : loopThread = thread
    · subst hthread
      rw [setCall_self]
      exact hloop rfl hopen
    · rw [setCall_other s next hthread]
      exact hrefs _ (inv.refs hopen)

omit [DecidableEq Thread] in
theorem RefsSettle.frame {c : Option Call} (h : RefsSettle s c) (htasks : t.tasks = s.tasks)
    (hrefs : t.loopRefs = s.loopRefs) (hreferenced : t.referenced = s.referenced)
    (hphase : t.phase = s.phase) : RefsSettle t c := by
  apply h.mono
  · rw [htasks]
    exact id
  · exact hrefs
  · exact hreferenced
  · rw [hphase]
    exact id

theorem Held.step (inv : Held loopThread s) (stage : Stage s) (h : Effect loopThread s a t) :
    Held loopThread t := by
  cases h with
  | reject hclosed => exact ⟨inv.producers, fun hopen => (inv.refs hopen).frame rfl rfl rfl rfl⟩
  | push thread hopen hfree houtside =>
      refine inv.carry thread _ rfl rfl ?_ ?_ ?_
      · intro hthread c hc
        rw [if_neg hthread] at hc
        cases hc
        exact Or.inl rfl
      · intro c hsettle
        exact hsettle.mono (fun _ => by simp [Loop.setCall]) rfl rfl id
      · intro hthread _
        rw [if_pos hthread]
        trivial
  | cancel => exact inv
  | check thread hopen hfree =>
      refine inv.carry thread _ rfl rfl ?_ (fun c hc => hc.frame rfl rfl rfl rfl) ?_
      · intro _ c hc
        cases hc
        exact Or.inr rfl
      · intro hthread hopen'
        have hrefs := inv.refs hopen'
        rw [← hthread, hfree] at hrefs
        exact hrefs
  | count n hfree houtside =>
      constructor
      · exact producers_setCall inv.producers (fun h => absurd rfl h)
      · intro hopen
        rw [setCall_self]
        trivial
  | skip thread thenSend hclosed hcall =>
      have hthread := inv.onLoop hcall (by simp)
      subst hthread
      constructor
      · exact producers_setCall inv.producers (fun h => absurd rfl h)
      · intro hopen
        exact absurd (hclosed.symm.trans hopen) (by decide)
  | read thread thenSend hopen hcall =>
      have hthread := inv.onLoop hcall (by simp)
      subst hthread
      constructor
      · exact producers_setCall inv.producers (fun h => absurd rfl h)
      · intro hopen'
        rw [setCall_self]
        constructor
        · intro hpos
          have hrefs : 0 < s.loopRefs := hpos
          simp [hrefs]
        · intro halive
          simp only [Bool.or_eq_true, Bool.not_eq_true', List.isEmpty_eq_false_iff,
            decide_eq_true_eq] at halive
          exact halive
  | apply thread alive thenSend hcall =>
      have hthread := inv.onLoop hcall (by simp)
      subst hthread
      constructor
      · exact producers_setCall inv.producers (fun h => absurd rfl h)
      · intro hopen
        have hopen' : s.closed = false := hopen
        have hrefs := inv.refs hopen'
        rw [hcall] at hrefs
        obtain ⟨handle, hasync⟩ := Option.isSome_iff_exists.mp (stage.handle hopen')
        have hbalanced : Loop.Balanced (Loop.setCall
            { s with async := s.async.map fun handle => { handle with referenced := alive } }
            thread (Call.after thenSend)) := by
          simpa [Loop.Balanced, Loop.referenced, Loop.setCall, hasync, RefsSettle] using hrefs
        rw [setCall_self]
        cases thenSend with
        | false => exact fun _ => hbalanced
        | true => exact fun _ => hbalanced
  | send thread hcall =>
      have hreferenced : Loop.referenced (Loop.setCall
          { s with
            async := s.async.map fun handle => { handle with pending := true }
            sentClosed := s.sentClosed || s.async.isNone } thread none) = s.referenced := by
        cases hasync : s.async <;> simp [Loop.referenced, Loop.setCall, hasync]
      refine inv.carry thread none rfl rfl ?_ (fun c hc => hc.frame rfl rfl hreferenced rfl) ?_
      · intro _ c hc
        cases hc
      · intro hthread hopen
        have hrefs := inv.refs hopen
        rw [← hthread, hcall] at hrefs
        have hnone : RefsSettle s none := hrefs
        exact hnone.frame rfl rfl hreferenced rfl
  | queue thread hcall =>
      refine inv.carry thread none rfl rfl ?_ (fun c hc => hc.frame rfl rfl rfl rfl) ?_
      · intro _ c hc
        cases hc
      · intro hthread hopen
        have hrefs := inv.refs hopen
        rw [← hthread, hcall] at hrefs
        have hnone : RefsSettle s none := hrefs
        exact hnone.frame rfl rfl rfl rfl
  | workDone => exact ⟨inv.producers, fun hopen => (inv.refs hopen).frame rfl rfl rfl rfl⟩
  | wake handle hfree hidle hasync hpending =>
      refine ⟨inv.producers, fun hopen => (inv.refs hopen).mono id rfl ?_ (fun _ => Or.inl hidle)⟩
      simp [Loop.referenced, hasync]
  | close hfree hidle => exact ⟨inv.producers, fun hopen => by cases hopen⟩
  | drainNothing closing hfree hphase hempty =>
      refine ⟨inv.producers, fun hopen => (inv.refs hopen).mono id rfl rfl ?_⟩
      intro hp
      cases closing with
      | false => exact Or.inr hphase
      | true => simp at hp
  | drain closing task rest hfree hphase htasks =>
      refine ⟨inv.producers, fun hopen => ?_⟩
      simp [hfree, RefsSettle]
  | next closing task rest last hfree hphase =>
      refine ⟨inv.producers, fun hopen => ?_⟩
      simp [hfree, RefsSettle]
  | finish closing last hfree hphase =>
      constructor
      · exact producers_setCall inv.producers (fun h => absurd rfl h)
      · intro hopen
        rw [setCall_self]
        trivial
  | closeHandle hfree hphase =>
      refine ⟨inv.producers, fun hopen => ?_⟩
      simp [hfree, RefsSettle]
  | closeLoop hfree hphase =>
      refine ⟨inv.producers, fun hopen => ?_⟩
      simp [hfree, RefsSettle]

/-! ### Runs -/

/-- What holds of the loop after every run. -/
structure Inv (loopThread : Thread) (s : Loop Thread) : Prop where
  ledger : Ledger loopThread s
  stage : Stage s
  woken : Woken s
  held : Held loopThread s

omit [DecidableEq Thread] in
theorem Inv.init : Inv loopThread (Loop.init : Loop Thread) where
  ledger := Ledger.init
  stage := Stage.init
  woken := fun htasks => absurd rfl htasks
  held := by
    constructor
    · intro thread _ c hcall
      cases hcall
    · intro _ _
      simp [Loop.Balanced, Loop.init, Loop.referenced]

theorem Inv.step (inv : Inv loopThread s) (h : Effect loopThread s a t) : Inv loopThread t where
  ledger := inv.ledger.step h
  stage := inv.stage.step h
  woken := inv.woken.step inv.stage h
  held := inv.held.step inv.stage h

theorem run_inv {actions : List (Action Thread)} (inv : Inv loopThread s)
    (hrun : runEvents (Loop.step loopThread) s actions = some t) : Inv loopThread t :=
  runEvents_invariant (fun _ _ _ inv hstep => inv.step (step_effect hstep)) inv hrun

/-! ### Every task gets to run -/

/-- The loop's thread alone comes from one state to the other, and pushes nothing on the way. -/
def Reaches (loopThread : Thread) (s t : Loop Thread) : Prop :=
  (∃ actions, runEvents (Loop.step loopThread) s actions = some t) ∧ t.pushed = s.pushed

theorem Reaches.refl (s : Loop Thread) : Reaches loopThread s s := ⟨⟨[], rfl⟩, rfl⟩

theorem Reaches.head {u : Loop Thread} {a : Action Thread}
    (hstep : s.step loopThread a = some t) (hpushed : t.pushed = s.pushed)
    (h : Reaches loopThread t u) : Reaches loopThread s u := by
  obtain ⟨⟨actions, hrun⟩, hsame⟩ := h
  constructor
  · exists a :: actions
    simp [runEvents, hstep, hrun]
  · rw [hsame, hpushed]

theorem Reaches.trans {u : Loop Thread} (h : Reaches loopThread s t)
    (h' : Reaches loopThread t u) : Reaches loopThread s u := by
  obtain ⟨⟨actions, hrun⟩, hsame⟩ := h
  obtain ⟨⟨later, hlater⟩, hsame'⟩ := h'
  constructor
  · exists actions ++ later
    exact runEvents_append hrun hlater
  · rw [hsame', hsame]

theorem proceed_frame (s : Loop Thread) (thread : Thread) (c : Call) :
    (s.proceed thread c).phase = s.phase ∧ (s.proceed thread c).pushed = s.pushed := by
  cases c with
  | update thenSend => exact ⟨rfl, rfl⟩
  | apply alive thenSend => exact ⟨rfl, rfl⟩
  | send =>
      unfold Loop.proceed
      rw [asyncSend_eq]
      exact ⟨rfl, rfl⟩
  | queueWork =>
      unfold Loop.proceed
      rw [queueWork_eq]
      exact ⟨rfl, rfl⟩

/-- The call the loop's thread is in comes to its end. -/
def Ends (loopThread : Thread) (s : Loop Thread) : Prop :=
  ∃ t, Reaches loopThread s t ∧ t.calls loopThread = none ∧ t.phase = s.phase

theorem ends_proceed {c : Call} (hcall : s.calls loopThread = some c)
    (h : Ends loopThread (s.proceed loopThread c)) : Ends loopThread s := by
  obtain ⟨t, hreach, hfree, hphase⟩ := h
  obtain ⟨hphase', hpushed⟩ := proceed_frame s loopThread c
  have hstep : s.step loopThread (.proceed loopThread) = some (s.proceed loopThread c) := by
    simp [Loop.step, hcall]
  exact ⟨t, hreach.head hstep hpushed, hfree, hphase.trans hphase'⟩

theorem ends_free (hfree : s.calls loopThread = none) : Ends loopThread s :=
  ⟨s, Reaches.refl s, hfree, rfl⟩

theorem ends_after {thenSend : Bool} (hcall : s.calls loopThread = Call.after thenSend) :
    Ends loopThread s := by
  cases thenSend with
  | false => exact ends_free hcall
  | true =>
      apply ends_proceed (c := .send) hcall
      apply ends_free
      simp [Loop.proceed]

theorem ends_apply {alive thenSend : Bool}
    (hcall : s.calls loopThread = some (.apply alive thenSend)) : Ends loopThread s := by
  apply ends_proceed hcall
  exact ends_after (setCall_self _ loopThread _)

theorem ends_call (s : Loop Thread) : Ends loopThread s := by
  cases hcall : s.calls loopThread with
  | none => exact ends_free hcall
  | some c =>
      apply ends_proceed hcall
      cases c with
      | update thenSend =>
          cases hclosed : s.closed with
          | true =>
              apply ends_after
              simp [Loop.proceed, hclosed]
              rfl
          | false =>
              apply ends_apply
              simp [Loop.proceed, hclosed]
              exact ⟨rfl, rfl⟩
      | apply alive thenSend => exact ends_after (setCall_self _ loopThread _)
      | send => exact ends_free (setCall_self _ loopThread _)
      | queueWork => exact ends_free (setCall_self _ loopThread _)

/-- The loop's thread gets out of the phase it is in when the next step does. -/
theorem reaches_advance {phase : Phase}
    (h : ∀ u : Loop Thread, u.phase = s.phase → u.calls loopThread = none →
      ∃ t, Reaches loopThread u t ∧ t.phase = phase) :
    ∃ t, Reaches loopThread s t ∧ t.phase = phase := by
  obtain ⟨u, hreach, hfree, hphase⟩ : Ends loopThread s := ends_call s
  obtain ⟨t, hreach', hphase'⟩ := h u hphase hfree
  exact ⟨t, hreach.trans hreach', hphase'⟩

theorem reaches_runOut (rest : List Entry) {task : Entry} {closing : Bool}
    (hphase : s.phase = .running task rest closing) :
    ∃ t, Reaches loopThread s t ∧ t.phase = if closing then .drained else .idle := by
  induction rest generalizing s task with
  | nil =>
      apply reaches_advance
      intro u hu hfree
      rw [hphase] at hu
      have hstep : u.step loopThread .advance = some (u.runNext loopThread closing []) := by
        simp [Loop.step, hfree, Loop.advance, hu]
      exact ⟨_, (Reaches.refl _).head hstep rfl, rfl⟩
  | cons next rest ih =>
      apply reaches_advance
      intro u hu hfree
      rw [hphase] at hu
      have hstep : u.step loopThread .advance =
          some (u.runNext loopThread closing (next :: rest)) := by
        simp [Loop.step, hfree, Loop.advance, hu]
      obtain ⟨t, hreach, hphase'⟩ := ih (s := u.runNext loopThread closing (next :: rest)) rfl
      exact ⟨t, hreach.head hstep rfl, hphase'⟩

/-- A drain that has yet to steal the queue comes to its end. -/
theorem reaches_drain (closing : Bool) (hphase : s.phase = if closing then .shut else .entered) :
    ∃ t, Reaches loopThread s t ∧ t.phase = if closing then .drained else .idle := by
  apply reaches_advance
  intro u hu hfree
  rw [hphase] at hu
  have hstep : u.step loopThread .advance = some (u.steal loopThread closing) := by
    cases closing <;> simp [Loop.step, hfree, Loop.advance, hu]
  cases htasks : u.tasks.reverse with
  | nil =>
      rw [List.reverse_eq_nil_iff] at htasks
      have hsteal : u.steal loopThread closing =
          { u with phase := if closing then .drained else .idle } := by
        simp [Loop.steal, htasks]
      rw [hsteal] at hstep
      exact ⟨_, (Reaches.refl _).head hstep rfl, rfl⟩
  | cons task rest =>
      have hsome : u.tasks.isEmpty = false := by
        cases h : u.tasks with
        | nil => simp [h] at htasks
        | cons a as => rfl
      have hsteal : u.steal loopThread closing =
          Loop.runNext loopThread { u with tasks := [] } closing (task :: rest) := by
        simp [Loop.steal, hsome, htasks]
      rw [hsteal] at hstep
      obtain ⟨t, hreach, hphase'⟩ : ∃ t, Reaches loopThread
          (Loop.runNext loopThread { u with tasks := [] } closing (task :: rest)) t ∧
          t.phase = if closing then .drained else .idle := reaches_runOut rest rfl
      exact ⟨t, hreach.head hstep rfl, hphase'⟩

theorem reaches_flagged (hphase : s.phase = .flagged) :
    ∃ t, Reaches loopThread s t ∧ t.phase = .drained := by
  apply reaches_advance
  intro u hu hfree
  rw [hphase] at hu
  have hstep : u.step loopThread .advance = some { u with async := none, phase := .shut } := by
    simp [Loop.step, hfree, Loop.advance, hu]
  obtain ⟨t, hreach, hphase'⟩ : ∃ t, Reaches loopThread
      { u with async := none, phase := .shut } t ∧ t.phase = .drained :=
    reaches_drain true rfl
  exact ⟨t, hreach.head hstep rfl, hphase'⟩

theorem reaches_close (hphase : s.phase = .idle) :
    ∃ t, Reaches loopThread s t ∧ t.phase = .drained := by
  apply reaches_advance
  intro u hu hfree
  rw [hphase] at hu
  have hstep : u.step loopThread .close = some { u with closed := true, phase := .flagged } := by
    simp [Loop.step, hfree, hu]
  obtain ⟨t, hreach, hphase'⟩ : ∃ t, Reaches loopThread
      { u with closed := true, phase := .flagged } t ∧ t.phase = .drained := reaches_flagged rfl
  exact ⟨t, hreach.head hstep rfl, hphase'⟩

theorem reaches_idle_close (h : ∃ t, Reaches loopThread s t ∧ t.phase = .idle) :
    ∃ t, Reaches loopThread s t ∧ t.phase = .drained := by
  obtain ⟨u, hreach, hphase⟩ := h
  obtain ⟨t, hreach', hphase'⟩ : ∃ t, Reaches loopThread u t ∧ t.phase = .drained :=
    reaches_close hphase
  exact ⟨t, hreach.trans hreach', hphase'⟩

/-- From every state the loop's thread gets to the end of the last drain, by closing if nothing
else. -/
theorem reaches_emptied (s : Loop Thread) :
    ∃ t, Reaches loopThread s t ∧ (t.phase = .drained ∨ t.phase = .returned) := by
  cases hphase : s.phase with
  | returned => exact ⟨s, Reaches.refl s, Or.inr hphase⟩
  | drained => exact ⟨s, Reaches.refl s, Or.inl hphase⟩
  | flagged =>
      obtain ⟨t, hreach, hend⟩ : ∃ t, Reaches loopThread s t ∧ t.phase = .drained :=
        reaches_flagged hphase
      exact ⟨t, hreach, Or.inl hend⟩
  | shut =>
      obtain ⟨t, hreach, hend⟩ : ∃ t, Reaches loopThread s t ∧ t.phase = .drained :=
        reaches_drain true hphase
      exact ⟨t, hreach, Or.inl hend⟩
  | idle =>
      obtain ⟨t, hreach, hend⟩ : ∃ t, Reaches loopThread s t ∧ t.phase = .drained :=
        reaches_close hphase
      exact ⟨t, hreach, Or.inl hend⟩
  | entered =>
      obtain ⟨t, hreach, hend⟩ : ∃ t, Reaches loopThread s t ∧ t.phase = .drained :=
        reaches_idle_close (reaches_drain false hphase)
      exact ⟨t, hreach, Or.inl hend⟩
  | running task rest closing =>
      cases closing with
      | true =>
          obtain ⟨t, hreach, hend⟩ : ∃ t, Reaches loopThread s t ∧ t.phase = .drained :=
            reaches_runOut rest hphase
          exact ⟨t, hreach, Or.inl hend⟩
      | false =>
          obtain ⟨t, hreach, hend⟩ : ∃ t, Reaches loopThread s t ∧ t.phase = .drained :=
            reaches_idle_close (reaches_runOut rest hphase)
          exact ⟨t, hreach, Or.inl hend⟩

omit [DecidableEq Thread] in
theorem Inv.allRan (inv : Inv loopThread s) (h : s.phase = .drained ∨ s.phase = .returned) :
    s.executed.map Prod.fst = s.pushed := by
  have horder := inv.ledger.order
  have hqueue := inv.stage.queue
  cases h with
  | inl hphase =>
      rw [hphase] at horder hqueue
      simpa [Phase.rest, hqueue rfl] using horder
  | inr hphase =>
      rw [hphase] at horder hqueue
      simpa [Phase.rest, hqueue rfl] using horder

/-- Every task that was pushed runs once, in the order of the pushes and on the loop's thread: those
that ran are the first of those pushed, all of them have run when `close` has drained the queue, and
from every state the loop's thread gets there. No rejected task runs. A queue with tasks in it has a
wake-up on the way while the loop is open, and with no operation going on, no task queued and the
handle not closed the handle is referenced when the loop is. -/
theorem taskQueue_faithful {actions : List (Action Thread)}
    (hrun : runEvents (Loop.step loopThread) Loop.init actions = some s) :
    s.executed.map Prod.fst ++ (s.phase.rest ++ s.tasks.reverse) = s.pushed ∧
    s.pushed.Nodup ∧
    (∀ x ∈ s.executed, x.2 = loopThread) ∧
    (s.phase = .drained ∨ s.phase = .returned → s.executed.map Prod.fst = s.pushed) ∧
    (∃ later t, runEvents (Loop.step loopThread) s later = some t ∧
      t.executed.map Prod.fst = s.pushed) ∧
    (∀ e ∈ s.rejected, e ∉ s.executed.map Prod.fst) ∧
    (s.tasks ≠ [] → s.closed = false → s.WakePending ∨ s.Owing) ∧
    (s.phase = .idle → s.calls loopThread = none → s.tasks = [] →
      (s.referenced = true ↔ 0 < s.loopRefs)) := by
  have inv : Inv loopThread s := run_inv Inv.init hrun
  have honce := inv.ledger.once
  refine ⟨inv.ledger.order, (List.nodup_append.mp honce).1, inv.ledger.onLoop, inv.allRan, ?_, ?_,
    inv.woken, ?_⟩
  · obtain ⟨t, ⟨⟨later, hlater⟩, hpushed⟩, hend⟩ : ∃ t, Reaches loopThread s t ∧
        (t.phase = .drained ∨ t.phase = .returned) := reaches_emptied s
    exists later, t
    constructor
    · exact hlater
    · rw [(run_inv inv hlater).allRan hend, hpushed]
  · intro e hrejected hran
    have hpushed : e ∈ s.pushed := by
      rw [← inv.ledger.order]
      exact List.mem_append_left _ hran
    exact (List.nodup_append.mp honce).2.2 e hpushed e hrejected rfl
  · intro hidle hfree hempty
    have hopen : s.closed = false := by
      rw [← inv.stage.flag, hidle]
      rfl
    have hsettle := inv.held.refs hopen
    rw [hfree] at hsettle
    obtain ⟨hrefs, hreferenced⟩ := hsettle (Or.inl hidle)
    constructor
    · intro h
      exact (hreferenced h).resolve_left (fun hsome => hsome hempty)
    · exact hrefs

/-- A producer posts a task, and the task posts another while it runs. -/
def postingTask : List (Action Nat) :=
  [.postTask 1, .proceed 1, .wake, .advance, .postTask 0, .proceed 0, .proceed 0, .proceed 0,
    .advance, .proceed 0, .proceed 0]

theorem postingTask_faithful : ∃ s, runEvents (Loop.step 0) Loop.init postingTask = some s ∧
    s.executed = [(0, 0)] ∧ s.tasks = [1] ∧
    s.executed.map Prod.fst ++ (s.phase.rest ++ s.tasks.reverse) = s.pushed ∧
    (s.WakePending ∨ s.Owing) := by
  have hrun : ∃ s, runEvents (Loop.step 0) Loop.init postingTask = some s ∧
      s.executed = [(0, 0)] ∧ s.tasks = [1] ∧ s.closed = false := ⟨_, rfl, rfl, rfl, rfl⟩
  obtain ⟨s, hrun, hexecuted, htasks, hopen⟩ := hrun
  obtain ⟨horder, _, _, _, _, _, hwoken, _⟩ := taskQueue_faithful hrun
  exact ⟨s, hrun, hexecuted, htasks, horder, hwoken (by rw [htasks]; decide) hopen⟩

/-- The loop is closed with a reference outstanding: nothing goes on and nothing is queued, but the
handle is gone. And `uv_run` takes the wake-up before the drain locks the mutex: until it does, the
queue has a task in it, no wake-up is pending and no thread has one to send. -/
theorem closed_referenced_and_taken_wake :
    (∃ s, runEvents (Loop.step 0) (Loop.init : Loop Nat)
        [.refLoop, .proceed 0, .proceed 0, .close, .advance, .advance, .advance] = some s ∧
      s.phase = .returned ∧ s.calls 0 = none ∧ s.tasks = [] ∧
      ¬ (s.referenced = true ↔ 0 < s.loopRefs)) ∧
    ∃ s, runEvents (Loop.step 0) (Loop.init : Loop Nat) [.postTask 1, .proceed 1, .wake] = some s ∧
      s.tasks ≠ [] ∧ s.closed = false ∧
      ¬ (∃ handle, s.async = some handle ∧ handle.pending = true) ∧ ¬ s.Owing := by
  constructor
  · exact ⟨_, rfl, rfl, rfl, rfl, by decide⟩
  · refine ⟨_, rfl, by decide, rfl, ?_, ?_⟩
    · rintro ⟨handle, hasync, hpending⟩
      cases hasync
      cases hpending
    · rintro ⟨thread, c, hcall, howes⟩
      by_cases hthread : thread = 1
      · simp [Loop.postTask, Loop.proceed, Loop.setCall, Loop.init, hthread] at hcall
      · simp [Loop.postTask, Loop.proceed, Loop.setCall, Loop.asyncSend, Loop.init, hthread] at hcall

end HermesNode.EventLoop
