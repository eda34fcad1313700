/-
Module: HermesNode.Bindings.SpawnSyncRun
Purpose: The runner of `spawnSync` from its options to its result. Whatever libuv answers and in whatever
  order its callbacks come, the result is the one due for them, every handle that was initialized was
  closed once, and the child got the signals it was to get, none of them behind its exit.
Trusted boundary: none
Main exports: Settled, spawnSync_settled
-/
import HermesNode.Bindings.SpawnSyncLaws
import Mathlib.Data.List.Nodup

namespace HermesNode.SpawnSync

variable {options : Options} {phase : Phase} {past : List Event} {s t : Runner} {c : Course}
  {answers : Answers} {indices : List Nat} {i : Nat} {p : StdioPipe}

/-! ### Before the loop -/

/-- What the runner has before it knows its pipes. -/
def initial (options : Options) : Runner where
  stdioPipes := (options.stdio.getD []).map (Option.map fun p => { toPipeOptions := p })

theorem initial_pipe {i : Nat} {p : StdioPipe} (h : (initial options).pipe? i = some p) :
    ∃ q : PipeOptions, p = { toPipeOptions := q } := by
  have hentry := getElem?_of_pipe? h
  rw [initial, List.getElem?_map, Option.map_eq_some_iff] at hentry
  obtain ⟨entry, -, hentry⟩ := hentry
  obtain ⟨q, -, hq⟩ := Option.map_eq_some_iff.mp hentry
  exact ⟨q, hq.symm⟩

theorem initial_isOpen (options : Options) (handle : Handle) :
    (initial options).isOpen handle = false := by
  cases handle with
  | pipe i =>
      change ((initial options).pipe? i).any _ = false
      cases hp : (initial options).pipe? i with
      | none => rfl
      | some p =>
          obtain ⟨q, rfl⟩ := initial_pipe hp
          rfl
  | timer => rfl
  | process => rfl

theorem initial_inv (options : Options) : Inv options .running [] (initial options) {} where
  callbacks := rfl
  kept := by
    rw [initial, List.map_map]
    refine (List.map_congr_left fun p _ => ?_).trans (List.map_id _)
    cases p <;> rfl
  pipes := by
    intro i p hp
    obtain ⟨q, rfl⟩ := initial_pipe hp
    exact ⟨fun b hb => absurd hb List.not_mem_nil, rfl⟩
  targets := rfl
  handles := fun handle => by
    rw [initial_isOpen]
    rfl
  timerClosed := rfl
  swept := fun hfalse => Phase.noConfusion hfalse
  child := fun hfalse => Bool.noConfusion hfalse
  killed := rfl
  signals := rfl
  exit := rfl
  exitStatus := fun e he => by cases he
  exited := rfl
  quiet := rfl
  error := rfl
  errorSet := List.not_mem_nil
  pipeError := rfl
  pipeErrorSet := List.not_mem_nil
  total := rfl

/-- The process handle is not initialized. -/
structure Unspawned (options : Options) (s : Runner) (c : Course) : Prop where
  inv : Inv options .running [] s c
  process : s.processInitialized = false
  processClosing : s.processClosing = false

/-- Nor is the timer. -/
structure Unstarted (options : Options) (s : Runner) (c : Course) : Prop
    extends Unspawned options s c where
  timer : s.timerInitialized = false

theorem parsed_unstarted (options : Options) :
    Unstarted options (parsed options) (Course.parsed options) := by
  have hinitial := initial_inv options
  unfold parsed Course.parsed
  unfold initial at hinitial
  cases hstdio : options.stdio with
  | none =>
      rw [hstdio] at hinitial
      exact ⟨⟨hinitial.setError (show UV_EINVAL ≠ 0 by decide), rfl, rfl⟩, rfl⟩
  | some stdio =>
      rw [hstdio] at hinitial
      exact ⟨⟨hinitial, rfl, rfl⟩, rfl⟩

theorem parsed_isOpen (options : Options) (handle : Handle) :
    (parsed options).isOpen handle = false := by
  rw [← initial_isOpen options handle]
  unfold parsed initial
  cases options.stdio <;> cases handle <;> rfl

theorem Inv.error_iff (h : Inv options phase past s c) : s.error = 0 ↔ c.runnerErrors = [] := by
  rw [h.error, headD_eq_zero h.errorSet]

theorem Inv.pipeError_iff (h : Inv options phase past s c) :
    s.pipeError = 0 ↔ c.pipeErrors = [] := by
  rw [h.pipeError, headD_eq_zero h.pipeErrorSet]

theorem Inv.entry (h : Inv options phase past s c) (i : Nat) :
    (options.stdio.getD []).getD i none = (s.pipe? i).map StdioPipe.toPipeOptions := by
  rw [← h.kept, Runner.pipe?, List.getD_eq_getElem?_getD, List.getD_eq_getElem?_getD,
    List.getElem?_map]
  cases s.stdioPipes[i]? <;> rfl

theorem Inv.length (h : Inv options phase past s c) :
    s.stdioPipes.length = (options.stdio.getD []).length := by
  rw [← h.kept, List.length_map]

theorem opened_handles {handle : Handle} (h : Inv options .running past s c)
    (hclosed : s.isOpen handle = false) (hopen : t.isOpen handle = true)
    (hothers : ∀ other, other ≠ handle → t.isOpen other = s.isOpen other) (other : Handle) :
    (c.opened ++ [handle]).count other =
      (account s.log).closed other + (t.isOpen other).toNat := by
  have hother := h.handles other
  rw [List.count_append, List.count_singleton]
  by_cases heq : other = handle
  · subst heq
    rw [hclosed] at hother
    rw [hopen, hother]
    simp
  · rw [hothers other heq, hother]
    simp [Ne.symm heq]

theorem Inv.openPipe (h : Inv options .running past s c) (hp : s.pipe? i = some p)
    (hclosed : s.isOpen (.pipe i) = false) :
    Inv options .running past (s.setPipe i { p with initialized := true })
      { c with opened := c.opened ++ [.pipe i] } := by
  have hopen : (s.setPipe i { p with initialized := true }).isOpen (.pipe i) = true := by
    rw [isOpen_setPipe hp, if_pos rfl]
  have hhandles := opened_handles h hclosed hopen fun other hne => by
    rw [isOpen_setPipe hp, if_neg hne]
  refine { h with
    kept := ?_, pipes := ?_, handles := hhandles
    swept := fun hfalse => Phase.noConfusion hfalse }
  · refine (kept_setPipe hp ?_).trans h.kept
    rfl
  · intro j q hq
    rw [pipe?_setPipe hp] at hq
    split at hq
    · rename_i hji
      cases hq
      subst hji
      exact h.pipes j p hp
    · exact h.pipes j q hq

section

variable {stdio : List (Option PipeOptions)} {code : Nat → PipeOptions → Int} {q : PipeOptions}

theorem openedPipes_none (h : stdio.getD i none = none) (indices : List Nat) :
    openedPipes answers stdio (i :: indices) = openedPipes answers stdio indices := by
  unfold openedPipes
  rw [List.filter_cons, h]
  rfl

theorem openedPipes_some (h : stdio.getD i none = some q) (indices : List Nat) :
    openedPipes answers stdio (i :: indices) =
      if answers.pipeInit i < 0 then [] else i :: openedPipes answers stdio indices := by
  unfold openedPipes
  rw [List.filter_cons, h, Option.isSome_some, if_pos rfl, List.takeWhile_cons]
  by_cases hfailed : answers.pipeInit i < 0
  · simp [hfailed]
  · simp [hfailed, Int.not_lt.mp hfailed]

theorem firstError_none (h : stdio.getD i none = none) (indices : List Nat) :
    firstError code stdio (i :: indices) = firstError code stdio indices := by
  unfold firstError
  rw [List.filterMap_cons, h]
  rfl

theorem firstError_some (h : stdio.getD i none = some q) (indices : List Nat) :
    firstError code stdio (i :: indices) =
      if code i q < 0 then [code i q] else firstError code stdio indices := by
  unfold firstError
  rw [List.filterMap_cons, h]
  dsimp only [Option.map_some]
  rw [List.find?_cons]
  by_cases hfailed : code i q < 0 <;> simp only [hfailed] <;> rfl

end

theorem Unstarted.initializePipes (h : Unstarted options s c) (hnodup : indices.Nodup)
    (hnew : ∀ i ∈ indices, s.isOpen (.pipe i) = false) :
    Unstarted options (initializePipes answers s indices)
      (c.initializePipes answers (options.stdio.getD []) indices) := by
  induction indices generalizing s c with
  | nil => simpa [SpawnSync.initializePipes, Course.initializePipes, openedPipes, firstError] using h
  | cons i indices ih =>
      rw [List.nodup_cons] at hnodup
      have hentry := h.inv.entry i
      unfold SpawnSync.initializePipes
      split
      · rename_i hnone
        rw [hnone] at hentry
        rw [Course.initializePipes, openedPipes_none hentry, firstError_none hentry]
        exact ih h hnodup.2 fun j hj => hnew j (List.mem_cons_of_mem i hj)
      · rename_i p hp
        rw [hp] at hentry
        rw [Course.initializePipes, openedPipes_some hentry, firstError_some hentry]
        split
        · rename_i hfailed
          have hresult := h.inv.result (answers.pipeInit i)
          rw [if_pos hfailed, Course.result, if_pos hfailed] at hresult
          rw [List.map_nil, List.append_nil]
          exact { h with inv := hresult }
        · rename_i hpassed
          have hopened := h.inv.openPipe hp (hnew i List.mem_cons_self)
          have hrest := ih { h with inv := hopened } hnodup.2 fun j hj => by
            have hne : Handle.pipe j ≠ .pipe i := by
              rintro ⟨⟩
              exact hnodup.1 hj
            rw [isOpen_setPipe hp, if_neg hne]
            exact hnew j (List.mem_cons_of_mem i hj)
          rw [List.map_cons, List.append_cons]
          exact hrest

theorem Unspawned.setError (h : Unspawned options s c) {code : Int} (hcode : code < 0) :
    Unspawned options (s.setError code) (c.fail code) :=
  { h with inv := h.inv.setError (Int.ne_of_lt hcode) }

theorem Unstarted.startTimer (h : Unstarted options s c) (answers : Answers) :
    Unspawned options (startTimer options answers s) (c.startTimer options answers) := by
  unfold SpawnSync.startTimer Course.startTimer
  simp only [h.inv.error_iff]
  split
  · split
    · rename_i hfailed
      exact h.setError hfailed
    · have hclosed : s.timerClosed = false := by
        rw [h.inv.timerClosed]
        rfl
      have hbefore : s.isOpen .timer = false := by simp [Runner.isOpen, h.timer]
      have hopen : ({ s with timerInitialized := true } : Runner).isOpen .timer = true := by
        simp [Runner.isOpen, hclosed]
      have hhandles := opened_handles h.inv hbefore hopen fun other hne => by
        cases other with
        | pipe i => rfl
        | timer => exact absurd rfl hne
        | process => rfl
      have hstarted : Unspawned options { s with timerInitialized := true }
          { c with opened := c.opened ++ [.timer] } :=
        { h with
          inv := { h.inv with
            handles := hhandles
            timerClosed := hclosed
            swept := fun hfalse => Phase.noConfusion hfalse } }
      split
      · rename_i hfailed
        exact hstarted.setError hfailed
      · exact { hstarted with inv := { hstarted.inv with } }
  · exact h.toUnspawned

theorem StdioPipe.start_same (answers : Answers) (i : Nat) (p : StdioPipe) :
    ∃ writing shutting reading, (p.start answers i).1 = { p with writing, shutting, reading } := by
  unfold start
  dsimp only
  split_ifs <;> exact ⟨_, _, _, rfl⟩

theorem StdioPipe.start_error (answers : Answers) (i : Nat) (p : StdioPipe) :
    (p.start answers i).2 = p.toPipeOptions.startError answers i := by
  unfold start PipeOptions.startError
  dsimp only
  split_ifs <;> rfl

theorem Inv.startPipes (h : Inv options phase past s c) :
    Inv options phase past (startPipes answers s indices)
      (c.startPipes answers (options.stdio.getD []) indices) := by
  induction indices generalizing s c with
  | nil => simpa [SpawnSync.startPipes, Course.startPipes, firstError] using h
  | cons i indices ih =>
      have hentry := h.entry i
      unfold SpawnSync.startPipes
      split
      · rename_i hnone
        rw [hnone] at hentry
        rw [Course.startPipes, firstError_none hentry]
        exact ih h
      · rename_i p hp
        rw [hp] at hentry
        rcases p.start_same answers i with ⟨writing, shutting, reading, hstart⟩
        have hset : Inv options phase past (s.setPipe i (p.start answers i).1) c := by
          rw [hstart]
          exact h.setPipe_same hp rfl rfl (h.pipes i p hp).1 rfl
        dsimp only
        rw [p.start_error, Course.startPipes, firstError_some hentry]
        split
        · rename_i hfailed
          have hresult := hset.result (p.toPipeOptions.startError answers i)
          rw [if_pos hfailed, Course.result, if_pos hfailed] at hresult
          exact hresult
        · exact ih hset

theorem Unspawned.spawn (h : Unspawned options s c) (answers : Answers) :
    Inv options .running [] (spawn answers s)
      (c.spawn answers (options.stdio.getD []) (List.range (options.stdio.getD []).length)) := by
  unfold SpawnSync.spawn Course.spawn
  simp only [h.inv.error_iff, h.inv.pipeError_iff]
  split
  · have hbefore : s.isOpen .process = false := by simp [Runner.isOpen, h.process]
    have hopen : ({ s with processInitialized := true } : Runner).isOpen .process = true := by
      simp [Runner.isOpen, h.processClosing]
    have hhandles := opened_handles h.inv hbefore hopen fun other hne => by
      cases other with
      | pipe i => rfl
      | timer => rfl
      | process => exact absurd rfl hne
    have hopened : Inv options .running [] { s with processInitialized := true }
        { c with opened := c.opened ++ [.process] } :=
      { h.inv with
        handles := hhandles
        swept := fun hfalse => Phase.noConfusion hfalse
        child := fun _ => rfl }
    split
    · rename_i hfailed
      exact hopened.setError (Int.ne_of_lt hfailed)
    · rw [h.inv.length]
      exact Inv.startPipes { hopened with child := fun _ => rfl }
  · exact h.inv

theorem prepare_inv (hloop : ¬answers.loopInit < 0) :
    Inv options .running [] (prepare options answers) (beginning options answers) := by
  have hparsed := parsed_unstarted options
  unfold prepare beginning
  rw [if_neg hloop]
  dsimp only
  rw [hparsed.inv.length]
  exact ((hparsed.initializePipes List.nodup_range fun i _ =>
    parsed_isOpen options (.pipe i)).startTimer answers).spawn answers

/-! ### The beginning of the course -/

theorem startTimer_opened (options : Options) (answers : Answers) (c : Course) :
    (c.startTimer options answers).opened = c.opened ∨
      (c.startTimer options answers).opened = c.opened ++ [.timer] := by
  unfold Course.startTimer
  dsimp only
  split_ifs <;> simp [Course.fail]

theorem spawn_opened (answers : Answers) (stdio : List (Option PipeOptions)) (indices : List Nat)
    (c : Course) :
    (c.spawn answers stdio indices).opened = c.opened ∨
      (c.spawn answers stdio indices).opened = c.opened ++ [.process] := by
  unfold Course.spawn
  dsimp only
  split_ifs <;> simp [Course.fail, Course.startPipes]

/-- No handle is initialized twice. -/
theorem beginning_opened (options : Options) (answers : Answers) :
    (beginning options answers).opened.Nodup := by
  unfold beginning
  split
  · exact List.nodup_nil
  · have hpipes : ((openedPipes answers (options.stdio.getD [])
        (List.range (options.stdio.getD []).length)).map Handle.pipe).Nodup := by
      refine List.Nodup.map (fun _ _ hsame => Handle.pipe.inj hsame) ?_
      exact (List.nodup_range.filter _).sublist (List.takeWhile_sublist _)
    dsimp only
    rcases spawn_opened answers (options.stdio.getD []) (List.range (options.stdio.getD []).length)
      (((Course.parsed options).initializePipes answers (options.stdio.getD [])
        (List.range (options.stdio.getD []).length)).startTimer options answers) with
      hspawn | hspawn <;>
    rcases startTimer_opened options answers ((Course.parsed options).initializePipes answers
      (options.stdio.getD []) (List.range (options.stdio.getD []).length)) with htimer | htimer <;>
    rw [hspawn, htimer, Course.initializePipes, Course.parsed] <;>
    simp [List.nodup_append, hpipes]

/-- Nobody is killed before the loop is run. -/
theorem beginning_sound (options : Options) (answers : Answers) :
    (beginning options answers).Sound options (beginning options answers).runnerErrors.head? := by
  have hquiet : (beginning options answers).signals = [] ∧
      (beginning options answers).overflowed = false := by
    unfold beginning Course.spawn Course.startTimer Course.initializePipes Course.startPipes
      Course.fail Course.parsed
    dsimp only
    split_ifs <;> exact ⟨rfl, rfl⟩
  refine ⟨fun _ => hquiet.1, .inl hquiet.1, ?_⟩
  rw [hquiet.2]
  simp

/-! ### Behind the loop -/

theorem isOpen_closePipe (s : Runner) (i : Nat) (handle : Handle) :
    (s.closePipe i).isOpen handle = (s.isOpen handle && decide (handle ≠ .pipe i)) := by
  unfold Runner.closePipe
  split
  · rename_i hnone
    by_cases hpipe : handle = .pipe i
    · subst hpipe
      simp [Runner.isOpen, hnone]
    · simp [hpipe]
  · rename_i p hp
    split
    · change (s.setPipe i _).isOpen handle = _
      rw [isOpen_setPipe hp]
      by_cases hpipe : handle = .pipe i
      · simp [hpipe]
      · simp [hpipe]
    · rename_i hclosed
      by_cases hpipe : handle = .pipe i
      · subst hpipe
        simp [Runner.isOpen, hp, hclosed]
      · simp [hpipe]

theorem isOpen_closePipes (s : Runner) (handle : Handle) :
    s.closePipes.isOpen handle =
      (s.isOpen handle && decide (∀ i ∈ List.range s.stdioPipes.length, handle ≠ .pipe i)) := by
  unfold Runner.closePipes
  generalize List.range s.stdioPipes.length = indices
  induction indices generalizing s with
  | nil => simp
  | cons i indices ih =>
      rw [List.foldl_cons, ih, isOpen_closePipe, Bool.and_assoc, ← Bool.decide_and]
      simp

theorem isOpen_pipe_closePipes (s : Runner) (i : Nat) : s.closePipes.isOpen (.pipe i) = false := by
  rw [isOpen_closePipes, Bool.and_eq_false_iff, decide_eq_false_iff_not]
  by_cases hlt : i < s.stdioPipes.length
  · exact .inr fun hne => hne i (List.mem_range.mpr hlt) rfl
  · left
    change (s.stdioPipes.getD i none).any _ = false
    rw [List.getD_eq_getElem?_getD, List.getElem?_eq_none (Nat.not_lt.mp hlt)]
    rfl

theorem Inv.closeTimer (h : Inv options .running past s c) :
    Inv options .timerClosed past
      (if s.timerInitialized then
        { s with timerStarted := false, timerClosed := true }.emit (.closed .timer)
      else s) c := by
  have hclosed : s.timerClosed = false := h.timerClosed
  split
  · rename_i hinitialized
    have hopen : s.isOpen .timer = true := by simp [Runner.isOpen, hinitialized, hclosed]
    have hhandles := closed_handles (t := { s with timerStarted := false, timerClosed := true }) h
      hopen (by simp [Runner.isOpen]) fun other hne => by
        cases other with
        | pipe i => rfl
        | timer => exact absurd rfl hne
        | process => rfl
    exact Inv.emit { h with
      handles := hhandles
      timerClosed := hinitialized.symm
      swept := fun hfalse => Phase.noConfusion hfalse }
  · rename_i hinitialized
    refine { h with
      timerClosed := ?_
      swept := fun hfalse => Phase.noConfusion hfalse }
    rw [hclosed, Bool.eq_false_iff.mpr hinitialized]
    rfl

theorem isOpen_closeTimer (s : Runner) (handle : Handle) :
    (if s.timerInitialized then
        { s with timerStarted := false, timerClosed := true }.emit (.closed .timer)
      else s).isOpen handle = (s.isOpen handle && decide (handle ≠ .timer)) := by
  split
  · cases handle <;> simp [Runner.isOpen, Runner.emit, Runner.pipe?]
  · rename_i hinitialized
    cases handle <;> simp [Runner.isOpen, hinitialized]

/-- With the pipes and the timer closed, only the process handle is left. -/
theorem Inv.closeProcess (h : Inv options .timerClosed past s c)
    (hothers : ∀ handle, handle ≠ .process → s.isOpen handle = false) :
    Inv options .closed past
      (if s.processInitialized ∧ ¬s.processClosing then
        { s with processClosing := true }.emit (.closed .process)
      else s) c := by
  split
  · rename_i hprocess
    have hopen : s.isOpen .process = true := by simp [Runner.isOpen, hprocess]
    have hsame : ∀ other, other ≠ .process →
        ({ s with processClosing := true } : Runner).isOpen other = s.isOpen other := by
      intro other hne
      cases other with
      | pipe i => rfl
      | timer => rfl
      | process => exact absurd rfl hne
    have hclosed : ({ s with processClosing := true } : Runner).isOpen .process = false := by
      simp [Runner.isOpen]
    have hhandles := closed_handles h hopen hclosed hsame
    refine Inv.emit { h with
      handles := hhandles
      swept := fun _ handle => ?_ }
    by_cases hhandle : handle = .process
    · rw [hhandle]
      exact hclosed
    · exact (hsame handle hhandle).trans (hothers handle hhandle)
  · rename_i hprocess
    refine { h with swept := fun _ handle => ?_ }
    by_cases hhandle : handle = .process
    · rw [hhandle, Runner.isOpen]
      simpa using hprocess
    · exact hothers handle hhandle

theorem closeHandles_inv (h : Inv options .running past s c) :
    Inv options .closed past (closeHandles s) c := by
  unfold closeHandles
  refine Inv.closeProcess h.closePipes.closeTimer fun handle hhandle => ?_
  rw [isOpen_closeTimer]
  cases handle with
  | pipe i => rw [isOpen_pipe_closePipes, Bool.false_and]
  | timer => simp
  | process => exact absurd rfl hhandle

/-! ### The whole run -/

/-- A runner at its end, by what libuv answered and called back. -/
structure Settled (options : Options) (answers : Answers) (events : List Event) (s : Runner) :
    Prop where
  callbacks : (account s.log).callbacks = events
  /-- The output of each pipe is what was delivered on it, and the error is the first one, those of
  the runner before those of the pipes. -/
  result : buildResult s = expected options answers events
  /-- No read target reaches beyond its block. -/
  targets : (account s.log).overrun = false
  /-- A handle is closed once if it was initialized, and else never. -/
  closed : ∀ handle, (account s.log).closed handle =
    if handle ∈ (beginning options answers).opened then 1 else 0
  signals : (account s.log).signals = (course options answers events).signals
  /-- One `kill` at most. -/
  once : (account s.log).signals = [] ∨ (account s.log).signals = [options.killSignal] ∨
    (account s.log).signals = [options.killSignal, SIGKILL]
  quiet : (account s.log).lateSignal = false
  overflow : s.error = UV_ENOBUFS ↔ (course options answers events).overflowed = true ∨
    (beginning options answers).runnerErrors.head? = some UV_ENOBUFS

theorem output_eq (h : Inv options phase past s c) :
    (s.stdioPipes.map fun pipe => pipe.bind fun p =>
        if p.writable then some p.copyOutput else none) =
      (options.stdio.getD []).mapIdx fun i pipe =>
        pipe.bind fun p => if p.writable then some (c.heard i) else none := by
  rw [← h.kept]
  refine List.ext_getElem? fun i => ?_
  rw [List.getElem?_mapIdx, List.getElem?_map, List.getElem?_map]
  cases hentry : s.stdioPipes[i]? with
  | none => rfl
  | some entry =>
      cases entry with
      | none => rfl
      | some p =>
          have hp : s.pipe? i = some p := by
            rw [Runner.pipe?, List.getD_eq_getElem?_getD, hentry]
            rfl
          change some (if p.writable then some p.copyOutput else none) =
            some (if p.writable then some (c.heard i) else none)
          rw [(h.pipes i p hp).2]

/-- The first one of some errors, none of which is zero. -/
theorem head?_of_set {errors : List Int} (h : 0 ∉ errors) :
    (if errors.headD 0 ≠ 0 then some (errors.headD 0) else none) = errors.head? := by
  cases errors with
  | nil => rfl
  | cons e errors =>
      have hne : e ≠ 0 := fun he => h (he ▸ List.mem_cons_self)
      exact if_pos hne

theorem getError_eq (h : Inv options phase past s c) :
    s.getError = (c.runnerErrors ++ c.pipeErrors).headD 0 := by
  unfold Runner.getError
  split
  · rename_i herror
    rw [h.error] at herror ⊢
    cases hset : c.runnerErrors with
    | nil => exact absurd (by rw [hset]; rfl) herror
    | cons e errors => rfl
  · rename_i herror
    rw [not_not, h.error_iff] at herror
    rw [herror, List.nil_append]
    exact h.pipeError

theorem Inv.result_eq {events : List Event}
    (h : Inv options phase past s (course options answers events)) :
    buildResult s = expected options answers events := by
  have hbegun : ∀ i, (beginning options answers).heard i = [] := by
    intro i
    unfold beginning Course.spawn Course.startTimer Course.initializePipes Course.startPipes
      Course.fail Course.parsed
    dsimp only
    split_ifs <;> rfl
  have hheard : (course options answers events).heard = fun i => delivered i events := by
    funext i
    have hfold := (foldl_keeps options events (beginning options answers)).2 i
    rw [hbegun] at hfold
    exact hfold
  have herror : (if s.getError ≠ 0 then some s.getError else none) =
      ((course options answers events).runnerErrors ++
        (course options answers events).pipeErrors).head? := by
    rw [getError_eq h]
    refine head?_of_set fun hzero => ?_
    exact (List.mem_append.mp hzero).elim h.errorSet h.pipeErrorSet
  have hexit := h.exit
  have hstatus := h.exitStatus
  unfold buildResult expected
  dsimp only
  rw [herror, output_eq h, hheard]
  cases hc : (course options answers events).exit with
  | none =>
      rw [hc] at hexit
      obtain ⟨hcode, hsignal⟩ := Prod.mk.inj hexit
      rw [hcode, hsignal]
      rfl
  | some e =>
      rw [hc] at hexit hstatus
      obtain ⟨hcode, hsignal⟩ := Prod.mk.inj hexit
      simp [hcode, hsignal, hstatus e rfl]

/-- The runner with all handles closed. -/
theorem Inv.settled {events : List Event} (h : Inv options phase events s (course options answers events))
    (hclosed : ∀ handle, s.isOpen handle = false) : Settled options answers events s where
  callbacks := h.callbacks
  result := h.result_eq
  targets := h.targets
  closed := by
    intro handle
    have hhandle := h.handles handle
    rw [hclosed handle, course, (foldl_keeps _ _ _).1,
      (beginning_opened options answers).count] at hhandle
    exact hhandle.symm
  signals := h.signals
  once := by
    rw [h.signals]
    exact ((beginning_sound options answers).foldl events).signals
  quiet := h.quiet
  overflow := by
    have herrors := h.errorSet
    rw [h.error]
    unfold course at herrors ⊢
    rw [← ((beginning_sound options answers).foldl events).overflow]
    cases (events.foldl (Course.next options) (beginning options answers)).runnerErrors with
    | nil => decide
    | cons e errors => simp

/-- What the callbacks of a loop keep. -/
theorem Inv.run {events : List Event} (h : Inv options phase past s c)
    (hrun : runEvents (callback options) s events = some t) :
    Inv options phase (past ++ events) t (events.foldl (Course.next options) c) := by
  induction events generalizing s c past with
  | nil =>
      cases hrun
      rw [List.append_nil]
      exact h
  | cons e events ih =>
      rcases runEvents_cons hrun with ⟨s', hs', hrest⟩
      have hnext := ih (h.step hs') hrest
      rwa [List.append_assoc, List.singleton_append] at hnext

/-- A loop that is not run has no callbacks. -/
theorem runEvents_idle {events : List Event} {s t : Runner}
    (h : runEvents (fun _ _ => none) s events = some t) : events = [] ∧ s = t := by
  cases events with
  | nil => exact ⟨rfl, Option.some.inj h⟩
  | cons e events => cases h

/-- However libuv answers, and in whatever order its callbacks come. -/
theorem spawnSync_settled {options : Options} {answers : Answers} {events late : List Event}
    {t : Runner} (h : run options answers events late = some t) :
    Settled options answers (events ++ late) t := by
  unfold SpawnSync.run at h
  split at h
  · rename_i hfailed
    rcases runEvents_idle h with ⟨hnone, rfl⟩
    have hparsed := (parsed_unstarted options).setError hfailed
    have hbegun : course options answers (events ++ late) =
        (Course.parsed options).fail answers.loopInit := by
      rw [hnone, course, List.foldl_nil, beginning, if_pos hfailed]
    have hinv : Inv options .running (events ++ late) ((parsed options).setError answers.loopInit)
        (course options answers (events ++ late)) := by
      rw [hbegun, hnone]
      exact hparsed.inv
    exact hinv.settled (parsed_isOpen options)
  · rename_i hloop
    obtain ⟨s, hrun, hlate⟩ := Option.bind_eq_some_iff.mp h
    have hprepare := @prepare_inv options answers hloop
    have hinv : Inv options .running events s (course options answers events) := by
      split at hrun
      · exact hprepare.run hrun
      · rcases runEvents_idle hrun with ⟨rfl, rfl⟩
        exact hprepare
    have hend := (closeHandles_inv hinv).run hlate
    rw [course, ← List.foldl_append] at hend
    exact Inv.settled hend (hend.swept rfl)

/-- The answers of libuv where nothing fails. -/
def untroubled : Answers := ⟨0, fun _ => 0, 0, 0, 0, fun _ => 0, fun _ => 0, fun _ => 0⟩

/-- A child that may write one byte writes two. It is killed, the timer goes off in vain, and the exit
comes. -/
theorem spawnSync_settled_overflow :
    ∃ t, run ⟨some [none, some ⟨false, true, 0⟩], 5, .finite 1, 15⟩ untroubled
        [.read 1 [65, 66] 0, .timeout 0, .exit 0 15] [] = some t ∧
      buildResult t = ⟨some UV_ENOBUFS, none, some 15, some [none, some [65, 66]]⟩ ∧
      (account t.log).signals = [15] ∧
      Settled ⟨some [none, some ⟨false, true, 0⟩], 5, .finite 1, 15⟩ untroubled
        [.read 1 [65, 66] 0, .timeout 0, .exit 0 15] t := by
  have hruns : (run ⟨some [none, some ⟨false, true, 0⟩], 5, .finite 1, 15⟩ untroubled
      [.read 1 [65, 66] 0, .timeout 0, .exit 0 15] []).isSome = true := by rfl
  obtain ⟨t, h⟩ := Option.isSome_iff_exists.mp hruns
  have hsettled := spawnSync_settled h
  exact ⟨t, h, hsettled.result.trans (by rfl), hsettled.signals.trans (by rfl), hsettled⟩

end HermesNode.SpawnSync
