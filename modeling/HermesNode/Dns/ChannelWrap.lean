/-
Module: HermesNode.Dns.ChannelWrap
Purpose: A DNS channel between c-ares and the event loop: a poll watcher for every socket c-ares
  uses, and a timer that has c-ares look at its timeouts. The timer fires once and is started from
  the socket reports and from the poll callback only. So it stays armed as long as every timer
  callback that leaves queries behind makes c-ares report a socket, and no longer.
Trusted boundary: human-reviewed spec (transcribed from `lib/bindings/node_cares_wrap.cpp` and, for
  `ares_timeout`, from `external/cares/cares/src/lib/ares_timeout.c`); what else c-ares does in a call
  is in the event
Main exports: ChannelWrap, Report, watchers_follow_sockets, armed_throughout_iff
-/
import HermesNode.Lib.Machine
import Mathlib.Data.List.Nodup
import Mathlib.Data.List.Perm.Basic

namespace HermesNode.Dns

/-! ### The channel -/

structure Timeval where
  sec : Nat
  usec : Nat
  normal : usec < 1000000
deriving Repr, DecidableEq

def oneSecond : Timeval := ⟨1, 0, by decide⟩

/-- `ares_timeout`: what remains of the first timeout, and at most `maxtv`. -/
def aresTimeout (first : Option Timeval) (maxtv : Timeval) : Timeval :=
  match first with
  | none => maxtv
  | some tv =>
      if tv.sec > maxtv.sec then maxtv
      else if tv.sec < maxtv.sec then tv
      else if tv.usec > maxtv.usec then maxtv
      else tv

structure ChannelWrap where
  closed : Bool
  /-- The sockets with their poll watchers, which are numbered as they are created. -/
  tasks : List (Nat × Nat)
  created : Nat
  /-- The watchers `uv_close` was called on. -/
  closes : List Nat
  /-- The milliseconds the timer was started with, while it is active. -/
  timer : Option Nat
deriving Repr, DecidableEq

def startTimer (w : ChannelWrap) (first : Option Timeval) : ChannelWrap :=
  let tv := aresTimeout first oneSecond
  let ms := tv.sec * 1000 + tv.usec / 1000
  { w with timer := some (if ms = 0 then 1 else ms) }

/-- A call of the socket state callback, with the first timeout at that moment. -/
structure Report where
  sock : Nat
  readable : Bool
  writable : Bool
  first : Option Timeval
deriving Repr, DecidableEq

/-- c-ares goes on with the socket. -/
def Report.inUse (r : Report) : Bool := r.readable || r.writable

def sockStateCb (w : ChannelWrap) (r : Report) : ChannelWrap :=
  if w.closed then w
  else
    let it := w.tasks.find? (·.1 == r.sock)
    if !r.readable && !r.writable then
      match it with
      | none => w
      | some task =>
          { w with tasks := w.tasks.eraseP (·.1 == r.sock), closes := w.closes ++ [task.2] }
    else
      let w :=
        match it with
        | none => { w with tasks := w.tasks ++ [(r.sock, w.created)], created := w.created + 1 }
        | some _ => w
      startTimer w r.first

def closeChannel (w : ChannelWrap) : ChannelWrap :=
  if w.closed then w
  else
    { w with
      closed := true
      tasks := []
      closes := w.closes ++ w.tasks.map Prod.snd
      timer := none }

/-! ### Runs -/

/-- The channel, and of c-ares the sockets it uses and whether a query waits on one of them. -/
structure State where
  channel : ChannelWrap
  inUse : List Nat
  outstanding : Bool
deriving Repr, DecidableEq

/-- After `setup`. -/
def State.start : State := ⟨⟨false, [], 0, [], none⟩, [], false⟩

/-- A call from the loop or from JavaScript, with the reports c-ares makes during it and whether a
query is outstanding after it. -/
inductive Event where
  /-- `ares_query` or `ares_gethostbyaddr`. -/
  | query (reports : List Report) (outstanding : Bool)
  | cancel (reports : List Report) (outstanding : Bool)
  | poll (sock : Nat) (reports : List Report) (first : Option Timeval) (outstanding : Bool)
  | timer (expired : Bool) (reports : List Report) (outstanding : Bool)
  | close
deriving Repr, DecidableEq

/-- The sockets c-ares uses after a report. -/
def use (socks : List Nat) (r : Report) : List Nat :=
  if r.inUse then (if r.sock ∈ socks then socks else socks ++ [r.sock])
  else socks.filter (· ≠ r.sock)

/-- c-ares makes its reports. An outstanding query is on a socket in use. -/
def enter (s : State) (reports : List Report) (outstanding : Bool) : Option State :=
  let t : State := ⟨reports.foldl sockStateCb s.channel, reports.foldl use s.inUse, outstanding⟩
  if outstanding = true ∧ t.inUse = [] then none else some t

def step (s : State) : Event → Option State
  | .query reports outstanding =>
      -- A closed channel answers with an error.
      if s.channel.closed then some s else enter s reports outstanding
  | .cancel reports outstanding =>
      if s.channel.closed then some s else enter s reports outstanding
  | .poll sock reports first outstanding =>
      if s.channel.closed = true ∨ sock ∉ s.channel.tasks.map Prod.fst then none
      else
        (enter s reports outstanding).map fun t => { t with channel := startTimer t.channel first }
  | .timer expired reports outstanding =>
      -- Without an expired timeout c-ares makes no report.
      if s.channel.closed = true ∨ s.channel.timer = none ∨ (expired = false ∧ reports ≠ []) then none
      else enter { s with channel := { s.channel with timer := none } } reports outstanding
  | .close => some ⟨closeChannel s.channel, [], false⟩

/-! ### What is to hold -/

/-- While a query waits on an open channel, c-ares is called within a second; every socket in use
has one poll watcher; and every watcher is closed once, when its socket is not in use any more. -/
structure Holds (s : State) : Prop where
  armed : s.channel.closed = false → s.outstanding = true →
    ∃ ms, s.channel.timer = some ms ∧ 1 ≤ ms ∧ ms ≤ 1000
  watched : s.channel.closed = false → ∀ sock ∈ s.inUse,
    ∃! watcher, (sock, watcher) ∈ s.channel.tasks
  closedOnce : s.channel.closes.Nodup
  closedWhenDone : ∀ watcher, watcher < s.channel.created →
    (watcher ∈ s.channel.closes ↔ watcher ∉ s.channel.tasks.map Prod.snd)

/-- Where the timer may have run out, c-ares reports a socket or leaves no query behind. -/
def Restarts (s : State) : Event → Prop
  | .query reports outstanding | .cancel reports outstanding =>
      s.channel.closed = true ∨ s.channel.timer ≠ none ∨ reports.any Report.inUse = true ∨
        outstanding = false
  | .timer _ reports outstanding => reports.any Report.inUse = true ∨ outstanding = false
  | .poll .. => True
  | .close => True

/-! ### The timer -/

theorem aresTimeout_le (first : Option Timeval) :
    (aresTimeout first oneSecond).sec * 1000 + (aresTimeout first oneSecond).usec / 1000 ≤ 1000 := by
  unfold aresTimeout
  cases first with
  | none => decide
  | some tv =>
      have hnormal := tv.normal
      have hsec : oneSecond.sec = 1 := rfl
      have husec : oneSecond.usec = 0 := rfl
      simp only [hsec, husec]
      split
      · decide
      · split
        · omega
        · split
          · decide
          · omega

theorem startTimer_timer (w : ChannelWrap) (first : Option Timeval) :
    ∃ ms, (startTimer w first).timer = some ms ∧ 1 ≤ ms ∧ ms ≤ 1000 := by
  have hle := aresTimeout_le first
  refine ⟨_, rfl, ?_⟩
  split <;> omega

theorem startTimer_ne_none (w : ChannelWrap) (first : Option Timeval) :
    (startTimer w first).timer ≠ none :=
  Option.some_ne_none _

theorem sockStateCb_closed (w : ChannelWrap) (r : Report) : (sockStateCb w r).closed = w.closed := by
  unfold sockStateCb
  split
  · rfl
  · simp only
    split
    · split <;> rfl
    · simp only [startTimer]
      split <;> rfl

theorem foldl_closed (reports : List Report) (w : ChannelWrap) :
    (reports.foldl sockStateCb w).closed = w.closed := by
  induction reports generalizing w with
  | nil => rfl
  | cons r reports ih => rw [List.foldl_cons, ih, sockStateCb_closed]

variable {w : ChannelWrap}

/-- A report of a socket in use starts the timer, and no report stops it. -/
theorem sockStateCb_timer (hopen : w.closed = false) (r : Report) :
    (sockStateCb w r).timer ≠ none ↔ w.timer ≠ none ∨ r.inUse = true := by
  unfold sockStateCb Report.inUse
  rw [hopen]
  cases hin : (r.readable || r.writable) with
  | false =>
      rw [Bool.or_eq_false_iff] at hin
      simp only [hin, Bool.not_false, Bool.and_self, ↓reduceIte, Bool.false_eq_true, or_false]
      split <;> rfl
  | true =>
      have hnot : (!r.readable && !r.writable) = false := by
        rw [← Bool.not_or, hin]
        rfl
      simp only [hnot, Bool.false_eq_true, ↓reduceIte, or_true, iff_true]
      exact startTimer_ne_none _ _

theorem foldl_timer (reports : List Report) (hopen : w.closed = false) :
    (reports.foldl sockStateCb w).timer ≠ none ↔
      w.timer ≠ none ∨ reports.any Report.inUse = true := by
  induction reports generalizing w with
  | nil => simp
  | cons r reports ih =>
      rw [List.foldl_cons, ih ((sockStateCb_closed w r).trans hopen), sockStateCb_timer hopen,
        List.any_cons, Bool.or_eq_true, or_assoc]

/-! ### The watchers -/

/-- The sockets of the channel are the ones in use, and its watchers with the closed ones are all
that were created. -/
structure Watched (w : ChannelWrap) (inUse : List Nat) : Prop where
  sockets : w.closed = false → ∀ sock, sock ∈ inUse ↔ sock ∈ w.tasks.map Prod.fst
  keys : (w.tasks.map Prod.fst).Nodup
  watchers : (w.tasks.map Prod.snd ++ w.closes).Perm (List.range w.created)
  bounded : ∀ ms, w.timer = some ms → 1 ≤ ms ∧ ms ≤ 1000

variable {inUse : List Nat}

theorem Watched.startTimer (h : Watched w inUse)
    (first : Option Timeval) : Watched (startTimer w first) inUse := by
  obtain ⟨ms, hms, hbounded⟩ := startTimer_timer w first
  refine ⟨h.sockets, h.keys, h.watchers, fun other hother => ?_⟩
  cases Option.some.inj (hms.symm.trans hother)
  exact hbounded

/-- A report of a socket that is not in use any more closes its watcher. -/
theorem Watched.stop (h : Watched w inUse)
    {before behind : List (Nat × Nat)} {task : Nat × Nat} (htasks : w.tasks = before ++ task :: behind) :
    Watched { w with tasks := before ++ behind, closes := w.closes ++ [task.2] }
      (inUse.filter (· ≠ task.1)) := by
  have hkeys := h.keys
  have hwatchers := h.watchers
  rw [htasks] at hkeys hwatchers
  simp only [List.map_append, List.map_cons] at hkeys hwatchers
  rw [List.nodup_middle, List.nodup_cons] at hkeys
  refine ⟨fun hopen sock => ?_, ?_, ?_, h.bounded⟩
  · have hsock := h.sockets hopen sock
    rw [htasks] at hsock
    simp only [List.map_append, List.map_cons, List.mem_append, List.mem_cons] at hsock hkeys
    simp only [List.mem_filter, decide_eq_true_eq, List.map_append, List.mem_append, hsock]
    constructor
    · rintro ⟨hmem, hne⟩
      tauto
    · intro hmem
      refine ⟨by tauto, ?_⟩
      rintro rfl
      exact hkeys.1 hmem
  · simpa using hkeys.2
  · refine List.Perm.trans ?_ hwatchers
    simp only [List.map_append, List.append_assoc]
    apply List.Perm.append_left
    rw [← List.append_assoc]
    exact List.perm_append_singleton _ _

theorem Watched.begin (h : Watched w inUse) {sock : Nat}
    (hnew : sock ∉ w.tasks.map Prod.fst) :
    Watched { w with tasks := w.tasks ++ [(sock, w.created)], created := w.created + 1 }
      (if sock ∈ inUse then inUse else inUse ++ [sock]) := by
  refine ⟨fun hopen other => ?_, ?_, ?_, h.bounded⟩
  · have hother := h.sockets hopen other
    have hsock := h.sockets hopen sock
    rw [if_neg fun hmem => hnew (hsock.mp hmem)]
    simp [hother]
  · rw [List.map_append]
    refine List.nodup_append.mpr ⟨h.keys, List.nodup_singleton _, fun a ha b hb heq => hnew ?_⟩
    have hsock : b = sock := by simpa using hb
    rwa [← hsock, ← heq]
  · rw [List.range_succ, List.map_append, List.append_assoc]
    refine List.Perm.trans ?_ (h.watchers.append_right [w.created])
    rw [List.append_assoc]
    exact List.Perm.append_left _ List.perm_append_comm

theorem not_mem_of_find {tasks : List (Nat × Nat)} {sock : Nat}
    (h : tasks.find? (·.1 == sock) = none) : sock ∉ tasks.map Prod.fst := by
  intro hmem
  obtain ⟨task, htask, rfl⟩ := List.mem_map.mp hmem
  simpa using List.find?_eq_none.mp h task htask

theorem Watched.report (h : Watched w inUse) (r : Report) :
    Watched (sockStateCb w r) (use inUse r) := by
  unfold sockStateCb
  split
  · rename_i hclosed
    exact ⟨fun hopen => by simp [hopen] at hclosed, h.keys, h.watchers, h.bounded⟩
  rename_i hopen
  rw [Bool.not_eq_true] at hopen
  simp only
  split
  · rename_i hstop
    have hin : r.inUse = false := by simpa [Report.inUse] using hstop
    rw [use, hin, if_neg Bool.false_ne_true]
    split
    · rename_i hfind
      have hunknown := not_mem_of_find hfind
      refine ⟨fun _ sock => ?_, h.keys, h.watchers, h.bounded⟩
      rw [List.mem_filter, h.sockets hopen sock]
      simp only [decide_eq_true_eq, and_iff_left_iff_imp]
      rintro hmem rfl
      exact hunknown hmem
    · rename_i task hfind
      obtain ⟨hkey, before, behind, htasks, hbefore⟩ := List.find?_eq_some_iff_append.mp hfind
      rw [beq_iff_eq] at hkey
      have herase : w.tasks.eraseP (·.1 == r.sock) = before ++ behind := by
        rw [htasks, List.eraseP_append_right _ (by simpa using hbefore),
          List.eraseP_cons_of_pos (by simpa using hkey)]
      rw [herase, ← hkey]
      exact h.stop htasks
  · rename_i hstart
    have hin : r.inUse = true := by
      simp only [Bool.and_eq_true, Bool.not_eq_true', not_and_or, Bool.not_eq_false] at hstart
      simpa [Report.inUse] using hstart
    rw [use, if_pos hin]
    apply Watched.startTimer
    split
    · rename_i hfind
      exact h.begin (not_mem_of_find hfind)
    · rename_i task hfind
      have hknown : r.sock ∈ inUse := by
        rw [h.sockets hopen]
        refine List.mem_map.mpr ⟨task, List.mem_of_find?_eq_some hfind, ?_⟩
        simpa using List.find?_some hfind
      rw [if_pos hknown]
      exact h

theorem Watched.reports (h : Watched w inUse)
    (reports : List Report) : Watched (reports.foldl sockStateCb w) (reports.foldl use inUse) := by
  induction reports generalizing w inUse with
  | nil => exact h
  | cons r reports ih => exact ih (h.report r)

theorem Watched.unarmed (h : Watched w inUse) :
    Watched { w with timer := none } inUse :=
  ⟨h.sockets, h.keys, h.watchers, by simp⟩

theorem Watched.close (h : Watched w inUse) :
    Watched (closeChannel w) [] := by
  unfold closeChannel
  split
  · rename_i hclosed
    exact ⟨fun hopen => by simp [hopen] at hclosed, h.keys, h.watchers, h.bounded⟩
  · refine ⟨by simp, by simp, ?_, by simp⟩
    simpa using List.perm_append_comm.trans h.watchers

theorem enter_eq {s t : State} {reports : List Report} {outstanding : Bool}
    (h : enter s reports outstanding = some t) :
    t = ⟨reports.foldl sockStateCb s.channel, reports.foldl use s.inUse, outstanding⟩ := by
  unfold enter at h
  simp only at h
  split at h
  · cases h
  · exact (Option.some.inj h).symm

theorem watched_step {s t : State} {e : Event} (h : Watched s.channel s.inUse)
    (hstep : step s e = some t) : Watched t.channel t.inUse := by
  cases e with
  | query reports outstanding | cancel reports outstanding =>
      simp only [step] at hstep
      split at hstep
      · cases hstep
        exact h
      · rw [enter_eq hstep]
        exact h.reports reports
  | poll sock reports first outstanding =>
      simp only [step] at hstep
      split at hstep
      · cases hstep
      · obtain ⟨u, hu, rfl⟩ := Option.map_eq_some_iff.mp hstep
        rw [enter_eq hu]
        exact (h.reports reports).startTimer first
  | timer expired reports outstanding =>
      simp only [step] at hstep
      split at hstep
      · cases hstep
      · rw [enter_eq hstep]
        exact h.unarmed.reports reports
  | close =>
      cases hstep
      exact h.close

/-! ### The timer along a run -/

def Armed (s : State) : Prop :=
  s.channel.closed = false → s.outstanding = true → s.channel.timer ≠ none

/-- One event leaves the timer armed exactly when it restarts it where it must. -/
theorem armed_step_iff {s t : State} {e : Event} (h : Armed s) (hstep : step s e = some t) :
    Armed t ↔ Restarts s e := by
  cases e with
  | query reports outstanding | cancel reports outstanding =>
      simp only [step] at hstep
      split at hstep
      · rename_i hclosed
        cases hstep
        exact iff_of_true h (Or.inl hclosed)
      · rename_i hopen
        rw [Bool.not_eq_true] at hopen
        rw [enter_eq hstep]
        simp only [Armed, Restarts, foldl_closed, hopen, foldl_timer reports hopen]
        cases outstanding with
        | false => simp
        | true => simp
  | poll sock reports first outstanding =>
      simp only [step] at hstep
      split at hstep
      · cases hstep
      · obtain ⟨u, hu, rfl⟩ := Option.map_eq_some_iff.mp hstep
        exact iff_of_true (fun _ _ => startTimer_ne_none _ _) trivial
  | timer expired reports outstanding =>
      simp only [step] at hstep
      split at hstep
      · cases hstep
      · rename_i henabled
        have hopen : s.channel.closed = false := by
          cases hclosed : s.channel.closed with
          | false => rfl
          | true => exact absurd (Or.inl hclosed) henabled
        rw [enter_eq hstep]
        have htimer := foldl_timer reports (w := { s.channel with timer := none }) hopen
        constructor
        · intro harmed
          cases outstanding with
          | false => exact Or.inr rfl
          | true =>
              have hstarted := htimer.mp (harmed ((foldl_closed _ _).trans hopen) rfl)
              exact Or.inl (hstarted.resolve_left fun hnone => hnone rfl)
        · intro hrestarts _ hout
          refine htimer.mpr (Or.inr (hrestarts.resolve_right fun hnone => ?_))
          cases hnone.symm.trans hout
  | close =>
      cases hstep
      refine iff_of_true (fun _ hout => ?_) trivial
      cases hout

theorem holds_of_watched {s : State} (h : Watched s.channel s.inUse) (harmed : Armed s) : Holds s where
  armed hopen hout := by
    obtain ⟨ms, hms⟩ := Option.ne_none_iff_exists'.mp (harmed hopen hout)
    exact ⟨ms, hms, h.bounded ms hms⟩
  watched hopen sock hsock := by
    obtain ⟨task, htask, rfl⟩ := List.mem_map.mp ((h.sockets hopen sock).mp hsock)
    refine ⟨task.2, htask, fun other hother => ?_⟩
    have hsame := List.inj_on_of_nodup_map h.keys hother htask rfl
    exact congrArg Prod.snd hsame
  closedOnce := (h.watchers.nodup_iff.mpr List.nodup_range).of_append_right
  closedWhenDone watcher hcreated := by
    have hmem : watcher ∈ s.channel.tasks.map Prod.snd ++ s.channel.closes :=
      h.watchers.mem_iff.mpr (List.mem_range.mpr hcreated)
    have hdisjoint := List.disjoint_of_nodup_append (h.watchers.nodup_iff.mpr List.nodup_range)
    rw [List.mem_append] at hmem
    constructor
    · exact fun hcloses htasks => hdisjoint htasks hcloses
    · exact hmem.resolve_left

theorem watched_start : Watched State.start.channel State.start.inUse :=
  ⟨by simp [State.start], by simp [State.start], by simp [State.start], by simp [State.start]⟩

/-- Whatever the timer does: in every run the sockets of an open channel are the ones c-ares uses, each
with one watcher, and every watcher created is with its socket or was closed, once. -/
theorem watchers_follow_sockets {events : List Event} {t : State}
    (run : runEvents step State.start events = some t) : Watched t.channel t.inUse :=
  runEvents_invariant (fun _ _ _ h hstep => watched_step h hstep) watched_start run

theorem answered_socket_unwatched : ∃ c, Watched c [8] ∧ c.tasks = [(8, 1)] ∧ c.closes = [0] :=
  ⟨_, @watchers_follow_sockets
    [.query [⟨7, true, false, some ⟨2, 0, by decide⟩⟩, ⟨8, true, false, some ⟨2, 0, by decide⟩⟩] true,
      .poll 7 [⟨7, false, false, some ⟨2, 0, by decide⟩⟩] (some ⟨2, 0, by decide⟩) true] _ rfl,
    rfl, rfl⟩

/-- **The timer of a channel.** A run has the timer armed whenever a query is outstanding, and its
watchers in order, exactly when no event that may find the timer run out leaves a query behind
without a report that starts it. -/
theorem armed_throughout_iff {events : List Event} {t : State}
    (hrun : runEvents step State.start events = some t) :
    Throughout step Holds State.start events ↔ AllowedAlong step Restarts State.start events := by
  have hstart : Watched State.start.channel State.start.inUse ∧ Armed State.start :=
    ⟨watched_start, fun _ hout => by cases hout⟩
  refine throughout_iff_allowed
    (fun s (hs : Watched s.channel s.inUse ∧ Armed s) => holds_of_watched hs.1 hs.2)
    (fun s e u hs hallowed hstep => ?_) (fun s e u hs hstep hholds => ?_) hstart hrun
  · exact ⟨watched_step hs.1 hstep, (armed_step_iff hs.2 hstep).mpr hallowed⟩
  · refine (armed_step_iff hs.2 hstep).mp fun hopen hout => ?_
    obtain ⟨ms, hms, -⟩ := hholds.armed hopen hout
    rw [hms]
    exact Option.some_ne_none ms

/-- A query on a new socket, and its answer. -/
def answered : List Event :=
  [.query [⟨7, true, false, none⟩] true, .poll 7 [⟨7, false, false, none⟩] none false]

theorem answered_armed : Throughout step Holds State.start answered := by
  have hrun : ∃ t, runEvents step State.start answered = some t := ⟨_, rfl⟩
  obtain ⟨t, hrun⟩ := hrun
  refine (armed_throughout_iff hrun).mpr ⟨?_, fun u hu => ⟨trivial, fun _ _ => trivial⟩⟩
  exact Or.inr (Or.inr (Or.inl rfl))

/-- The query's own timeout is behind the timer's one second: c-ares finds nothing expired and
reports nothing, and nobody calls it again. -/
theorem silent_server :
    ¬ ∀ events t, runEvents step State.start events = some t → Holds t := by
  intro h
  have hholds := h [.query [⟨7, true, false, some ⟨2, 0, by decide⟩⟩] true, .timer false [] true]
    ⟨⟨false, [(7, 0)], 1, [], none⟩, [7], true⟩ rfl
  obtain ⟨ms, hms, -⟩ := hholds.armed rfl rfl
  cases hms

end HermesNode.Dns
