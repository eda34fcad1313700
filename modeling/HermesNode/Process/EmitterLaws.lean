/-
Module: HermesNode.Process.EmitterLaws
Purpose: What the emitter on `process` keeps. Under the conditions of `Careful` the table is the image
  of what was registered, a once wrapper is waiting, listed or to be called in at most one place that
  can still call it, and so every emit and every registration goes as a program expects.
Trusted boundary: none
Main exports: Counted, Inv, careful_runs_lawful
-/
import Mathlib.Data.List.Basic
import Mathlib.Data.List.Count
import HermesNode.Process.Emitter

namespace HermesNode.Process

/-! ### Codes -/

def Fn.id : Fn → Nat
  | .user _ => 0
  | .wrapper id _ _ => id

variable {event : String}

/-- Listeners of one event with different identities stand in the table as different functions. -/
theorem Listener.code_inj {l m : Listener} (hl : l.fn.isWrapper = false)
    (hm : m.fn.isWrapper = false) (h : l.code event = m.code event) : l = m := by
  rcases l with ⟨_ | i, f⟩ <;> rcases m with ⟨_ | j, g⟩
  · cases h
    rfl
  · cases h
    cases hl
  · cases h
    cases hm
  · cases h
    rfl

variable {fn : Fn}

theorem Listener.code_user {l : Listener} (hfn : fn.isWrapper = false)
    (h : l.code event = fn) : l = ⟨none, fn⟩ := by
  rcases l with ⟨_ | i, f⟩
  · cases h
    rfl
  · cases h
    cases hfn

theorem Listener.code_wrapper {event event' : String} {l : Listener} {id : Nat}
    (hl : l.fn.isWrapper = false) (h : l.code event = .wrapper id event' fn) :
    event = event' ∧ l = ⟨some id, fn⟩ := by
  rcases l with ⟨_ | i, f⟩
  · cases h
    cases hl
  · cases h
    exact ⟨rfl, rfl⟩

theorem map_code_erase (event : String) {l : Listener} {listeners : List Listener}
    (hl : l.fn.isWrapper = false) (hall : ∀ m ∈ listeners, m.fn.isWrapper = false) :
    (listeners.map (Listener.code event)).erase (l.code event) =
      (listeners.erase l).map (Listener.code event) := by
  induction listeners with
  | nil => rfl
  | cons m rest ih =>
      have hm := hall m List.mem_cons_self
      have hrest := ih fun m' h => hall m' (List.mem_cons_of_mem _ h)
      by_cases heq : m = l
      · subst heq
        simp
      · have hcode : m.code event ≠ l.code event := fun h => heq (Listener.code_inj hm hl h)
        rw [List.map_cons, List.erase_cons_tail (by simpa using hcode),
          List.erase_cons_tail (by simpa using heq), List.map_cons, hrest]

/-- Where the function was registered with `on`, or not at all, the table loses what is forgotten. -/
theorem map_code_forget (event : String) {listeners : List Listener}
    (hfn : fn.isWrapper = false) (hall : ∀ m ∈ listeners, m.fn.isWrapper = false)
    (hsafe : ⟨none, fn⟩ ∈ listeners ∨ ∀ l ∈ listeners, l.fn ≠ fn) :
    (listeners.map (Listener.code event)).erase fn =
      (State.forget fn listeners).map (Listener.code event) := by
  unfold State.forget
  split
  · exact map_code_erase event (l := ⟨none, fn⟩) hfn hall
  · rename_i hnone
    have hother : ∀ l ∈ listeners, l.fn ≠ fn := hsafe.resolve_left hnone
    have habsent : fn ∉ listeners.map (Listener.code event) := by
      intro h
      rcases List.mem_map.1 h with ⟨l, hl, hcode⟩
      rw [Listener.code_user hfn hcode] at hl
      exact hnone hl
    rw [List.erase_of_not_mem habsent,
      List.eraseP_of_forall_not (by simpa using hother)]

theorem forget_subset {listeners : List Listener} {l : Listener}
    (h : l ∈ State.forget fn listeners) : l ∈ listeners := by
  unfold State.forget at h
  split at h
  · exact List.mem_of_mem_erase h
  · exact List.mem_of_mem_eraseP h

/-! ### Where once wrappers are -/

/-- Every wrapper is in at most one place that can still call it for the first time: with an `on`
that waits, in one loop, or among the called ones; and in the table only if it was not called. -/
structure Counted (nextId : Nat) (waiting pending fired : List Fn) (listeners : String → List Fn) :
    Prop where
  queued : ∀ f, f.isWrapper = true → waiting.count f + pending.count f + fired.count f ≤ 1
  listed : ∀ f event, f.isWrapper = true →
    waiting.count f + (listeners event).count f + fired.count f ≤ 1
  fresh : ∀ f, f.isWrapper = true → nextId ≤ f.id →
    f ∉ waiting ∧ f ∉ pending ∧ f ∉ fired ∧ ∀ event, f ∉ listeners event
  fired_wrappers : ∀ f ∈ fired, f.isWrapper = true

namespace Counted

variable {n : Nat} {waiting pending fired : List Fn} {listeners : String → List Fn}

theorem fired_nodup (h : Counted n waiting pending fired listeners) : fired.Nodup := by
  refine List.nodup_iff_count.2 fun f => ?_
  by_cases hf : f ∈ fired
  · have := h.queued f (h.fired_wrappers f hf)
    omega
  · rw [List.count_eq_zero_of_not_mem hf]
    exact Nat.zero_le 1

/-- A registration begins, of a function of the program or of a new wrapper. -/
theorem wait (h : Counted n waiting pending fired listeners) {f : Fn}
    (hf : f.isWrapper = true → n ≤ f.id) {m : Nat} (hm : n ≤ m)
    (hid : f.isWrapper = true → f.id < m) :
    Counted m (f :: waiting) pending fired listeners where
  queued g hg := by
    have hq := h.queued g hg
    rw [List.count_cons]
    split
    · rename_i heq
      cases beq_iff_eq.1 heq
      rcases h.fresh f hg (hf hg) with ⟨hw, hp, hfi, _⟩
      have hwaiting := List.count_eq_zero_of_not_mem hw
      have hpending := List.count_eq_zero_of_not_mem hp
      have hfired := List.count_eq_zero_of_not_mem hfi
      omega
    · simpa using hq
  listed g event hg := by
    have hl := h.listed g event hg
    rw [List.count_cons]
    split
    · rename_i heq
      cases beq_iff_eq.1 heq
      rcases h.fresh f hg (hf hg) with ⟨hw, _, hfi, hli⟩
      have hwaiting := List.count_eq_zero_of_not_mem hw
      have hfired := List.count_eq_zero_of_not_mem hfi
      have hlisted := List.count_eq_zero_of_not_mem (hli event)
      omega
    · simpa using hl
  fresh g hg hid' := by
    rcases h.fresh g hg (Nat.le_trans hm hid') with ⟨hw, hp, hfi, hli⟩
    refine ⟨?_, hp, hfi, hli⟩
    rw [List.mem_cons, not_or]
    refine ⟨?_, hw⟩
    rintro rfl
    have := hid hg
    omega
  fired_wrappers := h.fired_wrappers

/-- A registration ends: its function is one more in the list. -/
theorem add {f : Fn} (h : Counted n (f :: waiting) pending fired listeners) (event : String)
    {listeners' : String → List Fn}
    (hadd : ∀ g, (listeners' event).count g = (listeners event).count g + [f].count g)
    (hrest : ∀ e, e ≠ event → listeners' e = listeners e) :
    Counted n waiting pending fired listeners' where
  queued g hg := by
    have hq := h.queued g hg
    rw [List.count_cons] at hq
    omega
  listed g e hg := by
    have hl := h.listed g e hg
    rw [List.count_cons] at hl
    by_cases he : e = event
    · subst he
      rw [hadd g, List.count_singleton]
      omega
    · rw [hrest e he]
      omega
  fresh g hg hid := by
    rcases h.fresh g hg hid with ⟨hw, hp, hfi, hli⟩
    rw [List.mem_cons, not_or] at hw
    refine ⟨hw.2, hp, hfi, fun e => ?_⟩
    by_cases he : e = event
    · subst he
      rw [← List.count_eq_zero, hadd g, List.count_eq_zero_of_not_mem (hli e),
        List.count_eq_zero_of_not_mem (by simpa using hw.1)]
    · rw [hrest e he]
      exact hli e
  fired_wrappers := h.fired_wrappers

/-- A loop starts over a list none of whose once listeners another loop has still to call. -/
theorem start (h : Counted n waiting pending fired listeners)
    (hsafe : ∀ f ∈ listeners event, f.isWrapper = true → f ∉ pending) :
    Counted n waiting (listeners event ++ pending) fired listeners where
  queued g hg := by
    have hq := h.queued g hg
    have hl := h.listed g event hg
    rw [List.count_append]
    by_cases hmem : g ∈ listeners event
    · rw [List.count_eq_zero_of_not_mem (hsafe g hmem hg)]
      omega
    · rw [List.count_eq_zero_of_not_mem hmem]
      omega
  listed := h.listed
  fresh g hg hid := by
    rcases h.fresh g hg hid with ⟨hw, hp, hfi, hli⟩
    refine ⟨hw, ?_, hfi, hli⟩
    rw [List.mem_append, not_or]
    exact ⟨hli event, hp⟩
  fired_wrappers := h.fired_wrappers

/-- A loop calls a function of the program. -/
theorem called {f : Fn} (h : Counted n waiting (f :: pending) fired listeners) :
    Counted n waiting pending fired listeners where
  queued g hg := by
    have hq := h.queued g hg
    rw [List.count_cons] at hq
    omega
  listed := h.listed
  fresh g hg hid := by
    rcases h.fresh g hg hid with ⟨hw, hp, hfi, hli⟩
    rw [List.mem_cons, not_or] at hp
    exact ⟨hw, hp.2, hfi, hli⟩
  fired_wrappers := h.fired_wrappers

/-- Lists may lose functions. -/
theorem shrink (h : Counted n waiting pending fired listeners) {listeners' : String → List Fn}
    (hsub : ∀ event, (listeners' event).Sublist (listeners event)) :
    Counted n waiting pending fired listeners' where
  queued := h.queued
  listed g event hg := by
    have hl := h.listed g event hg
    have hle := (hsub event).count_le g
    omega
  fresh g hg hid := by
    rcases h.fresh g hg hid with ⟨hw, hp, hfi, hli⟩
    exact ⟨hw, hp, hfi, fun event hmem => hli event ((hsub event).subset hmem)⟩
  fired_wrappers := h.fired_wrappers

/-- A loop calls a wrapper, which has left every list. -/
theorem fire {f : Fn} (h : Counted n waiting (f :: pending) fired listeners)
    (hf : f.isWrapper = true) (hgone : ∀ event, f ∉ listeners event) :
    Counted n waiting pending (f :: fired) listeners where
  queued g hg := by
    have hq := h.queued g hg
    rw [List.count_cons] at hq ⊢
    omega
  listed g event hg := by
    have hq := h.queued g hg
    have hl := h.listed g event hg
    rw [List.count_cons] at hq ⊢
    by_cases heq : f = g
    · subst heq
      rw [List.count_eq_zero_of_not_mem (hgone event)]
      omega
    · have hne : (f == g) = false := beq_eq_false_iff_ne.2 heq
      rw [hne] at hq ⊢
      simpa using hl
  fresh g hg hid := by
    rcases h.fresh g hg hid with ⟨hw, hp, hfi, hli⟩
    rw [List.mem_cons, not_or] at hp
    refine ⟨hw, hp.2, ?_, hli⟩
    rw [List.mem_cons, not_or]
    exact ⟨hp.1, hfi⟩
  fired_wrappers g hg := by
    rcases List.mem_cons.1 hg with rfl | hg
    · exact hf
    · exact h.fired_wrappers g hg

end Counted

/-! ### The invariant -/

/-- The functions that registrations under way will add. -/
def State.waiting (s : State) : List Fn :=
  s.stack.flatMap fun
    | .registering _ event listener => [listener.code event]
    | _ => []

/-- A loop has called what its copy began with, and a registration is one the table can take. -/
def Frame.Ok : Frame → Prop
  | .code => True
  | .emitting event atStart called rest =>
      event ∉ inheritedKeys ∧ atStart ≠ [] ∧ (∀ l ∈ atStart, l.fn.isWrapper = false) ∧
        called ++ rest = atStart.map (Listener.code event)
  | .registering _ event listener => event ∉ inheritedKeys ∧ listener.fn.isWrapper = false

structure Inv (s : State) : Prop where
  table : ∀ event, s.listeners event = (s.registered event).map (Listener.code event)
  own : ∀ event ∈ inheritedKeys, s.handlers event = none
  plain : ∀ event, ∀ l ∈ s.registered event, l.fn.isWrapper = false
  frames : ∀ frame ∈ s.stack, frame.Ok
  emits : ∀ e ∈ s.emits, e.Lawful
  ons : ∀ returned ∈ s.ons, returned = true
  counted : Counted s.nextId s.waiting s.pending s.fired s.listeners

theorem Inv.lawful {s : State} (h : Inv s) : Lawful s where
  table := h.table
  emits := h.emits
  onces := h.counted.fired_nodup
  ons := h.ons

theorem Inv.initial : Inv initial where
  table _ := rfl
  own _ _ := rfl
  plain _ l hl := by cases hl
  frames frame hframe := by
    cases List.mem_singleton.1 hframe
    trivial
  emits e he := by cases he
  ons r hr := by cases hr
  counted :=
    { queued := fun _ _ => Nat.zero_le 1
      listed := fun _ _ _ => Nat.zero_le 1
      fresh := fun _ _ _ => ⟨List.not_mem_nil, List.not_mem_nil, List.not_mem_nil,
        fun _ => List.not_mem_nil⟩
      fired_wrappers := fun f hf => by cases hf }

/-! ### The table under its operations -/

variable {handlers : Handlers}

theorem Handlers.get_absent
    (h : handlers.get event = .absent) : handlers event = none := by
  unfold Handlers.get at h
  split at h
  · cases h
  · assumption

theorem Handlers.get_list {l : List Fn}
    (h : handlers.get event = .list l) : handlers event = some l := by
  unfold Handlers.get at h
  split at h
  · rename_i hsome
    cases h
    exact hsome
  · split at h <;> cases h

theorem Handlers.get_inherited
    (h : handlers.get event = .inherited) : handlers event = none ∧ event ∈ inheritedKeys := by
  unfold Handlers.get at h
  split at h
  · cases h
  · rename_i hnone
    split at h
    · exact ⟨hnone, ‹_›⟩
    · cases h

/-- Creating an empty list changes no list. -/
theorem Handlers.ensure_getD (handlers : Handlers) (event e : String) :
    (handlers.ensure event e).getD [] = (handlers e).getD [] := by
  cases hget : handlers.get event with
  | absent =>
      rw [Handlers.ensure, hget]
      by_cases he : e = event
      · subst he
        simp [Handlers.get_absent hget]
      · simp [he]
  | list l => rw [Handlers.ensure, hget]
  | inherited => rw [Handlers.ensure, hget]

theorem Handlers.ensure_other {event e : String} (he : e ≠ event) :
    handlers.ensure event e = handlers e := by
  cases hget : handlers.get event with
  | absent => simp [Handlers.ensure, hget, he]
  | list l => rw [Handlers.ensure, hget]
  | inherited => rw [Handlers.ensure, hget]

/-- The lists after `off`: one function less in one of them. -/
theorem Handlers.off_getD {handlers handlers' : Handlers}
    (h : handlers.off event fn = some handlers') (e : String) :
    (handlers' e).getD [] =
      if e = event then ((handlers event).getD []).erase fn else (handlers e).getD [] := by
  unfold Handlers.off at h
  split at h
  · rename_i habsent
    cases h
    split
    · rename_i he
      subst he
      simp [Handlers.get_absent habsent]
    · rfl
  · cases h
  · rename_i l hlist
    cases h
    by_cases he : e = event
    · subst he
      simp [Handlers.get_list hlist]
    · simp [he]

/-- The lists after a call of `off`, which may have thrown. -/
theorem Handlers.off_listeners (handlers : Handlers) (event : String) (fn : Fn) (e : String) :
    (((handlers.off event fn).getD handlers) e).getD [] =
      if e = event then ((handlers event).getD []).erase fn else (handlers e).getD [] := by
  cases hoff : handlers.off event fn with
  | some handlers' => exact Handlers.off_getD hoff e
  | none =>
      have hnone : handlers event = none := by
        unfold Handlers.off at hoff
        split at hoff
        · cases hoff
        · rename_i hinherited
          exact (Handlers.get_inherited hinherited).1
        · cases hoff
      split
      · rename_i he
        subst he
        simp [hnone]
      · rfl

theorem Handlers.off_isSome (handlers : Handlers) (fn : Fn)
    (hkey : event ∉ inheritedKeys) : ∃ handlers', handlers.off event fn = some handlers' := by
  unfold Handlers.off
  split
  · exact ⟨_, rfl⟩
  · rename_i h
    exact absurd (Handlers.get_inherited h).2 hkey
  · exact ⟨_, rfl⟩

/-- No operation makes an own property of an inherited key. -/
theorem Handlers.off_own {handlers handlers' : Handlers}
    (h : handlers.off event fn = some handlers') {e : String} (he : handlers e = none) :
    handlers' e = none := by
  unfold Handlers.off at h
  split at h
  · cases h
    exact he
  · cases h
  · rename_i l hlist
    cases h
    have hsome := Handlers.get_list hlist
    have hne : e ≠ event := by
      rintro rfl
      rw [hsome] at he
      cases he
    simpa [hne] using he

namespace Inv

variable {s : State}

theorem registered_nil (h : Inv s) (hnil : s.listeners event = []) :
    s.registered event = [] := by
  have htable := h.table event
  rw [hnil] at htable
  exact List.map_eq_nil_iff.1 htable.symm

theorem emit (h : Inv s) (hkey : event ∉ inheritedKeys)
    (hsafe : EmitSafe s event) : Inv (s.emit event) := by
  unfold State.emit
  split
  · rename_i habsent
    have hnil : s.registered event = [] :=
      h.registered_nil (by rw [State.listeners, Handlers.get_absent habsent]; rfl)
    refine { h with emits := ?_ }
    intro e he
    rcases List.mem_cons.1 he with rfl | he
    · exact ⟨by rw [hnil]; rfl, by rw [hnil]; rfl⟩
    · exact h.emits e he
  · rename_i hinherited
    exact absurd (Handlers.get_inherited hinherited).2 hkey
  · rename_i l hlist
    have hsome := Handlers.get_list hlist
    have hl : s.listeners event = l := by rw [State.listeners, hsome]; rfl
    have htable := h.table event
    rw [hl] at htable
    refine { h with frames := ?_, counted := ?_ }
    · intro frame hframe
      rcases List.mem_cons.1 hframe with rfl | hframe
      · refine ⟨hkey, ?_, h.plain event, htable⟩
        intro hnil
        rw [hnil] at htable
        rw [htable] at hsome
        exact hsafe.1 hsome
      · exact h.frames frame hframe
    · have hstart := h.counted.start hsafe.2
      rw [hl] at hstart
      exact hstart

/-- A registration begins. -/
theorem announce (h : Inv s) {m : Nat} (prepend : Bool) {listener : Listener}
    (hkey : event ∉ inheritedKeys) (hplain : listener.fn.isWrapper = false) (hm : s.nextId ≤ m)
    (hid : (listener.code event).isWrapper = true →
      s.nextId ≤ (listener.code event).id ∧ (listener.code event).id < m) :
    Inv { s with
      nextId := m
      handlers := s.handlers.ensure event
      stack := .registering prepend event listener :: s.stack } where
  table e := (s.handlers.ensure_getD event e).trans (h.table e)
  own e he := by
    have hne : e ≠ event := by
      rintro rfl
      exact hkey he
    exact (Handlers.ensure_other hne).trans (h.own e he)
  plain := h.plain
  frames frame hframe := by
    rcases List.mem_cons.1 hframe with rfl | hframe
    · exact ⟨hkey, hplain⟩
    · exact h.frames frame hframe
  emits := h.emits
  ons := h.ons
  counted := by
    have hwait := h.counted.wait (fun hw => (hid hw).1) hm fun hw => (hid hw).2
    have hlists : State.listeners
        { s with
          nextId := m
          handlers := s.handlers.ensure event
          stack := .registering prepend event listener :: s.stack } = s.listeners :=
      funext fun e => s.handlers.ensure_getD event e
    rw [hlists]
    exact hwait

theorem register (h : Inv s) {m : Nat} {prepend : Bool} {listener : Listener}
    (hsafe : RegisterSafe s event listener.fn) (hm : s.nextId ≤ m)
    (hid : (listener.code event).isWrapper = true →
      s.nextId ≤ (listener.code event).id ∧ (listener.code event).id < m) :
    Inv (State.register { s with nextId := m } prepend event listener) := by
  rcases hsafe with ⟨hkey, hplain, hemit⟩
  have hannounced := h.announce prepend hkey hplain hm hid
  unfold State.register
  split
  · rename_i hne
    refine hannounced.emit (by decide) ?_
    rcases hemit hne with ⟨hfull, hquiet⟩
    refine ⟨?_, ?_⟩
    · exact fun heq => hfull ((Handlers.ensure_other (Ne.symm hne)).symm.trans heq)
    · intro f hf hw hpending
      refine hquiet f ?_ hw hpending
      have hsame := s.handlers.ensure_getD event "newListener"
      rw [State.listeners, ← hsame]
      exact hf
  · exact hannounced

theorem shrink (h : Inv s) {registered : String → List Listener}
    (htable : ∀ e, (handlers e).getD [] = (registered e).map (Listener.code e))
    (hown : ∀ e, s.handlers e = none → handlers e = none)
    (hsub : ∀ e, ∀ l ∈ registered e, l ∈ s.registered e)
    (hlists : ∀ e, ((handlers e).getD []).Sublist (s.listeners e)) :
    Inv { s with handlers, registered } where
  table := htable
  own e he := hown e (h.own e he)
  plain e l hl := h.plain e l (hsub e l hl)
  frames := h.frames
  emits := h.emits
  ons := h.ons
  counted := h.counted.shrink hlists

theorem off (h : Inv s) (hsafe : OffSafe s event fn) :
    Inv (s.off event fn) := by
  rcases hsafe with ⟨hplain, hfound⟩
  have hforget := map_code_forget event hplain (h.plain event) hfound
  rw [← h.table event] at hforget
  have hlists := s.handlers.off_listeners event fn
  refine h.shrink ?_ ?_ ?_ ?_
  · intro e
    rw [hlists e]
    by_cases he : e = event
    · subst he
      rw [if_pos rfl, Function.update_self]
      exact hforget
    · rw [if_neg he, Function.update_of_ne he]
      exact h.table e
  · intro e he
    cases hoff : s.handlers.off event fn with
    | none => exact he
    | some handlers' => exact Handlers.off_own hoff he
  · intro e l hl
    by_cases he : e = event
    · subst he
      rw [Function.update_self] at hl
      exact forget_subset hl
    · rwa [Function.update_of_ne he] at hl
  · intro e
    rw [hlists e]
    split
    · rename_i he
      subst he
      exact List.erase_sublist
    · exact List.Sublist.refl _

theorem removeAllListeners (h : Inv s) (event : Option String) :
    Inv (s.removeAllListeners event) := by
  cases event with
  | none =>
      exact h.shrink (fun _ => rfl) (fun _ _ => rfl) (fun _ l hl => by cases hl)
        fun _ => List.nil_sublist _
  | some event =>
      refine h.shrink ?_ ?_ ?_ ?_
      · intro e
        by_cases he : e = event
        · subst he
          rw [Function.update_self, Function.update_self]
          rfl
        · rw [Function.update_of_ne he, Function.update_of_ne he]
          exact h.table e
      · intro e he
        by_cases heq : e = event
        · rw [heq, Function.update_self]
        · rwa [Function.update_of_ne heq]
      · intro e l hl
        by_cases he : e = event
        · rw [he, Function.update_self] at hl
          cases hl
        · rwa [Function.update_of_ne he] at hl
      · intro e
        by_cases he : e = event
        · rw [he, Function.update_self]
          exact List.nil_sublist _
        · rw [Function.update_of_ne he]
          exact List.Sublist.refl _

theorem call (h : Inv s) {op : Op} (hcareful : Careful s (.call op)) : Inv (s.call op) := by
  cases op with
  | on event fn | prependListener event fn =>
      exact h.register hcareful (Nat.le_refl _) fun hw =>
        absurd (hcareful.2.1.symm.trans hw) (by decide)
  | once event fn | prependOnceListener event fn =>
      exact h.register hcareful (Nat.le_succ _) fun _ => ⟨Nat.le_refl _, Nat.lt_succ_self _⟩
  | off event fn => exact h.off hcareful
  | emit event => exact h.emit hcareful.1 hcareful.2
  | removeAllListeners event => exact h.removeAllListeners event

/-! ### Steps -/

/-- Program code begins to run. -/
theorem enter (h : Inv s) : Inv { s with stack := .code :: s.stack } where
  table := h.table
  own := h.own
  plain := h.plain
  frames frame hframe := by
    rcases List.mem_cons.1 hframe with rfl | hframe
    · trivial
    · exact h.frames frame hframe
  emits := h.emits
  ons := h.ons
  counted := h.counted

variable {below : List Frame}

/-- Program code returns. -/
theorem leave (h : Inv s) (hstack : s.stack = .code :: below) :
    Inv { s with stack := below } where
  table := h.table
  own := h.own
  plain := h.plain
  frames frame hframe := h.frames frame (hstack ▸ List.mem_cons_of_mem _ hframe)
  emits := h.emits
  ons := h.ons
  counted := by
    have hcounted := h.counted
    rw [State.waiting, State.pending, hstack] at hcounted
    exact hcounted

/-- A loop is over: it has called everything. -/
theorem finish {atStart : List Listener} {called : List Fn}
    (h : Inv s) (hstack : s.stack = .emitting event atStart called [] :: below) :
    Inv { s with stack := below, emits := ⟨event, atStart, called, some true⟩ :: s.emits } where
  table := h.table
  own := h.own
  plain := h.plain
  frames frame hframe := h.frames frame (hstack ▸ List.mem_cons_of_mem _ hframe)
  emits e he := by
    rcases List.mem_cons.1 he with rfl | he
    · rcases h.frames _ (hstack ▸ List.mem_cons_self) with ⟨_, hne, _, hcalled⟩
      rw [List.append_nil] at hcalled
      refine ⟨hcalled, ?_⟩
      cases atStart with
      | nil => exact absurd rfl hne
      | cons l rest => rfl
    · exact h.emits e he
  ons := h.ons
  counted := by
    have hcounted := h.counted
    rw [State.waiting, State.pending, hstack] at hcounted
    exact hcounted

theorem added {prepend : Bool} {listener : Listener}
    {handlers' : Handlers} (h : Inv s) (hstack : s.stack = .registering prepend event listener :: below)
    (hadd : s.handlers.add prepend event (listener.code event) = some handlers') :
    Inv { s with
      handlers := handlers'
      stack := below
      registered := Function.update s.registered event
        (if prepend then listener :: s.registered event else s.registered event ++ [listener])
      ons := true :: s.ons } := by
  rcases h.frames _ (hstack ▸ List.mem_cons_self) with ⟨hkey, hplain⟩
  unfold Handlers.add at hadd
  split at hadd
  · cases hadd
  · cases hadd
  rename_i l hlist
  cases hadd
  have hsome := Handlers.get_list hlist
  have hl : s.listeners event = l := by rw [State.listeners, hsome]; rfl
  refine
    { table := ?_, own := ?_, plain := ?_, frames := ?_, emits := h.emits, ons := ?_,
      counted := ?_ }
  · intro e
    by_cases he : e = event
    · subst he
      have htable := h.table e
      rw [hl] at htable
      cases prepend <;> simp [State.listeners, htable]
    · simp only [State.listeners, Function.update_of_ne he]
      exact h.table e
  · intro e he
    have hne : e ≠ event := by
      rintro rfl
      exact hkey he
    exact (Function.update_of_ne hne _ _).trans (h.own e he)
  · intro e m hm
    by_cases he : e = event
    · subst he
      simp only [Function.update_self] at hm
      have hm' : m = listener ∨ m ∈ s.registered e := by
        cases prepend
        · simpa [or_comm] using hm
        · simpa using hm
      rcases hm' with rfl | hm'
      · exact hplain
      · exact h.plain e m hm'
    · simp only [Function.update_of_ne he] at hm
      exact h.plain e m hm
  · exact fun frame hframe => h.frames frame (hstack ▸ List.mem_cons_of_mem _ hframe)
  · intro returned hreturned
    rcases List.mem_cons.1 hreturned with rfl | hreturned
    · rfl
    · exact h.ons returned hreturned
  · have hcounted := h.counted
    rw [State.waiting, State.pending, hstack] at hcounted
    refine Counted.add (f := listener.code event) hcounted event ?_ ?_
    · intro g
      rw [hl]
      cases prepend <;> simp [State.listeners, List.count_cons, List.count_append]
    · intro e he
      exact congrArg (Option.getD · []) (Function.update_of_ne he _ _)

/-- A loop turns to its next function. -/
theorem turned {atStart : List Listener} {called : List Fn} {f : Fn}
    {rest : List Fn} (h : Inv s)
    (hstack : s.stack = .emitting event atStart called (f :: rest) :: below) :
    Inv { s with stack := .emitting event atStart (called ++ [f]) rest :: below } where
  table := h.table
  own := h.own
  plain := h.plain
  frames frame hframe := by
    rcases List.mem_cons.1 hframe with rfl | hframe
    · rcases h.frames _ (hstack ▸ List.mem_cons_self) with ⟨hkey, hne, hplain, hcalled⟩
      refine ⟨hkey, hne, hplain, ?_⟩
      rw [List.append_assoc, List.singleton_append]
      exact hcalled
    · exact h.frames frame (hstack ▸ List.mem_cons_of_mem _ hframe)
  emits := h.emits
  ons := h.ons
  counted := by
    have hcounted := h.counted
    rw [State.waiting, State.pending, hstack] at hcounted
    exact hcounted.called

/-- A once listener is called: its wrapper leaves the table and what is registered. -/
theorem fires {atStart : List Listener} {called : List Fn} {id : Nat}
    {rest : List Fn} {handlers' : Handlers} (h : Inv s)
    (hstack : s.stack = .emitting event atStart called (.wrapper id event fn :: rest) :: below)
    (hplain : fn.isWrapper = false)
    (hoff : s.handlers.off event (.wrapper id event fn) = some handlers') :
    Inv { s with
      handlers := handlers'
      stack := .emitting event atStart (called ++ [.wrapper id event fn]) rest :: below
      registered :=
        Function.update s.registered event ((s.registered event).erase ⟨some id, fn⟩)
      fired := .wrapper id event fn :: s.fired } := by
  have hlists := Handlers.off_getD hoff
  have herase := map_code_erase event (l := ⟨some id, fn⟩) hplain (h.plain event)
  rw [← h.table event] at herase
  have hshrunk : Inv { s with
      handlers := handlers'
      registered :=
        Function.update s.registered event ((s.registered event).erase ⟨some id, fn⟩) } := by
    refine h.shrink ?_ (fun e he => Handlers.off_own hoff he) ?_ ?_
    · intro e
      rw [hlists e]
      by_cases he : e = event
      · subst he
        rw [if_pos rfl, Function.update_self]
        exact herase
      · rw [if_neg he, Function.update_of_ne he]
        exact h.table e
    · intro e l hl
      by_cases he : e = event
      · subst he
        rw [Function.update_self] at hl
        exact List.mem_of_mem_erase hl
      · rwa [Function.update_of_ne he] at hl
    · intro e
      rw [hlists e]
      split
      · rename_i he
        subst he
        exact List.erase_sublist
      · exact List.Sublist.refl _
  have hgone : ∀ e, Fn.wrapper id event fn ∉ (handlers' e).getD [] := by
    intro e hmem
    rw [hlists e] at hmem
    by_cases he : e = event
    · subst he
      rw [if_pos rfl] at hmem
      have hlisted := h.counted.listed (.wrapper id e fn) e rfl
      have hpos := List.count_pos_iff.2 hmem
      rw [List.count_erase_self] at hpos
      rw [State.listeners] at hlisted
      omega
    · rw [if_neg he] at hmem
      have hmem' : Fn.wrapper id event fn ∈ s.listeners e := hmem
      rw [h.table e] at hmem'
      rcases List.mem_map.1 hmem' with ⟨l, hl, hcode⟩
      exact he (Listener.code_wrapper (h.plain e l hl) hcode).1
  have hturned := hshrunk.turned hstack
  have hcounted := hshrunk.counted
  rw [State.waiting, State.pending, hstack] at hcounted
  exact { hturned with counted := hcounted.fire rfl hgone }

theorem next {event : String} {atStart : List Listener} {called : List Fn} {f : Fn}
    {rest : List Fn} {below : List Frame} (h : Inv s)
    (hstack : s.stack = .emitting event atStart called (f :: rest) :: below) :
    Inv (State.invoke
      { s with stack := .emitting event atStart (called ++ [f]) rest :: below } f) := by
  rcases h.frames _ (hstack ▸ List.mem_cons_self) with ⟨hkey, _, hplain, hcalled⟩
  have hmem : f ∈ atStart.map (Listener.code event) := by
    rw [← hcalled]
    exact List.mem_append_right _ List.mem_cons_self
  rcases List.mem_map.1 hmem with ⟨l, hl, hcode⟩
  cases f with
  | user k => exact (h.turned hstack).enter
  | wrapper id event' fn =>
      rcases Listener.code_wrapper (hplain l hl) hcode with ⟨rfl, rfl⟩
      rcases Handlers.off_isSome s.handlers (.wrapper id event fn) hkey with
        ⟨handlers', hoff⟩
      have hfn : fn.isWrapper = false := hplain _ hl
      have hfires := h.fires hstack hfn hoff
      cases fn with
      | wrapper id' event' fn' => cases hfn
      | user k =>
          simp only [State.invoke, hoff]
          exact hfires.enter

theorem advance {t : State} (h : Inv s) (hsafe : s.addSafe = true)
    (ht : s.advance = some t) : Inv t := by
  unfold State.advance at ht
  split at ht
  · rename_i hstack
    cases ht
    exact h.next hstack
  · rename_i hstack
    cases ht
    exact h.finish hstack
  · rename_i prepend event listener below hstack
    split at ht
    · rename_i hadd
      -- the list is there, so it can be added to
      rw [State.addSafe, hstack] at hsafe
      rcases Option.isSome_iff_exists.1 hsafe with ⟨l, hl⟩
      rw [Handlers.add, Handlers.get, hl] at hadd
      cases hadd
    · rename_i handlers' hadd
      cases ht
      exact h.added hstack hadd
  · cases ht

/-- Every allowed step keeps the invariant. -/
theorem step {e : Event} {t : State} (h : Inv s) (hcareful : Careful s e)
    (ht : step s e = some t) : Inv t := by
  cases e with
  | call op =>
      simp only [Process.step] at ht
      split at ht
      · cases ht
        exact h.call hcareful
      · cases ht
  | returns =>
      simp only [Process.step] at ht
      split at ht
      · rename_i hstack
        cases ht
        exact h.leave hstack
      · cases ht
  | throws => exact absurd hcareful id
  | advance => exact h.advance hcareful ht

end Inv

/-! ### Runs -/

/-- In every run whose steps all meet the condition, every state is lawful. -/
theorem careful_runs_lawful {events : List Event} {s : State}
    (run : GuardedRun step Careful initial events s) : Lawful s := by
  have hinv : Inv s :=
    run.invariant (fun s e t h hcareful ht => h.step hcareful ht) Inv.initial
  exact hinv.lawful

/-- A program listens to 'newListener' and to 'e', once and always, emits, and takes its listener
off. -/
def plainRun : List Event :=
  [.call (.on "newListener" (.user 0)), .advance,
    .call (.once "e" (.user 1)), .advance, .returns, .advance, .advance,
    .call (.prependListener "e" (.user 1)), .advance, .returns, .advance, .advance,
    .call (.emit "e"), .advance, .returns, .advance, .returns, .advance,
    .call (.off "e" (.user 1))]

theorem plainRun_lawful :
    ∃ s, GuardedRun step Careful initial plainRun s ∧ s.emits.length = 3 ∧ Lawful s := by
  have hends : (runEvents (fun s e => if Careful s e then step s e else none) initial
      plainRun).any (fun s => s.emits.length = 3) = true := by decide
  rcases (Option.any_eq_true _ _).1 hends with ⟨s, hs, hlength⟩
  have hrun := GuardedRun.of_runEvents .start hs
  exact ⟨s, hrun, of_decide_eq_true hlength, careful_runs_lawful hrun⟩

/-- A name that every object inherits. -/
def inheritedName : List Event := [.call (.on "constructor" (.user 0)), .advance]

/-- The first listener emits the same event again while a once listener is still to come. -/
def nestedEmit : List Event :=
  [.call (.on "e" (.user 0)), .advance, .call (.once "e" (.user 1)), .advance,
    .call (.emit "e"), .advance, .call (.emit "e"), .advance, .returns, .advance, .returns,
    .advance, .returns, .advance]

def offOnce : List Event :=
  [.call (.once "e" (.user 0)), .advance, .call (.off "e" (.user 0))]

/-- The only listener is gone, its list is not. -/
def emptiedList : List Event :=
  [.call (.on "e" (.user 0)), .advance, .call (.off "e" (.user 0)), .call (.emit "e"), .advance]

/-- Each promise is broken by some run: `on` throws, a once listener is called twice, `off` leaves a
listener, and `emit` finds one where there is none. -/
theorem emitter_promises_broken :
    (∃ s, runEvents step initial inheritedName = some s ∧ ¬ ∀ returned ∈ s.ons, returned = true) ∧
    (∃ s, runEvents step initial nestedEmit = some s ∧ ¬ s.fired.Nodup) ∧
    (∃ s, runEvents step initial offOnce = some s ∧
      s.listeners "e" ≠ (s.registered "e").map (Listener.code "e")) ∧
    (∃ s, runEvents step initial emptiedList = some s ∧
      ∃ e ∈ s.emits, e.atStart = [] ∧ e.result = some true) := by
  have hinherited : (runEvents step initial inheritedName).any (fun s =>
      ¬ ∀ returned ∈ s.ons, returned = true) = true := by decide
  have hnested : (runEvents step initial nestedEmit).any (fun s => ¬ s.fired.Nodup) = true := by
    decide
  have hoff : (runEvents step initial offOnce).any (fun s =>
      s.listeners "e" ≠ (s.registered "e").map (Listener.code "e")) = true := by decide
  have hemptied : (runEvents step initial emptiedList).any (fun s =>
      ∃ e ∈ s.emits, e.atStart = [] ∧ e.result = some true) = true := by decide
  rcases (Option.any_eq_true _ _).1 hinherited with ⟨s, hs, hfails⟩
  refine ⟨⟨s, hs, of_decide_eq_true hfails⟩, ?_⟩
  rcases (Option.any_eq_true _ _).1 hnested with ⟨s, hs, hfails⟩
  refine ⟨⟨s, hs, of_decide_eq_true hfails⟩, ?_⟩
  rcases (Option.any_eq_true _ _).1 hoff with ⟨s, hs, hfails⟩
  refine ⟨⟨s, hs, of_decide_eq_true hfails⟩, ?_⟩
  rcases (Option.any_eq_true _ _).1 hemptied with ⟨s, hs, hfails⟩
  exact ⟨s, hs, of_decide_eq_true hfails⟩

end HermesNode.Process
