/-
Module: HermesNode.Lib.WorkList
Purpose: A work list that grows while it is walked. The items stand in the order of their
  discovery; one step visits the first unvisited item, which may fail, and appends the targets it
  names that are not listed yet. The first item of all may be visited differently from the others.
  A run visits exactly the least set that contains the seeds and is closed under the targets: it
  fails when some item of that set fails, and it ends when that set is finite.
Trusted boundary: none
Main exports: discover, step, run_failed_iff, run_terminates
-/
import HermesNode.Lib.Lists
import Mathlib.Data.List.Nodup
import Mathlib.Data.Set.Finite.Basic

namespace HermesNode.WorkList

variable {α β ε : Type} [DecidableEq α]

/-- Append the targets that are not listed yet, each where it first occurs. -/
def discover (items targets : List α) : List α :=
  targets.foldl (fun found target => if target ∈ found then found else found ++ [target]) items

theorem discover_cons (items : List α) (target : α) (targets : List α) :
    discover items (target :: targets) =
      discover (if target ∈ items then items else items ++ [target]) targets :=
  rfl

theorem discover_append (items targets more : List α) :
    discover items (targets ++ more) = discover (discover items targets) more :=
  List.foldl_append

theorem mem_discover {items targets : List α} {x : α} :
    x ∈ discover items targets ↔ x ∈ items ∨ x ∈ targets := by
  induction targets generalizing items with
  | nil => simp [discover]
  | cons target targets ih =>
      rw [discover_cons, ih]
      split
      · rename_i hmem
        constructor
        · intro h
          rcases h with h | h
          · exact Or.inl h
          · exact Or.inr (List.mem_cons_of_mem _ h)
        · intro h
          rcases h with h | h
          · exact Or.inl h
          · rcases List.mem_cons.mp h with rfl | hrest
            · exact Or.inl hmem
            · exact Or.inr hrest
      · simp only [List.mem_append, List.mem_cons]
        tauto

theorem discover_starts (items targets : List α) : items <+: discover items targets := by
  induction targets generalizing items with
  | nil => exact List.prefix_rfl
  | cons target targets ih =>
      rw [discover_cons]
      split
      · exact ih items
      · exact (List.prefix_append items [target]).trans (ih _)

theorem discover_nodup {items : List α} (h : items.Nodup) (targets : List α) :
    (discover items targets).Nodup := by
  induction targets generalizing items with
  | nil => exact h
  | cons target targets ih =>
      rw [discover_cons]
      split
      · exact ih h
      · rename_i hnew
        apply ih
        rw [List.nodup_append]
        refine ⟨h, List.nodup_singleton _, ?_⟩
        intro a ha b hb hab
        rw [List.mem_singleton] at hb
        subst hb
        subst hab
        exact hnew ha

/-- The items discovered so far and the results of those already visited, which are the first
ones. -/
structure State (α β : Type) where
  items : List α
  visited : List β := []
deriving Repr, DecidableEq

inductive Outcome (ε σ : Type) where
  | running (s : σ)
  | failed (e : ε)
  | finished (s : σ)
deriving Repr, DecidableEq

/-- The state of a run that ended well. -/
def Outcome.finished? {ε σ : Type} : Outcome ε σ → Option σ
  | .finished s => some s
  | _ => none

theorem Outcome.finished?_eq_some {ε σ : Type} {o : Outcome ε σ} {s : σ}
    (h : o.finished? = some s) : o = .finished s := by
  cases o with
  | finished s' => rw [Option.some.inj h]
  | running s' => cases h
  | failed e => cases h

/-- The least set with the seeds that is closed under `next`. -/
inductive Closure (seeds : List α) (next : α → List α) : α → Prop where
  | seed {x : α} (h : x ∈ seeds) : Closure seeds next x
  | next {x y : α} (hx : Closure seeds next x) (hy : y ∈ next x) : Closure seeds next y

section Run

-- what visiting an item gives: its result and its targets; the flag tells whether the item is the
-- first of the list
variable (visit : Bool → α → Except ε (β × List α))

def step (s : State α β) : Outcome ε (State α β) :=
  match s.items[s.visited.length]? with
  | none => .finished s
  | some x =>
      match visit (s.visited.length == 0) x with
      | .error e => .failed e
      | .ok (result, targets) =>
          .running { items := discover s.items targets, visited := s.visited ++ [result] }

def run : Nat → State α β → Outcome ε (State α β)
  | 0, s => .running s
  | fuel + 1, s =>
      match step visit s with
      | .running s' => run fuel s'
      | outcome => outcome

theorem step_cases (s : State α β) :
    (step visit s = .finished s ∧ s.items.length ≤ s.visited.length) ∨
    (∃ x e, s.items[s.visited.length]? = some x ∧
      visit (s.visited.length == 0) x = .error e ∧ step visit s = .failed e) ∨
    (∃ x result targets, s.items[s.visited.length]? = some x ∧
      visit (s.visited.length == 0) x = .ok (result, targets) ∧
      step visit s =
        .running { items := discover s.items targets, visited := s.visited ++ [result] }) := by
  cases hitem : s.items[s.visited.length]? with
  | none =>
      refine Or.inl ⟨by simp [step, hitem], List.getElem?_eq_none_iff.mp hitem⟩
  | some x =>
      cases hvisit : visit (s.visited.length == 0) x with
      | error e => exact Or.inr (Or.inl ⟨x, e, rfl, hvisit, by simp [step, hitem, hvisit]⟩)
      | ok answer =>
          rcases answer with ⟨result, targets⟩
          exact Or.inr (Or.inr ⟨x, result, targets, rfl, hvisit, by simp [step, hitem, hvisit]⟩)

/-- Visiting an item, its place in the list read off the seeds. -/
def visitItem (seeds : List α) (x : α) : Except ε (β × List α) :=
  visit (seeds.head? == some x) x

/-- The targets of an item, none where the visit fails. -/
def targetsOf (seeds : List α) (x : α) : List α :=
  match visitItem visit seeds x with
  | .ok (_, targets) => targets
  | .error _ => []

/-- The invariant of a run. -/
structure Reached (seeds : List α) (s : State α β) : Prop where
  nodup : s.items.Nodup
  length : s.visited.length ≤ s.items.length
  /-- The items are the seeds and the targets of the visited items, in the order they were named. -/
  order : s.items =
    discover seeds ((s.items.take s.visited.length).flatMap (targetsOf visit seeds))
  results : List.Forall₂ (fun x result => visitItem visit seeds x =
    .ok (result, targetsOf visit seeds x)) (s.items.take s.visited.length) s.visited
  sound : ∀ x ∈ s.items, Closure seeds (targetsOf visit seeds) x

variable {visit} {seeds : List α} {s s' : State α β}

theorem reached_init (hseeds : seeds.Nodup) : Reached visit seeds { items := seeds } := by
  constructor
  · exact hseeds
  · simp
  · simp [discover]
  · simp
  · intro x hx
    exact Closure.seed hx

namespace Reached

theorem seeds_start (h : Reached visit seeds s) : seeds <+: s.items := by
  rw [h.order]
  exact discover_starts _ _

/-- Only the first item stands where the flag is set. -/
theorem visit_eq (h : Reached visit seeds s) (hne : seeds ≠ []) {i : Nat} {x : α}
    (hx : s.items[i]? = some x) : visit (i == 0) x = visitItem visit seeds x := by
  have hflag : (i == 0) = (seeds.head? == some x) := by
    cases seeds with
    | nil => exact absurd rfl hne
    | cons first rest =>
        rcases h.seeds_start with ⟨tail, htail⟩
        have hfirst : s.items[0]? = some first := by
          rw [← htail]
          rfl
        simp only [List.head?_cons]
        rw [Bool.eq_iff_iff]
        simp only [beq_iff_eq, Option.some.injEq]
        constructor
        · intro hi
          rw [hi, hfirst] at hx
          exact Option.some.inj hx
        · intro hsame
          subst hsame
          have hlt := (List.getElem?_eq_some_iff.mp hfirst).1
          exact ((List.getElem?_inj hlt h.nodup).mp (hfirst.trans hx.symm)).symm
  rw [visitItem, hflag]

theorem step_running (h : Reached visit seeds s) (hne : seeds ≠ [])
    (hstep : step visit s = .running s') :
    Reached visit seeds s' ∧ s'.visited.length = s.visited.length + 1 ∧ s.items <+: s'.items := by
  rcases step_cases visit s with ⟨hdone, _⟩ | ⟨_, _, _, _, hfail⟩ |
    ⟨x, result, targets, hx, hvisit, hrun⟩
  · rw [hdone] at hstep
    cases hstep
  · rw [hfail] at hstep
    cases hstep
  · rw [hrun] at hstep
    cases hstep
    have hlt := (List.getElem?_eq_some_iff.mp hx).1
    rw [h.visit_eq hne hx] at hvisit
    have htargets : targetsOf visit seeds x = targets := by
      simp [targetsOf, hvisit]
    have hstarts := discover_starts s.items targets
    have htake : (discover s.items targets).take (s.visited.length + 1) =
        s.items.take s.visited.length ++ [x] := by
      rcases hstarts with ⟨tail, htail⟩
      rw [← htail, List.take_append_of_le_length hlt, List.take_add_one, hx]
      rfl
    have hmem : x ∈ s.items := List.mem_of_getElem? hx
    refine ⟨⟨discover_nodup h.nodup targets, ?_, ?_, ?_, ?_⟩, by simp, hstarts⟩
    · simpa using Nat.le_trans hlt hstarts.length_le
    · simp only [List.length_append, List.length_singleton, htake, List.flatMap_append,
        List.flatMap_singleton, discover_append, htargets]
      rw [← h.order]
    · simp only [List.length_append, List.length_singleton, htake]
      exact List.rel_append h.results
        (List.Forall₂.cons (by rw [hvisit, htargets]) List.Forall₂.nil)
    · intro y hy
      rcases mem_discover.mp hy with hold | hnew
      · exact h.sound y hold
      · exact Closure.next (h.sound x hmem) (by rw [htargets]; exact hnew)

theorem complete (h : Reached visit seeds s) (hall : s.items.length ≤ s.visited.length) (x : α) :
    x ∈ s.items ↔ Closure seeds (targetsOf visit seeds) x := by
  constructor
  · exact h.sound x
  · intro hx
    induction hx with
    | seed hseed => exact h.seeds_start.subset hseed
    | @next x y _ hy ih =>
        rw [h.order]
        apply mem_discover.mpr
        refine Or.inr (List.mem_flatMap.mpr ⟨x, ?_, hy⟩)
        rwa [List.take_of_length_le hall]

end Reached

/-- A run that is still going has made one visit for each unit of fuel. -/
theorem run_running (hne : seeds ≠ []) {fuel : Nat} (h : Reached visit seeds s)
    (hrun : run visit fuel s = .running s') :
    Reached visit seeds s' ∧ s'.visited.length = s.visited.length + fuel ∧
      s.items <+: s'.items := by
  induction fuel generalizing s with
  | zero =>
      cases hrun
      exact ⟨h, rfl, List.prefix_rfl⟩
  | succ fuel ih =>
      unfold run at hrun
      cases hstep : step visit s with
      | running next =>
          simp only [hstep] at hrun
          rcases h.step_running hne hstep with ⟨hnext, hcount, hstarts⟩
          rcases ih hnext hrun with ⟨hreached, hlength, hmore⟩
          exact ⟨hreached, by omega, hstarts.trans hmore⟩
      | failed e => simp [hstep] at hrun
      | finished done => simp [hstep] at hrun

/-- A run that does not run on ends with a step from a reached state. -/
theorem run_last (hne : seeds ≠ []) {fuel : Nat} (h : Reached visit seeds s)
    (hends : ∀ s', run visit fuel s ≠ .running s') :
    ∃ last, Reached visit seeds last ∧ step visit last = run visit fuel s := by
  induction fuel generalizing s with
  | zero => exact absurd rfl (hends s)
  | succ fuel ih =>
      unfold run at hends ⊢
      cases hstep : step visit s with
      | running next =>
          simp only [hstep] at hends
          exact ih (h.step_running hne hstep).1 hends
      | failed e => exact ⟨s, h, hstep⟩
      | finished done => exact ⟨s, h, hstep⟩

/-- A finished run has visited the whole closure, each item of it once. -/
theorem run_finished (hne : seeds ≠ []) {fuel : Nat} (h : Reached visit seeds s)
    (hrun : run visit fuel s = .finished s') :
    Reached visit seeds s' ∧ s'.items.length = s'.visited.length := by
  obtain ⟨last, hreached, hstep⟩ := run_last hne h fun t hrunning => by
    rw [hrun] at hrunning
    cases hrunning
  rw [hrun] at hstep
  rcases step_cases visit last with ⟨hdone, hall⟩ | ⟨_, _, _, _, hfail⟩ | ⟨_, _, _, _, _, hgoes⟩
  · rw [hdone] at hstep
    cases hstep
    exact ⟨hreached, Nat.le_antisymm hall hreached.length⟩
  · rw [hfail] at hstep
    cases hstep
  · rw [hgoes] at hstep
    cases hstep

theorem run_failed (hne : seeds ≠ []) {fuel : Nat} {e : ε} (h : Reached visit seeds s)
    (hrun : run visit fuel s = .failed e) :
    ∃ x, Closure seeds (targetsOf visit seeds) x ∧ visitItem visit seeds x = .error e := by
  obtain ⟨last, hreached, hstep⟩ := run_last hne h fun t hrunning => by
    rw [hrun] at hrunning
    cases hrunning
  rw [hrun] at hstep
  rcases step_cases visit last with ⟨hdone, _⟩ | ⟨x, e', hx, hvisit, hfail⟩ | ⟨_, _, _, _, _, hgoes⟩
  · rw [hdone] at hstep
    cases hstep
  · rw [hfail] at hstep
    cases hstep
    rw [hreached.visit_eq hne hx] at hvisit
    exact ⟨x, hreached.sound x (List.mem_of_getElem? hx), hvisit⟩
  · rw [hgoes] at hstep
    cases hstep

theorem run_add {fuel : Nat} (more : Nat) (hrun : run visit fuel s = .running s') :
    run visit (fuel + more) s = run visit more s' := by
  induction fuel generalizing s with
  | zero =>
      cases hrun
      rw [Nat.zero_add]
  | succ fuel ih =>
      unfold run at hrun
      rw [Nat.succ_add]
      conv_lhs => unfold run
      cases hstep : step visit s with
      | running next =>
          simp only [hstep] at hrun
          exact ih hrun
      | failed e => simp [hstep] at hrun
      | finished done => simp [hstep] at hrun

/-- A run that never stops reaches every item of the closure: the list is served in order. -/
theorem visited_of_running (hseeds : seeds.Nodup) (hne : seeds ≠ [])
    (hgoes : ∀ fuel, ∃ s : State α β, run visit fuel { items := seeds } = .running s) {x : α}
    (hx : Closure seeds (targetsOf visit seeds) x) :
    ∃ fuel s, run visit fuel { items := seeds } = .running s ∧
      x ∈ s.items.take s.visited.length := by
  -- an item that is listed after `fuel` steps at place `k` is visited `k + 1` steps later
  have hserved : ∀ {fuel : Nat} {s : State α β} {y : α},
      run visit fuel { items := seeds } = .running s → y ∈ s.items →
      ∃ fuel' s', run visit fuel' { items := seeds } = .running s' ∧
        y ∈ s'.items.take s'.visited.length := by
    intro fuel s y hrun hy
    have hreached := (run_running hne (reached_init hseeds) hrun).1
    rcases List.mem_iff_getElem?.mp hy with ⟨k, hk⟩
    rcases hgoes (fuel + (k + 1)) with ⟨s', hrun'⟩
    refine ⟨_, s', hrun', ?_⟩
    rw [run_add _ hrun] at hrun'
    rcases run_running hne hreached hrun' with ⟨_, hcount, ⟨tail, htail⟩⟩
    have hk' : s'.items[k]? = some y := by
      rw [← htail, List.getElem?_append_left (List.getElem?_eq_some_iff.mp hk).1, hk]
    apply List.mem_of_getElem? (i := k)
    rw [List.getElem?_take, if_pos (by omega), hk']
  induction hx with
  | seed hseed => exact @hserved 0 _ _ rfl hseed
  | @next x y _ hy ih =>
      rcases ih with ⟨fuel, s, hrun, hvisited⟩
      apply hserved hrun
      rw [(run_running hne (reached_init hseeds) hrun).1.order]
      exact mem_discover.mpr (Or.inr (List.mem_flatMap.mpr ⟨x, hvisited, hy⟩))

/-- A run from the seeds fails exactly when some item of the closure does. -/
theorem run_failed_iff (hseeds : seeds.Nodup) (hne : seeds ≠ []) :
    (∃ fuel e, run visit fuel { items := seeds } = .failed e) ↔
      ∃ x e, Closure seeds (targetsOf visit seeds) x ∧ visitItem visit seeds x = .error e := by
  constructor
  · rintro ⟨fuel, e, hrun⟩
    rcases run_failed hne (reached_init hseeds) hrun with ⟨x, hx, hfail⟩
    exact ⟨x, e, hx, hfail⟩
  · rintro ⟨x, e, hx, hfail⟩
    by_contra hnever
    have hvisited : ∃ fuel s, x ∈ s.items.take s.visited.length ∧ Reached visit seeds s ∧
        (run visit fuel { items := seeds } = .running s ∨
          run visit fuel { items := seeds } = .finished s) := by
      by_cases hgoes : ∀ fuel, ∃ s : State α β, run visit fuel { items := seeds } = .running s
      · rcases visited_of_running hseeds hne hgoes hx with ⟨fuel, s, hrun, hmem⟩
        exact ⟨fuel, s, hmem, (run_running hne (reached_init hseeds) hrun).1, Or.inl hrun⟩
      · rcases not_forall.mp hgoes with ⟨fuel, hstops⟩
        cases hrun : run visit fuel { items := seeds } with
        | running s => exact absurd ⟨s, hrun⟩ hstops
        | failed e' => exact absurd ⟨fuel, e', hrun⟩ hnever
        | finished s =>
            rcases run_finished hne (reached_init hseeds) hrun with ⟨hreached, hall⟩
            refine ⟨fuel, s, ?_, hreached, Or.inr hrun⟩
            rw [List.take_of_length_le (Nat.le_of_eq hall)]
            exact (hreached.complete (Nat.le_of_eq hall) x).mpr hx
    rcases hvisited with ⟨_, s, hmem, hreached, _⟩
    rcases forall₂_mem_left hreached.results hmem with ⟨_, _, hok⟩
    rw [hfail] at hok
    cases hok

theorem run_terminates (hseeds : seeds.Nodup) (hne : seeds ≠ [])
    (hfinite : {x | Closure seeds (targetsOf visit seeds) x}.Finite) :
    ∃ fuel, ∀ s : State α β, run visit fuel { items := seeds } ≠ .running s := by
  refine ⟨hfinite.toFinset.card + 1, ?_⟩
  intro s hrun
  rcases run_running hne (reached_init hseeds) hrun with ⟨hreached, hcount, _⟩
  have hcard : s.items.length ≤ hfinite.toFinset.card := by
    rw [← List.toFinset_card_of_nodup hreached.nodup]
    apply Finset.card_le_card
    intro x hx
    exact hfinite.mem_toFinset.mpr (hreached.sound x (List.mem_toFinset.mp hx))
  have hle := hreached.length
  simp only [List.length_nil, Nat.zero_add] at hcount
  omega

end Run

end HermesNode.WorkList
