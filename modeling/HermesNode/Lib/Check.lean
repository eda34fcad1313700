/-
Module: HermesNode.Lib.Check
Purpose: Validation passes over a mapped buffer. A pass has three outcomes: it accepts with a
  value, it rejects with a message, or it read outside the buffer (no outcome at all). The rules
  here peel a pass apart once, so that a proof about a validator never unfolds the monad: `bind`
  rules for acceptance and for staying inside the buffer, and the same two rules for counted loops.
Trusted boundary: none
Main exports: Check, Check.require, forRange_invariant, forRange_inBounds
-/
import HermesNode.Lib.Buffer

namespace HermesNode

/-- The outcome of a validation pass. -/
inductive Check (α : Type) where
  | outOfBounds
  | rejected (message : String)
  | accepted (value : α)
deriving Repr, DecidableEq

namespace Check

def bind {α β : Type} (x : Check α) (f : α → Check β) : Check β :=
  match x with
  | outOfBounds => outOfBounds
  | rejected message => rejected message
  | accepted a => f a

instance : Monad Check where
  pure := accepted
  bind := bind

/-- The pass ends by accepting with `a`. -/
def Accepts {α : Type} (x : Check α) (a : α) : Prop := x = accepted a

/-- The pass never read outside the buffer. -/
def InBounds {α : Type} (x : Check α) : Prop := x ≠ outOfBounds

/-- Reject with `message` unless `cond` holds: `if (!cond) return fail(message)`. -/
def require (cond : Bool) (message : String) : Check Unit :=
  if cond then accepted () else rejected message

/-- A memory access of the pass. -/
def load {α : Type} : Option α → Check α
  | some a => accepted a
  | none => outOfBounds

theorem accepts_pure {α : Type} {a b : α} : Accepts (pure a) b ↔ a = b := by
  constructor
  · intro h
    injection h
  · rintro rfl
    rfl

theorem accepts_bind {α β : Type} {x : Check α} {f : α → Check β} {b : β} :
    Accepts (x >>= f) b ↔ ∃ a, Accepts x a ∧ Accepts (f a) b := by
  cases x with
  | outOfBounds => simp [Accepts, Bind.bind, bind]
  | rejected message => simp [Accepts, Bind.bind, bind]
  | accepted a => simp [Accepts, Bind.bind, bind]

theorem inBounds_bind {α β : Type} {x : Check α} {f : α → Check β}
    (hx : InBounds x) (hf : ∀ a, Accepts x a → InBounds (f a)) : InBounds (x >>= f) := by
  cases x with
  | outOfBounds => exact absurd rfl hx
  | rejected message => simp [InBounds, Bind.bind, bind]
  | accepted a => exact hf a rfl

theorem inBounds_pure {α : Type} (a : α) : InBounds (pure a : Check α) := by
  simp [InBounds, Pure.pure]

theorem accepts_require {cond : Bool} {message : String} {u : Unit} :
    Accepts (require cond message) u ↔ cond = true := by
  cases cond <;> simp [Accepts, require]

theorem inBounds_require (cond : Bool) (message : String) : InBounds (require cond message) := by
  cases cond <;> simp [InBounds, require]

theorem accepts_load {α : Type} {x : Option α} {a : α} : Accepts (load x) a ↔ x = some a := by
  cases x <;> simp [Accepts, load]

theorem inBounds_load {α : Type} {x : Option α} {a : α} (h : x = some a) : InBounds (load x) := by
  simp [InBounds, load, h]

end Check

open Check

/-- The loop `for (i = start; i < start + count; ++i)` threading a state. -/
def forRange {σ : Type} (body : Nat → σ → Check σ) : Nat → Nat → σ → Check σ
  | _, 0, s => pure s
  | i, count + 1, s => do
      let s' ← body i s
      forRange body (i + 1) count s'

/-- An accepted loop preserved any invariant each accepted iteration preserves. -/
theorem forRange_invariant {σ : Type} {body : Nat → σ → Check σ} (I : Nat → σ → Prop)
    {start count : Nat} {s s' : σ}
    (hstep : ∀ i t t', start ≤ i → i < start + count → I i t → Accepts (body i t) t' →
      I (i + 1) t')
    (hinit : I start s) (h : Accepts (forRange body start count s) s') :
    I (start + count) s' := by
  induction count generalizing start s with
  | zero =>
      have hs : s = s' := accepts_pure.mp h
      simpa [← hs] using hinit
  | succ count ih =>
      obtain ⟨t, hbody, hrest⟩ := accepts_bind.mp h
      have hI : I (start + 1) t := hstep start s t (Nat.le_refl _) (by omega) hinit hbody
      have hgoal := ih (fun i t t' hle hlt => hstep i t t' (by omega) (by omega)) hI hrest
      have hadd : start + 1 + count = start + (count + 1) := by omega
      rwa [hadd] at hgoal

/-- A loop each of whose iterations accepts under the invariant accepts as a whole. -/
theorem forRange_accepts_of {σ : Type} {body : Nat → σ → Check σ} (I : Nat → σ → Prop)
    {start count : Nat} {s : σ}
    (hstep : ∀ i t, start ≤ i → i < start + count → I i t →
      ∃ t', Accepts (body i t) t' ∧ I (i + 1) t')
    (hinit : I start s) :
    ∃ s', Accepts (forRange body start count s) s' ∧ I (start + count) s' := by
  induction count generalizing start s with
  | zero => exact ⟨s, accepts_pure.mpr rfl, by simpa using hinit⟩
  | succ count ih =>
      obtain ⟨t, hbody, hI⟩ := hstep start s (Nat.le_refl _) (by omega) hinit
      obtain ⟨s', hrest, hfinal⟩ :=
        ih (fun i t hle hlt => hstep i t (by omega) (by omega)) hI
      have hadd : start + 1 + count = start + (count + 1) := by omega
      rw [hadd] at hfinal
      exact ⟨s', accepts_bind.mpr ⟨t, hbody, hrest⟩, hfinal⟩

/-- A loop whose iterations stay inside the buffer stays inside the buffer. -/
theorem forRange_inBounds {σ : Type} {body : Nat → σ → Check σ} {start count : Nat}
    (hstep : ∀ i t, start ≤ i → i < start + count → InBounds (body i t)) (s : σ) :
    InBounds (forRange body start count s) := by
  induction count generalizing start s with
  | zero => exact inBounds_pure s
  | succ count ih =>
      refine inBounds_bind (hstep start s (Nat.le_refl _) (by omega)) (fun t _ => ?_)
      exact ih (fun i t hle hlt => hstep i t (by omega) (by omega)) t

/-- A stateless loop accepts exactly when every iteration does. -/
theorem forRange_unit_accepts {body : Nat → Unit → Check Unit} {count : Nat} :
    Accepts (forRange body 0 count ()) () ↔ ∀ i < count, Accepts (body i ()) () := by
  constructor
  · intro h
    have hinv := forRange_invariant (fun n _ => ∀ i < n, Accepts (body i ()) ())
      (fun i _ _ _ _ hprev hbody j hj => by
        rcases Nat.lt_succ_iff_lt_or_eq.mp hj with hlt | rfl
        · exact hprev j hlt
        · exact hbody)
      (fun i hi => absurd hi (Nat.not_lt_zero i)) h
    simpa using hinv
  · intro h
    have hstep : ∀ i (t : Unit), 0 ≤ i → i < 0 + count → True →
        ∃ t', Accepts (body i t) t' ∧ True :=
      fun i _ _ hlt _ => ⟨(), h i (by omega), trivial⟩
    obtain ⟨_, hacc, _⟩ := forRange_accepts_of (fun _ _ => True) hstep trivial
    exact hacc

end HermesNode
