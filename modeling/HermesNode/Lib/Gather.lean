/-
Module: HermesNode.Lib.Gather
Purpose: Moving values between a memory and a list of addresses, as vectored input and output does it.
  Two lists of addresses move the same values from every memory, or store the same values into every
  memory, exactly when one is a prefix of the other.
Trusted boundary: none
Main exports: gather, scatter, gather_prefix_iff, scatter_prefix_iff
-/
import Mathlib.Data.List.Basic
import Mathlib.Logic.Function.Basic
import Mathlib.Logic.Nontrivial.Basic

namespace HermesNode

section

variable {α β : Type}

/-- What stands at the addresses, in order. -/
def gather (memory : α → β) (addresses : List α) : List β := addresses.map memory

theorem gather_take (memory : α → β) (addresses : List α) (k : Nat) :
    gather memory (addresses.take k) = (gather memory addresses).take k :=
  List.map_take

theorem gather_prefix {addresses addresses' : List α} (h : addresses <+: addresses')
    (memory : α → β) : gather memory addresses <+: gather memory addresses' :=
  h.map memory

/-- Addresses move a prefix of what others move, from every memory, only if they are a prefix. -/
theorem gather_prefix_iff [DecidableEq α] [Nontrivial β] {addresses addresses' : List α} :
    (∀ memory : α → β, gather memory addresses <+: gather memory addresses') ↔
      addresses <+: addresses' := by
  constructor
  · intro h
    induction addresses generalizing addresses' with
    | nil => exact List.nil_prefix
    | cons a as ih =>
        obtain ⟨x, y, hxy⟩ := exists_pair_ne β
        cases addresses' with
        | nil => exact absurd (h fun _ => x) (by simp [gather])
        | cons c cs =>
            -- a memory that tells the two first addresses apart
            have hhead := (List.cons_prefix_cons.mp (h fun i => if i = a then x else y)).1
            have hac : a = c := by
              by_contra hne
              simp only [if_pos, if_neg fun hca : c = a => hne hca.symm] at hhead
              exact hxy hhead
            rw [← hac]
            apply List.cons_prefix_cons.mpr
            refine ⟨rfl, ih ?_⟩
            intro memory
            exact (List.cons_prefix_cons.mp (h memory)).2
  · intro h memory
    exact gather_prefix h memory

variable [DecidableEq α]

/-- Store values at the addresses, in order, as far as there are both. -/
def scatter (memory : α → β) : List α → List β → α → β
  | a :: as, b :: bs => scatter (Function.update memory a b) as bs
  | _, _ => memory

@[simp] theorem scatter_nil (memory : α → β) (addresses : List α) :
    scatter memory addresses [] = memory := by
  cases addresses <;> rfl

/-- Nothing else is changed. -/
theorem scatter_other (memory : α → β) {addresses : List α} (values : List β) {i : α}
    (h : i ∉ addresses) : scatter memory addresses values i = memory i := by
  induction addresses generalizing memory values with
  | nil => rfl
  | cons a as ih =>
      cases values with
      | nil => rfl
      | cons b bs =>
          rw [List.mem_cons, not_or] at h
          rw [scatter, ih _ _ h.2, Function.update_of_ne h.1]

/-- What was stored at addresses without repetition is found there. -/
theorem gather_scatter (memory : α → β) {addresses : List α} (hnodup : addresses.Nodup)
    {values : List β} (hlen : values.length = addresses.length) :
    gather (scatter memory addresses values) addresses = values := by
  induction addresses generalizing memory values with
  | nil => exact (List.length_eq_zero_iff.mp hlen).symm
  | cons a as ih =>
      cases values with
      | nil => cases hlen
      | cons b bs =>
          have hrest := List.nodup_cons.mp hnodup
          have hfirst := scatter_other (Function.update memory a b) bs hrest.1
          rw [Function.update_self] at hfirst
          have htail := ih (Function.update memory a b) hrest.2 (Nat.succ.inj hlen)
          unfold gather at htail ⊢
          rw [scatter, List.map_cons, hfirst, htail]

theorem scatter_prefix {addresses addresses' : List α} (h : addresses <+: addresses')
    (memory : α → β) {values : List β} (hlen : values.length ≤ addresses.length) :
    scatter memory addresses values = scatter memory addresses' values := by
  induction addresses generalizing memory values addresses' with
  | nil =>
      rw [List.length_eq_zero_iff.mp (Nat.le_zero.mp hlen), scatter_nil, scatter_nil]
  | cons a as ih =>
      cases values with
      | nil => rw [scatter_nil, scatter_nil]
      | cons b bs =>
          cases addresses' with
          | nil => exact absurd h (by simp)
          | cons c cs =>
              obtain ⟨hac, hrest⟩ := List.cons_prefix_cons.mp h
              rw [scatter, scatter, ← hac]
              exact ih hrest _ (Nat.le_of_succ_le_succ hlen)

/-- Addresses store like others, into every memory, only if they are a prefix. -/
theorem scatter_prefix_iff [Nontrivial β] {addresses addresses' : List α} :
    (∀ (memory : α → β) (values : List β), values.length ≤ addresses.length →
      values.length ≤ addresses'.length ∧
        scatter memory addresses values = scatter memory addresses' values) ↔
      addresses <+: addresses' := by
  constructor
  · intro h
    induction addresses generalizing addresses' with
    | nil => exact List.nil_prefix
    | cons a as ih =>
        obtain ⟨x, y, hxy⟩ := exists_pair_ne β
        obtain ⟨hlen, hsame⟩ := h (fun _ => x) [y] (by simp)
        cases addresses' with
        | nil => exact absurd hlen (by simp)
        | cons c cs =>
            have hac : a = c := by
              by_contra hne
              have hat := congrFun hsame a
              simp only [scatter, scatter_nil] at hat
              rw [Function.update_self, Function.update_of_ne hne] at hat
              exact hxy hat.symm
            rw [← hac] at h ⊢
            apply List.cons_prefix_cons.mpr
            refine ⟨rfl, ih ?_⟩
            intro memory values hvalues
            -- storing the first address's own value first changes nothing
            have hcons := h memory (memory a :: values) (Nat.succ_le_succ hvalues)
            rw [scatter, scatter, Function.update_eq_self] at hcons
            exact ⟨Nat.le_of_succ_le_succ hcons.1, hcons.2⟩
  · intro h memory values hvalues
    exact ⟨Nat.le_trans hvalues h.length_le, scatter_prefix h memory hvalues⟩

end

end HermesNode
