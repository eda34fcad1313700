/-
Module: HermesNode.Lib.Lists
Purpose: Lists related element by element: what holds at one place, for one member, or for what is
  computed from both lists; a bind that succeeded and the elements of such a `mapM`; and what every turn
  of a `foldlM` keeps.
Trusted boundary: none
Main exports: forall₂_getElem?, mapM_ok_forall₂, foldlM_some_keeps
-/
import Mathlib.Data.List.Forall2

namespace HermesNode

theorem forall₂_snoc {α β : Type} {R : α → β → Prop} {xs : List α} {ys : List β} {x : α} {y : β}
    (h : List.Forall₂ R xs ys) (hxy : R x y) : List.Forall₂ R (xs ++ [x]) (ys ++ [y]) := by
  induction h with
  | nil => exact List.Forall₂.cons hxy List.Forall₂.nil
  | cons hhead _ ih => exact List.Forall₂.cons hhead ih

theorem forall₂_zipWith {α β γ : Type} {R : α → β → Prop} {S : α → γ → Prop} {g : α → β → γ}
    {xs : List α} {ys : List β} (h : List.Forall₂ R xs ys) (hg : ∀ x y, R x y → S x (g x y)) :
    List.Forall₂ S xs (List.zipWith g xs ys) := by
  induction h with
  | nil => exact List.Forall₂.nil
  | cons hhead _ ih => exact List.Forall₂.cons (hg _ _ hhead) ih

theorem forall₂_getElem? {α β : Type} {R : α → β → Prop} {xs : List α} {ys : List β}
    (h : List.Forall₂ R xs ys) {i : Nat} {x : α} (hx : xs[i]? = some x) :
    ∃ y, ys[i]? = some y ∧ R x y := by
  induction h generalizing i with
  | nil => simp at hx
  | cons hhead _ ih =>
      cases i with
      | zero =>
          simp only [List.getElem?_cons_zero, Option.some.injEq] at hx
          subst hx
          exact ⟨_, rfl, hhead⟩
      | succ i => exact ih (by simpa using hx)

theorem forall₂_getElem?_lt {α β : Type} {R : α → β → Prop} {xs : List α} {ys : List β}
    (h : List.Forall₂ R xs ys) {i : Nat} (hi : i < ys.length) :
    ∃ x y, xs[i]? = some x ∧ ys[i]? = some y ∧ R x y := by
  rw [← h.length_eq] at hi
  rcases forall₂_getElem? h (List.getElem?_eq_getElem hi) with ⟨y, hy, hxy⟩
  exact ⟨_, y, List.getElem?_eq_getElem hi, hy, hxy⟩

theorem forall₂_mem_left {γ δ : Type} {R : γ → δ → Prop} {xs : List γ} {ys : List δ}
    (h : List.Forall₂ R xs ys) {x : γ} (hx : x ∈ xs) : ∃ y ∈ ys, R x y := by
  induction h with
  | nil => cases hx
  | cons hhead _ ih =>
      rcases List.mem_cons.mp hx with rfl | hrest
      · exact ⟨_, List.mem_cons_self, hhead⟩
      · rcases ih hrest with ⟨y, hy, hxy⟩
        exact ⟨y, List.mem_cons_of_mem _ hy, hxy⟩

theorem forall₂_imp_mem {γ δ : Type} {R S : γ → δ → Prop} {xs : List γ} {ys : List δ}
    (h : List.Forall₂ R xs ys) (himp : ∀ x y, x ∈ xs → R x y → S x y) : List.Forall₂ S xs ys := by
  induction h with
  | nil => exact List.Forall₂.nil
  | cons hhead _ ih =>
      apply List.Forall₂.cons (himp _ _ List.mem_cons_self hhead)
      exact ih fun x y hx => himp x y (List.mem_cons_of_mem _ hx)

theorem forall₂_map_eq {α β γ : Type} {R : α → β → Prop} {xs : List α} {ys : List β} {f : α → γ}
    {g : β → γ} (h : List.Forall₂ R xs ys) (hfg : ∀ x y, R x y → g y = f x) :
    ys.map g = xs.map f := by
  induction h with
  | nil => rfl
  | cons hhead _ ih => rw [List.map_cons, List.map_cons, hfg _ _ hhead, ih]

theorem forall₂_flatMap {α β γ : Type} {R : α → β → Prop} {xs : List α} {ys : List β}
    {f : α → List γ} {g : β → List γ} (h : List.Forall₂ R xs ys)
    (hfg : ∀ x y, x ∈ xs → R x y → g y = f x) : ys.flatMap g = xs.flatMap f := by
  induction h with
  | nil => rfl
  | cons hhead _ ih =>
      rw [List.flatMap_cons, List.flatMap_cons, hfg _ _ List.mem_cons_self hhead,
        ih fun x y hx => hfg x y (List.mem_cons_of_mem _ hx)]

theorem forall₂_filterMap {α β γ δ : Type} {R : α → β → Prop} {xs : List α} {ys : List β}
    {g : β → Option γ} {f : α → δ} {k : γ → δ} (h : List.Forall₂ R xs ys)
    (hg : ∀ x y, x ∈ xs → R x y → ∃ z, g y = some z ∧ k z = f x) :
    (ys.filterMap g).map k = xs.map f := by
  induction h with
  | nil => rfl
  | cons hhead _ ih =>
      rcases hg _ _ List.mem_cons_self hhead with ⟨z, hz, hk⟩
      rw [List.filterMap_cons_some hz, List.map_cons, List.map_cons, hk,
        ih fun x y hx => hg x y (List.mem_cons_of_mem _ hx)]

/-- What succeeded with a bind succeeded on both sides of it. -/
theorem bind_eq_ok {α β ε : Type} {x : Except ε α} {f : α → Except ε β} {y : β} :
    x >>= f = .ok y ↔ ∃ a, x = .ok a ∧ f a = .ok y := by
  cases x with
  | error e => exact iff_of_false (fun h => by cases h) (fun ⟨_, h, _⟩ => by cases h)
  | ok a =>
      refine ⟨fun h => ⟨a, rfl, h⟩, fun ⟨b, hb, h⟩ => ?_⟩
      cases hb
      exact h

theorem mapM_ok_forall₂ {α β ε : Type} {f : α → Except ε β} {xs : List α} {ys : List β}
    (h : xs.mapM f = .ok ys) : List.Forall₂ (fun x y => f x = .ok y) xs ys := by
  induction xs generalizing ys with
  | nil =>
      cases h
      exact List.Forall₂.nil
  | cons x xs ih =>
      rw [List.mapM_cons, bind_eq_ok] at h
      obtain ⟨y, hx, h⟩ := h
      obtain ⟨rest, hxs, h⟩ := bind_eq_ok.mp h
      cases h
      exact List.Forall₂.cons hx (ih hxs)

theorem mapM_ok_mem {α β ε : Type} {f : α → Except ε β} {xs : List α} {ys : List β}
    (h : xs.mapM f = .ok ys) {y : β} (hy : y ∈ ys) : ∃ x ∈ xs, f x = .ok y :=
  forall₂_mem_left (mapM_ok_forall₂ h).flip hy

theorem foldlM_some_keeps {α σ : Type} {P : σ → Prop} {turn : σ → α → Option σ} {xs : List α} {s : σ}
    (hturn : ∀ x ∈ xs, ∀ s, P s → ∃ t, turn s x = some t ∧ P t) (hs : P s) :
    ∃ t, xs.foldlM turn s = some t ∧ P t := by
  induction xs generalizing s with
  | nil => exact ⟨s, rfl, hs⟩
  | cons x xs ih =>
      rcases hturn x List.mem_cons_self s hs with ⟨t, hfirst, ht⟩
      rw [List.foldlM_cons, hfirst]
      exact ih (fun x hx => hturn x (List.mem_cons_of_mem _ hx)) ht

end HermesNode
