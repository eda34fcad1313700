/-
Module: HermesNode.Lib.Traversal
Purpose: Trees given by the children of each node, and the traversal of one with an explicit stack. A
  step takes the last node put on the stack, notes its children and puts those that branch on the
  stack. The list it notes is the one a recursive visit gives. It has every node below the root once,
  and each node before all that is below it.
Trusted boundary: none
Main exports: Forest, Forest.run, Forest.below_behind, Forest.above_not_behind
-/
import Mathlib.Data.List.Nodup
import Mathlib.Data.List.Basic

namespace HermesNode

/-- Trees of nodes. A node has one parent at most, and a rank above those of its children. -/
structure Forest (α : Type) where
  kids : α → List α
  branches : α → Bool
  rank : α → Nat
  leaf : ∀ {a}, branches a = false → kids a = []
  rank_lt : ∀ {a b}, b ∈ kids a → rank b < rank a
  nodup : ∀ a, (kids a).Nodup
  one_parent : ∀ {a b x}, x ∈ kids a → x ∈ kids b → a = b

namespace Forest

variable {α : Type} (t : Forest α)

/-- The children that are put on the stack, the last one on top. -/
def pushed (a : α) : List α := ((t.kids a).filter t.branches).reverse

/-- The traversal of what the stack holds; the top of the stack is the head of the list. -/
def run : Nat → List α → List α → Option (List α)
  | _, [], found => some found
  | 0, _ :: _, _ => none
  | fuel + 1, a :: stack, found => run fuel (t.pushed a ++ stack) (found ++ t.kids a)

theorem mem_pushed {t : Forest α} {a b : α} : b ∈ t.pushed a ↔ b ∈ t.kids a ∧ t.branches b = true := by
  simp [pushed]

/-- What a traversal notes below a node. -/
def visit (a : α) : List α :=
  t.kids a ++ (t.pushed a).attach.flatMap fun b => visit b.1
termination_by t.rank a
decreasing_by exact t.rank_lt (mem_pushed.mp b.2).1

variable {t}

theorem visit_eq (a : α) : t.visit a = t.kids a ++ (t.pushed a).flatMap t.visit := by
  rw [visit, List.flatMap_subtype (g := t.visit) fun _ _ => rfl, List.unattach_attach]

/-! ### The traversal ends -/

/-- With enough steps a node is taken from the stack and everything below it is noted. -/
theorem run_node (a : α) : ∃ steps, ∀ fuel stack found,
    t.run (steps + fuel) (a :: stack) found = t.run fuel stack (found ++ t.visit a) := by
  induction hrank : t.rank a using Nat.strongRecOn generalizing a with
  | ind n ih =>
      have hstack : ∀ nodes : List α, (∀ b ∈ nodes, t.rank b < n) → ∃ steps, ∀ fuel stack found,
          t.run (steps + fuel) (nodes ++ stack) found =
            t.run fuel stack (found ++ nodes.flatMap t.visit) := by
        intro nodes hnodes
        induction nodes with
        | nil => exact ⟨0, fun fuel stack found => by simp⟩
        | cons b nodes ihnodes =>
            obtain ⟨first, hfirst⟩ := ih (t.rank b) (hnodes b List.mem_cons_self) b rfl
            obtain ⟨more, hmore⟩ := ihnodes fun c hc => hnodes c (List.mem_cons_of_mem b hc)
            refine ⟨first + more, fun fuel stack found => ?_⟩
            rw [Nat.add_assoc, List.cons_append, hfirst, hmore, List.flatMap_cons,
              List.append_assoc]
      obtain ⟨steps, hsteps⟩ := hstack (t.pushed a) fun b hb =>
        hrank ▸ t.rank_lt (mem_pushed.mp hb).1
      refine ⟨steps + 1, fun fuel stack found => ?_⟩
      rw [Nat.add_right_comm, run, hsteps, visit_eq, List.append_assoc]

/-- The traversal ends, and has noted what a recursive visit gives. -/
theorem run_visit (a : α) : ∃ fuel, t.run fuel [a] [] = some (t.visit a) := by
  obtain ⟨steps, hsteps⟩ := run_node (t := t) a
  exact ⟨steps + 0, by rw [hsteps, run, List.nil_append]⟩

/-! ### What is noted -/

/-- A node lies below another one. -/
inductive Under (t : Forest α) (a : α) : α → Prop where
  | kid {b : α} (hkid : b ∈ t.kids a) : Under t a b
  | deeper {b c : α} (hunder : Under t a b) (hkid : c ∈ t.kids b) : Under t a c

variable {a b x : α}

theorem Under.rank_lt (h : t.Under a x) : t.rank x < t.rank a := by
  induction h with
  | kid hkid => exact t.rank_lt hkid
  | deeper hunder hkid ih => exact Nat.lt_trans (t.rank_lt hkid) ih

theorem Under.of_kid (hkid : b ∈ t.kids a) (h : t.Under b x) : t.Under a x := by
  induction h with
  | kid hb => exact .deeper (.kid hkid) hb
  | deeper hunder hb ih => exact .deeper ih hb

/-- What lies below a node is a child of it, or lies below one. -/
theorem Under.cases_head (h : t.Under a x) : x ∈ t.kids a ∨ ∃ b ∈ t.kids a, t.Under b x := by
  induction h with
  | kid hkid => exact Or.inl hkid
  | deeper hunder hkid ih =>
      obtain hb | ⟨c, hc, hdeeper⟩ := ih
      · exact Or.inr ⟨_, hb, .kid hkid⟩
      · exact Or.inr ⟨c, hc, .deeper hdeeper hkid⟩

/-- What lies below a node has its parent there, or is a child of the node. -/
theorem Under.parent (h : t.Under a x) (hx : x ∈ t.kids b) : b = a ∨ t.Under a b := by
  cases h with
  | kid hkid => exact Or.inl (t.one_parent hx hkid)
  | deeper hunder hkid => exact Or.inr (t.one_parent hx hkid ▸ hunder)

theorem branches_of_kid (h : x ∈ t.kids a) : t.branches a = true := by
  by_contra hleaf
  rw [t.leaf (Bool.eq_false_iff.mpr hleaf)] at h
  cases h

theorem Under.branches (h : t.Under a x) : t.branches a = true := by
  obtain hkid | ⟨b, hkid, -⟩ := h.cases_head
  · exact branches_of_kid hkid
  · exact branches_of_kid hkid

theorem mem_visit : x ∈ t.visit a ↔ t.Under a x := by
  induction hrank : t.rank a using Nat.strongRecOn generalizing a with
  | ind n ih =>
      rw [visit_eq, List.mem_append, List.mem_flatMap]
      constructor
      · rintro (hkid | ⟨b, hb, hx⟩)
        · exact .kid hkid
        · have hkid := (mem_pushed.mp hb).1
          exact Under.of_kid hkid ((ih _ (hrank ▸ t.rank_lt hkid) rfl).mp hx)
      · intro hunder
        obtain hkid | ⟨b, hkid, hbelow⟩ := hunder.cases_head
        · exact Or.inl hkid
        · exact Or.inr ⟨b, mem_pushed.mpr ⟨hkid, hbelow.branches⟩,
            (ih _ (hrank ▸ t.rank_lt hkid) rfl).mpr hbelow⟩

/-- A child of a node does not lie below one of its children. -/
theorem not_under_sibling (hb : b ∈ t.kids a) (hx : x ∈ t.kids a) : ¬ t.Under b x := by
  intro hunder
  obtain rfl | habove := hunder.parent hx
  · exact Nat.lt_irrefl _ (t.rank_lt hb)
  · exact Nat.lt_asymm (t.rank_lt hb) habove.rank_lt

/-- Two nodes above a third one are above each other, or the same. -/
theorem Under.comparable (h : t.Under a x) (h' : t.Under b x) :
    a = b ∨ t.Under a b ∨ t.Under b a := by
  induction h with
  | kid hkid =>
      obtain rfl | habove := h'.parent hkid
      · exact Or.inl rfl
      · exact Or.inr (Or.inr habove)
  | deeper hunder hkid ih =>
      obtain rfl | habove := h'.parent hkid
      · exact Or.inr (Or.inl hunder)
      · exact ih habove

/-- Nothing is noted twice. -/
theorem visit_nodup (a : α) : (t.visit a).Nodup := by
  induction hrank : t.rank a using Nat.strongRecOn generalizing a with
  | ind n ih =>
      rw [visit_eq, List.nodup_append', List.nodup_flatMap]
      refine ⟨t.nodup a, ⟨fun b hb => ih _ (hrank ▸ t.rank_lt (mem_pushed.mp hb).1) b rfl, ?_⟩, ?_⟩
      · have hpushed : (t.pushed a).Nodup := List.nodup_reverse.mpr ((t.nodup a).filter _)
        refine List.Pairwise.imp_of_mem (fun {b c} hb hc hne x hxb hxc => ?_) hpushed
        have hbkid := (mem_pushed.mp hb).1
        have hckid := (mem_pushed.mp hc).1
        obtain heq | habove | habove := (mem_visit.mp hxb).comparable (mem_visit.mp hxc)
        · exact hne heq
        · exact not_under_sibling hbkid hckid habove
        · exact not_under_sibling hckid hbkid habove
      · intro x hx hbelow
        obtain ⟨b, hb, hxb⟩ := List.mem_flatMap.mp hbelow
        exact not_under_sibling (mem_pushed.mp hb).1 hx (mem_visit.mp hxb)

/-! ### The order -/

/-- What lies below a noted node is noted behind it. -/
theorem visit_order (hb : t.Under a b) (hx : t.Under b x) : [b, x].Sublist (t.visit a) := by
  induction hrank : t.rank a using Nat.strongRecOn generalizing a with
  | ind n ih =>
      rw [visit_eq]
      obtain hkid | ⟨c, hkid, hbelow⟩ := hb.cases_head
      · have hpushed : b ∈ t.pushed a := mem_pushed.mpr ⟨hkid, hx.branches⟩
        have hnoted : x ∈ (t.pushed a).flatMap t.visit :=
          List.mem_flatMap.mpr ⟨b, hpushed, mem_visit.mpr hx⟩
        exact (List.singleton_sublist.mpr hkid).append (List.singleton_sublist.mpr hnoted)
      · have hpushed : c ∈ t.pushed a := mem_pushed.mpr ⟨hkid, hbelow.branches⟩
        have hinner := ih _ (hrank ▸ t.rank_lt hkid) hbelow rfl
        have hpart : (t.visit c).Sublist ((t.pushed a).flatMap t.visit) :=
          List.sublist_flatten_of_mem (List.mem_map_of_mem hpushed)
        exact (hinner.trans hpart).trans (List.sublist_append_right _ _)

/-- What a list without repetitions has after an element stands behind it, and what it has before the
element stands before it. -/
theorem behind_of_order {before behind : List α} (hnodup : (before ++ x :: behind).Nodup) :
    (∀ y, [x, y].Sublist (before ++ x :: behind) → y ∈ behind) ∧
      ∀ y, [y, x].Sublist (before ++ x :: behind) → y ∈ before := by
  rw [List.nodup_append', List.nodup_cons] at hnodup
  obtain ⟨-, ⟨hbehind, -⟩, hapart⟩ := hnodup
  have hbefore : x ∉ before := fun hx => hapart hx List.mem_cons_self
  constructor
  · intro y h
    obtain ⟨front, back, hsplit, hfront, hback⟩ := List.sublist_append_iff.mp h
    cases front with
    | nil =>
        rw [List.nil_append] at hsplit
        rw [← hsplit, List.cons_sublist_cons, List.singleton_sublist] at hback
        exact hback
    | cons first front =>
        obtain ⟨rfl, -⟩ := List.cons.inj hsplit
        exact absurd (hfront.subset List.mem_cons_self) hbefore
  · intro y h
    obtain ⟨front, back, hsplit, hfront, hback⟩ := List.sublist_append_iff.mp h
    cases front with
    | nil =>
        rw [List.nil_append] at hsplit
        rw [← hsplit, List.sublist_cons_iff] at hback
        obtain hlater | ⟨rest, hrest, hlater⟩ := hback
        · exact absurd (hlater.subset (by simp)) hbehind
        · obtain ⟨rfl, rfl⟩ := List.cons.inj hrest
          exact absurd (List.singleton_sublist.mp hlater) hbehind
    | cons first front =>
        obtain ⟨rfl, -⟩ := List.cons.inj hsplit
        exact hfront.subset List.mem_cons_self

/-- In the list of what is noted everything below a node stands behind it. -/
theorem below_behind {before behind : List α} (h : t.visit a = before ++ b :: behind)
    (hx : t.Under b x) : x ∈ behind := by
  have hb : t.Under a b := mem_visit.mp (h ▸ List.mem_append_right before List.mem_cons_self)
  exact (behind_of_order (h ▸ visit_nodup a)).1 x (h ▸ visit_order hb hx)

/-- In the list of what is noted nothing above a node stands behind it. -/
theorem above_not_behind {before behind : List α} (h : t.visit a = before ++ b :: behind)
    (hx : t.Under a x) (hb : t.Under x b) : x ∉ behind := by
  have hnodup : (before ++ b :: behind).Nodup := h ▸ visit_nodup a
  have hbefore := (behind_of_order hnodup).2 x (h ▸ visit_order hx hb)
  exact fun hbehind => (List.nodup_append'.mp hnodup).2.2 hbefore (List.mem_cons_of_mem b hbehind)

end Forest

end HermesNode
