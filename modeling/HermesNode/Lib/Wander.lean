/-
Module: HermesNode.Lib.Wander
Purpose: Where a relative path goes when it may leave the directory it is joined to: a number of
  directories up and the names it then goes down, the same for every directory. Normalizing the path
  on its own writes the ups as dot-dots, normalizing it behind a directory takes them off the names
  of the directory, and it makes no difference to normalize it on its own first.
Trusted boundary: none
Main exports: wander, landing, foldl_normalStep_absolute, wander_written
-/
import HermesNode.Lib.Relative

namespace HermesNode

/-- Walk a path: the directories it has left, and the names below the last of them, topmost first. -/
def wander : Nat → List Bytes → List Bytes → Nat × List Bytes
  | ups, kept, [] => (ups, kept)
  | ups, kept, seg :: segs =>
      if seg = [] ∨ seg = dot then wander ups kept segs
      else if seg = dotDot then
        match kept with
        | [] => wander (ups + 1) [] segs
        | _ :: rest => wander ups rest segs
      else wander ups (seg :: kept) segs

/-- Up from a directory, then down the names. -/
def landing (home : List Bytes) (ups : Nat) (down : List Bytes) : List Bytes :=
  home.take (home.length - ups) ++ down

example : wander 0 [ascii "a"] [dotDot, dotDot, ascii "b"] = (1, [ascii "b"]) := by decide

theorem wander_append (ups : Nat) (kept xs ys : List Bytes) :
    wander ups kept (xs ++ ys) = wander (wander ups kept xs).1 (wander ups kept xs).2 ys := by
  induction xs generalizing ups kept with
  | nil => rfl
  | cons seg xs ih =>
      simp only [List.cons_append, wander]
      split
      · exact ih ups kept
      · split
        · cases kept with
          | nil => exact ih (ups + 1) []
          | cons top rest => exact ih ups rest
        · exact ih ups (seg :: kept)

section

variable {ups : Nat} {kept segs rest : List Bytes} {seg top : Bytes}

theorem wander_stay (h : seg = [] ∨ seg = dot) :
    wander ups kept (seg :: segs) = wander ups kept segs := if_pos h

theorem wander_push (h : seg ≠ [] ∧ seg ≠ dot ∧ seg ≠ dotDot) :
    wander ups kept (seg :: segs) = wander ups (seg :: kept) segs := by
  simp [wander, h]

theorem wander_pop : wander ups (top :: rest) (dotDot :: segs) = wander ups rest segs := rfl

theorem wander_leave : wander ups [] (dotDot :: segs) = wander (ups + 1) [] segs := rfl

theorem wander_names (hwalk : SegmentWalk kept segs) : Names (wander ups kept segs).2 := by
  induction hwalk generalizing ups with
  | finish hkept => exact hkept
  | stay hskip _ ih => simpa only [wander_stay hskip] using ih
  | leave _ ih => exact ih
  | pop _ _ ih => exact ih
  | push hseg _ ih => simpa only [wander_push hseg] using ih

/-- Names are walked down as they are. -/
theorem wander_plain (h : Plain segs) : wander ups kept segs = (ups, segs.reverse ++ kept) := by
  induction segs generalizing kept with
  | nil => rfl
  | cons seg segs ih =>
      have hrest : Plain segs := fun s hs => h s (List.mem_cons_of_mem _ hs)
      rw [wander_push (h seg (by simp)), ih hrest]
      simp

end

theorem wander_dotDots (ups n : Nat) (segs : List Bytes) :
    wander ups [] (List.replicate n dotDot ++ segs) = wander (ups + n) [] segs := by
  induction n generalizing ups with
  | zero => rfl
  | succ n ih =>
      have hskip : ¬ (dotDot = [] ∨ dotDot = dot) := by decide
      rw [List.replicate_succ, List.cons_append, wander, if_neg hskip, if_pos rfl, ih]
      have hcount : ups + 1 + n = ups + (n + 1) := by omega
      rw [hcount]

theorem wander_written {n : Nat} {names : List Bytes} (h : Plain names) :
    wander 0 [] (List.replicate n dotDot ++ names) = (n, names.reverse) := by
  rw [wander_dotDots, wander_plain h, Nat.zero_add, List.append_nil]

section

variable {ups : Nat} {above kept segs : List Bytes}

/-- Whatever stands under the names kept so far, a path is walked as it wanders, as long as one more
dot-dot takes the bottom to the next. -/
theorem foldl_normalStep_wander {absolute : Bool} {under : Nat → List Bytes}
    (hleave : ∀ ups, normalStep absolute (under ups) dotDot = under (ups + 1))
    (hwalk : SegmentWalk kept segs) :
    segs.foldl (normalStep absolute) (kept ++ under ups) =
      (wander ups kept segs).2 ++ under (wander ups kept segs).1 := by
  induction hwalk generalizing ups with
  | finish _ => rfl
  | stay hskip _ ih =>
      rw [List.foldl_cons, normalStep_stay hskip, wander_stay hskip]
      exact ih
  | leave _ ih =>
      rw [List.foldl_cons, List.nil_append, hleave, wander_leave]
      exact ih
  | pop htop _ ih =>
      rw [List.foldl_cons, List.cons_append, normalStep_pop htop, wander_pop]
      exact ih
  | push hseg _ ih =>
      rw [List.foldl_cons, normalStep_push hseg, wander_push hseg]
      exact ih

theorem foldl_normalStep_relative (hwalk : SegmentWalk kept segs) :
    segs.foldl (normalStep false) (kept ++ List.replicate ups dotDot) =
      (wander ups kept segs).2 ++ List.replicate (wander ups kept segs).1 dotDot := by
  refine @foldl_normalStep_wander _ _ _ _ (fun ups => List.replicate ups dotDot) ?_ hwalk
  -- one more dot-dot stands at the bottom
  intro ups
  cases ups with
  | zero => rfl
  | succ n => rfl

/-- Behind a directory the path takes its ups off the names of the directory, as far as there are
any. -/
theorem foldl_normalStep_absolute (habove : Names above) (hwalk : SegmentWalk kept segs) :
    segs.foldl (normalStep true) (kept ++ above.drop ups) =
      (wander ups kept segs).2 ++ above.drop (wander ups kept segs).1 := by
  refine @foldl_normalStep_wander _ _ _ _ (fun ups => above.drop ups) ?_ hwalk
  intro ups
  rw [← List.tail_drop]
  cases hleft : above.drop ups with
  | nil => rfl
  | cons top rest =>
      have htop : top ≠ dotDot := (habove.plain top
        ((List.drop_sublist ups above).subset (by rw [hleft]; simp))).2.2
      exact normalStep_pop htop

end

theorem landing_names {home down : List Bytes} {ups : Nat} (hhome : Names home)
    (hdown : Names down) : Names (landing home ups down) := by
  have hsplit := List.take_append_drop (home.length - ups) home
  rw [← hsplit] at hhome
  exact hhome.left.append hdown

/-- Walking a path from a directory lands where the path wanders to. -/
theorem foldl_normalStep_landing {home segs : List Bytes} (hhome : Names home)
    (hfree : ∀ seg ∈ segs, slash ∉ seg) :
    (segs.foldl (normalStep true) home.reverse).reverse =
      landing home (wander 0 [] segs).1 (wander 0 [] segs).2.reverse := by
  have hwalk := @foldl_normalStep_absolute 0 home.reverse [] segs hhome.reverse
    (segmentWalk_of names_nil hfree)
  rw [List.drop_zero, List.nil_append] at hwalk
  rw [hwalk, List.reverse_append, landing, List.drop_reverse, List.reverse_reverse]

end HermesNode
