/-
Module: HermesNode.Lib.Climb
Purpose: Lexical normalization under a directory. A relative path whose dot-dots never leave the
  directory it is joined to normalizes under every directory alike: `descend` computes the names it
  ends at, or nothing when it leaves, and the absolute result is the directory followed by them.
Trusted boundary: none
Main exports: descend, under, lexicallyNormal_under, descend_of_passed
-/
import HermesNode.Lib.Relative

namespace HermesNode

/-- Walk down a path from a directory. The names below the directory stand topmost first; a dot-dot
at the directory itself leaves it. -/
def descend : List Bytes → List Bytes → Option (List Bytes)
  | kept, [] => some kept
  | kept, seg :: segs =>
      if seg = [] ∨ seg = dot then descend kept segs
      else if seg = dotDot then
        match kept with
        | [] => none
        | _ :: rest => descend rest segs
      else descend (seg :: kept) segs

theorem descend_append (kept xs ys : List Bytes) :
    descend kept (xs ++ ys) = (descend kept xs).bind fun out => descend out ys := by
  induction xs generalizing kept with
  | nil => rfl
  | cons seg xs ih =>
      simp only [List.cons_append, descend]
      split
      · exact ih kept
      · split
        · cases kept with
          | nil => rfl
          | cons top rest => exact ih rest
        · exact ih (seg :: kept)

section

variable {kept segs out rest : List Bytes} {seg top : Bytes}

theorem descend_stay (h : seg = [] ∨ seg = dot) :
    descend kept (seg :: segs) = descend kept segs := if_pos h

theorem descend_push (h : seg ≠ [] ∧ seg ≠ dot ∧ seg ≠ dotDot) :
    descend kept (seg :: segs) = descend (seg :: kept) segs := by
  simp [descend, h]

theorem descend_names (hwalk : SegmentWalk kept segs) (h : descend kept segs = some out) :
    Names out := by
  induction hwalk with
  | finish hkept =>
      cases h
      exact hkept
  | stay hskip _ ih => exact ih ((descend_stay hskip).symm.trans h)
  | leave _ _ => cases h
  | pop _ _ ih => exact ih h
  | push hseg _ ih => exact ih ((descend_push hseg).symm.trans h)

/-- Names are walked down as they are. -/
theorem descend_plain (h : Plain segs) : descend kept segs = some (segs.reverse ++ kept) := by
  induction segs generalizing kept with
  | nil => rfl
  | cons seg segs ih =>
      have hrest : Plain segs := fun s hs => h s (List.mem_cons_of_mem _ hs)
      rw [descend_push (h seg (by simp)), ih hrest]
      simp

/-- Normalizing does what the walk does, whatever stands above the directory. -/
theorem foldl_normalStep_descend (above : List Bytes) (hwalk : SegmentWalk kept segs)
    (h : descend kept segs = some out) :
    segs.foldl (normalStep true) (kept ++ above) = out ++ above := by
  induction hwalk with
  | finish _ =>
      cases h
      rfl
  | stay hskip _ ih =>
      rw [List.foldl_cons, normalStep_stay hskip]
      exact ih ((descend_stay hskip).symm.trans h)
  | leave _ _ => cases h
  | pop htop _ ih =>
      rw [List.foldl_cons, List.cons_append, normalStep_pop htop]
      exact ih h
  | push hseg _ ih =>
      rw [List.foldl_cons, normalStep_push hseg]
      exact ih ((descend_push hseg).symm.trans h)

/-- A walk that leaves the directory does not find back to it without naming it. -/
theorem foldl_normalStep_left {home : Bytes} (hwalk : SegmentWalk kept segs)
    (hhome : home ≠ dotDot) (hfresh : home ∉ segs) (h : descend kept segs = none) :
    home ∉ segs.foldl (normalStep true) (kept ++ [home]) := by
  induction hwalk with
  | finish _ => cases h
  | stay hskip _ ih =>
      rw [List.foldl_cons, normalStep_stay hskip]
      exact ih (List.not_mem_of_not_mem_cons hfresh) ((descend_stay hskip).symm.trans h)
  | leave _ _ =>
      rw [List.foldl_cons, List.nil_append, normalStep_pop hhome]
      intro hin
      rcases foldl_normalStep_mem hin with hseg | hnil | hsame
      · exact List.not_mem_of_not_mem_cons hfresh hseg
      · cases hnil
      · exact hhome hsame
  | pop htop _ ih =>
      rw [List.foldl_cons, List.cons_append, normalStep_pop htop]
      exact ih (List.not_mem_of_not_mem_cons hfresh) h
  | push hseg _ ih =>
      rw [List.foldl_cons, normalStep_push hseg]
      exact ih (List.not_mem_of_not_mem_cons hfresh) ((descend_push hseg).symm.trans h)

end

/-! ### Paths under a directory -/

/-- The relative path behind a directory given by its names. -/
def under (r : List Bytes) (rel : Bytes) : Bytes := absPath r ++ slash :: rel

/-- Where a relative path ends under a directory, in normal form. -/
def normalUnder (rel : Bytes) : Option Bytes :=
  (descend [] (splitSlash rel)).map fun kept =>
    joinSlash kept.reverse ++ if endsInDirectory rel && !kept.isEmpty then [slash] else []

theorem filename_under (r : List Bytes) (rel : Bytes) : filename (under r rel) = filename rel := by
  rw [filename, under, splitSlash_append, List.getLast?_append_of_ne_nil _ (splitSlash_ne_nil rel)]
  rfl

theorem endsInDirectory_under (r : List Bytes) (rel : Bytes) :
    endsInDirectory (under r rel) = endsInDirectory rel := by
  simp only [endsInDirectory, filename_under]

/-- A name at the end of a path is what the walk ends at. -/
theorem descend_last {kept segs out : List Bytes} {seg : Bytes}
    (hseg : seg ≠ [] ∧ seg ≠ dot ∧ seg ≠ dotDot) (h : descend kept (segs ++ [seg]) = some out) :
    out ≠ [] := by
  rw [descend_append] at h
  obtain ⟨mid, _, hlast⟩ := Option.bind_eq_some_iff.mp h
  simp only [descend, hseg, or_self, if_false] at hlast
  cases hlast
  simp

theorem normalSegments_under {r : List Bytes} (hr : Names r) {rel : Bytes} {kept : List Bytes}
    (h : descend [] (splitSlash rel) = some kept) :
    normalSegments (under r rel) = r ++ kept.reverse := by
  have habs : isAbsolute (under r rel) = true := rfl
  have hroot := normalSegments_absPath hr
  rw [normalSegments, absPath_isAbsolute] at hroot
  have hfold : (splitSlash (absPath r)).foldl (normalStep true) [] = r.reverse :=
    List.reverse_eq_iff.mp hroot
  have hwalk := foldl_normalStep_descend r.reverse (segmentWalk_split rel) h
  rw [normalSegments, habs, under, splitSlash_append, List.foldl_append, hfold]
  rw [List.nil_append] at hwalk
  rw [hwalk, List.reverse_append, List.reverse_reverse]

/-- A relative path that stays below normalizes to the directory and what it is below it. -/
theorem lexicallyNormal_under {r : List Bytes} (hr : Names r) (hne : r ≠ []) {rel out : Bytes}
    (h : normalUnder rel = some out) : lexicallyNormal (under r rel) = under r out := by
  obtain ⟨kept, hkept, rfl⟩ := Option.map_eq_some_iff.mp h
  have habs : isAbsolute (under r rel) = true := rfl
  have hempty : (under r rel).isEmpty = false := rfl
  have hsome : (r ++ kept.reverse).isEmpty = false := by simp [hne]
  simp only [lexicallyNormal, hempty, habs, Bool.false_eq_true, if_false, if_true,
    normalSegments_under hr hkept, endsInDirectory_under, hsome, Bool.not_false, Bool.and_true]
  by_cases hk : kept = []
  · subst hk
    -- at the directory itself the path ends in a separator, a dot or a dot-dot
    have hdir : endsInDirectory rel = true := by
      rcases List.eq_nil_or_concat' (splitSlash rel) with hnil | ⟨front, last, hsplit⟩
      · exact absurd hnil (splitSlash_ne_nil rel)
      · have hname : filename rel = last := by
          rw [filename, hsplit, List.getLast?_concat]
          rfl
        by_contra hnot
        have hplain : last ≠ [] ∧ last ≠ dot ∧ last ≠ dotDot := by
          simpa [endsInDirectory, hname, and_assoc] using hnot
        rw [hsplit] at hkept
        exact descend_last hplain hkept rfl
    simp [hdir, under, absPath, joinSlash]
  · have hrev : kept.reverse ≠ [] := by simpa using hk
    have hsome' : kept.isEmpty = false := by simpa using hk
    rw [joinSlash_append hne hrev, hsome']
    cases endsInDirectory rel with
    | true => simp [under, absPath]
    | false => simp [under, absPath]

/-- What is in normal form stays as it is. -/
theorem descend_normalUnder {rel out : Bytes} {kept : List Bytes}
    (hkept : descend [] (splitSlash rel) = some kept) (h : normalUnder rel = some out) :
    descend [] (splitSlash out) = some kept := by
  rw [normalUnder, hkept, Option.map_some] at h
  cases h
  have hnames : Names kept.reverse :=
    (descend_names (segmentWalk_split rel) hkept).reverse
  by_cases hk : kept = []
  · subst hk
    simp [joinSlash, splitSlash, descend]
  · have hrev : kept.reverse ≠ [] := by simpa using hk
    have hsome : kept.isEmpty = false := by simpa using hk
    have hplain : descend [] kept.reverse = some kept := by
      rw [descend_plain hnames.plain]
      simp
    rw [hsome]
    cases endsInDirectory rel with
    | false => simp [splitSlash_joinSlash hrev hnames.free, hplain]
    | true =>
        simp only [Bool.not_false, Bool.and_self, if_true]
        rw [splitSlash_append, splitSlash_joinSlash hrev hnames.free, descend_append, hplain]
        simp [splitSlash, descend]

/-! ### Where a path climbs to -/

/-- The directories the dot-dots of a path lead to, in turn. The names walked so far stand topmost
first; the directories are given root first. -/
def passed : List Bytes → List Bytes → List (List Bytes)
  | _, [] => []
  | kept, seg :: segs =>
      let next := normalStep true kept seg
      if seg = dotDot then next.reverse :: passed next segs else passed next segs

/-- A path that is never led to the parent of a directory stays below the directory. -/
theorem descend_of_passed {dir kept segs : List Bytes} (hdir : Names dir) (hne : dir ≠ [])
    (hwalk : SegmentWalk kept segs) (h : dir.dropLast ∉ passed (kept ++ dir.reverse) segs) :
    ∃ out, descend kept segs = some out := by
  induction hwalk with
  | @finish kept _ => exact ⟨kept, rfl⟩
  | @stay kept segs seg hskip _ ih =>
      have hdd : seg ≠ dotDot := by
        intro hdd
        rw [hdd] at hskip
        exact absurd hskip (by decide)
      rw [passed, if_neg hdd, normalStep_stay hskip] at h
      rw [descend_stay hskip]
      exact ih h
  | leave _ _ =>
      -- the parent of the directory is passed
      obtain ⟨front, last, rfl⟩ := (List.eq_nil_or_concat' dir).resolve_left hne
      have hlast : last ≠ dotDot := (hdir.plain last (by simp)).2.2
      rw [passed, if_pos rfl, List.nil_append, List.reverse_append, List.reverse_singleton,
        List.singleton_append, normalStep_pop hlast] at h
      exact absurd (by simp) h
  | pop htop _ ih =>
      rw [passed, if_pos rfl, List.cons_append, normalStep_pop htop] at h
      exact ih (List.not_mem_of_not_mem_cons h)
  | push hseg _ ih =>
      rw [passed, if_neg hseg.2.2, normalStep_push hseg] at h
      rw [descend_push hseg]
      exact ih h

end HermesNode
