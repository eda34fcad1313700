/-
Module: HermesNode.Lib.Path
Purpose: `std::filesystem::path` on a POSIX system, over byte strings: `operator/`, `filename`,
  `parent_path` and `lexically_normal`; and `path.posix.join` of Node, which normalizes with the same
  segment rules but keeps a trailing separator only where one was written. Nothing here looks at a
  filesystem. Only the operations that a lexical resolver needs are defined.
Trusted boundary: human-reviewed spec (the C++ standard's lexical path operations; `libjs-node/path.js`)
Main exports: pathAppend, filename, posixJoin_injective
-/
import HermesNode.Lib.Segments

namespace HermesNode

/-- `is_absolute()`. -/
def isAbsolute (p : Bytes) : Bool := p.head? == some slash

def endsInSlash (p : Bytes) : Bool := p.getLast? == some slash

/-- `base / rel`: an absolute right operand replaces the left one, and a separator is added after
a left operand that has a filename. -/
def pathAppend (base rel : Bytes) : Bytes :=
  if isAbsolute rel then rel
  else if base.isEmpty || endsInSlash base then base ++ rel
  else base ++ slash :: rel

/-- `filename()`: what follows the last separator. -/
def filename (p : Bytes) : Bytes := (splitSlash p).getLast?.getD []

/-- `parent_path()`: the path without its filename and the separators before it. A path that is
only a root is its own parent. -/
def parentPath (p : Bytes) : Bytes :=
  if p.all (· == slash) then p
  else
    let front := ((p.reverse.dropWhile (· != slash)).dropWhile (· == slash)).reverse
    if front.isEmpty && isAbsolute p then [slash] else front

def dot : Bytes := ascii "."

def dotDot : Bytes := ascii ".."

/-- One segment of a path being normalized; the segments kept so far stand topmost first. -/
def normalStep (absolute : Bool) (kept : List Bytes) (seg : Bytes) : List Bytes :=
  if seg = [] ∨ seg = dot then kept
  else if seg = dotDot then
    match kept with
    | [] => if absolute then [] else [dotDot]
    | top :: rest => if top = dotDot then dotDot :: kept else rest
  else seg :: kept

/-- The segments `lexically_normal` keeps, in order. -/
def normalSegments (p : Bytes) : List Bytes :=
  ((splitSlash p).foldl (normalStep (isAbsolute p)) []).reverse

/-- The path ends in a separator, or in a dot or dot-dot that leaves one behind. -/
def endsInDirectory (p : Bytes) : Bool :=
  filename p == [] || filename p == dot || filename p == dotDot

/-- `lexically_normal()`. -/
def lexicallyNormal (p : Bytes) : Bytes :=
  if p.isEmpty then []
  else
    let kept := normalSegments p
    let body := joinSlash kept
    if isAbsolute p then
      slash :: (if endsInDirectory p && !kept.isEmpty then body ++ [slash] else body)
    else if kept.isEmpty then dot
    else if endsInDirectory p && kept.getLast? != some dotDot then body ++ [slash]
    else body

example : lexicallyNormal (ascii "/a/b/..") = ascii "/a/" := by decide

example : lexicallyNormal (ascii "/a/./b//../../../c") = ascii "/c" := by decide

example : lexicallyNormal (ascii "a/..") = ascii "." := by decide

/-- `p` is `d` followed by a non-empty relative path: a descendant of the directory `d`. -/
def Below (d p : Bytes) : Prop :=
  ∃ rest, rest ≠ [] ∧ isAbsolute rest = false ∧ p = pathAppend d rest

theorem below_append {d rest : Bytes} (hne : rest ≠ []) (hrel : isAbsolute rest = false) :
    Below d (pathAppend d rest) :=
  ⟨rest, hne, hrel, rfl⟩

/-- A relative right operand goes behind the left one and its separator. -/
theorem pathAppend_relative (d : Bytes) {rest : Bytes} (hrel : isAbsolute rest = false) :
    pathAppend d rest = pathAppend d [] ++ rest := by
  have hempty : isAbsolute [] = false := rfl
  simp only [pathAppend, hrel, hempty, Bool.false_eq_true, if_false]
  split
  · simp
  · simp

/-- `Below`, computed. -/
def belowB (d p : Bytes) : Bool :=
  (pathAppend d []).isPrefixOf p &&
    (!(p.drop (pathAppend d []).length).isEmpty && !isAbsolute (p.drop (pathAppend d []).length))

theorem belowB_iff {d p : Bytes} : belowB d p = true ↔ Below d p := by
  simp only [belowB, Bool.and_eq_true, Bool.not_eq_true', List.isPrefixOf_iff_prefix,
    List.isEmpty_eq_false_iff]
  constructor
  · intro h
    rcases h with ⟨⟨rest, rfl⟩, hne, hrel⟩
    rw [List.drop_left] at hne hrel
    exact ⟨rest, hne, hrel, (pathAppend_relative d hrel).symm⟩
  · intro h
    rcases h with ⟨rest, hne, hrel, rfl⟩
    rw [pathAppend_relative d hrel, List.drop_left]
    exact ⟨⟨rest, rfl⟩, hne, hrel⟩

/-- Dropping the filename and then the separators before it drops something. -/
theorem dropFilename_length {xs : Bytes} (hne : xs ≠ []) :
    ((xs.dropWhile (· != slash)).dropWhile (· == slash)).length < xs.length := by
  cases xs with
  | nil => exact absurd rfl hne
  | cons c cs =>
      have hshort : ∀ ys : Bytes, ys.length ≤ cs.length →
          (ys.dropWhile (· == slash)).length < (c :: cs).length := by
        intro ys hys
        have hdrop := (List.dropWhile_sublist (l := ys) (· == slash)).length_le
        simp only [List.length_cons]
        omega
      by_cases hc : c = slash
      · subst hc
        have hkeep : (slash :: cs).dropWhile (· != slash) = slash :: cs := by
          simp
        have hnext : (slash :: cs).dropWhile (· == slash) = cs.dropWhile (· == slash) := by
          simp
        rw [hkeep, hnext]
        exact hshort cs (Nat.le_refl _)
      · have hdropped : (c :: cs).dropWhile (· != slash) = cs.dropWhile (· != slash) := by
          simp [hc]
        rw [hdropped]
        exact hshort _ (List.dropWhile_sublist _).length_le

/-- Climbing to the parent either stays or shortens the path. -/
theorem parentPath_length {p : Bytes} (h : parentPath p ≠ p) :
    (parentPath p).length < p.length := by
  unfold parentPath at h ⊢
  split at h
  · exact absurd rfl h
  · rename_i hroot
    rw [if_neg hroot]
    have hne : p ≠ [] := by
      rintro rfl
      exact hroot rfl
    have hstrict := dropFilename_length (List.reverse_ne_nil_iff.mpr hne)
    rw [List.length_reverse] at hstrict
    dsimp only
    split
    · rename_i hfront
      -- an absolute path that is not a root has a byte after its leading slash
      cases p with
      | nil => exact absurd rfl hne
      | cons c cs =>
          cases cs with
          | nil =>
              have hc : c = slash := by simpa [isAbsolute] using (Bool.and_eq_true_iff.mp hfront).2
              subst hc
              exact absurd rfl hroot
          | cons d ds => simp
    · simpa using hstrict

/-! ### Node's `path.posix` -/

/-- `path.posix.normalize`. -/
def posixNormalize (p : Bytes) : Bytes :=
  if p.isEmpty then dot
  else
    let body := joinSlash (normalSegments p)
    if body.isEmpty then
      if isAbsolute p then [slash] else if endsInSlash p then dot ++ [slash] else dot
    else
      let body := if endsInSlash p then body ++ [slash] else body
      if isAbsolute p then slash :: body else body

/-- `path.posix.join` of two arguments. -/
def posixJoin (a b : Bytes) : Bytes :=
  let parts := [a, b].filter (!·.isEmpty)
  if parts.isEmpty then dot else posixNormalize (joinSlash parts)

/-- Segments that normalizing leaves alone. -/
def Plain (segs : List Bytes) : Prop := ∀ seg ∈ segs, seg ≠ [] ∧ seg ≠ dot ∧ seg ≠ dotDot

theorem normalStep_stay {absolute : Bool} {kept : List Bytes} {seg : Bytes}
    (h : seg = [] ∨ seg = dot) : normalStep absolute kept seg = kept := if_pos h

theorem normalStep_push {absolute : Bool} {kept : List Bytes} {seg : Bytes}
    (h : seg ≠ [] ∧ seg ≠ dot ∧ seg ≠ dotDot) : normalStep absolute kept seg = seg :: kept := by
  simp [normalStep, h]

theorem normalStep_pop {absolute : Bool} {rest : List Bytes} {top : Bytes} (h : top ≠ dotDot) :
    normalStep absolute (top :: rest) dotDot = rest := by
  simp [normalStep, h, show dotDot ≠ [] ∧ dotDot ≠ dot by decide]

theorem foldl_normalStep_plain {absolute : Bool} {segs : List Bytes} (h : Plain segs)
    (kept : List Bytes) : segs.foldl (normalStep absolute) kept = segs.reverse ++ kept := by
  induction segs generalizing kept with
  | nil => rfl
  | cons seg segs ih =>
      have hrest : Plain segs := fun s hs => h s (List.mem_cons_of_mem _ hs)
      rw [List.foldl_cons, normalStep_push (h seg (by simp)), ih hrest]
      simp

theorem foldl_normalStep_mem {absolute : Bool} {segs kept : List Bytes} {seg : Bytes}
    (h : seg ∈ segs.foldl (normalStep absolute) kept) :
    seg ∈ segs ∨ seg ∈ kept ∨ seg = dotDot := by
  induction segs generalizing kept with
  | nil => exact Or.inr (Or.inl h)
  | cons s segs ih =>
      rcases ih h with hin | hkept | hdd
      · exact Or.inl (List.mem_cons_of_mem _ hin)
      · unfold normalStep at hkept
        split at hkept
        · exact Or.inr (Or.inl hkept)
        · split at hkept
          · split at hkept
            · split at hkept
              · cases hkept
              · exact Or.inr (Or.inr (List.mem_singleton.mp hkept))
            · split at hkept
              · rcases List.mem_cons.mp hkept with heq | hin
                · exact Or.inr (Or.inr heq)
                · exact Or.inr (Or.inl hin)
              · exact Or.inr (Or.inl (List.mem_cons_of_mem _ hkept))
          · rcases List.mem_cons.mp hkept with heq | hin
            · exact Or.inl (heq ▸ List.mem_cons_self)
            · exact Or.inr (Or.inl hin)
      · exact Or.inr (Or.inr hdd)

theorem slash_not_mem_normalSegments {p seg : Bytes} (h : seg ∈ normalSegments p) :
    slash ∉ seg := by
  rcases foldl_normalStep_mem (List.mem_reverse.mp h) with hin | hnil | hdd
  · exact slash_not_mem_of_mem_splitSlash hin
  · cases hnil
  · rw [hdd]
    decide

theorem plain_ne_nil {p : Bytes} (h : Plain (splitSlash p)) : p ≠ [] := by
  rintro rfl
  exact (h [] (by simp [splitSlash])).1 rfl

theorem plain_not_absolute {p : Bytes} (h : Plain (splitSlash p)) : isAbsolute p = false := by
  cases p with
  | nil => rfl
  | cons c cs =>
      by_cases hc : c = slash
      · exact absurd rfl (h [] (by simp [splitSlash, hc])).1
      · simp [isAbsolute, hc]

theorem plain_not_endsInSlash {p : Bytes} (h : Plain (splitSlash p)) : endsInSlash p = false := by
  by_contra hslash
  have hlast : p.getLast? = some slash := by simpa [endsInSlash] using hslash
  rcases List.getLast?_eq_some_iff.mp hlast with ⟨front, rfl⟩
  rw [splitSlash_append] at h
  exact (h [] (by simp [splitSlash])).1 rfl

/-- Joining a plain relative path appends its segments to the normalized left operand. -/
theorem normalSegments_join {root id : Bytes} (h : Plain (splitSlash id)) (hroot : root ≠ []) :
    normalSegments (root ++ slash :: id) = normalSegments root ++ splitSlash id := by
  have habs : isAbsolute (root ++ slash :: id) = isAbsolute root := by
    cases root with
    | nil => exact absurd rfl hroot
    | cons c cs => rfl
  rw [normalSegments, habs, splitSlash_append, List.foldl_append, foldl_normalStep_plain h]
  simp [normalSegments]

theorem joinSlash_inj {xs ys : List Bytes} (hx : xs ≠ []) (hy : ys ≠ [])
    (hxs : ∀ seg ∈ xs, slash ∉ seg) (hys : ∀ seg ∈ ys, slash ∉ seg)
    (h : joinSlash xs = joinSlash ys) : xs = ys := by
  rw [← splitSlash_joinSlash hx hxs, h, splitSlash_joinSlash hy hys]

/-- The segments `posixJoin root id` is made of, and whether it starts with a separator. -/
theorem posixJoin_plain {root id : Bytes} (h : Plain (splitSlash id)) :
    ∃ front : List Bytes, (∀ seg ∈ front, slash ∉ seg) ∧ front = normalSegments root ∧
      posixJoin root id =
        (if isAbsolute root then [slash] else []) ++ joinSlash (front ++ splitSlash id) := by
  refine ⟨normalSegments root, fun seg hseg => slash_not_mem_normalSegments hseg, rfl, ?_⟩
  have hne := plain_ne_nil h
  have hbody : joinSlash (normalSegments root ++ splitSlash id) ≠ [] := by
    intro hempty
    have hsplit := @splitSlash_joinSlash (normalSegments root ++ splitSlash id)
      (by simp [splitSlash_ne_nil]) ?_
    · rw [hempty] at hsplit
      have hmem : ∀ seg ∈ splitSlash id, seg = [] := by
        intro seg hseg
        have hin : seg ∈ splitSlash [] := by
          rw [hsplit]
          exact List.mem_append_right _ hseg
        simpa [splitSlash] using hin
      rcases List.exists_mem_of_ne_nil _ (splitSlash_ne_nil id) with ⟨seg, hseg⟩
      exact (h seg hseg).1 (hmem seg hseg)
    · intro seg hseg
      rcases List.mem_append.mp hseg with hfront | hid
      · exact slash_not_mem_normalSegments hfront
      · exact slash_not_mem_of_mem_splitSlash hid
  by_cases hroot : root = []
  · subst hroot
    have hsegs : normalSegments id = splitSlash id := by
      rw [normalSegments, foldl_normalStep_plain h]
      simp
    have hfront : normalSegments [] = [] := rfl
    have hrel : isAbsolute [] = false := rfl
    rw [hfront, List.nil_append] at hbody ⊢
    simp [posixJoin, posixNormalize, joinSlash, hne, hsegs, hbody, plain_not_absolute h,
      plain_not_endsInSlash h, hrel]
  · have hjoin : joinSlash [root, id] = root ++ slash :: id := rfl
    have habs : isAbsolute (root ++ slash :: id) = isAbsolute root := by
      cases root with
      | nil => exact absurd rfl hroot
      | cons c cs => rfl
    have htrail : endsInSlash (root ++ slash :: id) = false := by
      have hid := plain_not_endsInSlash h
      unfold endsInSlash at hid ⊢
      rw [List.getLast?_append, List.getLast?_cons]
      cases hlast : id.getLast? with
      | none => exact absurd (List.getLast?_eq_none_iff.mp hlast) hne
      | some c => simpa [hlast] using hid
    have hparts : [root, id].filter (!·.isEmpty) = [root, id] := by
      simp [hroot, hne]
    simp only [posixJoin, hparts, hjoin, posixNormalize, normalSegments_join h hroot, habs, htrail]
    cases isAbsolute root <;> simp [hbody]

/-- Distinct plain paths stay distinct behind one root. -/
theorem posixJoin_injective {root id id' : Bytes} (h : Plain (splitSlash id))
    (h' : Plain (splitSlash id')) (heq : posixJoin root id = posixJoin root id') : id = id' := by
  rcases @posixJoin_plain root _ h with ⟨front, hfree, hfront, hid⟩
  rcases @posixJoin_plain root _ h' with ⟨front', hfree', hfront', hid'⟩
  rw [← hfront] at hfront'
  subst hfront'
  rw [hid, hid', List.append_right_inj] at heq
  have hall : ∀ {p : Bytes} {seg : Bytes}, seg ∈ front' ++ splitSlash p → slash ∉ seg := by
    intro p seg hseg
    rcases List.mem_append.mp hseg with hin | hin
    · exact hfree seg hin
    · exact slash_not_mem_of_mem_splitSlash hin
  have hsegs := joinSlash_inj (by simp [splitSlash_ne_nil]) (by simp [splitSlash_ne_nil])
    (fun _ hs => hall hs) (fun _ hs => hall hs) heq
  rw [List.append_right_inj] at hsegs
  rw [← joinSlash_splitSlash id, hsegs, joinSlash_splitSlash]

end HermesNode
