/-
Module: HermesNode.Lib.Relative
Purpose: More of `std::filesystem::path` on a POSIX system: `extension`, `stem` and
  `lexically_relative`, and the longest directory a list of paths has in common. An absolute path in
  normal form is its list of plain segments, with or without a separator behind the last; over these
  the relative path is what is left behind a common front of segments.
Trusted boundary: human-reviewed spec (the C++ standard's lexical path operations)
Main exports: extension, stem, lexicallyRelative_absPath, parentPath_absPath
-/
import HermesNode.Lib.Path
import Mathlib.Data.List.Induction

namespace HermesNode

def dotByte : UInt8 := 46

/-- `extension()`: from the last dot of the filename on, unless the filename starts with it. -/
def extension (p : Bytes) : Bytes :=
  let name := filename p
  let behind := name.reverse.takeWhile (· != dotByte)
  let start := name.length - behind.length - 1
  if name == dotDot || behind.length == name.length || start == 0 then [] else name.drop start

/-- `stem()`: the filename without its extension. -/
def stem (p : Bytes) : Bytes := (filename p).take ((filename p).length - (extension p).length)

example : extension (ascii "/x/.babelrc") = [] ∧ extension (ascii "/x/a.b.js") = ascii ".js" := by
  decide

/-- The elements a path is iterated by: the root, the names, and an empty one behind a trailing
separator. -/
def components (p : Bytes) : List Bytes :=
  let names := (splitSlash p).filter (· != [])
  (if isAbsolute p then [[slash]] else []) ++ names ++
    (if endsInSlash p && !names.isEmpty then [[]] else [])

/-- What is left of two lists behind their common front. -/
def mismatch : List Bytes → List Bytes → List Bytes × List Bytes
  | x :: xs, y :: ys => if x = y then mismatch xs ys else (x :: xs, y :: ys)
  | xs, ys => (xs, ys)

/-- `lexically_relative(base)`. -/
def lexicallyRelative (p base : Bytes) : Bytes :=
  if isAbsolute p != isAbsolute base then []
  else
    let rest := mismatch (components p) (components base)
    if rest.1.isEmpty && rest.2.isEmpty then dot
    else
      let up : Int := (rest.2.map fun name =>
        if name = dotDot then (-1 : Int) else if name = [] ∨ name = dot then 0 else 1).sum
      if up = 0 ∧ rest.1.head?.getD [] = [] then dot
      else if up < 0 then []
      else (List.replicate up.toNat dotDot ++ rest.1).foldl pathAppend []

example : lexicallyRelative (ascii "/a/b/c.js") (ascii "/a/d") = ascii "../b/c.js" := by decide

example : lexicallyRelative (ascii "//package.json") (ascii "/") = ascii "package.json" := by decide

/-- The longest front two lists share. -/
def commonFront : List Bytes → List Bytes → List Bytes
  | x :: xs, y :: ys => if x = y then x :: commonFront xs ys else []
  | _, _ => []

/-! ### Absolute paths in normal form -/

/-- Segments a normal path is made of. -/
structure Names (segs : List Bytes) : Prop where
  plain : Plain segs
  free : ∀ seg ∈ segs, slash ∉ seg

/-- Segments that separators keep apart; dots are allowed. -/
def Solid (segs : List Bytes) : Prop := ∀ seg ∈ segs, seg ≠ [] ∧ slash ∉ seg

/-- The absolute path of the segments. -/
def absPath (segs : List Bytes) : Bytes := slash :: joinSlash segs

variable {segs : List Bytes} {seg : Bytes}

namespace Names

theorem solid (h : Names segs) : Solid segs :=
  fun seg hseg => ⟨(h.plain seg hseg).1, h.free seg hseg⟩

theorem append {xs ys : List Bytes} (hx : Names xs) (hy : Names ys) : Names (xs ++ ys) := by
  constructor
  · intro seg hseg
    rcases List.mem_append.mp hseg with h | h
    · exact hx.plain seg h
    · exact hy.plain seg h
  · intro seg hseg
    rcases List.mem_append.mp hseg with h | h
    · exact hx.free seg h
    · exact hy.free seg h

theorem cons (h : Names segs)
    (hplain : seg ≠ [] ∧ seg ≠ dot ∧ seg ≠ dotDot) (hfree : slash ∉ seg) : Names (seg :: segs) := by
  constructor
  · intro s hs
    rcases List.mem_cons.mp hs with rfl | hin
    · exact hplain
    · exact h.plain s hin
  · intro s hs
    rcases List.mem_cons.mp hs with rfl | hin
    · exact hfree
    · exact h.free s hin

theorem left {xs ys : List Bytes} (h : Names (xs ++ ys)) : Names xs :=
  ⟨fun s hs => h.plain s (List.mem_append_left _ hs),
    fun s hs => h.free s (List.mem_append_left _ hs)⟩

theorem right {xs ys : List Bytes} (h : Names (xs ++ ys)) : Names ys :=
  ⟨fun s hs => h.plain s (List.mem_append_right _ hs),
    fun s hs => h.free s (List.mem_append_right _ hs)⟩

end Names

instance names_decidable (segs : List Bytes) : Decidable (Names segs) :=
  decidable_of_iff ((∀ seg ∈ segs, seg ≠ [] ∧ seg ≠ dot ∧ seg ≠ dotDot) ∧ ∀ seg ∈ segs, slash ∉ seg)
    ⟨fun h => ⟨h.1, h.2⟩, fun h => ⟨h.plain, h.free⟩⟩

theorem names_nil : Names [] :=
  ⟨fun _ h => absurd h List.not_mem_nil, fun _ h => absurd h List.not_mem_nil⟩

/-- Too long for a dot or a dot-dot. -/
theorem names_extension {ext : Bytes} (hseg : slash ∉ seg) (hfree : slash ∉ ext)
    (hlong : 2 < ext.length) : Names [seg ++ ext] := by
  have hshort : ∀ short : Bytes, short.length ≤ 2 → seg ++ ext ≠ short := by
    intro short hle heq
    have hlen := congrArg List.length heq
    rw [List.length_append] at hlen
    omega
  apply names_nil.cons
  · exact ⟨hshort [] (by decide), hshort dot (by decide), hshort dotDot (by decide)⟩
  · simp [hseg, hfree]

theorem absPath_isAbsolute (segs : List Bytes) : isAbsolute (absPath segs) = true := rfl

theorem splitSlash_absPath (h : Names segs) (hne : segs ≠ []) :
    splitSlash (absPath segs) = [] :: segs := by
  simp only [absPath, splitSlash, if_true]
  rw [splitSlash_joinSlash hne h.free]

theorem absPath_inj {xs ys : List Bytes} (hx : Names xs) (hy : Names ys)
    (h : absPath xs = absPath ys) : xs = ys := by
  have hjoin : joinSlash xs = joinSlash ys := List.cons.inj h |>.2
  by_cases hxs : xs = []
  · subst hxs
    by_cases hys : ys = []
    · exact hys.symm
    · have hsplit := splitSlash_joinSlash hys hy.free
      rw [← hjoin] at hsplit
      have hmem : ([] : Bytes) ∈ ys := by
        rw [← hsplit]
        simp [joinSlash, splitSlash]
      exact absurd rfl (hy.plain [] hmem).1
  · by_cases hys : ys = []
    · subst hys
      have hsplit := splitSlash_joinSlash hxs hx.free
      rw [hjoin] at hsplit
      have hmem : ([] : Bytes) ∈ xs := by
        rw [← hsplit]
        simp [joinSlash, splitSlash]
      exact absurd rfl (hx.plain [] hmem).1
    · exact joinSlash_inj hxs hys hx.free hy.free hjoin

theorem joinSlash_append {xs ys : List Bytes} (hx : xs ≠ []) (hy : ys ≠ []) :
    joinSlash (xs ++ ys) = joinSlash xs ++ slash :: joinSlash ys := by
  induction xs with
  | nil => exact absurd rfl hx
  | cons x xs ih =>
      by_cases hxs : xs = []
      · subst hxs
        rw [List.singleton_append, joinSlash_cons hy]
        rfl
      · rw [List.cons_append, joinSlash_cons (by simp [hxs]), joinSlash_cons hxs, ih hxs]
        simp

theorem joinSlash_snoc (hne : segs ≠ []) (seg : Bytes) :
    joinSlash (segs ++ [seg]) = joinSlash segs ++ slash :: seg := by
  induction segs with
  | nil => exact absurd rfl hne
  | cons first rest ih =>
      by_cases hrest : rest = []
      · subst hrest
        rfl
      · rw [List.cons_append, joinSlash_cons (by simp), joinSlash_cons hrest, ih hrest]
        simp

theorem absPath_snoc (hne : segs ≠ []) (seg : Bytes) :
    absPath (segs ++ [seg]) = absPath segs ++ slash :: seg := by
  rw [absPath, joinSlash_snoc hne]
  rfl

theorem length_lt_absPath (h : Names segs) :
    segs.length < (absPath segs).length + 1 := by
  induction segs using List.reverseRecOn with
  | nil => simp [absPath]
  | append_singleton front name ih =>
      by_cases hfront : front = []
      · subst hfront
        simp [absPath]
      · have hlt := ih h.left
        rw [absPath_snoc hfront]
        simp only [List.length_append, List.length_cons, List.length_nil]
        omega

theorem joinSlash_last {segs : List Bytes} {seg : Bytes} (hseg : seg ≠ []) :
    (joinSlash (segs ++ [seg])).getLast? = seg.getLast? := by
  by_cases hne : segs = []
  · subst hne
    rfl
  · rw [joinSlash_snoc hne, List.getLast?_append]
    cases hlast : seg.getLast? with
    | none => exact absurd (List.getLast?_eq_none_iff.mp hlast) hseg
    | some c => simp [List.getLast?_cons, hlast]

/-- Solid segments end in their last segment, which is no separator. -/
theorem joinSlash_not_endsInSlash (h : Solid segs) (hne : segs ≠ []) :
    endsInSlash (joinSlash segs) = false ∧ joinSlash segs ≠ [] := by
  rcases List.eq_nil_or_concat segs with hnil | ⟨front, seg, hsegs⟩
  · exact absurd hnil hne
  · rw [List.concat_eq_append] at hsegs
    subst hsegs
    rcases h seg (by simp) with ⟨hseg, hfree⟩
    have hlast := @joinSlash_last front seg hseg
    cases hc : seg.getLast? with
    | none => exact absurd (List.getLast?_eq_none_iff.mp hc) hseg
    | some c =>
        rw [hc] at hlast
        constructor
        · have hmem : c ∈ seg := List.mem_of_getLast? hc
          simp only [endsInSlash, hlast, beq_eq_false_iff_ne, ne_eq, Option.some.injEq]
          rintro rfl
          exact hfree hmem
        · intro hnil
          rw [hnil] at hlast
          cases hlast

theorem absPath_not_endsInSlash (h : Names segs) (hne : segs ≠ []) :
    endsInSlash (absPath segs) = false := by
  rcases joinSlash_not_endsInSlash h.solid hne with ⟨hend, hjoin⟩
  cases hj : joinSlash segs with
  | nil => exact absurd hj hjoin
  | cons c cs =>
      rw [hj] at hend
      simpa [absPath, hj, endsInSlash, List.getLast?_cons] using hend

theorem filename_absPath (h : Names (segs ++ [seg])) :
    filename (absPath (segs ++ [seg])) = seg := by
  rw [filename, splitSlash_absPath h (by simp), ← List.cons_append, List.getLast?_concat]
  rfl

theorem dropWhile_free (h : slash ∉ seg) (rest : Bytes) :
    (seg ++ slash :: rest).dropWhile (· != slash) = slash :: rest := by
  induction seg with
  | nil => simp
  | cons c cs ih =>
      have hc : c ≠ slash := fun heq => h (by simp [heq])
      have hcs : slash ∉ cs := fun hmem => h (List.mem_cons_of_mem _ hmem)
      simp [hc, ih hcs]

theorem not_all_slash {p name : Bytes} (hfree : slash ∉ name) (hname : name ≠ []) (hsub : name ⊆ p) :
    p.all (· == slash) = false := by
  rcases List.exists_mem_of_ne_nil name hname with ⟨c, hc⟩
  have hne : c ≠ slash := fun heq => hfree (heq ▸ hc)
  exact List.all_eq_false.mpr ⟨c, hsub hc, by simpa using hne⟩

/-- Cutting a name and the separators before it. -/
theorem parentPath_behind (front : Bytes) {name : Bytes} (hfree : slash ∉ name) (hname : name ≠ []) :
    parentPath (front ++ slash :: name) =
      if (front.reverse.dropWhile (· == slash)).reverse.isEmpty && isAbsolute (front ++ slash :: name)
      then [slash] else (front.reverse.dropWhile (· == slash)).reverse := by
  have hall := not_all_slash hfree hname (p := front ++ slash :: name) fun c hc => by simp [hc]
  have hrev : (front ++ slash :: name).reverse = name.reverse ++ slash :: front.reverse := by
    simp
  have hfree' : slash ∉ name.reverse := by simpa using hfree
  unfold parentPath
  rw [hall, hrev, dropWhile_free hfree']
  simp

theorem parentPath_append {front name : Bytes} (hfree : slash ∉ name) (hname : name ≠ [])
    (hfront : endsInSlash front = false) (habs : isAbsolute (front ++ slash :: name) = true) :
    parentPath (front ++ slash :: name) = if front = [] then [slash] else front := by
  have hdrop : front.reverse.dropWhile (· == slash) = front.reverse := by
    cases hr : front.reverse with
    | nil => rfl
    | cons c cs =>
        have hlast : front.getLast? = some c := by
          rw [← List.head?_reverse, hr]
          rfl
        have hc : (c == slash) = false := by
          simpa [endsInSlash, hlast] using hfront
        simp [hc]
  rw [parentPath_behind front hfree hname, hdrop, List.reverse_reverse, habs]
  simp

theorem parentPath_absPath (h : Names (segs ++ [seg])) :
    parentPath (absPath (segs ++ [seg])) = absPath segs := by
  have hfree := h.free seg (by simp)
  have hname := (h.plain seg (by simp)).1
  by_cases hne : segs = []
  · subst hne
    exact @parentPath_append [] seg hfree hname rfl rfl
  · rw [absPath_snoc hne]
    rw [parentPath_append hfree hname (absPath_not_endsInSlash h.left hne) rfl, if_neg]
    simp [absPath]

/-- A trailing separator is all that is cut from a path that has one. -/
theorem parentPath_trailing (h : Names segs) (hne : segs ≠ []) :
    parentPath (absPath segs ++ [slash]) = absPath segs := by
  have hend := absPath_not_endsInSlash h hne
  have hrev : ∃ c cs, (absPath segs).reverse = c :: cs ∧ (c == slash) = false := by
    cases hr : (absPath segs).reverse with
    | nil => simp [absPath] at hr
    | cons c cs =>
        refine ⟨c, cs, rfl, ?_⟩
        have hlast : (absPath segs).getLast? = some c := by
          rw [← List.head?_reverse, hr]
          rfl
        simpa [endsInSlash, hlast] using hend
  rcases hrev with ⟨c, cs, hr, hc⟩
  have hall : (absPath segs ++ [slash]).all (· == slash) = false := by
    rw [List.all_eq_false]
    refine ⟨c, ?_, by simp [hc]⟩
    apply List.mem_append_left
    rw [← List.mem_reverse, hr]
    exact List.mem_cons_self
  have hsame : (c :: cs).reverse = absPath segs := by
    rw [← hr, List.reverse_reverse]
  have hnil : (absPath segs).isEmpty = false := rfl
  unfold parentPath
  simp only [hall, Bool.false_eq_true, if_false, List.reverse_append, List.reverse_singleton,
    List.singleton_append, hr]
  simp [hc, hsame, hnil]

/-! ### Relative paths -/

theorem components_absPath (h : Names segs) :
    components (absPath segs) = [slash] :: segs := by
  by_cases hne : segs = []
  · subst hne
    decide
  · have hnames : (splitSlash (absPath segs)).filter (· != []) = segs := by
      rw [splitSlash_absPath h hne]
      simp only [bne_self_eq_false, Bool.false_eq_true, not_false_eq_true,
        List.filter_cons_of_neg]
      rw [List.filter_eq_self]
      intro seg hseg
      simpa using (h.plain seg hseg).1
    simp [components, hnames, absPath_not_endsInSlash h hne, absPath_isAbsolute]

theorem components_trailing (h : Names segs) (hne : segs ≠ []) :
    components (absPath segs ++ [slash]) = ([slash] :: segs) ++ [[]] := by
  have hnames : (splitSlash (absPath segs ++ [slash])).filter (· != []) = segs := by
    rw [splitSlash_append, splitSlash_absPath h hne]
    simp only [splitSlash, List.cons_append, List.filter_append, bne_self_eq_false,
      Bool.false_eq_true, not_false_eq_true, List.filter_cons_of_neg, List.filter_nil,
      List.append_nil]
    rw [List.filter_eq_self]
    intro seg hseg
    simpa using (h.plain seg hseg).1
  have habs : isAbsolute (absPath segs ++ [slash]) = true := rfl
  have hend : endsInSlash (absPath segs ++ [slash]) = true := by
    simp [endsInSlash]
  simp [components, hnames, habs, hend, hne]

theorem mismatch_append (front xs ys : List Bytes) :
    mismatch (front ++ xs) (front ++ ys) = mismatch xs ys := by
  induction front with
  | nil => rfl
  | cons x front ih => simpa [mismatch] using ih

theorem mismatch_nil (xs : List Bytes) : mismatch xs [] = (xs, []) := by
  cases xs <;> rfl

theorem not_absolute_of_free (h : slash ∉ seg) : isAbsolute seg = false := by
  cases seg with
  | nil => rfl
  | cons c cs =>
      have hc : c ≠ slash := by
        rintro rfl
        exact h (by simp)
      simp [isAbsolute, hc]

theorem foldl_pathAppend (h : Solid segs) (hne : segs ≠ []) :
    segs.foldl pathAppend [] = joinSlash segs := by
  induction segs using List.reverseRecOn with
  | nil => exact absurd rfl hne
  | append_singleton front seg ih =>
      have hrel := not_absolute_of_free (h seg (by simp)).2
      rw [List.foldl_append, List.foldl_cons, List.foldl_nil]
      by_cases hfront : front = []
      · subst hfront
        simp [pathAppend, hrel, joinSlash]
      · have hsolid : Solid front := fun s hs => h s (List.mem_append_left _ hs)
        rcases joinSlash_not_endsInSlash hsolid hfront with ⟨hend, hjoin⟩
        rw [ih hsolid hfront, joinSlash_snoc hfront]
        simp [pathAppend, hrel, hend, hjoin]

/-- The path of a file below a directory, relative to it. -/
theorem lexicallyRelative_absPath {front rest : List Bytes} (h : Names (front ++ rest))
    (hne : rest ≠ []) :
    lexicallyRelative (absPath (front ++ rest)) (absPath front) = joinSlash rest := by
  have hcomp : mismatch (components (absPath (front ++ rest))) (components (absPath front)) =
      (rest, []) := by
    rw [components_absPath h, components_absPath h.left]
    have hstart : mismatch (([slash] :: front) ++ rest) (([slash] :: front) ++ []) = (rest, []) := by
      rw [mismatch_append, mismatch_nil]
    simpa using hstart
  have hhead : ¬ rest.head?.getD [] = [] := by
    cases rest with
    | nil => exact absurd rfl hne
    | cons seg segs => simpa using (h.plain seg (by simp)).1
  simp only [lexicallyRelative, absPath_isAbsolute, hcomp]
  simp [hne, hhead, foldl_pathAppend h.right.solid hne]

theorem lexicallyRelative_trailing {front rest : List Bytes} (h : Names (front ++ rest))
    (hne : rest ≠ []) :
    lexicallyRelative (absPath (front ++ rest) ++ [slash]) (absPath front) =
      joinSlash rest ++ [slash] := by
  have hcomp : mismatch (components (absPath (front ++ rest) ++ [slash]))
      (components (absPath front)) = (rest ++ [[]], []) := by
    rw [components_trailing h (by simp [hne]), components_absPath h.left]
    have hstart : mismatch (([slash] :: front) ++ (rest ++ [[]])) (([slash] :: front) ++ []) =
        (rest ++ [[]], []) := by
      rw [mismatch_append, mismatch_nil]
    simpa using hstart
  have hhead : ¬ rest.head?.getD [] = [] := by
    cases rest with
    | nil => exact absurd rfl hne
    | cons seg segs => simpa using (h.plain seg (by simp)).1
  have hend := joinSlash_not_endsInSlash h.right.solid hne
  have hfold : (rest ++ [[]]).foldl pathAppend [] = joinSlash rest ++ [slash] := by
    have hrel : isAbsolute [] = false := rfl
    rw [List.foldl_append, foldl_pathAppend h.right.solid hne]
    simp [pathAppend, hend.1, hend.2, hrel]
  have habs : isAbsolute (absPath (front ++ rest) ++ [slash]) = true := rfl
  simp only [lexicallyRelative, absPath_isAbsolute, habs, hcomp]
  simp [hhead, hfold]

theorem mismatch_spec (xs ys : List Bytes) :
    ∃ front, xs = front ++ (mismatch xs ys).1 ∧ ys = front ++ (mismatch xs ys).2 ∧
      ((mismatch xs ys).1 = [] ∨ (mismatch xs ys).2 = [] ∨
        (mismatch xs ys).1.head? ≠ (mismatch xs ys).2.head?) := by
  induction xs generalizing ys with
  | nil => exact ⟨[], by simp [mismatch]⟩
  | cons x xs ih =>
      cases ys with
      | nil => exact ⟨[], by simp [mismatch]⟩
      | cons y ys =>
          by_cases heq : x = y
          · subst heq
            rcases ih ys with ⟨front, hxs, hys, hrest⟩
            refine ⟨x :: front, ?_, ?_, ?_⟩
            · simpa [mismatch] using hxs
            · simpa [mismatch] using hys
            · simpa [mismatch] using hrest
          · refine ⟨[], ?_, ?_, ?_⟩
            · simp [mismatch, heq]
            · simp [mismatch, heq]
            · simp [mismatch, heq]

theorem climb_names (h : Names segs) :
    (segs.map fun name =>
      if name = dotDot then (-1 : Int) else if name = [] ∨ name = dot then 0 else 1).sum =
      segs.length := by
  induction segs with
  | nil => rfl
  | cons seg segs ih =>
      rcases h.plain seg (by simp) with ⟨hne, hdot, hdotDot⟩
      have hrest : Names segs := @Names.right [seg] segs h
      rw [List.map_cons, List.sum_cons, ih hrest]
      simp only [hdotDot, hne, hdot, if_false, or_self, List.length_cons]
      omega

/-- The first element of a path of solid segments. -/
theorem components_joinSlash_head (h : Solid segs) (hne : segs ≠ []) :
    (components (joinSlash segs)).head? = segs.head? := by
  cases segs with
  | nil => exact absurd rfl hne
  | cons seg rest =>
      have hsplit := splitSlash_joinSlash hne fun s hs => (h s hs).2
      have hrel : isAbsolute (joinSlash (seg :: rest)) = false := by
        cases hj : joinSlash (seg :: rest) with
        | nil => rfl
        | cons c cs =>
            by_cases hc : c = slash
            · rw [hj, hc] at hsplit
              simp only [splitSlash, if_true] at hsplit
              exact absurd (List.cons.inj hsplit).1.symm (h seg (by simp)).1
            · simp [isAbsolute, hc]
      have hfilter : (seg :: rest).filter (· != []) = seg :: rest := by
        rw [List.filter_eq_self]
        intro s hs
        simpa using (h s hs).1
      simp only [components, hrel, hsplit, hfilter]
      simp

/-- `relative` is not empty and does not climb: the test whether `base` lies above `p`. -/
def isAbove (base p : Bytes) : Bool :=
  let relative := lexicallyRelative p base
  !relative.isEmpty && (components relative).head? != some dotDot

/-- A directory is above another, or equal to it, when its names are the other's first ones. -/
theorem isAbove_absPath {front segs : List Bytes} (hf : Names front) (hs : Names segs) :
    isAbove (absPath front) (absPath segs) = true ↔ front <+: segs := by
  rcases mismatch_spec segs front with ⟨common, hsegs, hfront, hdiffer⟩
  have hcomp : mismatch (components (absPath segs)) (components (absPath front)) =
      mismatch segs front := by
    rw [components_absPath hs, components_absPath hf]
    simp [mismatch]
  generalize mismatch segs front = rest at hsegs hfront hdiffer hcomp
  rcases rest with ⟨below, above⟩
  simp only at hsegs hfront hdiffer
  subst hsegs
  subst hfront
  by_cases habove : above = []
  · subst habove
    refine iff_of_true ?_ (by simp)
    by_cases hbelow : below = []
    · subst hbelow
      simp only [isAbove, lexicallyRelative, absPath_isAbsolute, hcomp]
      decide
    · have hrel := @lexicallyRelative_absPath common _ hs hbelow
      have hjoin := joinSlash_not_endsInSlash hs.right.solid hbelow
      simp only [List.append_nil, isAbove, hrel, components_joinSlash_head hs.right.solid hbelow]
      cases below with
      | nil => exact absurd rfl hbelow
      | cons seg segs =>
          have hdd := (hs.plain seg (by simp)).2.2
          simp [hjoin.2, hdd]
  · refine iff_of_false ?_ ?_
    · have hup := climb_names hf.right
      have hpos : 0 < above.length := List.length_pos_iff.mpr habove
      have hsolid : Solid (List.replicate above.length dotDot ++ below) := by
        intro seg hseg
        rcases List.mem_append.mp hseg with hdd | hin
        · rw [(List.mem_replicate.mp hdd).2]
          decide
        · exact hs.right.solid seg hin
      have hne : List.replicate above.length dotDot ++ below ≠ [] := by
        intro hnil
        rw [List.append_eq_nil_iff, List.replicate_eq_nil_iff] at hnil
        omega
      have hrel : lexicallyRelative (absPath (common ++ below)) (absPath (common ++ above)) =
          joinSlash (List.replicate above.length dotDot ++ below) := by
        simp only [lexicallyRelative, absPath_isAbsolute, hcomp, hup]
        have hempty : (below.isEmpty && above.isEmpty) = false := by
          simp [habove]
        rw [← foldl_pathAppend hsolid hne, hempty, if_neg (by decide), if_neg (by decide),
          if_neg (by omega), if_neg (by omega), Int.toNat_natCast]
      have hhead : (List.replicate above.length dotDot ++ below).head? = some dotDot := by
        cases hlen : above.length with
        | zero => omega
        | succ n => rfl
      simp [isAbove, hrel, components_joinSlash_head hsolid hne, hhead]
    · intro hstarts
      rw [List.prefix_append_right_inj] at hstarts
      rcases hdiffer with hbelow | habove' | hheads
      · subst hbelow
        exact habove (List.prefix_nil.mp hstarts)
      · exact habove habove'
      · rcases hstarts with ⟨tail, rfl⟩
        cases above with
        | nil => exact habove rfl
        | cons seg segs => exact hheads rfl

/-! ### Normal form -/

/-- What `lexically_normal` makes of an absolute path. -/
inductive NormalPath : Bytes → Prop where
  | file {segs : List Bytes} (h : Names segs) : NormalPath (absPath segs)
  | trailing {segs : List Bytes} (h : Names segs) (hne : segs ≠ []) :
      NormalPath (absPath segs ++ [slash])

/-- A walk along a path, by what each segment does to the names kept so far. -/
inductive SegmentWalk : List Bytes → List Bytes → Prop where
  | finish {kept : List Bytes} (h : Names kept) : SegmentWalk kept []
  | stay {kept segs : List Bytes} {seg : Bytes} (h : seg = [] ∨ seg = dot)
      (later : SegmentWalk kept segs) : SegmentWalk kept (seg :: segs)
  | leave {segs : List Bytes} (later : SegmentWalk [] segs) : SegmentWalk [] (dotDot :: segs)
  | pop {rest segs : List Bytes} {top : Bytes} (h : top ≠ dotDot)
      (later : SegmentWalk rest segs) : SegmentWalk (top :: rest) (dotDot :: segs)
  | push {kept segs : List Bytes} {seg : Bytes} (h : seg ≠ [] ∧ seg ≠ dot ∧ seg ≠ dotDot)
      (later : SegmentWalk (seg :: kept) segs) : SegmentWalk kept (seg :: segs)

theorem segmentWalk_of {kept segs : List Bytes} (hkept : Names kept)
    (hfree : ∀ seg ∈ segs, slash ∉ seg) : SegmentWalk kept segs := by
  induction segs generalizing kept with
  | nil => exact .finish hkept
  | cons seg segs ih =>
      have hrest : ∀ s ∈ segs, slash ∉ s := fun s hs => hfree s (List.mem_cons_of_mem _ hs)
      by_cases hskip : seg = [] ∨ seg = dot
      · exact .stay hskip (ih hkept hrest)
      · rw [not_or] at hskip
        by_cases hdd : seg = dotDot
        · subst hdd
          cases kept with
          | nil => exact .leave (ih names_nil hrest)
          | cons top rest =>
              exact .pop (hkept.plain top (by simp)).2.2 (ih (@Names.right [top] rest hkept) hrest)
        · have hseg : seg ≠ [] ∧ seg ≠ dot ∧ seg ≠ dotDot := ⟨hskip.1, hskip.2, hdd⟩
          exact .push hseg (ih (hkept.cons hseg (hfree seg (by simp))) hrest)

theorem segmentWalk_split (p : Bytes) : SegmentWalk [] (splitSlash p) :=
  segmentWalk_of names_nil fun _ => slash_not_mem_of_mem_splitSlash

/-- Normalizing an absolute path keeps no dots: there is always a name to cancel or nothing. -/
theorem SegmentWalk.names {kept segs : List Bytes} (h : SegmentWalk kept segs) :
    Names (segs.foldl (normalStep true) kept) := by
  induction h with
  | finish hkept => exact hkept
  | stay hskip _ ih => rwa [List.foldl_cons, normalStep_stay hskip]
  | leave _ ih => exact ih
  | pop htop _ ih => rwa [List.foldl_cons, normalStep_pop htop]
  | push hseg _ ih => rwa [List.foldl_cons, normalStep_push hseg]

theorem Names.reverse (h : Names segs) : Names segs.reverse :=
  ⟨fun s hs => h.plain s (List.mem_reverse.mp hs), fun s hs => h.free s (List.mem_reverse.mp hs)⟩

theorem normalSegments_names {p : Bytes} (habs : isAbsolute p = true) :
    Names (normalSegments p) := by
  rw [normalSegments, habs]
  exact (segmentWalk_split p).names.reverse

theorem lexicallyNormal_normal {p : Bytes} (habs : isAbsolute p = true) :
    NormalPath (lexicallyNormal p) := by
  have hne : p.isEmpty = false := by
    cases p with
    | nil => cases habs
    | cons c cs => rfl
  have hnames := normalSegments_names habs
  simp only [lexicallyNormal, hne, habs, Bool.false_eq_true, if_false, if_true]
  split
  · rename_i htrail
    have hsegs : normalSegments p ≠ [] := by
      simpa using (Bool.and_eq_true_iff.mp htrail).2
    exact NormalPath.trailing hnames hsegs
  · exact NormalPath.file hnames

theorem mem_joinSlash_of_mem {c : UInt8} (hseg : seg ∈ segs)
    (hc : c ∈ seg) : c ∈ joinSlash segs := by
  induction segs with
  | nil => cases hseg
  | cons first rest ih =>
      by_cases hrest : rest = []
      · subst hrest
        rw [List.mem_singleton.mp hseg] at hc
        exact hc
      · rw [joinSlash_cons hrest]
        rcases List.mem_cons.mp hseg with rfl | hin
        · exact List.mem_append_left _ hc
        · exact List.mem_append_right _ (List.mem_cons_of_mem _ (ih hin))

theorem mem_of_mem_splitSlash {p seg : Bytes} {c : UInt8} (hseg : seg ∈ splitSlash p)
    (hc : c ∈ seg) : c ∈ p := by
  rw [← joinSlash_splitSlash p]
  exact mem_joinSlash_of_mem hseg hc

theorem mem_joinSlash {c : UInt8} (h : c ∈ joinSlash segs) :
    c = slash ∨ ∃ seg ∈ segs, c ∈ seg := by
  induction segs with
  | nil => cases h
  | cons first rest ih =>
      by_cases hrest : rest = []
      · subst hrest
        exact Or.inr ⟨first, by simp, h⟩
      · rw [joinSlash_cons hrest] at h
        rcases List.mem_append.mp h with hin | hin
        · exact Or.inr ⟨first, by simp, hin⟩
        · rcases List.mem_cons.mp hin with hslash | hin'
          · exact Or.inl hslash
          · rcases ih hin' with hslash | ⟨seg, hseg, hc⟩
            · exact Or.inl hslash
            · exact Or.inr ⟨seg, List.mem_cons_of_mem _ hseg, hc⟩

theorem not_mem_lexicallyNormal {p : Bytes} {c : UInt8} (hslash : c ≠ slash) (hdot : c ∉ dotDot)
    (h : c ∉ p) : c ∉ lexicallyNormal p := by
  have hbody : c ∉ joinSlash (normalSegments p) := by
    intro hmem
    rcases mem_joinSlash hmem with heq | ⟨seg, hseg, hc⟩
    · exact hslash heq
    · rcases foldl_normalStep_mem (List.mem_reverse.mp hseg) with hin | hnil | hdd
      · exact h (mem_of_mem_splitSlash hin hc)
      · cases hnil
      · rw [hdd] at hc
        exact hdot hc
  have hdot' : c ∉ dot := fun hmem => hdot (List.mem_of_mem_head? (by
    rw [List.mem_singleton.mp hmem]
    rfl))
  unfold lexicallyNormal
  dsimp only
  repeat' split
  all_goals simp [hslash, hbody, hdot']

theorem not_mem_pathAppend {base rel : Bytes} {c : UInt8} (hslash : c ≠ slash) (hbase : c ∉ base)
    (hrel : c ∉ rel) : c ∉ pathAppend base rel := by
  unfold pathAppend
  split
  · exact hrel
  · split
    · simp [hbase, hrel]
    · simp [hslash, hbase, hrel]

theorem NormalPath.absolute {p : Bytes} (h : NormalPath p) : isAbsolute p = true := by
  cases h with
  | file _ => rfl
  | trailing _ _ => rfl

theorem normalSegments_absPath (h : Names segs) :
    normalSegments (absPath segs) = segs := by
  by_cases hne : segs = []
  · subst hne
    rfl
  · have hfirst : normalStep true [] [] = [] := by simp [normalStep]
    rw [normalSegments, absPath_isAbsolute, splitSlash_absPath h hne, List.foldl_cons, hfirst,
      foldl_normalStep_plain h.plain]
    simp

theorem normalSegments_trailing (h : Names segs) :
    normalSegments (absPath segs ++ [slash]) = segs := by
  have habs : isAbsolute (absPath segs ++ [slash]) = isAbsolute (absPath segs) := rfl
  have hlast : ∀ kept, normalStep true kept [] = kept := by
    intro kept
    simp [normalStep]
  have hnormal := normalSegments_absPath h
  rw [normalSegments, absPath_isAbsolute] at hnormal
  rw [normalSegments, habs, absPath_isAbsolute, splitSlash_append, List.foldl_append, splitSlash,
    List.foldl_cons, List.foldl_nil, hlast, hnormal]

/-- A path in normal form is left alone. -/
theorem NormalPath.lexicallyNormal_eq {p : Bytes} (h : NormalPath p) : lexicallyNormal p = p := by
  cases h with
  | @file segs hsegs =>
      have hne : (absPath segs).isEmpty = false := rfl
      simp only [lexicallyNormal, hne, absPath_isAbsolute, normalSegments_absPath hsegs,
        Bool.false_eq_true, if_false, if_true]
      rcases List.eq_nil_or_concat' segs with rfl | ⟨front, seg, rfl⟩
      · rfl
      · have hseg := hsegs.plain seg (by simp)
        have hdir : endsInDirectory (absPath (front ++ [seg])) = false := by
          simp [endsInDirectory, filename_absPath hsegs, hseg]
        rw [hdir, Bool.false_and, if_neg Bool.false_ne_true]
        rfl
  | @trailing segs hsegs hne =>
      have hempty : (absPath segs ++ [slash]).isEmpty = false := rfl
      have habs : isAbsolute (absPath segs ++ [slash]) = true := rfl
      have hdir : endsInDirectory (absPath segs ++ [slash]) = true := by
        simp [endsInDirectory, filename, splitSlash_append, splitSlash]
      have hkept : segs.isEmpty = false := by simpa using hne
      simp only [lexicallyNormal, hempty, habs, normalSegments_trailing hsegs, hdir, hkept,
        Bool.false_eq_true, if_false, if_true, Bool.not_false, Bool.and_self]
      rfl

/-- Joining a plain relative path to a root in normal form appends it. -/
theorem NormalPath.posixJoin_eq {root id : Bytes} (h : NormalPath root)
    (hid : Plain (splitSlash id)) : posixJoin root id = pathAppend root id := by
  obtain ⟨front, _, hfront, hjoin⟩ := @posixJoin_plain root id hid
  have hrel := plain_not_absolute hid
  rw [hjoin, hfront, h.absolute, if_pos rfl]
  cases h with
  | @file segs hsegs =>
      rw [normalSegments_absPath hsegs]
      by_cases hne : segs = []
      · subst hne
        have hroot : endsInSlash [slash] = true := by decide
        rw [List.nil_append, joinSlash_splitSlash]
        simp [pathAppend, hrel, hroot, absPath, joinSlash]
      · rw [joinSlash_append hne (splitSlash_ne_nil id), joinSlash_splitSlash]
        simp [pathAppend, hrel, absPath_not_endsInSlash hsegs hne]
        simp [absPath]
  | @trailing segs hsegs hne =>
      have hend : endsInSlash (absPath segs ++ [slash]) = true := by simp [endsInSlash]
      rw [normalSegments_trailing hsegs, joinSlash_append hne (splitSlash_ne_nil id),
        joinSlash_splitSlash]
      simp [pathAppend, hrel, hend]
      simp [absPath]

theorem NormalPath.posixJoin_normal {root id : Bytes} (h : NormalPath root)
    (hid : Plain (splitSlash id)) : NormalPath (posixJoin root id) := by
  obtain ⟨front, _, rfl, hjoin⟩ := @posixJoin_plain root id hid
  rw [h.absolute, if_pos rfl] at hjoin
  rw [hjoin]
  have hnames : Names (splitSlash id) := ⟨hid, fun _ => slash_not_mem_of_mem_splitSlash⟩
  exact NormalPath.file ((normalSegments_names h.absolute).append hnames)

/-- Behind a directory in normal form, one more name. -/
theorem pathAppend_name {p name : Bytes} (h : NormalPath p) (hname : Names [name]) :
    ∃ segs, Names segs ∧ pathAppend p name = absPath (segs ++ [name]) ∧
      (p = absPath segs ∨ p = absPath segs ++ [slash]) := by
  have hrel := not_absolute_of_free (hname.free name (by simp))
  cases h with
  | @file segs hsegs =>
      refine ⟨segs, hsegs, ?_, Or.inl rfl⟩
      by_cases hne : segs = []
      · subst hne
        have hroot : endsInSlash [slash] = true := by decide
        simp [pathAppend, hrel, hroot, absPath, joinSlash]
      · have hend := absPath_not_endsInSlash hsegs hne
        rw [absPath_snoc hne]
        simp [pathAppend, hrel, hend]
        simp [absPath]
  | @trailing segs hsegs hne =>
      refine ⟨segs, hsegs, ?_, Or.inr rfl⟩
      have hend : endsInSlash (absPath segs ++ [slash]) = true := by
        simp [endsInSlash]
      rw [absPath_snoc hne]
      simp [pathAppend, hrel, hend]

theorem front_of_joinSlash {q : Bytes} (hfree : ∀ seg ∈ segs, slash ∉ seg)
    (hne : segs ≠ []) (h : q <+: joinSlash segs) :
    ∃ front x, front <+: segs ∧ front.length < segs.length ∧ slash ∉ x ∧
      q = joinSlash (front ++ [x]) := by
  induction segs generalizing q with
  | nil => exact absurd rfl hne
  | cons seg rest ih =>
      have hcut : q <+: seg → ∃ front x, front <+: seg :: rest ∧
          front.length < (seg :: rest).length ∧ slash ∉ x ∧ q = joinSlash (front ++ [x]) := by
        intro hq
        refine ⟨[], q, List.nil_prefix, by simp, ?_, rfl⟩
        exact fun hmem => hfree seg (by simp) (hq.subset hmem)
      by_cases hrest : rest = []
      · subst hrest
        exact hcut h
      · rw [joinSlash_cons hrest] at h
        rcases h with ⟨tail, htail⟩
        rcases List.append_eq_append_iff.mp htail with ⟨more, hseg, _⟩ | ⟨more, hq, hmore⟩
        · exact hcut ⟨more, hseg.symm⟩
        · cases more with
          | nil =>
              rw [List.append_nil] at hq
              exact hcut ⟨[], by simp [hq]⟩
          | cons c q' =>
              rcases List.cons.inj hmore with ⟨hc, hq'⟩
              have hrest' : ∀ s ∈ rest, slash ∉ s :=
                fun s hs => hfree s (List.mem_cons_of_mem _ hs)
              rcases ih hrest' hrest ⟨tail, hq'.symm⟩ with ⟨front, x, hstarts, hlt, hx, heq⟩
              refine ⟨seg :: front, x, ?_, by simpa using hlt, hx, ?_⟩
              · exact (List.prefix_cons_inj seg).mpr hstarts
              · rw [hq, ← hc, heq, List.cons_append, joinSlash_cons (by simp)]

/-- A front of a path in normal form is in normal form, unless it ends in a directory. -/
theorem NormalPath.front {p q : Bytes} (h : NormalPath p) (hq : q <+: p)
    (habs : isAbsolute q = true) (hend : endsInDirectory q = false) :
    ∃ segs seg, Names (segs ++ [seg]) ∧ q = absPath (segs ++ [seg]) := by
  cases q with
  | nil => cases habs
  | cons c q =>
      have hc : c = slash := by simpa [isAbsolute] using habs
      subst hc
      have hjoin : ∃ segs : List Bytes, segs ≠ [] ∧ (∀ seg ∈ segs, slash ∉ seg) ∧
          q <+: joinSlash segs ∧
          ∀ front, front <+: segs → front.length < segs.length → Names front := by
        cases h with
        | @file segs hsegs =>
            have hq' : q <+: joinSlash segs := (List.prefix_cons_inj slash).mp hq
            by_cases hne : segs = []
            · subst hne
              refine ⟨[[]], by simp, by simp, hq', ?_⟩
              intro front _ hlt
              have hnil : front = [] := by simpa using hlt
              rw [hnil]
              exact names_nil
            · refine ⟨segs, hne, hsegs.free, hq', ?_⟩
              rintro front ⟨rest, rfl⟩ _
              exact hsegs.left
        | @trailing segs hsegs hne =>
            have hq' : q <+: joinSlash (segs ++ [[]]) := by
              rw [joinSlash_snoc hne]
              exact (List.prefix_cons_inj slash).mp hq
            refine ⟨segs ++ [[]], by simp, ?_, hq', ?_⟩
            · intro seg hseg
              rcases List.mem_append.mp hseg with hin | hin
              · exact hsegs.free seg hin
              · rw [List.mem_singleton.mp hin]
                simp
            · intro front hfront hlt
              have hle : front.length ≤ segs.length := by
                simp only [List.length_append, List.length_singleton] at hlt
                omega
              have hstarts : front <+: segs :=
                List.prefix_of_prefix_length_le hfront (List.prefix_append _ _) hle
              rcases hstarts with ⟨rest, rfl⟩
              exact hsegs.left
      rcases hjoin with ⟨segs, hne, hfree, hstarts, hnames⟩
      rcases front_of_joinSlash hfree hne hstarts with ⟨front, x, hfront, hlt, hx, rfl⟩
      have hsplit : splitSlash (joinSlash (front ++ [x])) = front ++ [x] := by
        apply splitSlash_joinSlash (by simp)
        intro seg hseg
        rcases List.mem_append.mp hseg with hin | hin
        · exact hfree seg (hfront.subset hin)
        · rw [List.mem_singleton.mp hin]
          exact hx
      have hfile : filename (slash :: joinSlash (front ++ [x])) = x := by
        simp only [filename, splitSlash, if_true, hsplit]
        rw [← List.cons_append, List.getLast?_concat]
        rfl
      have hplain : x ≠ [] ∧ x ≠ dot ∧ x ≠ dotDot := by
        simpa [endsInDirectory, hfile, and_assoc] using hend
      exact ⟨front, x, (hnames front hfront hlt).append (names_nil.cons hplain hx), rfl⟩

end HermesNode
