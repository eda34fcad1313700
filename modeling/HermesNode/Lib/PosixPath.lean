/-
Module: HermesNode.Lib.PosixPath
Purpose: More of Node's `path.posix`: `dirname`, `resolve` of one argument and `relative`, which
  compares two resolved paths byte by byte and remembers the last separator they share. Over paths
  given by their names `relative` is what is left of the two behind their common front: one dot-dot
  for each name of the first, then the names of the second.
Trusted boundary: human-reviewed spec (transcribed from `libjs-node/path.js`)
Main exports: posixDirname, posixResolve, posixResolve_relative, relativeResolved_absPath
-/
import HermesNode.Lib.Relative

namespace HermesNode

/-- `normalizeString`; above the root of an absolute path nothing is kept. -/
def normalizeString (absolute : Bool) (p : Bytes) : Bytes :=
  joinSlash ((splitSlash p).foldl (normalStep absolute) []).reverse

/-- `path.posix.dirname`. -/
def posixDirname (p : Bytes) : Bytes :=
  if p.isEmpty then dot
  else
    -- from the end back to the second byte: separators, a name, and the separator it ends at
    match (p.tail.reverse.dropWhile (· == slash)).dropWhile (· != slash) with
    | [] => if isAbsolute p then [slash] else dot
    | _ :: front =>
        if isAbsolute p && front.isEmpty then [slash, slash] else p.take (front.length + 1)

/-- `path.posix.resolve` of one argument. -/
def posixResolve (cwd p : Bytes) : Bytes :=
  if (p.isEmpty || p == dot) && isAbsolute cwd then cwd
  else
    let written := if p.isEmpty then [] else p ++ [slash]
    let resolvedPath := if isAbsolute p then written else cwd ++ slash :: written
    let resolvedAbsolute := isAbsolute p || isAbsolute cwd
    let body := normalizeString resolvedAbsolute resolvedPath
    if resolvedAbsolute then slash :: body else if body.isEmpty then dot else body

/-- The loop of `relative` over the bytes two paths share: the index it stops at and the index of
the last separator it passed. -/
def commonLoop : Bytes → Bytes → Nat → Int → Nat × Int
  | c :: p, d :: q, i, lastCommonSep =>
      if c = d then commonLoop p q (i + 1) (if c = slash then (i : Int) else lastCommonSep)
      else (i, lastCommonSep)
  | _, _, i, lastCommonSep => (i, lastCommonSep)

/-- One `..` for every separator of what is left of the path, and one for its end. -/
def climbOut : Bytes → Bytes → Bytes
  | out, [] => out ++ if out.isEmpty then dotDot else slash :: dotDot
  | out, c :: p =>
      climbOut (if c = slash then out ++ if out.isEmpty then dotDot else slash :: dotDot else out) p

/-- What `relative` does with the two resolved paths. -/
def relativeResolved (source dest : Bytes) : Bytes :=
  if source = dest then []
  else
    let sourceLen := source.length - 1
    let destLen := dest.length - 1
    let length := if sourceLen < destLen then sourceLen else destLen
    let stop := commonLoop (source.drop 1) (dest.drop 1) 0 (-1)
    let i := stop.1
    if i = length ∧ length < destLen ∧ dest[1 + i]? = some slash then dest.drop (1 + i + 1)
    else if i = length ∧ length < destLen ∧ i = 0 then dest.drop (1 + i)
    else
      let lastCommonSep : Int :=
        if i = length ∧ ¬ length < destLen ∧ length < sourceLen then
          if source[1 + i]? = some slash then i else if i = 0 then 0 else stop.2
        else stop.2
      climbOut [] (source.drop (1 + lastCommonSep + 1).toNat) ++
        dest.drop (1 + lastCommonSep).toNat

/-- `path.posix.relative`. -/
def posixRelative (cwd source dest : Bytes) : Bytes :=
  if source = dest then []
  else relativeResolved (posixResolve cwd source) (posixResolve cwd dest)

example : posixRelative (ascii "/w") (ascii "a/b") (ascii "a/.c/d") = ascii "../.c/d" := by decide

example : posixRelative (ascii "/w") dot (ascii "../wide/x") = ascii "../wide/x" := by decide

/-! ### `dirname` -/

/-- The first name of a path of names does not start with a separator. -/
theorem joinSlash_cons_ne {segs : List Bytes} (h : Names segs) (hne : segs ≠ []) :
    ∃ c p, joinSlash segs = c :: p ∧ c ≠ slash := by
  obtain ⟨c, p, hp⟩ := List.exists_cons_of_ne_nil (joinSlash_not_endsInSlash h.solid hne).2
  refine ⟨c, p, hp, ?_⟩
  rintro rfl
  have hsplit := splitSlash_joinSlash hne h.free
  rw [hp, splitSlash, if_pos rfl] at hsplit
  have hnil : ([] : Bytes) ∈ segs := by
    rw [← hsplit]
    exact List.mem_cons_self
  exact (h.plain [] hnil).1 rfl

theorem dropWhile_no_separator {p : Bytes} (h : slash ∉ p) : p.dropWhile (· != slash) = [] := by
  induction p with
  | nil => rfl
  | cons c p ih =>
      have hc : c ≠ slash := fun heq => h (by simp [heq])
      have hp : slash ∉ p := fun hin => h (List.mem_cons_of_mem _ hin)
      simpa [hc] using ih hp

/-- The directory of a relative path of names. -/
theorem posixDirname_joinSlash {front : List Bytes} {name : Bytes} (h : Names (front ++ [name])) :
    posixDirname (joinSlash (front ++ [name])) = if front = [] then dot else joinSlash front := by
  have hname := (h.plain name (by simp)).1
  have hfree := h.free name (by simp)
  -- the last byte is no separator, and none stands in the last name
  have hback : ∀ rest : Bytes, (name.reverse ++ rest).dropWhile (· == slash) =
      name.reverse ++ rest := by
    intro rest
    cases hrev : name.reverse with
    | nil => exact absurd (List.reverse_eq_nil_iff.mp hrev) hname
    | cons c cs =>
        have hc : c ≠ slash := by
          rintro rfl
          exact hfree (List.mem_reverse.mp (by rw [hrev]; exact List.mem_cons_self))
        simp [hc]
  have hfree' : slash ∉ name.reverse := by simpa using hfree
  by_cases hfront : front = []
  · subst hfront
    have hnot : isAbsolute name = false := not_absolute_of_free hfree
    have hback' : slash ∉ name.tail.reverse.dropWhile (· == slash) := by
      intro hin
      exact hfree (List.mem_of_mem_tail
        (List.mem_reverse.mp ((List.dropWhile_sublist _).subset hin)))
    have htail := dropWhile_no_separator hback'
    have hjoin : joinSlash [name] = name := rfl
    simp [posixDirname, hjoin, hname, htail, hnot]
  · obtain ⟨c, p, hp, hc⟩ := joinSlash_cons_ne h.left hfront
    have hrev : (p ++ slash :: name).reverse = name.reverse ++ slash :: p.reverse := by simp
    have htail : ((p ++ slash :: name).reverse.dropWhile (· == slash)).dropWhile (· != slash) =
        slash :: p.reverse := by
      rw [hrev, hback, dropWhile_free hfree']
    have habs : isAbsolute (c :: (p ++ slash :: name)) = false := by simp [isAbsolute, hc]
    rw [if_neg hfront, joinSlash_snoc hfront, hp, List.cons_append, posixDirname, List.tail_cons,
      htail]
    simp [habs]

/-! ### `resolve` -/

/-- A relative path is walked from the working directory. -/
theorem posixResolve_relative {cwd : List Bytes} (hcwd : Names cwd) {p : Bytes}
    (hp : isAbsolute p = false) :
    posixResolve (absPath cwd) p =
      absPath ((splitSlash p).foldl (normalStep true) cwd.reverse).reverse := by
  have hnothing : ∀ kept, normalStep true kept [] = kept := fun kept => by simp [normalStep]
  by_cases hstay : p = [] ∨ p = dot
  · have hsame : (splitSlash p).foldl (normalStep true) cwd.reverse = cwd.reverse := by
      rcases hstay with rfl | rfl
      · simp [splitSlash, hnothing]
      · have hsplit : splitSlash dot = [dot] := by decide
        simp [hsplit, normalStep]
    rw [hsame, List.reverse_reverse, posixResolve, if_pos]
    rcases hstay with rfl | rfl
    · rfl
    · rfl
  · rw [not_or] at hstay
    have hroot := normalSegments_absPath hcwd
    rw [normalSegments, absPath_isAbsolute] at hroot
    have hfold : (splitSlash (absPath cwd)).foldl (normalStep true) [] = cwd.reverse :=
      List.reverse_eq_iff.mp hroot
    have hend : splitSlash (p ++ [slash]) = splitSlash p ++ [[]] := by
      rw [splitSlash_append, splitSlash]
    have hempty : p.isEmpty = false := by simpa using hstay.1
    have hdot : (p == dot) = false := by simpa using hstay.2
    simp only [posixResolve, hempty, hdot, hp, absPath_isAbsolute, Bool.false_or, Bool.or_self,
      Bool.false_and, Bool.false_eq_true, if_false, if_true, normalizeString]
    rw [splitSlash_append, hend, List.foldl_append, List.foldl_append, hfold, List.foldl_cons,
      List.foldl_nil, hnothing]
    rfl

theorem posixResolve_absolute (cwd p : Bytes) :
    posixResolve cwd (slash :: p) = absPath ((splitSlash p).foldl (normalStep true) []).reverse := by
  have hnothing : ∀ kept, normalStep true kept [] = kept := fun kept => by simp [normalStep]
  have hdot : (slash :: p == dot) = false := by
    rw [beq_eq_false_iff_ne]
    intro heq
    exact absurd (List.cons.inj heq).1 (by decide)
  have habs : isAbsolute (slash :: p) = true := rfl
  simp only [posixResolve, List.isEmpty_cons, hdot, habs, Bool.false_or, Bool.true_or,
    Bool.false_and, Bool.false_eq_true, if_false, if_true, normalizeString, List.cons_append]
  rw [show splitSlash (slash :: (p ++ [slash])) = [] :: splitSlash (p ++ [slash]) from if_pos rfl,
    splitSlash_append, List.foldl_cons, hnothing, List.foldl_append]
  simp only [splitSlash, List.foldl_cons, List.foldl_nil, hnothing]
  rfl

/-! ### `relative` -/

theorem commonLoop_left (p q : Bytes) (i : Nat) (sep : Int) :
    (commonLoop p (p ++ q) i sep).1 = i + p.length := by
  induction p generalizing i sep with
  | nil => simp [commonLoop]
  | cons c p ih =>
      rw [List.cons_append, commonLoop, if_pos rfl, ih, List.length_cons]
      omega

theorem commonLoop_right (p q : Bytes) (i : Nat) (sep : Int) :
    (commonLoop (p ++ q) p i sep).1 = i + p.length := by
  induction p generalizing i sep with
  | nil =>
      cases q with
      | nil => rfl
      | cons d q => rfl
  | cons c p ih =>
      rw [List.cons_append, commonLoop, if_pos rfl, ih, List.length_cons]
      omega

/-- Behind a shared separator the loop goes on with that separator as the last one. -/
theorem commonLoop_separator (u p q : Bytes) (i : Nat) (sep : Int) :
    commonLoop (u ++ slash :: p) (u ++ slash :: q) i sep =
      commonLoop p q (i + u.length + 1) ((i + u.length : Nat) : Int) := by
  induction u generalizing i sep with
  | nil => simp [commonLoop]
  | cons c u ih =>
      rw [List.cons_append, List.cons_append, commonLoop, if_pos rfl, ih]
      have hnext : i + 1 + u.length = i + (c :: u).length := by
        rw [List.length_cons]
        omega
      rw [hnext]

/-- Two different names end the loop before the next separator; where one of them ends there, the
other one goes on with no separator. -/
theorem commonLoop_apart {x y xs ys : Bytes} (hx : slash ∉ x) (hy : slash ∉ y) (hne : x ≠ y)
    (hxs : xs = [] ∨ xs.head? = some slash) (hys : ys = [] ∨ ys.head? = some slash)
    (i : Nat) (sep : Int) :
    ∃ n, commonLoop (x ++ xs) (y ++ ys) i sep = (i + n, sep) ∧
      (n = (x ++ xs).length → (y ++ ys)[n]? ≠ some slash) ∧
      (n = (y ++ ys).length → (x ++ xs)[n]? ≠ some slash) := by
  induction x generalizing y i with
  | nil =>
      cases y with
      | nil => exact absurd rfl hne
      | cons d y =>
          have hd : d ≠ slash := fun heq => hy (by simp [heq])
          refine ⟨0, ?_, ?_, ?_⟩
          · rcases hxs with rfl | hhead
            · simp [commonLoop]
            · obtain ⟨rest, rfl⟩ := List.head?_eq_some_iff.mp hhead
              simp [commonLoop, Ne.symm hd]
          · intro _
            simpa using hd
          · intro hlen
            simp at hlen
  | cons c x ih =>
      have hc : c ≠ slash := fun heq => hx (by simp [heq])
      cases y with
      | nil =>
          refine ⟨0, ?_, ?_, ?_⟩
          · rcases hys with rfl | hhead
            · simp [commonLoop]
            · obtain ⟨rest, rfl⟩ := List.head?_eq_some_iff.mp hhead
              simp [commonLoop, hc]
          · intro hlen
            simp at hlen
          · intro _
            simpa using hc
      | cons d y =>
          by_cases heq : c = d
          · subst heq
            have hx' : slash ∉ x := fun hin => hx (List.mem_cons_of_mem _ hin)
            have hy' : slash ∉ y := fun hin => hy (List.mem_cons_of_mem _ hin)
            obtain ⟨n, hloop, hleft, hright⟩ := ih hx' hy' (fun h => hne (by rw [h])) (i + 1)
            refine ⟨n + 1, ?_, ?_, ?_⟩
            · rw [List.cons_append, List.cons_append, commonLoop, if_pos rfl, if_neg hc, hloop]
              have hnext : i + 1 + n = i + (n + 1) := by omega
              rw [hnext]
            · intro hlen
              rw [List.cons_append, List.length_cons] at hlen
              simpa using hleft (by omega)
            · intro hlen
              rw [List.cons_append, List.length_cons] at hlen
              simpa using hright (by omega)
          · refine ⟨0, ?_, ?_, ?_⟩
            · simp [commonLoop, heq]
            · intro hlen
              simp at hlen
            · intro hlen
              simp at hlen

theorem joinSlash_replicate_succ (n : Nat) :
    joinSlash (List.replicate (n + 1) dotDot) =
      joinSlash (List.replicate n dotDot) ++
        if (joinSlash (List.replicate n dotDot)).isEmpty then dotDot else slash :: dotDot := by
  cases n with
  | zero => rfl
  | succ n =>
      have hsolid : Solid (List.replicate (n + 1) dotDot) := by
        intro seg hseg
        rw [(List.mem_replicate.mp hseg).2]
        decide
      have hne : List.replicate (n + 1) dotDot ≠ [] := by simp
      have hbody := (joinSlash_not_endsInSlash hsolid hne).2
      have hempty : (joinSlash (List.replicate (n + 1) dotDot)).isEmpty = false := by
        simpa using hbody
      rw [List.replicate_succ', joinSlash_snoc hne, hempty]
      rfl

theorem climbOut_eq (n : Nat) (p : Bytes) :
    climbOut (joinSlash (List.replicate n dotDot)) p =
      joinSlash (List.replicate (n + p.count slash + 1) dotDot) := by
  induction p generalizing n with
  | nil => rw [climbOut, List.count_nil, Nat.add_zero, joinSlash_replicate_succ n]
  | cons c p ih =>
      by_cases hc : c = slash
      · subst hc
        rw [climbOut, if_pos rfl, ← joinSlash_replicate_succ, ih, List.count_cons_self]
        have hcount : n + 1 + p.count slash + 1 = n + (p.count slash + 1) + 1 := by omega
        rw [hcount]
      · rw [climbOut, if_neg hc, ih, List.count_cons_of_ne hc]

/-- Names have one separator fewer between them than there are. -/
theorem count_joinSlash {segs : List Bytes} (hne : segs ≠ []) (hfree : ∀ seg ∈ segs, slash ∉ seg) :
    (joinSlash segs).count slash + 1 = segs.length := by
  induction segs with
  | nil => exact absurd rfl hne
  | cons seg rest ih =>
      have hseg : seg.count slash = 0 := List.count_eq_zero.mpr (hfree seg (by simp))
      by_cases hrest : rest = []
      · subst hrest
        simp [joinSlash, hseg]
      · have hlen := ih hrest fun s hs => hfree s (List.mem_cons_of_mem _ hs)
        rw [joinSlash_cons hrest, List.count_append, List.count_cons_self, hseg, List.length_cons]
        omega

/-- The climb out of the names of a directory. -/
theorem climbOut_joinSlash {segs : List Bytes} (hne : segs ≠ [])
    (hfree : ∀ seg ∈ segs, slash ∉ seg) :
    climbOut [] (joinSlash segs) = joinSlash (List.replicate segs.length dotDot) := by
  have hclimb := climbOut_eq 0 (joinSlash segs)
  rw [Nat.zero_add, count_joinSlash hne hfree] at hclimb
  exact hclimb

theorem absPath_ne {front a b : List Bytes} (ha : Names (front ++ a)) (hb : Names (front ++ b))
    (hne : a ≠ b) : absPath (front ++ a) ≠ absPath (front ++ b) :=
  fun heq => hne (List.append_cancel_left (absPath_inj ha hb heq))

/-- Behind a directory: what is written behind its separator. -/
theorem absPath_behind {front rest : List Bytes} (hfront : front ≠ []) (hrest : rest ≠ []) :
    absPath (front ++ rest) = slash :: (joinSlash front ++ slash :: joinSlash rest) := by
  rw [absPath, joinSlash_append hfront hrest]

/-- Down from a directory to what is below it. -/
theorem relativeResolved_below {front b : List Bytes} (h : Names (front ++ b)) (hb : b ≠ []) :
    relativeResolved (absPath front) (absPath (front ++ b)) = joinSlash b := by
  have hne := @absPath_ne front [] b (by simpa using h.left) h hb.symm
  rw [List.append_nil] at hne
  obtain ⟨c, p, hp, hc⟩ := joinSlash_cons_ne h.right hb
  by_cases hfront : front = []
  · subst hfront
    -- from the root nothing is shared
    have hsource : absPath [] = [slash] := rfl
    have hdest : absPath ([] ++ b) = slash :: c :: p := by rw [List.nil_append, absPath, hp]
    rw [hdest, hsource] at hne ⊢
    rw [relativeResolved, if_neg hne, hp]
    simp [commonLoop, hc]
  · have hsource : absPath front = slash :: joinSlash front := rfl
    have hloop := commonLoop_left (joinSlash front) (slash :: joinSlash b) 0 (-1)
    rw [Nat.zero_add] at hloop
    have hat : (slash :: (joinSlash front ++ slash :: joinSlash b))[1 + (joinSlash front).length]? =
        some slash := by
      rw [Nat.add_comm, List.getElem?_cons_succ, List.getElem?_append_right (Nat.le_refl _)]
      simp
    have hdrop : (slash :: (joinSlash front ++ slash :: joinSlash b)).drop
        (1 + (joinSlash front).length + 1) = joinSlash b := by
      have hlen : 1 + (joinSlash front).length + 1 = (joinSlash front).length + 1 + 1 := by omega
      rw [hlen, List.drop_succ_cons, List.drop_append]
      simp
    rw [absPath_behind hfront hb, hsource] at hne ⊢
    have hshort : (joinSlash front).length <
        (joinSlash front ++ slash :: joinSlash b).length := by
      rw [List.length_append, List.length_cons]
      omega
    simp only [relativeResolved, if_neg hne, List.drop_succ_cons, List.drop_zero, hloop,
      List.length_cons, Nat.add_sub_cancel, hat, true_and, hshort, if_true, hdrop]

/-- Up to a directory from what is below it. -/
theorem relativeResolved_above {front a : List Bytes} (h : Names (front ++ a)) (ha : a ≠ []) :
    relativeResolved (absPath (front ++ a)) (absPath front) =
      joinSlash (List.replicate a.length dotDot) := by
  have hne := @absPath_ne front a [] h (by simpa using h.left) ha
  rw [List.append_nil] at hne
  obtain ⟨c, p, hp, hc⟩ := joinSlash_cons_ne h.right ha
  have hclimb := climbOut_joinSlash ha h.right.free
  by_cases hfront : front = []
  · subst hfront
    -- the climb starts behind the first byte, which is no separator
    have hdest : absPath [] = [slash] := rfl
    have hsource : absPath ([] ++ a) = slash :: c :: p := by rw [List.nil_append, absPath, hp]
    rw [hp, climbOut, if_neg hc] at hclimb
    rw [hdest, hsource] at hne ⊢
    rw [relativeResolved, if_neg hne]
    simp [commonLoop, hc, hclimb]
  · have hdest : absPath front = slash :: joinSlash front := rfl
    have hloop := commonLoop_right (joinSlash front) (slash :: joinSlash a) 0 (-1)
    rw [Nat.zero_add] at hloop
    have hat : (slash :: (joinSlash front ++ slash :: joinSlash a))[1 + (joinSlash front).length]? =
        some slash := by
      rw [Nat.add_comm, List.getElem?_cons_succ, List.getElem?_append_right (Nat.le_refl _)]
      simp
    have hshort : (joinSlash front).length <
        (joinSlash front ++ slash :: joinSlash a).length := by
      rw [List.length_append, List.length_cons]
      omega
    have hsep : (1 + ((joinSlash front).length : Int) + 1).toNat =
        (joinSlash front).length + 1 + 1 := by omega
    have hsep' : (1 + ((joinSlash front).length : Int)).toNat = (joinSlash front).length + 1 := by
      omega
    have hdrop : (joinSlash front ++ slash :: joinSlash a).drop ((joinSlash front).length + 1) =
        joinSlash a := by
      rw [List.drop_append]
      simp
    rw [absPath_behind hfront ha, hdest] at hne ⊢
    simp only [relativeResolved, if_neg hne, List.drop_succ_cons, List.drop_zero, hloop,
      List.length_cons, Nat.add_sub_cancel, if_neg (Nat.lt_asymm hshort), hat, true_and, hshort,
      Nat.lt_irrefl, false_and, if_false, if_true, not_false_eq_true, hsep, hsep', hdrop, hclimb]
    simp

/-- What two paths behind one directory share, up to its separator. -/
theorem shared_front (front : List Bytes) :
    ∃ u : Bytes, (slash :: u).drop u.length = [slash] ∧
      (∀ rest, rest ≠ [] → absPath (front ++ rest) = slash :: (u ++ joinSlash rest)) ∧
      ∀ p q, commonLoop (u ++ p) (u ++ q) 0 (-1) = commonLoop p q u.length ((u.length : Int) - 1) := by
  by_cases hfront : front = []
  · subst hfront
    exact ⟨[], rfl, fun rest _ => rfl, fun p q => rfl⟩
  · refine ⟨joinSlash front ++ [slash], ?_, ?_, ?_⟩
    · rw [List.length_append, List.length_singleton, List.drop_succ_cons, List.drop_left]
    · intro rest hrest
      rw [absPath_behind hfront hrest]
      simp
    · intro p q
      have hsep := commonLoop_separator (joinSlash front) p q 0 (-1)
      rw [Nat.zero_add] at hsep
      have hlen : (((joinSlash front ++ [slash]).length : Nat) : Int) - 1 =
          ((joinSlash front).length : Int) := by
        rw [List.length_append, List.length_singleton]
        omega
      rw [hlen, List.length_append, List.length_singleton, List.append_assoc, List.append_assoc]
      exact hsep

/-- From one name of a directory to another one. -/
theorem relativeResolved_apart {front a b : List Bytes} (ha : Names (front ++ a))
    (hb : Names (front ++ b)) (hane : a ≠ []) (hbne : b ≠ []) (happart : a.head? ≠ b.head?) :
    relativeResolved (absPath (front ++ a)) (absPath (front ++ b)) =
      joinSlash (List.replicate a.length dotDot ++ b) := by
  have hne : absPath (front ++ a) ≠ absPath (front ++ b) :=
    absPath_ne ha hb fun heq => happart (by rw [heq])
  have hclimb := climbOut_joinSlash hane ha.right.free
  have hsource := (joinSlash_not_endsInSlash ha.right.solid hane).2
  have hdest := (joinSlash_not_endsInSlash hb.right.solid hbne).2
  -- the loop ends within the first names
  have hloop : ∀ (i : Nat) (sep : Int), ∃ n,
      commonLoop (joinSlash a) (joinSlash b) i sep = (i + n, sep) ∧
        (n = (joinSlash a).length → (joinSlash b)[n]? ≠ some slash) ∧
        (n = (joinSlash b).length → (joinSlash a)[n]? ≠ some slash) := by
    obtain ⟨x, xs, rfl⟩ := List.exists_cons_of_ne_nil hane
    obtain ⟨y, ys, rfl⟩ := List.exists_cons_of_ne_nil hbne
    have hbehind : ∀ (z : Bytes) (zs : List Bytes), ∃ tail,
        joinSlash (z :: zs) = z ++ tail ∧ (tail = [] ∨ tail.head? = some slash) := by
      intro z zs
      by_cases hzs : zs = []
      · subst hzs
        exact ⟨[], by simp [joinSlash], Or.inl rfl⟩
      · exact ⟨slash :: joinSlash zs, joinSlash_cons hzs, Or.inr rfl⟩
    obtain ⟨tail, hx, htail⟩ := hbehind x xs
    obtain ⟨tail', hy, htail'⟩ := hbehind y ys
    rw [hx, hy]
    apply commonLoop_apart (ha.right.free x (by simp)) (hb.right.free y (by simp)) _ htail htail'
    rintro rfl
    exact happart rfl
  obtain ⟨u, hsep, hbehind, hshared⟩ := shared_front front
  rw [hbehind a hane, hbehind b hbne] at hne ⊢
  generalize joinSlash a = p at *
  generalize hq : joinSlash b = q at *
  obtain ⟨n, hn, hleft, hright⟩ := hloop u.length ((u.length : Int) - 1)
  have hp : 0 < p.length := List.length_pos_iff.mpr hsource
  have hq' : 0 < q.length := List.length_pos_iff.mpr hdest
  have hat : ∀ r : Bytes, (slash :: (u ++ r))[1 + (u.length + n)]? = r[n]? := by
    intro r
    rw [Nat.add_comm, List.getElem?_cons_succ, List.getElem?_append_right (by omega),
      Nat.add_sub_cancel_left]
  have hcut : (slash :: (u ++ p)).drop (1 + ((u.length : Int) - 1) + 1).toNat = p := by
    have hlen : (1 + ((u.length : Int) - 1) + 1).toNat = u.length + 1 := by omega
    rw [hlen, List.drop_succ_cons, List.drop_left]
  have hcut' : (slash :: (u ++ q)).drop (1 + ((u.length : Int) - 1)).toNat = slash :: q := by
    have hlen : (1 + ((u.length : Int) - 1)).toNat = u.length := by omega
    rw [hlen, ← List.cons_append, List.drop_append_of_le_length (by simp), hsep]
    rfl
  simp only [relativeResolved, if_neg hne, List.drop_succ_cons, List.drop_zero, hshared, hn,
    List.length_cons, Nat.add_sub_cancel, List.length_append, hat]
  generalize hlength : (if u.length + p.length < u.length + q.length then u.length + p.length
    else u.length + q.length) = length
  have hcases : (length = u.length + p.length ∧ length < u.length + q.length) ∨
      (length = u.length + q.length ∧ ¬ u.length + p.length < u.length + q.length) := by
    rw [← hlength]
    split
    · rename_i hlt
      exact Or.inl ⟨rfl, hlt⟩
    · rename_i hlt
      exact Or.inr ⟨rfl, hlt⟩
  -- where one path ends, the other one goes on within a name
  have hbelow : ¬ (u.length + n = length ∧ length < u.length + q.length ∧ q[n]? = some slash) := by
    rintro ⟨hend, hlt, hslash⟩
    exact hleft (by omega) hslash
  have hroot : ¬ (u.length + n = length ∧ length < u.length + q.length ∧ u.length + n = 0) := by
    omega
  have hkept : (if u.length + n = length ∧ ¬ length < u.length + q.length ∧
      length < u.length + p.length then
        if p[n]? = some slash then ((u.length + n : Nat) : Int)
        else if u.length + n = 0 then 0 else (u.length : Int) - 1
      else (u.length : Int) - 1) = (u.length : Int) - 1 := by
    split
    · rename_i hend
      rw [if_neg (hright (by omega)), if_neg (by omega)]
    · rfl
  rw [if_neg hbelow, if_neg hroot, hkept, hcut, hcut', hclimb, ← hq,
    joinSlash_append (by simpa using hane) hbne]

/-- `relative` of two paths of names: a dot-dot for each name of the first behind their common front,
then the names of the second. -/
theorem relativeResolved_absPath {front a b : List Bytes} (ha : Names (front ++ a))
    (hb : Names (front ++ b)) (hne : a ≠ b)
    (happart : a = [] ∨ b = [] ∨ a.head? ≠ b.head?) :
    relativeResolved (absPath (front ++ a)) (absPath (front ++ b)) =
      joinSlash (List.replicate a.length dotDot ++ b) := by
  by_cases hnil : a = []
  · subst hnil
    rw [List.append_nil, relativeResolved_below hb hne.symm]
    rfl
  · by_cases hbnil : b = []
    · subst hbnil
      rw [List.append_nil, List.append_nil, relativeResolved_above ha hnil]
    · exact relativeResolved_apart ha hb hnil hbnil
        ((happart.resolve_left hnil).resolve_left hbnil)

end HermesNode
