/-
Module: HermesNode.Lib.UrlPath
Purpose: The path of a `file:` URL in the URL standard. Its segments are percent-encoded, dot segments
  are taken out, an empty segment is one like any other, and a Windows drive letter in front is never
  taken out. `path.resolve` drops empty segments and knows no drive letters; a count along the segments
  tells where the two keep the same ones.
Trusted boundary: human-reviewed spec (the path state of the URL standard)
Main exports: inPathSet, pathState, removeDots_iff
-/
import HermesNode.Lib.PosixPath
import HermesNode.Lib.Uri

namespace HermesNode

/-! ### The path state -/

/-- The path percent-encode set, by bytes: those of a code point beyond ASCII are all in it. -/
def inPathSet (b : UInt8) : Bool :=
  b ≤ 0x1F || 0x7E < b || [0x20, 0x22, 0x23, 0x3C, 0x3E, 0x3F, 0x5E, 0x60, 0x7B, 0x7D].contains b

def encodePathByte (b : UInt8) : Bytes :=
  if inPathSet b then (percentByte b.toNat).map UInt16.toUInt8 else [b]

/-- The spellings of a single-dot segment. -/
def singleDots : List Bytes := [".", "%2e", "%2E"].map ascii

/-- The spellings of a double-dot segment. -/
def doubleDots : List Bytes :=
  ["..", ".%2e", ".%2E", "%2e.", "%2E.", "%2e%2e", "%2e%2E", "%2E%2e", "%2E%2E"].map ascii

def isAsciiAlpha (b : UInt8) : Bool := (65 ≤ b && b ≤ 90) || (97 ≤ b && b ≤ 122)

def isDriveLetter : Bytes → Bool
  | [a, b] => isAsciiAlpha a && (b == 58 || b == 124)
  | _ => false

def isNormalizedDriveLetter : Bytes → Bool
  | [a, b] => isAsciiAlpha a && b == 58
  | _ => false

variable {seg : Bytes}

theorem isDriveLetter_iff :
    isDriveLetter seg = true ↔ ∃ a b, seg = [a, b] ∧ isAsciiAlpha a = true ∧ (b = 58 ∨ b = 124) := by
  match seg with
  | [] => simp [isDriveLetter]
  | [a] => simp [isDriveLetter]
  | [a, b] => simp [isDriveLetter]
  | a :: b :: c :: rest => simp [isDriveLetter]

theorem isNormalizedDriveLetter_iff :
    isNormalizedDriveLetter seg = true ↔ ∃ a, seg = [a, 58] ∧ isAsciiAlpha a = true := by
  match seg with
  | [] => simp [isNormalizedDriveLetter]
  | [a] => simp [isNormalizedDriveLetter]
  | [a, b] => simp [isNormalizedDriveLetter, and_comm]
  | a :: b :: c :: rest => simp [isNormalizedDriveLetter]

/-- A path without its last segment, which stands first in the list. -/
def shorten : List Bytes → List Bytes
  | [drive] => if isNormalizedDriveLetter drive then [drive] else []
  | path => path.tail

/-- The end of a segment, before a separator or at the end of the path. -/
def pathStep (isLast : Bool) (path : List Bytes) (segment : Bytes) : List Bytes :=
  let buffer := segment.flatMap encodePathByte
  if doubleDots.contains buffer then
    if isLast then [] :: shorten path else shorten path
  else if singleDots.contains buffer then
    if isLast then [] :: path else path
  else if path.isEmpty && isDriveLetter buffer then buffer.set 1 58 :: path
  else buffer :: path

def pathState (path : List Bytes) : List Bytes → List Bytes
  | [] => path
  | [last] => pathStep true path last
  | seg :: next :: rest => pathState (pathStep false path seg) (next :: rest)

/-- The serialized path, from its segments with the last one first. -/
def serializePath (path : List Bytes) : Bytes := path.reverse.flatMap (slash :: ·)

/-! ### Segments as they are -/

/-- A segment that is not the last one. -/
def dotStep (path : List Bytes) (seg : Bytes) : List Bytes :=
  if seg = dotDot then shorten path else if seg = dot then path else seg :: path

/-- The path state over segments that need no encoding. -/
def removeDots (path : List Bytes) : List Bytes → List Bytes
  | [] => path
  | [last] => if last = dot ∨ last = dotDot then [] :: dotStep path last else dotStep path last
  | seg :: next :: rest => removeDots (dotStep path seg) (next :: rest)

theorem removeDots_snoc (path front : List Bytes) (last : Bytes) :
    removeDots path (front ++ [last]) =
      if last = dot ∨ last = dotDot then [] :: dotStep (front.foldl dotStep path) last
      else dotStep (front.foldl dotStep path) last := by
  induction front generalizing path with
  | nil => rfl
  | cons seg front ih =>
      obtain ⟨next, rest, hrest⟩ := List.exists_cons_of_ne_nil (List.append_ne_nil_of_right_ne_nil
        front (List.cons_ne_nil last []))
      rw [List.cons_append, List.foldl_cons, ← ih, hrest, removeDots]

variable {path : List Bytes}

theorem shorten_mem (h : seg ∈ shorten path) : seg ∈ path := by
  match path with
  | [] => exact h
  | [drive] =>
      rw [shorten] at h
      split at h
      · exact h
      · cases h
  | top :: next :: rest => exact List.mem_cons_of_mem _ h

theorem dotStep_mem {seg s : Bytes} (h : s ∈ dotStep path seg) :
    s = seg ∨ s ∈ path := by
  unfold dotStep at h
  split at h
  · exact Or.inr (shorten_mem h)
  split at h
  · exact Or.inr h
  · exact List.mem_cons.mp h

/-- No segment is made up. -/
theorem foldl_dotStep_mem {path segs : List Bytes} {s : Bytes} (h : s ∈ segs.foldl dotStep path) :
    s ∈ segs ∨ s ∈ path := by
  induction segs generalizing path with
  | nil => exact Or.inr h
  | cons seg segs ih =>
      obtain hin | hin := ih h
      · exact Or.inl (List.mem_cons_of_mem _ hin)
      · obtain rfl | hpath := dotStep_mem hin
        · exact Or.inl List.mem_cons_self
        · exact Or.inr hpath

theorem removeDots_mem {front : List Bytes} {last s : Bytes}
    (h : s ∈ removeDots [] (front ++ [last])) : s = [] ∨ s ∈ front ++ [last] := by
  have hstep : s ∈ dotStep (front.foldl dotStep []) last → s ∈ front ++ [last] := by
    intro hin
    obtain rfl | hin := dotStep_mem hin
    · exact List.mem_append_right _ List.mem_cons_self
    · obtain hin | hnil := foldl_dotStep_mem hin
      · exact List.mem_append_left _ hin
      · cases hnil
  rw [removeDots_snoc] at h
  split at h
  · obtain rfl | hin := List.mem_cons.mp h
    · exact Or.inl rfl
    · exact Or.inr (hstep hin)
  · exact Or.inr (hstep h)

/-- The path ends in its last segment, or in a separator. -/
theorem removeDots_last (front : List Bytes) (last : Bytes) :
    ∃ top rest, removeDots [] (front ++ [last]) = top :: rest ∧ (top = [] ∨ top = last) := by
  rw [removeDots_snoc]
  split
  · exact ⟨[], _, rfl, Or.inl rfl⟩
  · rename_i hdots
    rw [not_or] at hdots
    rw [dotStep, if_neg hdots.2, if_neg hdots.1]
    exact ⟨last, _, rfl, Or.inr rfl⟩

theorem serializePath_absPath (h : path ≠ []) :
    serializePath path = absPath path.reverse := by
  have hjoin : ∀ segs : List Bytes, segs ≠ [] → segs.flatMap (slash :: ·) = absPath segs := by
    intro segs hsegs
    induction segs with
    | nil => exact absurd rfl hsegs
    | cons seg segs ih =>
        by_cases hnil : segs = []
        · subst hnil
          simp [absPath, joinSlash]
        · rw [List.flatMap_cons, ih hnil, absPath, absPath, joinSlash_cons hnil, List.cons_append]
  exact hjoin path.reverse fun hnil => h (List.reverse_eq_nil_iff.mp hnil)

/-! ### Beside `path.resolve` -/

/-- What a count along the segments knows: the first segment of the URL, how many segments
`path.resolve` has kept, and how many more the URL has. -/
structure Count where
  front : Bytes
  kept : Nat
  extra : Nat
deriving Repr, DecidableEq

/-- The count behind a segment. An empty one is one more of the URL alone, and a `..` takes one of
these back where `path.resolve` has nothing left to drop. There is no count where a `..` meets a drive
letter that stands alone. -/
def Count.step (count : Count) (seg : Bytes) : Option Count :=
  if seg = dot then some count
  else if seg = dotDot then
    if isNormalizedDriveLetter count.front ∧ count.kept + count.extra = 1 then none
    else if count.kept = 0 then some { count with extra := count.extra - 1 }
    else some { count with kept := count.kept - 1 }
  else
    let front := if count.kept + count.extra = 0 then seg else count.front
    if seg = [] then some { count with front := front, extra := count.extra + 1 }
    else some { count with front := front, kept := count.kept + 1 }

def Count.start : Count := { front := [], kept := 0, extra := 0 }

/-- The count tells how two paths of the same segments differ. -/
structure Counted (count : Count) (url resolved : List Bytes) : Prop where
  sub : resolved.Sublist url
  kept : resolved.length = count.kept
  total : url.length = count.kept + count.extra
  front : url ≠ [] → url.getLast? = some count.front
  plain : Plain resolved

/-- The URL holds on to a drive letter that `path.resolve` has dropped. -/
structure Pinned (url resolved : List Bytes) : Prop where
  drive : ∃ drive, url.getLast? = some drive ∧ isNormalizedDriveLetter drive = true
  longer : resolved.length < url.length
  plain : Plain resolved

theorem shorten_of_length (h : path.length ≠ 1) : shorten path = path.tail := by
  match path with
  | [] => rfl
  | [drive] => exact absurd rfl h
  | top :: next :: rest => rfl

theorem shorten_singleton (drive : Bytes) :
    shorten [drive] = if isNormalizedDriveLetter drive then [drive] else [] := rfl

/-- `path.resolve` takes the top segment, if there is one. -/
theorem normalStep_dotDot {kept : List Bytes} (h : Plain kept) :
    normalStep true kept dotDot = kept.tail := by
  cases kept with
  | nil => simp [normalStep, show dotDot ≠ [] ∧ dotDot ≠ dot by decide]
  | cons top rest => exact normalStep_pop (h top List.mem_cons_self).2.2

theorem plain_tail {segs : List Bytes} (h : Plain segs) : Plain segs.tail :=
  fun seg hseg => h seg (List.mem_of_mem_tail hseg)

theorem getLast?_tail (h : path.tail ≠ []) :
    path.tail.getLast? = path.getLast? := by
  match path with
  | [] => exact absurd rfl h
  | [top] => exact absurd rfl h
  | top :: next :: rest => rw [List.tail_cons, List.getLast?_cons_cons]

theorem plain_cons {segs : List Bytes} (hseg : seg ≠ [] ∧ seg ≠ dot ∧ seg ≠ dotDot)
    (h : Plain segs) : Plain (seg :: segs) := by
  intro s hs
  obtain rfl | hin := List.mem_cons.mp hs
  · exact hseg
  · exact h s hin

section

variable {count : Count} {url resolved : List Bytes}

/-- A `..` that meets no lone drive letter takes the last segment of the URL. -/
theorem Counted.shorten_eq (h : Counted count url resolved)
    (hlone : ¬ (isNormalizedDriveLetter count.front = true ∧ count.kept + count.extra = 1)) :
    shorten url = url.tail := by
  by_cases hone : url.length = 1
  · obtain ⟨drive, rfl⟩ := List.length_eq_one_iff.mp hone
    have hdrive : drive = count.front := by simpa using h.front (List.cons_ne_nil _ _)
    rw [shorten_singleton, hdrive, if_neg fun hyes => hlone ⟨hyes, h.total.symm.trans hone⟩]
    rfl
  · exact shorten_of_length hone

theorem Counted.climb (h : Counted count url resolved) :
    (∃ next, count.step dotDot = some next ∧
      Counted next (dotStep url dotDot) (normalStep true resolved dotDot)) ∨
    count.step dotDot = none ∧ Pinned (dotStep url dotDot) (normalStep true resolved dotDot) := by
  have htotal := h.total
  have hkept := h.kept
  rw [normalStep_dotDot h.plain, dotStep, if_pos rfl]
  unfold Count.step
  rw [if_neg (by decide), if_pos rfl]
  by_cases hlone : isNormalizedDriveLetter count.front = true ∧ count.kept + count.extra = 1
  · -- The drive letter stays, and `path.resolve` has nothing left.
    obtain ⟨drive, rfl⟩ := List.length_eq_one_iff.mp (htotal.trans hlone.2)
    have hdrive : drive = count.front := by simpa using h.front (List.cons_ne_nil _ _)
    have hle := h.sub.length_le
    rw [List.length_singleton] at hle
    refine Or.inr ⟨if_pos hlone, ?_⟩
    rw [shorten_singleton, hdrive, if_pos hlone.1]
    refine ⟨⟨_, rfl, hlone.1⟩, ?_, plain_tail h.plain⟩
    rw [List.length_tail, List.length_singleton]
    omega
  · have hfront : url.tail ≠ [] → url.tail.getLast? = some count.front := by
      intro hne
      rw [getLast?_tail hne]
      exact h.front fun hnil => hne (by rw [hnil]; rfl)
    rw [if_neg hlone, h.shorten_eq hlone]
    by_cases hzero : count.kept = 0
    · -- Only the URL has a segment to take.
      obtain rfl : resolved = [] := List.eq_nil_of_length_eq_zero (hkept.trans hzero)
      rw [if_pos hzero]
      refine Or.inl ⟨_, rfl, List.nil_sublist _, hkept, ?_, hfront, plain_tail h.plain⟩
      rw [List.length_tail]
      dsimp only
      omega
    · rw [if_neg hzero]
      refine Or.inl ⟨_, rfl, h.sub.tail, ?_, ?_, hfront, plain_tail h.plain⟩
      · rw [List.length_tail]
        dsimp only
        omega
      · rw [List.length_tail]
        dsimp only
        omega

theorem Counted.push (h : Counted count url resolved) (hdot : seg ≠ dot)
    (hdotDot : seg ≠ dotDot) :
    ∃ next, count.step seg = some next ∧
      Counted next (dotStep url seg) (normalStep true resolved seg) := by
  have htotal := h.total
  have hfront : (seg :: url).getLast? =
      some (if count.kept + count.extra = 0 then seg else count.front) := by
    rw [← htotal]
    cases url with
    | nil => rfl
    | cons top rest => rw [List.getLast?_cons_cons, h.front (List.cons_ne_nil _ _), if_neg (by simp)]
  unfold Count.step
  rw [if_neg hdot, if_neg hdotDot, dotStep, if_neg hdotDot, if_neg hdot]
  by_cases hempty : seg = []
  · rw [normalStep_stay (Or.inl hempty)]
    refine ⟨_, if_pos hempty, h.sub.cons _, h.kept, ?_, fun _ => hfront, h.plain⟩
    rw [List.length_cons, htotal]
    rfl
  · rw [normalStep_push ⟨hempty, hdot, hdotDot⟩]
    refine ⟨_, if_neg hempty, h.sub.cons_cons _, ?_, ?_, fun _ => hfront,
      plain_cons ⟨hempty, hdot, hdotDot⟩ h.plain⟩
    · rw [List.length_cons, h.kept]
    · rw [List.length_cons, htotal]
      dsimp only
      omega

/-- The step of a count: it keeps counting, or the URL holds on to a drive letter. -/
theorem counted_step (h : Counted count url resolved) (seg : Bytes) :
    (∃ next, count.step seg = some next ∧
      Counted next (dotStep url seg) (normalStep true resolved seg)) ∨
    count.step seg = none ∧ Pinned (dotStep url seg) (normalStep true resolved seg) := by
  by_cases hdotDot : seg = dotDot
  · rw [hdotDot]
    exact h.climb
  by_cases hdot : seg = dot
  · refine Or.inl ⟨count, if_pos hdot, ?_⟩
    rw [normalStep_stay (Or.inr hdot), dotStep, if_neg hdotDot, if_pos hdot]
    exact h
  · exact Or.inl (h.push hdot hdotDot)

/-- A drive letter that the URL holds on to stays. -/
theorem pinned_step (h : Pinned url resolved) (seg : Bytes) :
    Pinned (dotStep url seg) (normalStep true resolved seg) := by
  obtain ⟨⟨drive, hlast, hdrive⟩, hlonger, hplain⟩ := h
  by_cases hdotDot : seg = dotDot
  · subst hdotDot
    rw [normalStep_dotDot hplain, dotStep, if_pos rfl]
    by_cases hone : url.length = 1
    · obtain ⟨top, rfl⟩ := List.length_eq_one_iff.mp hone
      obtain rfl : top = drive := by simpa using hlast
      rw [shorten_singleton, if_pos hdrive]
      refine ⟨⟨_, hlast, hdrive⟩, ?_, plain_tail hplain⟩
      rw [List.length_tail]
      omega
    · rw [shorten_of_length hone]
      have hne : url.tail ≠ [] := by
        intro hnil
        have hlength := congrArg List.length hnil
        rw [List.length_tail, List.length_nil] at hlength
        omega
      refine ⟨⟨drive, ?_, hdrive⟩, ?_, plain_tail hplain⟩
      · rw [getLast?_tail hne, hlast]
      · rw [List.length_tail, List.length_tail]
        omega
  by_cases hdot : seg = dot
  · rw [normalStep_stay (Or.inr hdot), dotStep, if_neg hdotDot, if_pos hdot]
    exact ⟨⟨drive, hlast, hdrive⟩, hlonger, hplain⟩
  · rw [dotStep, if_neg hdotDot, if_neg hdot]
    have hbottom : (seg :: url).getLast? = some drive := by
      cases url with
      | nil => cases hlast
      | cons top rest => rw [List.getLast?_cons_cons, hlast]
    by_cases hempty : seg = []
    · rw [normalStep_stay (Or.inl hempty)]
      exact ⟨⟨drive, hbottom, hdrive⟩, Nat.lt_succ_of_lt hlonger, hplain⟩
    · rw [normalStep_push ⟨hempty, hdot, hdotDot⟩]
      exact ⟨⟨drive, hbottom, hdrive⟩, Nat.succ_lt_succ hlonger,
        plain_cons ⟨hempty, hdot, hdotDot⟩ hplain⟩

end

variable {url resolved : List Bytes}

theorem pinned_foldl (h : Pinned url resolved) (segs : List Bytes) :
    Pinned (segs.foldl dotStep url) (segs.foldl (normalStep true) resolved) := by
  induction segs generalizing url resolved with
  | nil => exact h
  | cons seg segs ih => exact ih (pinned_step h seg)

def Count.scan (count : Count) : List Bytes → Option Count
  | [] => some count
  | seg :: segs => (count.step seg).bind (·.scan segs)

theorem counted_scan {count : Count} (h : Counted count url resolved)
    (segs : List Bytes) :
    (∃ next, count.scan segs = some next ∧
      Counted next (segs.foldl dotStep url) (segs.foldl (normalStep true) resolved)) ∨
    count.scan segs = none ∧
      Pinned (segs.foldl dotStep url) (segs.foldl (normalStep true) resolved) := by
  induction segs generalizing count url resolved with
  | nil => exact Or.inl ⟨count, rfl, h⟩
  | cons seg segs ih =>
      obtain ⟨next, hstep, hnext⟩ | ⟨hstep, hpinned⟩ := counted_step h seg
      · rw [Count.scan, hstep]
        exact ih hnext
      · rw [Count.scan, hstep]
        exact Or.inr ⟨rfl, pinned_foldl hpinned segs⟩

theorem counted_start : Counted Count.start [] [] where
  sub := List.nil_sublist _
  kept := rfl
  total := rfl
  front h := absurd rfl h
  plain _ h := absurd h List.not_mem_nil

/-- What `path.resolve` keeps of the segments of an absolute path, the last one first, with a segment
for a trailing separator and for the root. -/
def resolvedSegments (front : List Bytes) (last : Bytes) : List Bytes :=
  let kept := front.foldl (normalStep true) []
  if last = [] then [] :: kept
  else if normalStep true kept last = [] then [[]]
  else normalStep true kept last

/-- The count comes out even: the URL has no segment more than `path.resolve`, and none at all behind a
dot segment at the end. -/
def Level (front : List Bytes) (last : Bytes) : Prop :=
  ∃ count, Count.start.scan front = some count ∧
    if last = dot ∨ last = dotDot then
      ∃ next, count.step last = some next ∧ next.kept = 0 ∧ next.extra = 0
    else count.extra = 0

theorem Counted.url_eq_iff {count : Count}
    (h : Counted count url resolved) : url = resolved ↔ count.extra = 0 := by
  have hkept := h.kept
  have htotal := h.total
  constructor
  · rintro rfl
    omega
  · intro hextra
    exact (h.sub.eq_of_length (by omega)).symm

theorem Counted.url_nil_iff {count : Count}
    (h : Counted count url resolved) : url = [] ↔ count.kept = 0 ∧ count.extra = 0 := by
  rw [← List.length_eq_zero_iff, h.total, Nat.add_eq_zero_iff]

theorem Pinned.ne (h : Pinned url resolved) : url ≠ resolved := by
  rintro rfl
  exact Nat.lt_irrefl _ h.longer

theorem Pinned.ne_nil (h : Pinned url resolved) : url ≠ [] := by
  rintro rfl
  exact Nat.not_lt_zero _ h.longer

/-- Behind a dot segment at the end the two agree on the root alone. -/
theorem dotted_iff {url kept : List Bytes} (h : Plain kept) (hle : url = [] → kept = []) :
    ([] :: url = if kept = [] then [[]] else kept) ↔ url = [] := by
  constructor
  · intro heq
    split at heq
    · exact (List.cons.inj heq).2
    · have hnil : ([] : Bytes) ∈ kept := by
        rw [← heq]
        exact List.mem_cons_self
      exact absurd rfl (h [] hnil).1
  · intro hurl
    rw [if_pos (hle hurl), hurl]

/-- The URL keeps the segments of `path.resolve` exactly if the count comes out even. -/
theorem removeDots_iff (front : List Bytes) (last : Bytes) :
    removeDots [] (front ++ [last]) = resolvedSegments front last ↔ Level front last := by
  have hscan := counted_scan counted_start front
  rw [removeDots_snoc]
  unfold resolvedSegments Level
  dsimp only
  by_cases hdots : last = dot ∨ last = dotDot
  · have hne : last ≠ [] := by
      rintro rfl
      exact absurd hdots (by decide)
    rw [if_pos hdots, if_neg hne]
    simp only [if_pos hdots]
    obtain ⟨count, hcount, hcounted⟩ | ⟨hcount, hpinned⟩ := hscan
    · simp only [hcount, Option.some.injEq, exists_eq_left']
      obtain ⟨next, hnext, hlast⟩ | ⟨hnext, hpinned⟩ := counted_step hcounted last
      · simp only [hnext, Option.some.injEq, exists_eq_left', ← hlast.url_nil_iff]
        refine dotted_iff hlast.plain fun hurl => ?_
        have hsub := hlast.sub
        rwa [hurl, List.sublist_nil] at hsub
      · rw [dotted_iff hpinned.plain fun hurl => absurd hurl hpinned.ne_nil]
        simp [hnext, hpinned.ne_nil]
    · have hlast := pinned_step hpinned last
      rw [dotted_iff hlast.plain fun hurl => absurd hurl hlast.ne_nil]
      simp [hcount, hlast.ne_nil]
  · rw [not_or] at hdots
    simp only [hdots, or_self, if_false]
    have hsame : (dotStep (front.foldl dotStep []) last =
        if last = [] then [] :: front.foldl (normalStep true) []
        else if normalStep true (front.foldl (normalStep true) []) last = [] then [[]]
        else normalStep true (front.foldl (normalStep true) []) last) ↔
        front.foldl dotStep [] = front.foldl (normalStep true) [] := by
      rw [dotStep, if_neg hdots.2, if_neg hdots.1]
      by_cases hempty : last = []
      · rw [if_pos hempty, hempty, List.cons_inj_right]
      · rw [if_neg hempty, normalStep_push ⟨hempty, hdots⟩, if_neg (List.cons_ne_nil _ _),
          List.cons_inj_right]
    rw [hsame]
    obtain ⟨count, hcount, hcounted⟩ | ⟨hcount, hpinned⟩ := hscan
    · simp only [hcount, Option.some.injEq, exists_eq_left', hcounted.url_eq_iff]
    · simp [hcount, hpinned.ne]

end HermesNode
