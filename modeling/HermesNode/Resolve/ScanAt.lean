/-
Module: HermesNode.Resolve.ScanAt
Purpose: The reader of the `"main"` field with the index the source keeps into the text. Every access
  to the text is a bounds-checked load, and a loop that would not end has no outcome; the readers over
  what is left of the text compute the same answers, for every text and from every index.
Trusted boundary: human-reviewed spec (transcribed from `lib/bundle/bundle_resolve.cpp`)
Main exports: readJsonStringAt, skipValueAt, skipValueAt_eq, readPackageMainAt_eq
-/
import HermesNode.Lib.Check
import HermesNode.Resolve.PackageJson

namespace HermesNode.Resolve

/-! ### The loops over an index -/

section

variable (content : Bytes)

/-- The `skipWs` loop. No fuel is no outcome. -/
def skipWsAt : Nat → Nat → Check Nat
  | 0, _ => .outOfBounds
  | fuel + 1, i =>
      if i < content.length then do
        let c ← Check.load content[i]?
        if isSpace c then skipWsAt fuel (i + 1) else pure i
      else pure i

/-- The loop of `readJsonString`: the value and the index behind the closing quote. -/
def readJsonStringLoopAt : Nat → Nat → Bytes → Check (Option (Bytes × Nat))
  | 0, _, _ => .outOfBounds
  | fuel + 1, i, value =>
      if i < content.length then do
        let c ← Check.load content[i]?
        if c == quote then pure (some (value, i + 1))
        else if c == backslash && i + 1 < content.length then do
          let d ← Check.load content[i + 1]?
          readJsonStringLoopAt fuel (i + 2) (value ++ [d])
        else readJsonStringLoopAt fuel (i + 1) (value ++ [c])
      else pure none

def readJsonStringAt (i : Nat) : Check (Option (Bytes × Nat)) :=
  readJsonStringLoopAt content (content.length + 1) (i + 1) []

/-- The bracket loop of `skipValue`. -/
def skipBracketedAt (openBracket closeBracket : UInt8) : Nat → Nat → Int → Check (Option Nat)
  | 0, _, _ => .outOfBounds
  | fuel + 1, i, depth =>
      if i < content.length then do
        let d ← Check.load content[i]?
        if d == quote then do
          match ← readJsonStringAt content i with
          | none => pure none
          | some (_, j) => skipBracketedAt openBracket closeBracket fuel j depth
        else if d == openBracket then
          skipBracketedAt openBracket closeBracket fuel (i + 1) (depth + 1)
        else if d == closeBracket then
          if depth - 1 = 0 then pure (some (i + 1))
          else skipBracketedAt openBracket closeBracket fuel (i + 1) (depth - 1)
        else skipBracketedAt openBracket closeBracket fuel (i + 1) depth
      else pure none

/-- The bare-token loop of `skipValue`. -/
def skipTokenAt : Nat → Nat → Check Nat
  | 0, _ => .outOfBounds
  | fuel + 1, i =>
      if i < content.length then do
        let c ← Check.load content[i]?
        if endsToken c then pure i else skipTokenAt fuel (i + 1)
      else pure i

/-- `skipValue`: the index behind the value. -/
def skipValueAt (i : Nat) : Check (Option Nat) :=
  let fuel := content.length + 1
  if i < content.length then do
    let c ← Check.load content[i]?
    if c == quote then do
      let string ← readJsonStringAt content i
      pure (string.map (·.2))
    else if c == 123 then skipBracketedAt content 123 125 fuel i 0
    else if c == 91 then skipBracketedAt content 91 93 fuel i 0
    else do
      let j ← skipTokenAt content fuel i
      pure (some j)
  else pure none

/-- The key/value loop of `readPackageMain`. -/
def readPackageMainLoopAt : Nat → Nat → Check (Option Bytes)
  | 0, _ => .outOfBounds
  | fuel + 1, i => do
      let n := content.length
      let i ← skipWsAt content (n + 1) i
      if i < n then do
        let c ← Check.load content[i]?
        -- the object's end, or a malformed key
        if c != quote then pure none
        else do
          match ← readJsonStringAt content i with
          | none => pure none
          | some (key, i) => do
              let i ← skipWsAt content (n + 1) i
              if i < n then do
                let c ← Check.load content[i]?
                if c != 58 then pure none
                else do
                  let i ← skipWsAt content (n + 1) (i + 1)
                  if key == ascii "main" then
                    if i < n then do
                      let c ← Check.load content[i]?
                      if c != quote then pure none
                      else do
                        let main ← readJsonStringAt content i
                        pure (main.map (·.1))
                    else pure none
                  else do
                    match ← skipValueAt content i with
                    | none => pure none
                    | some i => do
                        let i ← skipWsAt content (n + 1) i
                        if i < n then do
                          let c ← Check.load content[i]?
                          if c == 44 then readPackageMainLoopAt fuel (i + 1) else pure none
                        else pure none
              else pure none
      else pure none

/-- `readPackageMain` on the text of a `package.json`. -/
def readPackageMainAt : Check (Option Bytes) := do
  let n := content.length
  let i ← skipWsAt content (n + 1) 0
  if i < n then do
    let c ← Check.load content[i]?
    if c != 123 then pure none else readPackageMainLoopAt content (n + 1) (i + 1)
  else pure none

end

/-! ### What is left of the text -/

/-- The index at which `rest` is left of the text. -/
def indexOf (content rest : Bytes) : Nat := content.length - rest.length

theorem accepted_bind {α β : Type} (a : α) (f : α → Check β) :
    (Check.accepted a >>= f) = f a := rfl

theorem pure_eq_accepted {α : Type} (a : α) : (pure a : Check α) = .accepted a := rfl

theorem indexOf_nil (content : Bytes) : ¬ indexOf content [] < content.length := by
  simp [indexOf]

/-- One byte more is left. -/
theorem indexOf_cons {content rest : Bytes} {c : UInt8} (h : c :: rest <:+ content) :
    indexOf content (c :: rest) < content.length ∧
      Check.load content[indexOf content (c :: rest)]? = .accepted c ∧
      indexOf content (c :: rest) + 1 = indexOf content rest ∧ rest <:+ content := by
  obtain ⟨front, rfl⟩ := h
  have hfront : indexOf (front ++ c :: rest) (c :: rest) = front.length := by
    simp [indexOf]
  rw [hfront]
  refine ⟨by simp, by simp [Check.load], by simp [indexOf]; omega, ?_⟩
  exact ⟨front ++ [c], by simp⟩

theorem readJsonStringLoop_suffix {text value v rest : Bytes}
    (h : readJsonStringLoop text value = some (v, rest)) :
    rest <:+ text ∧ rest.length < text.length := by
  induction text, value using readJsonStringLoop.induct with
  | case1 value => cases h
  | case2 value c hquote =>
      simp only [readJsonStringLoop, hquote, if_true, Option.some.injEq, Prod.mk.injEq] at h
      rw [← h.2]
      exact ⟨List.nil_suffix, by simp⟩
  | case3 value c hquote => simp [readJsonStringLoop, hquote] at h
  | case4 value c d text hquote =>
      simp only [readJsonStringLoop, hquote, if_true, Option.some.injEq, Prod.mk.injEq] at h
      rw [← h.2]
      exact ⟨List.suffix_cons _ _, by simp⟩
  | case5 value c d text hquote hescape ih =>
      simp only [readJsonStringLoop, hquote, hescape, if_true, Bool.false_eq_true, if_false] at h
      obtain ⟨hsuffix, hlength⟩ := ih h
      refine ⟨hsuffix.trans ((List.suffix_cons _ _).trans (List.suffix_cons _ _)), ?_⟩
      simp only [List.length_cons]
      omega
  | case6 value c d text hquote hescape ih =>
      simp only [readJsonStringLoop, hquote, hescape, Bool.false_eq_true, if_false] at h
      obtain ⟨hsuffix, hlength⟩ := ih h
      refine ⟨hsuffix.trans (List.suffix_cons _ _), ?_⟩
      simp only [List.length_cons] at hlength ⊢
      omega

theorem readJsonString_suffix {c : UInt8} {text v rest : Bytes}
    (h : readJsonString (c :: text) = some (v, rest)) :
    rest <:+ c :: text ∧ rest.length < text.length := by
  obtain ⟨hsuffix, hlength⟩ := readJsonStringLoop_suffix h
  exact ⟨hsuffix.trans (List.suffix_cons _ _), hlength⟩

theorem skipWs_suffix (text : Bytes) : skipWs text <:+ text := List.dropWhile_suffix _

/-! ### The loops agree -/

variable {content : Bytes}

theorem skipWsAt_eq {fuel : Nat} {rest : Bytes} (hrest : rest <:+ content)
    (hfuel : rest.length < fuel) :
    skipWsAt content fuel (indexOf content rest) =
      .accepted (indexOf content (skipWs rest)) := by
  induction fuel generalizing rest with
  | zero => exact absurd hfuel (Nat.not_lt_zero _)
  | succ fuel ih =>
      cases rest with
      | nil => simp [skipWsAt, indexOf_nil, skipWs, pure_eq_accepted]
      | cons c rest =>
          obtain ⟨hlt, hload, hnext, hsuffix⟩ := indexOf_cons hrest
          simp only [skipWsAt, hlt, if_true, hload, accepted_bind]
          cases hspace : isSpace c with
          | true =>
              rw [if_pos rfl, hnext, ih hsuffix (by simpa using hfuel)]
              simp [skipWs, hspace]
          | false => simp [skipWs, hspace, pure_eq_accepted]

theorem readJsonStringLoopAt_eq {fuel : Nat} {rest value : Bytes} (hrest : rest <:+ content)
    (hfuel : rest.length < fuel) :
    readJsonStringLoopAt content fuel (indexOf content rest) value =
      .accepted ((readJsonStringLoop rest value).map fun r => (r.1, indexOf content r.2)) := by
  induction fuel generalizing rest value with
  | zero => exact absurd hfuel (Nat.not_lt_zero _)
  | succ fuel ih =>
      match rest with
      | [] => simp [readJsonStringLoopAt, indexOf_nil, readJsonStringLoop, pure_eq_accepted]
      | c :: rest =>
          obtain ⟨hlt, hload, hnext, hsuffix⟩ := indexOf_cons hrest
          have hshort : rest.length < fuel := by simpa using hfuel
          simp only [readJsonStringLoopAt, hlt, if_true, hload, accepted_bind, hnext]
          cases hquote : c == quote with
          | true => cases rest <;> simp [readJsonStringLoop, hquote, pure_eq_accepted]
          | false =>
              simp only [Bool.false_eq_true, if_false]
              match rest with
              | [] =>
                  simp only [indexOf_nil, decide_false, Bool.and_false, Bool.false_eq_true,
                    if_false, ih hsuffix hshort]
                  simp [readJsonStringLoop, hquote]
              | d :: rest =>
                  obtain ⟨hlt', hload', hnext', hsuffix'⟩ := indexOf_cons hsuffix
                  have htwo : indexOf content (c :: d :: rest) + 2 = indexOf content rest := by
                    omega
                  simp only [hlt', decide_true, Bool.and_true, hload', accepted_bind, htwo]
                  cases hescape : c == backslash with
                  | true =>
                      rw [if_pos rfl, ih hsuffix' (by simp at hshort; omega)]
                      simp [readJsonStringLoop, hquote, hescape]
                  | false =>
                      rw [if_neg Bool.false_ne_true, ih hsuffix hshort]
                      simp [readJsonStringLoop, hquote, hescape]

theorem readJsonStringAt_eq {c : UInt8} {rest : Bytes} (hrest : c :: rest <:+ content) :
    readJsonStringAt content (indexOf content (c :: rest)) =
      .accepted ((readJsonString (c :: rest)).map fun r => (r.1, indexOf content r.2)) := by
  obtain ⟨_, _, hnext, hsuffix⟩ := indexOf_cons hrest
  rw [readJsonStringAt, hnext]
  exact readJsonStringLoopAt_eq hsuffix (Nat.lt_succ_of_le hsuffix.length_le)

theorem skipBracketedAt_eq {o c : UInt8} {fuel fuel' : Nat} {rest : Bytes} {depth : Int}
    (hrest : rest <:+ content) (hfuel : rest.length < fuel) (hfuel' : rest.length ≤ fuel') :
    skipBracketedAt content o c fuel (indexOf content rest) depth =
      .accepted ((skipBracketed o c fuel' rest depth).map (indexOf content)) := by
  induction fuel generalizing fuel' rest depth with
  | zero => exact absurd hfuel (Nat.not_lt_zero _)
  | succ fuel ih =>
      cases rest with
      | nil => cases fuel' <;> simp [skipBracketedAt, indexOf_nil, skipBracketed, pure_eq_accepted]
      | cons d rest =>
          cases fuel' with
          | zero => exact absurd hfuel' (by simp)
          | succ fuel' =>
              obtain ⟨hlt, hload, hnext, hsuffix⟩ := indexOf_cons hrest
              have hshort : rest.length < fuel := by simpa using hfuel
              have hshort' : rest.length ≤ fuel' := by simpa using hfuel'
              simp only [skipBracketedAt, skipBracketed, hlt, if_true, hload, accepted_bind, hnext]
              cases hquote : d == quote with
              | true =>
                  simp only [if_true, readJsonStringAt_eq hrest, accepted_bind]
                  cases hstring : readJsonString (d :: rest) with
                  | none => simp [pure_eq_accepted]
                  | some r =>
                      obtain ⟨v, after⟩ := r
                      obtain ⟨hafter, hlength⟩ := readJsonString_suffix hstring
                      exact ih (hafter.trans hrest) (Nat.lt_trans hlength hshort)
                        (Nat.le_trans (Nat.le_of_lt hlength) hshort')
              | false =>
                  simp only [Bool.false_eq_true, if_false]
                  split
                  · exact ih hsuffix hshort hshort'
                  · split
                    · split
                      · rfl
                      · exact ih hsuffix hshort hshort'
                    · exact ih hsuffix hshort hshort'

theorem skipTokenAt_eq {fuel : Nat} {rest : Bytes} (hrest : rest <:+ content)
    (hfuel : rest.length < fuel) :
    skipTokenAt content fuel (indexOf content rest) =
      .accepted (indexOf content (rest.dropWhile fun d => !endsToken d)) := by
  induction fuel generalizing rest with
  | zero => exact absurd hfuel (Nat.not_lt_zero _)
  | succ fuel ih =>
      cases rest with
      | nil => simp [skipTokenAt, indexOf_nil, pure_eq_accepted]
      | cons c rest =>
          obtain ⟨hlt, hload, hnext, hsuffix⟩ := indexOf_cons hrest
          simp only [skipTokenAt, hlt, if_true, hload, accepted_bind]
          cases hends : endsToken c with
          | true => simp [hends, pure_eq_accepted]
          | false =>
              rw [if_neg Bool.false_ne_true, hnext, ih hsuffix (by simpa using hfuel)]
              simp [hends]

/-- `skipValue` from an index and `skipValue` on what is left there. -/
theorem skipValueAt_eq {rest : Bytes} (hrest : rest <:+ content) :
    skipValueAt content (indexOf content rest) =
      .accepted ((skipValue rest).map (indexOf content)) := by
  have hfuel : rest.length < content.length + 1 := Nat.lt_succ_of_le hrest.length_le
  have hall : rest.length ≤ rest.tail.length + 1 := by
    rw [List.length_tail]
    omega
  cases rest with
  | nil => simp [skipValueAt, indexOf_nil, skipValue, pure_eq_accepted]
  | cons c rest =>
      obtain ⟨hlt, hload, _, _⟩ := indexOf_cons hrest
      simp only [skipValueAt, skipValue, hlt, if_true, hload, accepted_bind]
      split
      · rw [readJsonStringAt_eq hrest, accepted_bind, pure_eq_accepted, Option.map_map, Option.map_map]
        rfl
      · split
        · exact skipBracketedAt_eq hrest hfuel hall
        · split
          · exact skipBracketedAt_eq hrest hfuel hall
          · rw [skipTokenAt_eq hrest hfuel]
            rfl

theorem skipBracketed_suffix {o c : UInt8} {fuel : Nat} {text rest : Bytes} {depth : Int}
    (h : skipBracketed o c fuel text depth = some rest) : rest <:+ text := by
  induction fuel generalizing text depth with
  | zero => cases h
  | succ fuel ih =>
      cases text with
      | nil => cases h
      | cons d text =>
          simp only [skipBracketed] at h
          split at h
          · cases hstring : readJsonString (d :: text) with
            | none => simp [hstring] at h
            | some r =>
                rw [hstring] at h
                exact (ih h).trans (readJsonString_suffix hstring).1
          · have hone : text <:+ d :: text := List.suffix_cons _ _
            split at h
            · exact (ih h).trans hone
            · split at h
              · split at h
                · cases h
                  exact hone
                · exact (ih h).trans hone
              · exact (ih h).trans hone

theorem skipValue_suffix {text rest : Bytes} (h : skipValue text = some rest) : rest <:+ text := by
  cases text with
  | nil => cases h
  | cons c text =>
      simp only [skipValue] at h
      split at h
      · obtain ⟨r, hstring, rfl⟩ := Option.map_eq_some_iff.mp h
        exact (readJsonString_suffix hstring).1
      · split at h
        · exact skipBracketed_suffix h
        · split at h
          · exact skipBracketed_suffix h
          · cases h
            exact List.dropWhile_suffix _

/-- Go on with the next byte, if there is one. -/
def onHead {α : Type} (f : UInt8 → Check (Option α)) : Bytes → Check (Option α)
  | [] => .accepted none
  | c :: _ => f c

theorem peek_eq {α : Type} {rest : Bytes} (hrest : rest <:+ content)
    (f : UInt8 → Check (Option α)) :
    (if indexOf content rest < content.length then
        Check.load content[indexOf content rest]? >>= f
      else pure none) = onHead f rest := by
  cases rest with
  | nil => rw [if_neg (indexOf_nil content), pure_eq_accepted, onHead]
  | cons c rest =>
      obtain ⟨hlt, hload, _, _⟩ := indexOf_cons hrest
      rw [if_pos hlt, hload, accepted_bind, onHead]

theorem skipWsAt_whole {rest : Bytes} (hrest : rest <:+ content) :
    skipWsAt content (content.length + 1) (indexOf content rest) =
      .accepted (indexOf content (skipWs rest)) :=
  skipWsAt_eq hrest (Nat.lt_succ_of_le hrest.length_le)

theorem eq_of_beq_true {c d : UInt8} (h : (c != d) = false) : c = d := by
  simpa using h

theorem readPackageMainLoopAt_eq {fuel fuel' : Nat} {rest : Bytes} (hrest : rest <:+ content)
    (hfuel : rest.length < fuel) (hfuel' : rest.length < fuel') :
    readPackageMainLoopAt content fuel (indexOf content rest) =
      .accepted (packageMainLoop fuel' rest) := by
  induction fuel generalizing fuel' rest with
  | zero => exact absurd hfuel (Nat.not_lt_zero _)
  | succ fuel ih =>
      cases fuel' with
      | zero => exact absurd hfuel' (Nat.not_lt_zero _)
      | succ fuel' =>
          have hkey := (skipWs_suffix rest).trans hrest
          have hkeyLength := (skipWs_suffix rest).length_le
          simp only [readPackageMainLoopAt, packageMainLoop, skipWsAt_whole hrest, accepted_bind,
            peek_eq hkey]
          generalize skipWs rest = text at hkey hkeyLength ⊢
          rcases text with _ | ⟨c, text⟩
          · rfl
          simp only [onHead, List.head?_cons]
          cases hquote : c != quote with
          | true => simp [pure_eq_accepted, bne_iff_ne.mp hquote]
          | false =>
              obtain rfl := eq_of_beq_true hquote
              simp only [bne_self_eq_false, Bool.false_eq_true, if_false, readJsonStringAt_eq hkey,
                accepted_bind]
              cases hstring : readJsonString (quote :: text) with
              | none => rfl
              | some r =>
                  obtain ⟨key, behind⟩ := r
                  obtain ⟨hbehind, hbehindLength⟩ := readJsonString_suffix hstring
                  have hcolon := ((skipWs_suffix behind).trans hbehind).trans hkey
                  have hcolonLength := (skipWs_suffix behind).length_le
                  simp only [Option.map_some, skipWsAt_whole (hbehind.trans hkey), accepted_bind,
                    peek_eq hcolon]
                  generalize skipWs behind = text' at hcolon hcolonLength ⊢
                  rcases text' with _ | ⟨c', text'⟩
                  · rfl
                  obtain ⟨_, _, hnext, htail⟩ := indexOf_cons hcolon
                  simp only [onHead, List.head?_cons, List.tail_cons, hnext, skipWsAt_whole htail,
                    accepted_bind]
                  cases hc' : c' != 58 with
                  | true => simp [pure_eq_accepted, bne_iff_ne.mp hc']
                  | false =>
                      obtain rfl := eq_of_beq_true hc'
                      have hvalue := (skipWs_suffix text').trans htail
                      have hvalueLength := (skipWs_suffix text').length_le
                      simp only [bne_self_eq_false, Bool.false_eq_true, if_false, peek_eq hvalue,
                        skipValueAt_eq hvalue, accepted_bind]
                      obtain ⟨value, hvalueEq⟩ : ∃ value, skipWs text' = value := ⟨_, rfl⟩
                      simp only [hvalueEq] at hvalue hvalueLength ⊢
                      cases hmain : key == ascii "main" with
                      | true =>
                          rcases value with _ | ⟨d, value⟩
                          · rfl
                          simp only [if_true, onHead, List.head?_cons]
                          cases hd : d != quote with
                          | true => simp [pure_eq_accepted, bne_iff_ne.mp hd]
                          | false =>
                              obtain rfl := eq_of_beq_true hd
                              simp only [bne_self_eq_false, Bool.false_eq_true, if_false,
                                readJsonStringAt_eq hvalue, accepted_bind, pure_eq_accepted,
                                Option.map_map]
                              rfl
                      | false =>
                          simp only [Bool.false_eq_true, if_false]
                          cases hskip : skipValue value with
                          | none => rfl
                          | some after =>
                              have hafter := (skipValue_suffix hskip).trans hvalue
                              have hafterLength := (skipValue_suffix hskip).length_le
                              have hcomma := (skipWs_suffix after).trans hafter
                              have hcommaLength := (skipWs_suffix after).length_le
                              simp only [Option.map_some, skipWsAt_whole hafter, accepted_bind,
                                peek_eq hcomma]
                              generalize skipWs after = text'' at hcomma hcommaLength ⊢
                              rcases text'' with _ | ⟨e, text''⟩
                              · rfl
                              obtain ⟨_, _, hnext', htail'⟩ := indexOf_cons hcomma
                              simp only [List.length_cons] at *
                              simp only [onHead, List.head?_cons, List.tail_cons, hnext']
                              cases he : e == 44 with
                              | false => simp [pure_eq_accepted, beq_eq_false_iff_ne.mp he]
                              | true =>
                                  obtain rfl : e = 44 := by simpa using he
                                  exact ih htail' (by omega) (by omega)

/-- `readPackageMain` with an index reads the `main` that is read off what is left of the text. -/
theorem readPackageMainAt_eq (content : Bytes) :
    readPackageMainAt content = .accepted (packageMain content) := by
  have hwhole : content <:+ content := List.suffix_refl _
  have hstart : indexOf content content = 0 := by simp [indexOf]
  have hopen := skipWs_suffix content
  have hskip := skipWsAt_whole hwhole
  rw [hstart] at hskip
  simp only [readPackageMainAt, packageMain, hskip, accepted_bind, peek_eq hopen]
  generalize skipWs content = text at hopen ⊢
  rcases text with _ | ⟨c, text⟩
  · rfl
  obtain ⟨_, _, hnext, htail⟩ := indexOf_cons hopen
  have hlength := hopen.length_le
  simp only [List.length_cons] at hlength
  simp only [onHead, List.head?_cons, List.tail_cons, hnext, List.length_cons]
  cases hc : c != 123 with
  | true => simp [pure_eq_accepted, bne_iff_ne.mp hc]
  | false =>
      obtain rfl := eq_of_beq_true hc
      exact readPackageMainLoopAt_eq htail (by omega) (Nat.lt_succ_self _)

end HermesNode.Resolve
