/-
Module: HermesNode.Url.EncodeStr
Purpose: `encodeStr` of the url shim, a loop that copies the characters it leaves alone in runs behind
  itself. It takes any two units for a pair when the first of them is a surrogate, so it encodes the
  code points of the string exactly when no surrogate but the last unit is unpaired.
Trusted boundary: human-reviewed spec (transcribed from `libjs/shims/internal/url.js`)
Main exports: hexTable, encodeStr, encodeStr_iff
-/
import HermesNode.Url.FileUrl
import Mathlib.Data.Nat.Bitwise

namespace HermesNode.Url

/-! ### The code -/

/-- An entry of `hexTable`. -/
def hexTable (i : Nat) : JsString :=
  [37] ++ (if i < 16 then [48] else []) ++
    (Nat.toDigits 16 i).map fun digit => UInt16.ofNat digit.toUpper.toNat

section

variable (str : JsString) (noEscapeTable : Nat → Int) (hexTable : Nat → JsString)

/-- The output with what stands between `lastPos` and `i` behind it. -/
def flushed (out : JsString) (lastPos i : Nat) : JsString :=
  if lastPos < i then out ++ slice str lastPos i else out

/-- The loop of `encodeStr` from position `i` on, where `rest` is left of the string: the output and
`lastPos` behind it. -/
def encodeLoop : JsString → Nat → JsString → Nat → JsString × Nat
  | [], _, out, lastPos => (out, lastPos)
  | unit :: rest, i, out, lastPos =>
      let c := unit.toNat
      if c < 0x80 then
        if noEscapeTable c = 1 then encodeLoop rest (i + 1) out lastPos
        else encodeLoop rest (i + 1) (flushed str out lastPos i ++ hexTable c) (i + 1)
      else
        let out := flushed str out lastPos i
        if c < 0x800 then
          let bytes := hexTable (0xc0 ||| (c >>> 6)) ++ hexTable (0x80 ||| (c &&& 0x3f))
          encodeLoop rest (i + 1) (out ++ bytes) (i + 1)
        else if c < 0xd800 ∨ c ≥ 0xe000 then
          let bytes := hexTable (0xe0 ||| (c >>> 12)) ++ hexTable (0x80 ||| ((c >>> 6) &&& 0x3f)) ++
            hexTable (0x80 ||| (c &&& 0x3f))
          encodeLoop rest (i + 1) (out ++ bytes) (i + 1)
        else
          match rest with
          -- nothing follows the surrogate: the text of U+FFFD
          | [] => (out ++ [37, 69, 70, 37, 66, 70, 37, 66, 68], i + 1)
          | unit2 :: rest =>
              let c2 := unit2.toNat
              let c := 0x10000 + (((c &&& 0x3ff) <<< 10) ||| (c2 &&& 0x3ff))
              let bytes := hexTable (0xf0 ||| (c >>> 18)) ++
                hexTable (0x80 ||| ((c >>> 12) &&& 0x3f)) ++
                hexTable (0x80 ||| ((c >>> 6) &&& 0x3f)) ++ hexTable (0x80 ||| (c &&& 0x3f))
              encodeLoop rest (i + 2) (out ++ bytes) (i + 2)

/-- `encodeStr`. -/
def encodeStr : JsString :=
  if str.length = 0 then []
  else
    let (out, lastPos) := encodeLoop str noEscapeTable hexTable str 0 [] 0
    if lastPos = 0 then str
    else if lastPos < str.length then out ++ str.drop lastPos
    else out

end

/-! ### Its purpose -/

section

variable (noEscapeTable : Nat → Int)

/-- A code point as it is, if it is ASCII and marked, or the percent-encoded bytes of its UTF-8
encoding; for an unpaired surrogate U+FFFD. -/
def encodePart : Option Nat → JsString
  | some cp => if cp < 0x80 ∧ noEscapeTable cp = 1 then [UInt16.ofNat cp] else percentPoint cp
  | none => percentPoint 0xFFFD

def percentEncoded (str : JsString) : JsString :=
  (codePoints str).flatMap (encodePart noEscapeTable)

end

/-! ### What the loop reads -/

def isSurrogate (c : UInt16) : Bool := isHighSurrogate c || isLowSurrogate c

/-- The code points the loop takes the units for. -/
def pointsRead : JsString → List (Option Nat)
  | [] => []
  | [c] => [unitPoint c]
  | c :: d :: rest =>
      if isSurrogate c then
        some (0x10000 + c.toNat % 0x400 * 0x400 + d.toNat % 0x400) :: pointsRead rest
      else unitPoint c :: pointsRead (d :: rest)

theorem hexTable_eq : ∀ b < 256, hexTable b = percentByte b := by
  decide +kernel

theorem or_c0 : ∀ x < 32, 0xc0 ||| x = 0xc0 + x := by decide

theorem or_e0 : ∀ x < 16, 0xe0 ||| x = 0xe0 + x := by decide

theorem or_f0 : ∀ x < 8, 0xf0 ||| x = 0xf0 + x := by decide

theorem or_80 : ∀ x < 64, 0x80 ||| x = 0x80 + x := by decide

theorem and_3f (n : Nat) : n &&& 0x3f = n % 64 := Nat.and_two_pow_sub_one_eq_mod n 6

theorem and_3ff (n : Nat) : n &&& 0x3ff = n % 1024 := Nat.and_two_pow_sub_one_eq_mod n 10

/-- A byte behind the first of a sequence. -/
theorem hexTable_tail (n : Nat) : hexTable (0x80 ||| (n &&& 0x3f)) = percentByte (0x80 + n % 64) := by
  have hlt : n % 64 < 64 := Nat.mod_lt _ (by decide)
  rw [and_3f, or_80 _ hlt, hexTable_eq _ (by omega)]

theorem two_bytes {c : Nat} (hlow : 0x80 ≤ c) (hhigh : c < 0x800) :
    hexTable (0xc0 ||| (c >>> 6)) ++ hexTable (0x80 ||| (c &&& 0x3f)) = percentPoint c := by
  have hfirst : c >>> 6 = c / 64 := Nat.shiftRight_eq_div_pow c 6
  rw [hexTable_tail, hfirst, or_c0 _ (by omega), hexTable_eq _ (by omega), percentPoint, utf8Of,
    if_neg (by omega), if_pos hhigh]
  simp

theorem three_bytes {c : Nat} (hlow : 0x800 ≤ c) (hhigh : c < 0x10000) :
    hexTable (0xe0 ||| (c >>> 12)) ++ hexTable (0x80 ||| ((c >>> 6) &&& 0x3f)) ++
      hexTable (0x80 ||| (c &&& 0x3f)) = percentPoint c := by
  have hfirst : c >>> 12 = c / 4096 := Nat.shiftRight_eq_div_pow c 12
  have hsecond : c >>> 6 = c / 64 := Nat.shiftRight_eq_div_pow c 6
  rw [hexTable_tail, hexTable_tail, hfirst, hsecond, or_e0 _ (by omega), hexTable_eq _ (by omega),
    percentPoint, utf8Of, if_neg (by omega), if_neg (by omega), if_pos hhigh]
  simp

theorem four_bytes {c : Nat} (hlow : 0x10000 ≤ c) (hhigh : c < 0x200000) :
    hexTable (0xf0 ||| (c >>> 18)) ++ hexTable (0x80 ||| ((c >>> 12) &&& 0x3f)) ++
      hexTable (0x80 ||| ((c >>> 6) &&& 0x3f)) ++ hexTable (0x80 ||| (c &&& 0x3f)) =
    percentPoint c := by
  have hfirst : c >>> 18 = c / 262144 := Nat.shiftRight_eq_div_pow c 18
  have hsecond : c >>> 12 = c / 4096 := Nat.shiftRight_eq_div_pow c 12
  have hthird : c >>> 6 = c / 64 := Nat.shiftRight_eq_div_pow c 6
  rw [hexTable_tail, hexTable_tail, hexTable_tail, hfirst, hsecond, hthird, or_f0 _ (by omega),
    hexTable_eq _ (by omega), percentPoint, utf8Of, if_neg (by omega), if_neg (by omega),
    if_neg (by omega)]
  simp

/-- The pair that two units are taken for. -/
theorem pair_eq (c d : Nat) :
    0x10000 + (((c &&& 0x3ff) <<< 10) ||| (d &&& 0x3ff)) =
      0x10000 + c % 0x400 * 0x400 + d % 0x400 := by
  have hlt : d % 1024 < 2 ^ 10 := Nat.mod_lt _ (by decide)
  rw [and_3ff, and_3ff, ← Nat.shiftLeft_add_eq_or_of_lt hlt, Nat.shiftLeft_eq]
  omega

/-! ### The loop -/

theorem isSurrogate_iff (c : UInt16) :
    isSurrogate c = true ↔ 0xD800 ≤ c.toNat ∧ c.toNat < 0xE000 := by
  simp only [isSurrogate, isHighSurrogate, isLowSurrogate, Bool.or_eq_true, Bool.and_eq_true,
    decide_eq_true_eq]
  omega

theorem unitPoint_surrogate {c : UInt16} (h : isSurrogate c = true) : unitPoint c = none := by
  exact if_pos h

theorem unitPoint_plain {c : UInt16} (h : ¬ isSurrogate c = true) : unitPoint c = some c.toNat := by
  exact if_neg h

section

variable (str : JsString) (noEscapeTable : Nat → Int)

theorem flushed_eq (out : JsString) (lastPos i : Nat) :
    flushed str out lastPos i = out ++ slice str lastPos i := by
  unfold flushed
  split
  · rfl
  · rename_i hle
    have hnone : slice str lastPos i = [] := by
      apply List.drop_eq_nil_of_le
      rw [List.length_take]
      omega
    rw [hnone, List.append_nil]

theorem encodeLoop_unit {c : UInt16} (hc : ¬ isSurrogate c = true) (rest : JsString) (i : Nat)
    (out : JsString) (lastPos : Nat) :
    encodeLoop str noEscapeTable hexTable (c :: rest) i out lastPos =
      if c.toNat < 0x80 ∧ noEscapeTable c.toNat = 1 then
        encodeLoop str noEscapeTable hexTable rest (i + 1) out lastPos
      else
        encodeLoop str noEscapeTable hexTable rest (i + 1)
          (out ++ slice str lastPos i ++ percentPoint c.toNat) (i + 1) := by
  rw [isSurrogate_iff] at hc
  have hlt := c.toNat_lt
  by_cases hascii : c.toNat < 0x80
  · have hpoint : percentPoint c.toNat = hexTable c.toNat := by
      rw [hexTable_eq _ (by omega), percentPoint, utf8Of, if_pos hascii]
      simp
    rw [encodeLoop, if_pos hascii, hpoint, flushed_eq]
    simp [hascii]
  · have hkept : ¬ (c.toNat < 0x80 ∧ noEscapeTable c.toNat = 1) := fun h => hascii h.1
    rw [encodeLoop, if_neg hascii, if_neg hkept, flushed_eq]
    by_cases htwo : c.toNat < 0x800
    · rw [if_pos htwo, two_bytes (by omega) htwo]
    · rw [if_neg htwo, if_pos (by omega), three_bytes (by omega) hlt]

theorem encodeLoop_last {c : UInt16} (hc : isSurrogate c = true) (i : Nat) (out : JsString)
    (lastPos : Nat) :
    encodeLoop str noEscapeTable hexTable [c] i out lastPos =
      (out ++ slice str lastPos i ++ percentPoint 0xFFFD, i + 1) := by
  rw [isSurrogate_iff] at hc
  rw [encodeLoop, if_neg (by omega), if_neg (by omega), if_neg (by omega), flushed_eq]
  rfl

/-- A surrogate is taken for the first half of a pair, whatever follows. -/
theorem encodeLoop_pair {c : UInt16} (hc : isSurrogate c = true) (d : UInt16) (rest : JsString)
    (i : Nat) (out : JsString) (lastPos : Nat) :
    encodeLoop str noEscapeTable hexTable (c :: d :: rest) i out lastPos =
      encodeLoop str noEscapeTable hexTable rest (i + 2)
        (out ++ slice str lastPos i ++
          percentPoint (0x10000 + c.toNat % 0x400 * 0x400 + d.toNat % 0x400)) (i + 2) := by
  rw [isSurrogate_iff] at hc
  rw [encodeLoop, if_neg (by omega), if_neg (by omega), if_neg (by omega), flushed_eq]
  simp only [pair_eq]
  rw [four_bytes (by omega) (by omega)]

/-- A run that is left alone grows by the unit behind it. -/
theorem slice_snoc {str front rest : JsString} {c : UInt16} (hstr : str = front ++ c :: rest)
    {lastPos : Nat} (hlast : lastPos ≤ front.length) :
    slice str lastPos (front.length + 1) = slice str lastPos front.length ++ [c] := by
  have hfront : str.take front.length = front := by
    rw [hstr, List.take_left]
  have hmore : str.take (front.length + 1) = front ++ [c] := by
    rw [hstr, List.take_length_add_append]
    rfl
  rw [slice, slice, hfront, hmore, List.drop_append_of_le_length hlast]

/-- The loop ended in `state`, from position `i` with `rest` before it: it encoded what it read behind
what it held. It only moves `lastPos` forward, and as long as that is at the start it writes
nothing. -/
structure Encodes (state : JsString × Nat) (rest : JsString) (i : Nat) (out : JsString)
    (lastPos : Nat) : Prop where
  copied : state.1 ++ str.drop state.2 =
    out ++ slice str lastPos i ++ (pointsRead rest).flatMap (encodePart noEscapeTable)
  forward : lastPos ≤ state.2
  unmoved : state.2 = 0 → state.1 = out

variable {str noEscapeTable}

/-- What was flushed at a position behind the start stays. -/
theorem Encodes.flush {state : JsString × Nat} {rest rest' out : JsString} {i n lastPos : Nat}
    {point : Option Nat} (hread : pointsRead rest = point :: pointsRead rest')
    (hlast : lastPos ≤ i) (hn : 0 < n)
    (h : Encodes str noEscapeTable state rest' (i + n)
      (out ++ slice str lastPos i ++ encodePart noEscapeTable point) (i + n)) :
    Encodes str noEscapeTable state rest i out lastPos := by
  have hforward := h.forward
  refine ⟨?_, by omega, fun hzero => by omega⟩
  have hnone : slice str (i + n) (i + n) = [] := by
    apply List.drop_eq_nil_of_le
    rw [List.length_take]
    exact Nat.min_le_left _ _
  rw [h.copied, hnone, hread, List.flatMap_cons]
  simp only [List.append_assoc, List.nil_append]

/-- A unit that is left alone joins the run behind `lastPos`. -/
theorem Encodes.skip {state : JsString × Nat} {front rest out : JsString} {c : UInt16}
    {lastPos : Nat} (hstr : str = front ++ c :: rest) (hlast : lastPos ≤ front.length)
    (hread : pointsRead (c :: rest) = some c.toNat :: pointsRead rest)
    (hkept : c.toNat < 0x80 ∧ noEscapeTable c.toNat = 1)
    (h : Encodes str noEscapeTable state rest (front.length + 1) out lastPos) :
    Encodes str noEscapeTable state (c :: rest) front.length out lastPos := by
  refine ⟨?_, h.forward, h.unmoved⟩
  rw [h.copied, slice_snoc hstr hlast, hread, List.flatMap_cons, encodePart, if_pos hkept,
    UInt16.ofNat_toNat]
  simp only [List.append_assoc]

theorem pointsRead_plain {c : UInt16} (hc : ¬ isSurrogate c = true) (rest : JsString) :
    pointsRead (c :: rest) = some c.toNat :: pointsRead rest := by
  cases rest with
  | nil =>
      show [unitPoint c] = [some c.toNat]
      rw [unitPoint_plain hc]
  | cons d rest => rw [pointsRead, if_neg hc, unitPoint_plain hc]

theorem encodeLoop_nil {front out : JsString} {lastPos : Nat} (hstr : str = front ++ []) :
    Encodes str noEscapeTable
      (encodeLoop str noEscapeTable hexTable [] front.length out lastPos) [] front.length out
      lastPos := by
  refine ⟨?_, Nat.le_refl _, fun _ => rfl⟩
  have hwhole : str.take front.length = str := by
    rw [hstr, List.append_nil, List.take_length]
  rw [slice, hwhole, encodeLoop, pointsRead, List.flatMap_nil, List.append_nil]

theorem Encodes.unit {front rest out : JsString} {c : UInt16} {lastPos : Nat}
    (hc : ¬ isSurrogate c = true) (hstr : str = front ++ c :: rest)
    (hlast : lastPos ≤ front.length)
    (h : ∀ {front' out' : JsString} {lastPos' : Nat}, str = front' ++ rest →
      lastPos' ≤ front'.length →
      Encodes str noEscapeTable
        (encodeLoop str noEscapeTable hexTable rest front'.length out' lastPos') rest
        front'.length out' lastPos') :
    Encodes str noEscapeTable
      (encodeLoop str noEscapeTable hexTable (c :: rest) front.length out lastPos) (c :: rest)
      front.length out lastPos := by
  have hread := pointsRead_plain hc rest
  have hnext : str = (front ++ [c]) ++ rest := by simpa using hstr
  have hlen : (front ++ [c]).length = front.length + 1 := by simp
  rw [encodeLoop_unit str noEscapeTable hc]
  split
  · rename_i hkept
    have hrest := @h (front ++ [c]) out lastPos hnext (by omega)
    rw [hlen] at hrest
    exact Encodes.skip hstr hlast hread hkept hrest
  · rename_i hescaped
    have hpart : encodePart noEscapeTable (some c.toNat) = percentPoint c.toNat := if_neg hescaped
    rw [← hpart]
    have hrest := @h (front ++ [c]) (out ++ slice str lastPos front.length ++
      encodePart noEscapeTable (some c.toNat)) (front.length + 1) hnext (by omega)
    rw [hlen] at hrest
    exact Encodes.flush hread hlast (by decide) hrest

/-- The whole loop, one case for each way a turn reads its units. -/
theorem encodeLoop_encodes {front rest out : JsString} {lastPos : Nat}
    (hstr : str = front ++ rest) (hlast : lastPos ≤ front.length) :
    Encodes str noEscapeTable
      (encodeLoop str noEscapeTable hexTable rest front.length out lastPos) rest front.length out
      lastPos := by
  induction rest using pointsRead.induct generalizing front out lastPos with
  | case1 => exact encodeLoop_nil hstr
  | case2 c =>
      by_cases hc : isSurrogate c = true
      · have hread : pointsRead [c] = none :: pointsRead [] := by
          show [unitPoint c] = [none]
          rw [unitPoint_surrogate hc]
        have hnext : str = (front ++ [c]) ++ [] := by simpa using hstr
        have hlen : (front ++ [c]).length = front.length + 1 := by simp
        have hrest := @encodeLoop_nil str noEscapeTable (front ++ [c])
          (out ++ slice str lastPos front.length ++ percentPoint 0xFFFD) (front.length + 1) hnext
        rw [hlen, encodeLoop] at hrest
        rw [encodeLoop_last str noEscapeTable hc]
        exact Encodes.flush hread hlast (by decide) hrest
      · exact Encodes.unit hc hstr hlast fun hnext _ => encodeLoop_nil hnext
  | case3 c d rest hc ih =>
      have hread : pointsRead (c :: d :: rest) =
          some (0x10000 + c.toNat % 0x400 * 0x400 + d.toNat % 0x400) :: pointsRead rest := by
        rw [pointsRead, if_pos hc]
      have hpart : encodePart noEscapeTable
          (some (0x10000 + c.toNat % 0x400 * 0x400 + d.toNat % 0x400)) =
          percentPoint (0x10000 + c.toNat % 0x400 * 0x400 + d.toNat % 0x400) := by
        rw [encodePart, if_neg (by omega)]
      have hnext : str = (front ++ [c, d]) ++ rest := by simpa using hstr
      have hlen : (front ++ [c, d]).length = front.length + 2 := by simp
      rw [encodeLoop_pair str noEscapeTable hc, ← hpart]
      have hrest := @ih (front ++ [c, d]) (out ++ slice str lastPos front.length ++ encodePart
        noEscapeTable (some (0x10000 + c.toNat % 0x400 * 0x400 + d.toNat % 0x400)))
        (front.length + 2) hnext (by omega)
      rw [hlen] at hrest
      exact Encodes.flush hread hlast (by decide) hrest
  | case4 c d rest hc ih => exact Encodes.unit hc hstr hlast ih

end

theorem encodeStr_eq (noEscapeTable : Nat → Int) (str : JsString) :
    encodeStr str noEscapeTable hexTable =
      (pointsRead str).flatMap (encodePart noEscapeTable) := by
  have hloop := @encodeLoop_encodes str noEscapeTable [] str [] 0 rfl (Nat.le_refl _)
  have hcopied := hloop.copied
  simp only [slice, List.length_nil, List.take_zero, List.drop_nil, List.nil_append] at hcopied
  rw [← hcopied, encodeStr]
  split
  · rename_i hempty
    rw [List.length_eq_zero_iff.mp hempty]
    rfl
  · dsimp only
    split
    · rename_i hzero
      have hnone : (encodeLoop str noEscapeTable hexTable str 0 [] 0).1 = [] :=
        hloop.unmoved hzero
      rw [hnone, hzero]
      rfl
    · split
      · rfl
      · rename_i hend
        rw [List.drop_eq_nil_of_le (Nat.le_of_not_lt hend), List.append_nil]

/-! ### What is lost -/

/-- An unpaired surrogate stands nowhere but at the end. -/
def LoneOnlyAtEnd (str : JsString) : Prop := none ∉ (codePoints str).dropLast

theorem codePoints_ne_nil {str : JsString} (h : str ≠ []) : codePoints str ≠ [] := by
  cases str using codePoints.induct with
  | case1 => exact absurd rfl h
  | case2 c => simp [codePoints]
  | case3 c d rest hpair => simp [codePoints, hpair]
  | case4 c d rest hpair => simp [codePoints, hpair]

/-- The text of a pair and that of U+FFFD part at the first digit. -/
theorem percentPoint_ne_replacement {cp : Nat} (hcp : 0x10000 ≤ cp) (hlt : cp < 0x200000)
    (xs ys : JsString) : percentPoint cp ++ xs ≠ percentPoint 0xFFFD ++ ys := by
  have hsecond : (percentPoint cp ++ xs)[1]? = some 70 := by
    have hdigit : (0xF0 + cp / 262144) / 16 = 15 := by omega
    rw [percentPoint, utf8Of, if_neg (by omega), if_neg (by omega), if_neg (by omega)]
    simp [percentByte, hdigit, upperHexDigit]
  intro heq
  rw [heq] at hsecond
  exact absurd hsecond (by simp [percentPoint, utf8Of, percentByte, upperHexDigit])

/-- A proper pair is read as the code point it is. -/
theorem pairRead_eq {c d : UInt16} (h : (isHighSurrogate c && isLowSurrogate d) = true) :
    0x10000 + c.toNat % 0x400 * 0x400 + d.toNat % 0x400 =
      0x10000 + (c.toNat - 0xD800) * 0x400 + (d.toNat - 0xDC00) := by
  simp only [isHighSurrogate, isLowSurrogate, Bool.and_eq_true, decide_eq_true_eq] at h
  omega

theorem none_mem_dropLast_some (cp : Nat) (points : List (Option Nat)) :
    none ∉ (some cp :: points).dropLast ↔ none ∉ points.dropLast := by
  cases points with
  | nil => simp
  | cons point points => simp [List.dropLast_cons_of_ne_nil]

/-- The code encodes the code points of a string if and only if no surrogate before its last unit
is unpaired. -/
theorem encodeStr_iff (noEscapeTable : Nat → Int) (str : JsString) :
    encodeStr str noEscapeTable hexTable = percentEncoded noEscapeTable str ↔
      LoneOnlyAtEnd str := by
  rw [encodeStr_eq, percentEncoded, LoneOnlyAtEnd]
  induction str using codePoints.induct with
  | case1 => simp [pointsRead, codePoints]
  | case2 c => simp [pointsRead, codePoints]
  | case3 c d rest hpair ih =>
      have hpoint := pairRead_eq hpair
      have hsurrogate : isSurrogate c = true := by
        rw [isSurrogate, (Bool.and_eq_true_iff.mp hpair).1, Bool.true_or]
      rw [pointsRead, if_pos hsurrogate, codePoints, if_pos hpair, hpoint, List.flatMap_cons,
        List.flatMap_cons, List.append_right_inj, ih, none_mem_dropLast_some]
  | case4 c d rest hpair ih =>
      rw [codePoints, if_neg hpair, pointsRead]
      by_cases hc : isSurrogate c = true
      · rw [if_pos hc, unitPoint_surrogate hc]
        constructor
        · intro heq
          rw [List.flatMap_cons, List.flatMap_cons, encodePart, if_neg (by omega)] at heq
          exact absurd heq (percentPoint_ne_replacement (by omega) (by omega) _ _)
        · intro hend
          have hne : codePoints (d :: rest) ≠ [] := codePoints_ne_nil (by simp)
          rw [List.dropLast_cons_of_ne_nil hne] at hend
          exact absurd List.mem_cons_self hend
      · rw [if_neg hc, unitPoint_plain hc, List.flatMap_cons, List.flatMap_cons,
          List.append_right_inj, ih, none_mem_dropLast_some]

/-- A letter behind a high surrogate becomes part of a pair. -/
theorem encodeStr_swallows :
    encodeStr [0xD800, 65] (fun _ => 1) hexTable = percentPoint 0x10041 ∧
    percentEncoded (fun _ => 1) [0xD800, 65] = percentPoint 0xFFFD ++ [65] ∧
    ¬ ∀ (noEscapeTable : Nat → Int) (str : JsString),
      encodeStr str noEscapeTable hexTable = percentEncoded noEscapeTable str := by
  refine ⟨by decide, by decide, ?_⟩
  intro h
  exact absurd (h (fun _ => 1) [0xD800, 65]) (by decide)

end HermesNode.Url
