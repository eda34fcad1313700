/-
Module: HermesNode.Lib.Text
Purpose: The numbers a program prints into file names: decimal (`std::to_string`) and zero-padded
  lower-case hexadecimal (`%02x`, `%08x`). Both are injective where the name has to be unique, and
  neither prints a byte that a separator uses. Also which byte strings are UTF-8.
Trusted boundary: none
Main exports: decimal, hexPadded, isUtf8_joinSlash, isUtf8_segment
-/
import HermesNode.Lib.Segments

namespace HermesNode

/-- `std::to_string` of an unsigned number. -/
def decimal (n : Nat) : Bytes := ascii (String.ofList (Nat.toDigits 10 n))

/-- The number a string of decimal digits denotes. -/
def decimalValue (bs : Bytes) : Nat := bs.foldl (fun acc b => 10 * acc + (b.toNat - 48)) 0

theorem digitChar_byte : ∀ d < 10, UInt8.ofNat (Nat.digitChar d).toNat = UInt8.ofNat (48 + d) := by
  decide

theorem decimal_eq (n : Nat) :
    decimal n = if n < 10 then [UInt8.ofNat (48 + n)]
      else decimal (n / 10) ++ [UInt8.ofNat (48 + n % 10)] := by
  unfold decimal ascii
  rw [String.toList_ofList, String.toList_ofList, Nat.toDigits_eq_if (by decide)]
  split
  · rename_i hlt
    simp [digitChar_byte n hlt]
  · simp [digitChar_byte (n % 10) (Nat.mod_lt n (by decide))]

theorem decimalValue_decimal (n : Nat) : decimalValue (decimal n) = n := by
  induction n using Nat.strongRecOn with
  | ind n ih =>
      rw [decimal_eq]
      split
      · simp only [decimalValue, List.foldl_cons, List.foldl_nil, UInt8.toNat_ofNat']
        omega
      · have hdiv := ih (n / 10) (by omega)
        simp only [decimalValue] at hdiv
        simp only [decimalValue, List.foldl_append, hdiv, List.foldl_cons, List.foldl_nil,
          UInt8.toNat_ofNat']
        omega

theorem decimal_injective {m n : Nat} (h : decimal m = decimal n) : m = n := by
  rw [← decimalValue_decimal m, h, decimalValue_decimal]

theorem decimal_digits {n : Nat} {b : UInt8} (h : b ∈ decimal n) :
    48 ≤ b.toNat ∧ b.toNat ≤ 57 := by
  induction n using Nat.strongRecOn with
  | ind n ih =>
      rw [decimal_eq] at h
      split at h
      · rw [List.mem_singleton.mp h, UInt8.toNat_ofNat']
        omega
      · rcases List.mem_append.mp h with hfront | hlast
        · exact ih (n / 10) (by omega) hfront
        · rw [List.mem_singleton.mp hlast, UInt8.toNat_ofNat']
          omega

def hexDigit (d : Nat) : UInt8 := if d < 10 then UInt8.ofNat (48 + d) else UInt8.ofNat (87 + d)

/-- The low `width` hexadecimal digits of `n`, most significant first: `%0<width>x` for a number
of at most `width` digits. -/
def hexPadded : Nat → Nat → Bytes
  | 0, _ => []
  | width + 1, n => hexPadded width (n / 16) ++ [hexDigit (n % 16)]

@[simp] theorem hexPadded_length (width n : Nat) : (hexPadded width n).length = width := by
  induction width generalizing n with
  | zero => rfl
  | succ width ih => simp [hexPadded, ih]

theorem hexDigit_inj : ∀ c < 16, ∀ d < 16, hexDigit c = hexDigit d → c = d := by
  decide

theorem hexPadded_injective {width m n : Nat} (hm : m < 16 ^ width) (hn : n < 16 ^ width)
    (h : hexPadded width m = hexPadded width n) : m = n := by
  induction width generalizing m n with
  | zero =>
      simp only [Nat.pow_zero, Nat.lt_one_iff] at hm hn
      rw [hm, hn]
  | succ width ih =>
      rw [Nat.pow_succ] at hm hn
      have hparts := List.append_inj h (by simp)
      have hdiv : m / 16 = n / 16 := ih (by omega) (by omega) hparts.1
      have hmod : m % 16 = n % 16 := by
        apply hexDigit_inj _ (Nat.mod_lt m (by decide)) _ (Nat.mod_lt n (by decide))
        simpa using hparts.2
      omega

/-- Hexadecimal digits are `0` to `9` and `a` to `f`. -/
theorem hexPadded_last {width n : Nat} : ∃ d < 16, (hexPadded (width + 1) n).getLast? =
    some (hexDigit d) :=
  ⟨n % 16, Nat.mod_lt n (by decide), by simp [hexPadded]⟩

/-- A separator splits a string in one way when neither tail contains it. -/
theorem append_sep_inj {sep : UInt8} {xs xs' ys ys' : Bytes} (hy : sep ∉ ys) (hy' : sep ∉ ys')
    (h : xs ++ sep :: ys = xs' ++ sep :: ys') : xs = xs' ∧ ys = ys' := by
  induction xs generalizing xs' with
  | nil =>
      cases xs' with
      | nil => simpa using h
      | cons b bs =>
          have htail : ys = bs ++ sep :: ys' := by simpa using (List.cons.inj h).2
          exact absurd (by rw [htail]; simp) hy
  | cons a as ih =>
      cases xs' with
      | nil =>
          have htail : as ++ sep :: ys = ys' := by simpa using (List.cons.inj h).2
          exact absurd (by rw [← htail]; simp) hy'
      | cons b bs =>
          rcases List.cons.inj h with ⟨hhead, htail⟩
          rcases ih htail with ⟨hxs, hys⟩
          exact ⟨by rw [hhead, hxs], hys⟩

/-! ### UTF-8 -/

/-- A continuation byte. -/
def isTail (b : UInt8) : Bool := 0x80 ≤ b.toNat && b.toNat ≤ 0xBF

/-- Well-formed UTF-8: the byte sequences of the scalar values, shortest form only and without the
surrogates. -/
def isUtf8 : Bytes → Bool
  | [] => true
  | a :: b :: c :: d :: rest =>
      if a.toNat < 0x80 then isUtf8 (b :: c :: d :: rest)
      else if 0xC2 ≤ a.toNat && a.toNat ≤ 0xDF then isTail b && isUtf8 (c :: d :: rest)
      else if 0xE0 ≤ a.toNat && a.toNat ≤ 0xEF then
        secondOk a b && isTail c && isUtf8 (d :: rest)
      else 0xF0 ≤ a.toNat && a.toNat ≤ 0xF4 && secondOk a b && isTail c && isTail d && isUtf8 rest
  | a :: b :: c :: [] =>
      if a.toNat < 0x80 then isUtf8 [b, c]
      else if 0xC2 ≤ a.toNat && a.toNat ≤ 0xDF then isTail b && isUtf8 [c]
      else 0xE0 ≤ a.toNat && a.toNat ≤ 0xEF && secondOk a b && isTail c
  | a :: b :: [] =>
      if a.toNat < 0x80 then isUtf8 [b]
      else 0xC2 ≤ a.toNat && a.toNat ≤ 0xDF && isTail b
  | a :: [] => a.toNat < 0x80
where
  /-- The second byte behind a lead byte of three or four. -/
  secondOk (a b : UInt8) : Bool :=
    isTail b && !(a == 0xE0 && b.toNat < 0xA0) && !(a == 0xED && 0xA0 ≤ b.toNat) &&
      !(a == 0xF0 && b.toNat < 0x90) && !(a == 0xF4 && 0x90 ≤ b.toNat)

/-- What must follow a lead byte that is no ASCII. -/
def utf8Behind (a : UInt8) : Bytes → Bool
  | b :: c :: d :: rest =>
      if 0xC2 ≤ a.toNat && a.toNat ≤ 0xDF then isTail b && isUtf8 (c :: d :: rest)
      else if 0xE0 ≤ a.toNat && a.toNat ≤ 0xEF then
        isUtf8.secondOk a b && isTail c && isUtf8 (d :: rest)
      else
        0xF0 ≤ a.toNat && a.toNat ≤ 0xF4 && isUtf8.secondOk a b && isTail c && isTail d && isUtf8 rest
  | b :: c :: [] =>
      if 0xC2 ≤ a.toNat && a.toNat ≤ 0xDF then isTail b && isUtf8 [c]
      else 0xE0 ≤ a.toNat && a.toNat ≤ 0xEF && isUtf8.secondOk a b && isTail c
  | b :: [] => 0xC2 ≤ a.toNat && a.toNat ≤ 0xDF && isTail b
  | [] => false

theorem isUtf8_cons (a : UInt8) (rest : Bytes) :
    isUtf8 (a :: rest) = if a.toNat < 0x80 then isUtf8 rest else utf8Behind a rest := by
  match rest with
  | [] => by_cases h : a.toNat < 0x80 <;> simp [isUtf8, utf8Behind, h]
  | [b] => by_cases h : a.toNat < 0x80 <;> simp [isUtf8, utf8Behind, h]
  | [b, c] => by_cases h : a.toNat < 0x80 <;> simp [isUtf8, utf8Behind, h]
  | b :: c :: d :: rest => by_cases h : a.toNat < 0x80 <;> simp [isUtf8, utf8Behind, h]

theorem isUtf8_ascii {c : UInt8} (hc : c.toNat < 0x80) (rest : Bytes) :
    isUtf8 (c :: rest) = isUtf8 rest := by
  rw [isUtf8_cons, if_pos hc]

theorem isTail_ascii {c : UInt8} (hc : c.toNat < 0x80) : isTail c = false := by
  simp [isTail]
  omega

theorem secondOk_ascii {c : UInt8} (hc : c.toNat < 0x80) (a : UInt8) :
    isUtf8.secondOk a c = false := by
  simp [isUtf8.secondOk, isTail_ascii hc]

/-- An ASCII byte stands between characters. -/
theorem isUtf8_split {c : UInt8} (hc : c.toNat < 0x80) (xs ys : Bytes) :
    isUtf8 (xs ++ c :: ys) = (isUtf8 xs && isUtf8 ys) := by
  have htail := isTail_ascii hc
  have hsecond := secondOk_ascii hc
  induction xs using isUtf8.induct with
  | case1 => simp [isUtf8_ascii hc, isUtf8]
  | case2 a b c d rest ha ih =>
      rw [List.cons_append, isUtf8_ascii ha, isUtf8_ascii ha, ih]
  | case3 a b c d rest ha htwo ih =>
      simp only [List.cons_append] at ih ⊢
      simp only [isUtf8_cons a, if_neg ha, utf8Behind, if_pos htwo, ih, Bool.and_assoc]
  | case4 a b c d rest ha htwo hthree ih =>
      simp only [List.cons_append] at ih ⊢
      simp only [isUtf8_cons a, if_neg ha, utf8Behind, if_neg htwo, if_pos hthree, ih,
        Bool.and_assoc]
  | case5 a b c d rest ha htwo hthree ih =>
      simp only [List.cons_append] at ih ⊢
      simp only [isUtf8_cons a, if_neg ha, utf8Behind, if_neg htwo, if_neg hthree, ih,
        Bool.and_assoc]
  | case6 a b c ha ih =>
      rw [List.cons_append, isUtf8_ascii ha, isUtf8_ascii ha, ih]
  | case7 a b c ha htwo ih =>
      simp only [List.cons_append, List.nil_append] at ih ⊢
      simp only [isUtf8_cons a, if_neg ha, utf8Behind, if_pos htwo, ih, Bool.and_assoc]
  | case8 a b c ha htwo =>
      simp only [List.cons_append, List.nil_append, isUtf8_cons a, if_neg ha, utf8Behind,
        if_neg htwo, htail, isUtf8_ascii hc, Bool.and_false, Bool.false_and]
      split
      · rename_i hthree
        simp [Bool.and_eq_true_iff.mp hthree]
      · rename_i hthree
        simp [hthree]
  | case9 a b ha ih =>
      rw [List.cons_append, isUtf8_ascii ha, isUtf8_ascii ha, ih]
  | case10 a b ha =>
      simp only [List.cons_append, List.nil_append, isUtf8_cons a, if_neg ha]
      cases ys with
      | nil => simp [utf8Behind, htail, isUtf8, hc]
      | cons y ys => simp [utf8Behind, htail, isUtf8_ascii hc, Bool.and_assoc]
  | case11 a =>
      simp only [List.cons_append, List.nil_append, isUtf8_cons a, utf8Behind]
      split
      · simp [isUtf8_ascii hc, isUtf8]
      · match ys with
        | [] => simp [htail]
        | [y] => simp [htail, hsecond]
        | y :: z :: ys => simp [htail, hsecond]

/-! ### Segments -/

theorem slash_ascii : slash.toNat < 0x80 := by decide

/-- The pieces between slashes are UTF-8 exactly when the whole is. -/
theorem isUtf8_joinSlash (segs : List Bytes) : isUtf8 (joinSlash segs) = segs.all isUtf8 := by
  induction segs with
  | nil => rfl
  | cons seg rest ih =>
      by_cases hrest : rest = []
      · subst hrest
        simp [joinSlash]
      · rw [joinSlash_cons hrest, isUtf8_split slash_ascii, ih, List.all_cons]

theorem isUtf8_segment {p seg : Bytes} (hp : isUtf8 p = true) (hseg : seg ∈ splitSlash p) :
    isUtf8 seg = true := by
  rw [← joinSlash_splitSlash p, isUtf8_joinSlash] at hp
  exact List.all_eq_true.mp hp seg hseg

end HermesNode
