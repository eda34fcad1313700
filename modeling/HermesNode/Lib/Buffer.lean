/-
Module: HermesNode.Lib.Buffer
Purpose: Byte buffers with bounds-checked reads, little-endian 32-bit words and the byte order
  of `std::string`. A read that would leave the buffer has no value, so "this computation has a
  value" is the statement that it stayed inside. `At` places a run of bytes at an offset; every
  layout argument about a serialized file is a chain of `At` facts.
Trusted boundary: none
Main exports: Bytes, readBytes, readU32, readWords
-/
import Mathlib.Algebra.GroupWithZero.Nat
import Mathlib.Algebra.Ring.Int.Defs
import Mathlib.Data.List.Basic
import Mathlib.Order.Defs.LinearOrder

namespace HermesNode

/-- A byte string: file contents, a path, a `std::string`. -/
abbrev Bytes := List UInt8

instance lawfulBEq_bytes : LawfulBEq Bytes := inferInstance

/-- The bytes of an ASCII string literal. -/
def ascii (s : String) : Bytes := s.toList.map fun c => UInt8.ofNat c.toNat

/-- Read `len` bytes at `off`. There is no value when the range leaves the buffer. -/
def readBytes (buf : Bytes) (off len : Nat) : Option Bytes :=
  if off + len ≤ buf.length then some ((buf.drop off).take len) else none

variable {buf : Bytes}

theorem readBytes_isSome_iff {off len : Nat} :
    (readBytes buf off len).isSome = true ↔ off + len ≤ buf.length := by
  unfold readBytes
  split <;> simp_all

theorem readBytes_of_le {off len : Nat} (h : off + len ≤ buf.length) :
    ∃ bs, readBytes buf off len = some bs ∧ bs.length = len := by
  refine ⟨(buf.drop off).take len, by simp [readBytes, h], ?_⟩
  simp only [List.length_take, List.length_drop]
  omega

theorem readBytes_length {buf bs : Bytes} {off len : Nat} (h : readBytes buf off len = some bs) :
    bs.length = len := by
  have hle : off + len ≤ buf.length := readBytes_isSome_iff.mp (by rw [h]; rfl)
  obtain ⟨bs', hbs', hlen⟩ := readBytes_of_le hle
  rw [h] at hbs'
  cases hbs'
  exact hlen

/-! ### Little-endian words -/

/-- The four bytes of a `uint32_t` as the target stores it. -/
def u32le (n : UInt32) : Bytes :=
  [UInt8.ofNat n.toNat, UInt8.ofNat (n.toNat / 256), UInt8.ofNat (n.toNat / 65536),
    UInt8.ofNat (n.toNat / 16777216)]

/-- The `uint32_t` that four stored bytes denote. -/
def u32ofLE : Bytes → UInt32
  | [b0, b1, b2, b3] =>
      UInt32.ofNat (b0.toNat + 256 * b1.toNat + 65536 * b2.toNat + 16777216 * b3.toNat)
  | _ => 0

@[simp] theorem u32le_length (n : UInt32) : (u32le n).length = 4 := rfl

theorem u32ofLE_u32le (n : UInt32) : u32ofLE (u32le n) = n := by
  apply UInt32.toNat_inj.mp
  have hlt : n.toNat < 4294967296 := n.toNat_lt
  simp only [u32le, u32ofLE, UInt8.toNat_ofNat', UInt32.toNat_ofNat']
  omega

/-- Read one little-endian word at `off`. -/
def readU32 (buf : Bytes) (off : Nat) : Option UInt32 :=
  (readBytes buf off 4).map u32ofLE

variable {off : Nat}

theorem readU32_isSome_iff :
    (readU32 buf off).isSome = true ↔ off + 4 ≤ buf.length := by
  simp [readU32, readBytes_isSome_iff]

theorem readU32_of_le (h : off + 4 ≤ buf.length) :
    ∃ n, readU32 buf off = some n :=
  Option.isSome_iff_exists.mp (readU32_isSome_iff.mpr h)

/-- Read `n` consecutive words from `off`: the fields of a record behind a pointer cast. -/
def readWords (buf : Bytes) (off : Nat) : Nat → Option (List UInt32)
  | 0 => some []
  | n + 1 => do
      let w ← readU32 buf off
      let ws ← readWords buf (off + 4) n
      pure (w :: ws)

theorem readWords_of_le {off n : Nat} (h : off + 4 * n ≤ buf.length) :
    ∃ ws, readWords buf off n = some ws := by
  induction n generalizing off with
  | zero => exact ⟨[], rfl⟩
  | succ n ih =>
      have hhead : off + 4 ≤ buf.length := by omega
      have hrest : off + 4 + 4 * n ≤ buf.length := by omega
      obtain ⟨w, hw⟩ := readU32_of_le hhead
      obtain ⟨ws, hws⟩ := ih hrest
      exact ⟨w :: ws, by simp [readWords, hw, hws]⟩

/-- An array of words, as `memcpy` of a `uint32_t` array lays it out. -/
def wordsLE (ws : List UInt32) : Bytes := ws.flatMap u32le

@[simp] theorem wordsLE_cons (w : UInt32) (ws : List UInt32) :
    wordsLE (w :: ws) = u32le w ++ wordsLE ws := rfl

@[simp] theorem wordsLE_length (ws : List UInt32) : (wordsLE ws).length = 4 * ws.length := by
  induction ws with
  | nil => rfl
  | cons w ws ih => simp only [wordsLE_cons, List.length_append, u32le_length, ih,
      List.length_cons]; omega

/-! ### Bytes at an offset -/

/-- The bytes `bs` stand at offset `off` of `buf`. -/
def At (buf : Bytes) (off : Nat) (bs : Bytes) : Prop :=
  ∃ pre post, buf = pre ++ (bs ++ post) ∧ pre.length = off

namespace At

theorem length_le {buf bs : Bytes} (h : At buf off bs) :
    off + bs.length ≤ buf.length := by
  obtain ⟨pre, post, rfl, rfl⟩ := h
  simp only [List.length_append]
  omega

theorem readBytes_eq {buf bs : Bytes} (h : At buf off bs) :
    readBytes buf off bs.length = some bs := by
  obtain ⟨pre, post, rfl, rfl⟩ := h
  simp [readBytes]

theorem left {buf xs ys : Bytes} {off : Nat} (h : At buf off (xs ++ ys)) : At buf off xs := by
  obtain ⟨pre, post, rfl, rfl⟩ := h
  exact ⟨pre, ys ++ post, by simp, rfl⟩

theorem right {buf xs ys : Bytes} {off : Nat} (h : At buf off (xs ++ ys)) :
    At buf (off + xs.length) ys := by
  obtain ⟨pre, post, rfl, rfl⟩ := h
  exact ⟨pre ++ xs, post, by simp, by simp⟩

/-- Appending to a buffer moves nothing. -/
theorem append {buf bs : Bytes} {off : Nat} (h : At buf off bs) (more : Bytes) :
    At (buf ++ more) off bs := by
  obtain ⟨pre, post, rfl, rfl⟩ := h
  exact ⟨pre, post ++ more, by simp, rfl⟩

/-- Placement composes: a run placed in a run that is itself placed. -/
theorem trans {buf mid bs : Bytes} {off inner : Nat} (houter : At buf off mid)
    (hinner : At mid inner bs) : At buf (off + inner) bs := by
  obtain ⟨pre, post, rfl, rfl⟩ := houter
  obtain ⟨pre', post', rfl, rfl⟩ := hinner
  exact ⟨pre ++ pre', post' ++ post, by simp, by simp⟩

theorem self (bs : Bytes) : At bs 0 bs := ⟨[], [], by simp, rfl⟩

theorem readU32_eq {n : UInt32} (h : At buf off (u32le n)) :
    readU32 buf off = some n := by
  have hread : readBytes buf off 4 = some (u32le n) := h.readBytes_eq
  simp [readU32, hread, u32ofLE_u32le]

/-- Consecutive words of a placed array. -/
theorem readWords_eq {ws : List UInt32} (h : At buf off (wordsLE ws)) :
    readWords buf off ws.length = some ws := by
  induction ws generalizing off with
  | nil => rfl
  | cons w ws ih =>
      rw [wordsLE_cons] at h
      have hword : readU32 buf off = some w := h.left.readU32_eq
      have hrest : readWords buf (off + 4) ws.length = some ws := ih h.right
      simp [readWords, hword, hrest]

/-- Entry `i` of a placed array of fixed-size records. -/
theorem record {α : Type} {off size i : Nat} {xs : List α} {x : α}
    {encode : α → Bytes} (hsize : ∀ x, (encode x).length = size)
    (h : At buf off (xs.flatMap encode)) (hx : xs[i]? = some x) :
    At buf (off + size * i) (encode x) := by
  induction xs generalizing off i with
  | nil => simp at hx
  | cons y ys ih =>
      rw [List.flatMap_cons] at h
      cases i with
      | zero =>
          simp only [List.getElem?_cons_zero, Option.some.injEq] at hx
          subst hx
          simpa using h.left
      | succ i =>
          have hrest := ih h.right (by simpa using hx)
          rw [hsize] at hrest
          have hoff : off + size * (i + 1) = off + size + size * i := by
            rw [Nat.mul_add, Nat.mul_one]
            omega
          rw [hoff]
          exact hrest

end At

/-! ### The order of byte strings

`std::string` and `std::string_view` compare by `char_traits<char>::compare`: byte by byte as
unsigned values, a proper prefix before its extensions. -/

/-- `a.compare(b) < 0`. -/
def bytesLt : Bytes → Bytes → Bool
  | _, [] => false
  | [], _ :: _ => true
  | a :: as, b :: bs => a.toNat < b.toNat || (a == b && bytesLt as bs)

theorem bytesLt_irrefl (a : Bytes) : bytesLt a a = false := by
  induction a with
  | nil => rfl
  | cons x xs ih => simp [bytesLt, ih]

theorem bytesLt_trans {a b c : Bytes} (hab : bytesLt a b = true) (hbc : bytesLt b c = true) :
    bytesLt a c = true := by
  induction a generalizing b c with
  | nil =>
      cases c with
      | nil => cases b <;> simp [bytesLt] at hbc
      | cons z zs => rfl
  | cons x xs ih =>
      cases b with
      | nil => simp [bytesLt] at hab
      | cons y ys =>
          cases c with
          | nil => simp [bytesLt] at hbc
          | cons z zs =>
              simp only [bytesLt, Bool.or_eq_true, decide_eq_true_eq, Bool.and_eq_true,
                beq_iff_eq] at hab hbc ⊢
              rcases hab with hab | ⟨rfl, hab⟩
              · rcases hbc with hbc | ⟨rfl, _⟩
                · exact Or.inl (Nat.lt_trans hab hbc)
                · exact Or.inl hab
              · rcases hbc with hbc | ⟨rfl, hbc⟩
                · exact Or.inl hbc
                · exact Or.inr ⟨rfl, ih hab hbc⟩

theorem bytesLt_asymm {a b : Bytes} (hab : bytesLt a b = true) : bytesLt b a = false := by
  by_contra hba
  have hself := bytesLt_trans hab (by simpa using hba)
  simp [bytesLt_irrefl] at hself

theorem bytesLt_trichotomy (a b : Bytes) : bytesLt a b = true ∨ a = b ∨ bytesLt b a = true := by
  induction a generalizing b with
  | nil => cases b <;> simp [bytesLt]
  | cons x xs ih =>
      cases b with
      | nil => simp [bytesLt]
      | cons y ys =>
          simp only [bytesLt, Bool.or_eq_true, decide_eq_true_eq, Bool.and_eq_true, beq_iff_eq,
            List.cons.injEq]
          rcases Nat.lt_trichotomy x.toNat y.toNat with hlt | heq | hgt
          · exact Or.inl (Or.inl hlt)
          · have hxy : x = y := UInt8.toNat_inj.mp heq
            subst hxy
            rcases ih ys with h | h | h
            · exact Or.inl (Or.inr ⟨rfl, h⟩)
            · exact Or.inr (Or.inl ⟨rfl, h⟩)
            · exact Or.inr (Or.inr (Or.inr ⟨rfl, h⟩))
          · exact Or.inr (Or.inr (Or.inl hgt))

/-- "Does not sort before" composes. -/
theorem bytesLt_false_trans {a b c : Bytes} (hba : bytesLt b a = false)
    (hcb : bytesLt c b = false) : bytesLt c a = false := by
  by_contra hca
  have hca' : bytesLt c a = true := by simpa using hca
  rcases bytesLt_trichotomy a b with hab | rfl | h
  · rw [bytesLt_trans hca' hab] at hcb
    cases hcb
  · rw [hca'] at hcb
    cases hcb
  · rw [h] at hba
    cases hba

/-- A string does not sort before its own beginning. -/
theorem bytesLt_of_append (front rest : Bytes) : bytesLt (front ++ rest) front = false := by
  induction front with
  | nil => cases rest <;> rfl
  | cons x xs ih => simp [bytesLt, ih]

/-- What sorts from `front` on and up to a string that starts with `front` starts with it too. -/
theorem starts_of_between {front s t : Bytes} (hs : bytesLt s front = false)
    (hts : bytesLt t s = false) (ht : front <+: t) : front <+: s := by
  induction front generalizing s t with
  | nil => exact List.nil_prefix
  | cons x xs ih =>
      rcases ht with ⟨rest, rfl⟩
      cases s with
      | nil => simp [bytesLt] at hs
      | cons y ys =>
          simp only [List.cons_append, bytesLt, Bool.or_eq_false_iff, decide_eq_false_iff_not,
            Bool.and_eq_false_iff, beq_eq_false_iff_ne] at hs hts
          have hxy : x = y := UInt8.toNat_inj.mp (Nat.le_antisymm (by omega) (by omega))
          subst hxy
          rw [List.cons_prefix_cons]
          refine ⟨rfl, ih ?_ ?_ ⟨rest, rfl⟩⟩
          · simpa using hs.2
          · simpa using hts.2

end HermesNode
