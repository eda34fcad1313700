/-
Module: HermesNode.Lib.Patch
Purpose: A list written into another one. It replaces the elements from an offset on, and no others; a
  second list written behind the first is written as if both were one. Also a pattern repeated up to a
  length, which grows by any part of itself once its length is a multiple of the pattern's.
Trusted boundary: none
Main exports: patch, repeated, repeated_append, repeated_getElem?
-/
import Mathlib.Data.List.Basic

namespace HermesNode

variable {α : Type}

/-- `buf` with `data` in place of what stands from `off` on. -/
def patch (buf : List α) (off : Nat) (data : List α) : List α :=
  buf.take off ++ (data ++ buf.drop (off + data.length))

section

variable {buf data more : List α} {off : Nat}

theorem patch_length (h : off + data.length ≤ buf.length) :
    (patch buf off data).length = buf.length := by
  simp only [patch, List.length_append, List.length_take, List.length_drop]
  omega

@[simp] theorem patch_nil : patch buf off [] = buf := by
  simp [patch]

theorem patch_getElem?_outside (h : off + data.length ≤ buf.length) {i : Nat}
    (hi : i < off ∨ off + data.length ≤ i) : (patch buf off data)[i]? = buf[i]? := by
  have htake : (buf.take off).length = off := by
    rw [List.length_take]
    omega
  unfold patch
  obtain hlt | hle := hi
  · rw [List.getElem?_append_left (by omega), List.getElem?_take, if_pos hlt]
  · rw [List.getElem?_append_right (by omega), List.getElem?_append_right (by omega),
      List.getElem?_drop, htake]
    congr 1
    omega

theorem patch_getElem?_inside (h : off ≤ buf.length) {i : Nat} (hi : i < data.length) :
    (patch buf off data)[off + i]? = data[i]? := by
  have htake : (buf.take off).length = off := by
    rw [List.length_take]
    omega
  unfold patch
  rw [List.getElem?_append_right (by omega), htake, Nat.add_sub_cancel_left,
    List.getElem?_append_left hi]

/-- What was written is read back. -/
theorem patch_window (h : off ≤ buf.length) {n : Nat} (hn : n ≤ data.length) :
    ((patch buf off data).drop off).take n = data.take n := by
  have htake : (buf.take off).length = off := by
    rw [List.length_take]
    omega
  unfold patch
  rw [List.drop_left' htake, List.take_append_of_le_length hn]

/-- What is written behind a list continues it. -/
theorem patch_append (h : off ≤ buf.length) :
    patch (patch buf off data) (off + data.length) more = patch buf off (data ++ more) := by
  have htake : (buf.take off).length = off := by
    rw [List.length_take]
    omega
  have hparts : (buf.take off ++ data).length = off + data.length := by
    rw [List.length_append, htake]
  have hfront : (patch buf off data).take (off + data.length) = buf.take off ++ data := by
    rw [patch, ← List.append_assoc, List.take_left' hparts]
  have hback : (patch buf off data).drop (off + data.length + more.length) =
      buf.drop (off + (data ++ more).length) := by
    rw [patch, ← List.append_assoc, ← List.drop_drop, List.drop_left' hparts, List.drop_drop,
      List.length_append, Nat.add_assoc]
  rw [patch, hfront, hback, patch]
  simp only [List.append_assoc]

end

/-! ### Repeated patterns -/

/-- The first `n` elements of a list repeated without end. -/
def repeated (p : List α) : Nat → List α
  | 0 => []
  | n + 1 => repeated p n ++ (p[n % p.length]?).toList

variable {p : List α} {m n : Nat}

theorem repeated_length (hp : p ≠ []) (n : Nat) : (repeated p n).length = n := by
  induction n with
  | zero => rfl
  | succ n ih =>
      have hlt := Nat.mod_lt n (List.length_pos_of_ne_nil hp)
      rw [repeated, List.length_append, ih, List.getElem?_eq_getElem hlt]
      rfl

theorem repeated_getElem? (hp : p ≠ []) {i : Nat} (hi : i < n) :
    (repeated p n)[i]? = p[i % p.length]? := by
  induction n with
  | zero => omega
  | succ n ih =>
      have hlength := repeated_length hp n
      rw [repeated]
      by_cases hlt : i < n
      · rw [List.getElem?_append_left (by omega), ih hlt]
      · have heq : i = n := by omega
        have hmod := Nat.mod_lt n (List.length_pos_of_ne_nil hp)
        rw [List.getElem?_append_right (by omega), hlength, heq, Nat.sub_self,
          List.getElem?_eq_getElem hmod]
        rfl

theorem repeated_take (hp : p ≠ []) (h : m ≤ n) : (repeated p n).take m = repeated p m := by
  apply List.ext_getElem?
  intro i
  by_cases hi : i < m
  · rw [List.getElem?_take, if_pos hi, repeated_getElem? hp (by omega), repeated_getElem? hp hi]
  · rw [List.getElem?_eq_none (by rw [List.length_take]; omega),
      List.getElem?_eq_none (by rw [repeated_length hp]; omega)]

/-- Up to its own length a pattern is repeated once. -/
theorem repeated_of_le (hp : p ≠ []) (h : n ≤ p.length) : repeated p n = p.take n := by
  apply List.ext_getElem?
  intro i
  by_cases hi : i < n
  · rw [repeated_getElem? hp hi, Nat.mod_eq_of_lt (by omega), List.getElem?_take, if_pos hi]
  · rw [List.getElem?_eq_none (by rw [repeated_length hp]; omega),
      List.getElem?_eq_none (by rw [List.length_take]; omega)]

/-- Behind whole patterns the repetition starts anew. -/
theorem repeated_append (hp : p ≠ []) (hm : p.length ∣ m) :
    repeated p m ++ repeated p n = repeated p (m + n) := by
  apply List.ext_getElem?
  intro i
  have hlength := repeated_length hp m
  by_cases hi : i < m
  · rw [List.getElem?_append_left (by omega), repeated_getElem? hp hi,
      repeated_getElem? hp (by omega)]
  · rw [List.getElem?_append_right (by omega), hlength]
    by_cases hn : i < m + n
    · have hmod : i % p.length = (i - m) % p.length := by
        obtain ⟨k, rfl⟩ := hm
        conv_lhs => rw [← Nat.sub_add_cancel (Nat.le_of_not_lt hi)]
        rw [Nat.add_mul_mod_self_left]
      rw [repeated_getElem? hp (by omega), repeated_getElem? hp hn, hmod]
    · rw [List.getElem?_eq_none (by rw [repeated_length hp]; omega),
        List.getElem?_eq_none (by rw [repeated_length hp]; omega)]

end HermesNode
