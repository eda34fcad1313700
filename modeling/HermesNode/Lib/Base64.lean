/-
Module: HermesNode.Lib.Base64
Purpose: Bytes as digits of six bits, most significant first. Three bytes are four digits; what is left
  over at the end of the digits, less than a byte, is dropped. The digits of bytes give the bytes back,
  and two digit lists, one inside the other, give the same bytes only if they are the same or differ by
  one digit behind whole groups.
Trusted boundary: none
Main exports: digitsOfBytes, bytesOfDigits, bytesOfDigits_append, bytesOfDigits_eq_iff
-/
import HermesNode.Lib.Buffer

namespace HermesNode

/-- The three bytes of four digits. -/
def tripleBytes (a b c d : Nat) : Bytes :=
  let triple := a * 262144 + b * 4096 + c * 64 + d
  [UInt8.ofNat (triple / 65536), UInt8.ofNat (triple / 256), UInt8.ofNat triple]

/-- Two digits at the end are one byte and three are two; a single one is none. -/
def bytesOfDigits : List Nat → Bytes
  | a :: b :: c :: d :: rest => tripleBytes a b c d ++ bytesOfDigits rest
  | [a, b, c] => (tripleBytes a b c 0).take 2
  | [a, b] => (tripleBytes a b 0 0).take 1
  | _ => []

def digitsOfBytes : Bytes → List Nat
  | a :: b :: c :: rest =>
      [a.toNat / 4, a.toNat % 4 * 16 + b.toNat / 16, b.toNat % 16 * 4 + c.toNat / 64, c.toNat % 64]
        ++ digitsOfBytes rest
  | [a, b] => [a.toNat / 4, a.toNat % 4 * 16 + b.toNat / 16, b.toNat % 16 * 4]
  | [a] => [a.toNat / 4, a.toNat % 4 * 16]
  | [] => []

/-- A byte is a number below 256. -/
theorem ofNat_eq_of_mod {n : Nat} {b : UInt8} (h : n % 256 = b.toNat) : UInt8.ofNat n = b := by
  apply UInt8.toNat_inj.mp
  rw [UInt8.toNat_ofNat']
  exact h

@[simp] theorem tripleBytes_length (a b c d : Nat) : (tripleBytes a b c d).length = 3 := rfl

/-- Nothing is lost on the way to the digits and back. -/
theorem bytesOfDigits_digitsOfBytes (bs : Bytes) : bytesOfDigits (digitsOfBytes bs) = bs := by
  induction bs using digitsOfBytes.induct with
  | case1 a b c rest ih =>
      have ha := a.toNat_lt
      have hb := b.toNat_lt
      have hc := c.toNat_lt
      simp only [digitsOfBytes, List.cons_append, List.nil_append, bytesOfDigits, tripleBytes, ih]
      rw [ofNat_eq_of_mod (b := a) (by omega), ofNat_eq_of_mod (b := b) (by omega),
        ofNat_eq_of_mod (b := c) (by omega)]
  | case2 a b =>
      have ha := a.toNat_lt
      have hb := b.toNat_lt
      simp only [digitsOfBytes, bytesOfDigits, tripleBytes, List.take_succ_cons, List.take_zero]
      rw [ofNat_eq_of_mod (b := a) (by omega), ofNat_eq_of_mod (b := b) (by omega)]
  | case3 a =>
      have ha := a.toNat_lt
      simp only [digitsOfBytes, bytesOfDigits, tripleBytes, List.take_succ_cons, List.take_zero]
      rw [ofNat_eq_of_mod (b := a) (by omega)]
  | case4 => rfl

theorem digitsOfBytes_lt {bs : Bytes} {d : Nat} (h : d ∈ digitsOfBytes bs) : d < 64 := by
  induction bs using digitsOfBytes.induct with
  | case1 a b c rest ih =>
      have ha := a.toNat_lt
      have hb := b.toNat_lt
      have hc := c.toNat_lt
      rw [digitsOfBytes, List.mem_append] at h
      cases h with
      | inl hfirst =>
          simp only [List.mem_cons, List.not_mem_nil, or_false] at hfirst
          omega
      | inr hrest => exact ih hrest
  | case2 a b =>
      have ha := a.toNat_lt
      have hb := b.toNat_lt
      simp only [digitsOfBytes, List.mem_cons, List.not_mem_nil, or_false] at h
      omega
  | case3 a =>
      have ha := a.toNat_lt
      simp only [digitsOfBytes, List.mem_cons, List.not_mem_nil, or_false] at h
      omega
  | case4 => simp [digitsOfBytes] at h

theorem bytesOfDigits_length (ds : List Nat) : (bytesOfDigits ds).length = 3 * ds.length / 4 := by
  induction ds using bytesOfDigits.induct with
  | case1 a b c d rest ih =>
      simp only [bytesOfDigits, tripleBytes_length, List.length_append, List.length_cons, ih]
      omega
  | case2 a b c => simp [bytesOfDigits]
  | case3 a b => simp [bytesOfDigits]
  | case4 ds hfour hthree htwo =>
      match ds with
      | [] => rfl
      | [a] => simp [bytesOfDigits]
      | [a, b] => exact absurd rfl (htwo a b)
      | [a, b, c] => exact absurd rfl (hthree a b c)
      | a :: b :: c :: d :: rest => exact absurd rfl (hfour a b c d rest)

/-- Two and three digits behind the groups are the bytes behind the triples. -/
theorem bytesOfDigits_length_mod (ds : List Nat) :
    (bytesOfDigits ds).length % 3 = ds.length % 4 - 1 := by
  have hsplit : ds.length = 4 * (ds.length / 4) + ds.length % 4 := by omega
  have hlt := Nat.mod_lt ds.length (show 0 < 4 by decide)
  generalize ds.length / 4 = q at hsplit
  generalize hr : ds.length % 4 = r at hsplit hlt
  have hthird : 3 * ds.length / 4 = 3 * q + (r - 1) := by omega
  rw [bytesOfDigits_length, hthird]
  omega

/-- Whole groups are read on their own. -/
theorem bytesOfDigits_append {ds : List Nat} (h : ds.length % 4 = 0) (es : List Nat) :
    bytesOfDigits (ds ++ es) = bytesOfDigits ds ++ bytesOfDigits es := by
  induction ds using bytesOfDigits.induct with
  | case1 a b c d rest ih =>
      have hrest : rest.length % 4 = 0 := by
        simp only [List.length_cons] at h
        omega
      simp only [List.cons_append, bytesOfDigits, ih hrest, List.append_assoc]
  | case2 a b c => simp at h
  | case3 a b => simp at h
  | case4 ds hfour hthree htwo =>
      match ds with
      | [] => rfl
      | [a] => simp at h
      | [a, b] => exact absurd rfl (htwo a b)
      | [a, b, c] => exact absurd rfl (hthree a b c)
      | a :: b :: c :: d :: rest => exact absurd rfl (hfour a b c d rest)

/-- The digits of a group are what its bytes say. -/
theorem tripleBytes_injective {a b c d a' b' c' d' : Nat} (ha : a < 64) (hb : b < 64) (hc : c < 64)
    (hd : d < 64) (ha' : a' < 64) (hb' : b' < 64) (hc' : c' < 64) (hd' : d' < 64)
    (h : tripleBytes a b c d = tripleBytes a' b' c' d') : a = a' ∧ b = b' ∧ c = c' ∧ d = d' := by
  simp only [tripleBytes, List.cons.injEq, and_true] at h
  obtain ⟨hfirst, hsecond, hthird⟩ := h
  have htop := congrArg UInt8.toNat hfirst
  have hmiddle := congrArg UInt8.toNat hsecond
  have hlow := congrArg UInt8.toNat hthird
  simp only [UInt8.toNat_ofNat'] at htop hmiddle hlow
  omega

/-- Whole groups of digits are told apart by their bytes. -/
theorem bytesOfDigits_injective {ds es : List Nat} (hds : ∀ d ∈ ds, d < 64)
    (hes : ∀ e ∈ es, e < 64) (hgroups : ds.length % 4 = 0) (hlength : ds.length = es.length)
    (h : bytesOfDigits ds = bytesOfDigits es) : ds = es := by
  induction ds using bytesOfDigits.induct generalizing es with
  | case1 a b c d rest ih =>
      match es with
      | [] | [_] | [_, _] | [_, _, _] => simp at hlength
      | a' :: b' :: c' :: d' :: rest' =>
          simp only [List.length_cons] at hgroups hlength
          simp only [bytesOfDigits] at h
          obtain ⟨hgroup, hrest⟩ := List.append_inj h (by simp only [tripleBytes_length])
          have hdigits := tripleBytes_injective (hds a (by simp)) (hds b (by simp)) (hds c (by simp))
            (hds d (by simp)) (hes a' (by simp)) (hes b' (by simp)) (hes c' (by simp))
            (hes d' (by simp)) hgroup
          obtain ⟨rfl, rfl, rfl, rfl⟩ := hdigits
          rw [ih (fun x hx => hds x (by simp [hx])) (fun x hx => hes x (by simp [hx])) (by omega)
            (by omega) hrest]
  | case2 a b c => simp at hgroups
  | case3 a b => simp at hgroups
  | case4 ds hfour hthree htwo =>
      match ds with
      | [] => exact (List.eq_nil_of_length_eq_zero hlength.symm).symm
      | [a] => simp at hgroups
      | [a, b] => exact absurd rfl (htwo a b)
      | [a, b, c] => exact absurd rfl (hthree a b c)
      | a :: b :: c :: d :: rest => exact absurd rfl (hfour a b c d rest)

/-- More digits give the same bytes only where one more stands behind whole groups. -/
theorem bytesOfDigits_eq_iff {ds es : List Nat} (hsub : List.Sublist ds es)
    (hes : ∀ e ∈ es, e < 64) :
    bytesOfDigits es = bytesOfDigits ds ↔ es = ds ∨ (ds.length % 4 = 0 ∧ ∃ e, es = ds ++ [e]) := by
  have hds : ∀ d ∈ ds, d < 64 := fun d hd => hes d (hsub.subset hd)
  constructor
  · intro h
    have hlength := congrArg List.length h
    rw [bytesOfDigits_length, bytesOfDigits_length] at hlength
    have hle := hsub.length_le
    by_cases hsame : ds.length = es.length
    · exact Or.inl (hsub.eq_of_length hsame).symm
    · -- three bytes for four digits: only one digit more, and that behind whole groups
      have hgroups : ds.length % 4 = 0 := by
        have hmod : ds.length = 4 * (ds.length / 4) + ds.length % 4 := by omega
        have hcases : ds.length % 4 = 0 ∨ ds.length % 4 = 1 ∨ ds.length % 4 = 2 ∨
            ds.length % 4 = 3 := by omega
        rcases hcases with h0 | h1 | h2 | h3
        · exact h0
        · omega
        · omega
        · omega
      have hone : es.length = ds.length + 1 := by omega
      have hsplit : es.take ds.length ++ es.drop ds.length = es := List.take_append_drop _ _
      have hfront : (es.take ds.length).length = ds.length := by
        rw [List.length_take]
        omega
      obtain ⟨e, hlast⟩ := List.length_eq_one_iff.mp
        (show (es.drop ds.length).length = 1 by rw [List.length_drop]; omega)
      have hbytes : bytesOfDigits (es.take ds.length) = bytesOfDigits ds := by
        rw [← h]
        conv_rhs => rw [← hsplit]
        rw [bytesOfDigits_append (by rw [hfront]; exact hgroups), hlast]
        simp [bytesOfDigits]
      have hsame := bytesOfDigits_injective (fun d hd => hes d (List.mem_of_mem_take hd)) hds
        (by rw [hfront]; exact hgroups) hfront hbytes
      refine Or.inr ⟨hgroups, e, ?_⟩
      rw [← hlast, ← hsame, hfront]
      exact hsplit.symm
  · intro h
    rcases h with rfl | ⟨hgroups, e, rfl⟩
    · rfl
    · rw [bytesOfDigits_append hgroups]
      simp [bytesOfDigits]

end HermesNode
