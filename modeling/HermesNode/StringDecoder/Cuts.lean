/-
Module: HermesNode.StringDecoder.Cuts
Purpose: Where the string of some bytes may be cut in two, for each encoding: behind a complete
  character, and for UTF-8 also before every byte that continues nothing. What a decoder may hold is
  an incomplete character, and every state it comes to is well formed in that sense.
Trusted boundary: none
Main exports: CutsBefore, Incomplete, Incomplete.extend, Incomplete.cuts
-/
import HermesNode.StringDecoder.Decoder

namespace HermesNode.StringDecoder

/-! ### Where the string of some bytes may be cut -/

/-- The string of `as` and whatever starts with `bs` is the two strings joined. -/
def CutsBefore (enc : Encoding) (as bs : Bytes) : Prop :=
  ∀ rest, makeString enc (as ++ (bs ++ rest)) = makeString enc as ++ makeString enc (bs ++ rest)

theorem makeString_utf8 (data : Bytes) : makeString .utf8 data = decodeUtf8 data := by
  cases data with
  | nil => rfl
  | cons b bs => rfl

theorem makeString_ucs2 (data : Bytes) : makeString .ucs2 data = makeUtf16String data := by
  cases data with
  | nil => rfl
  | cons b bs => rfl

theorem makeString_base64 (data : Bytes) :
    makeString .base64 data = makeBase64String false data := by
  cases data with
  | nil => rfl
  | cons b bs => rfl

theorem makeString_base64url (data : Bytes) :
    makeString .base64url data = makeBase64String true data := by
  cases data with
  | nil => rfl
  | cons b bs => rfl

theorem makeUtf16String_append (as bs : Bytes) (h : as.length % 2 = 0) :
    makeUtf16String (as ++ bs) = makeUtf16String as ++ makeUtf16String bs := by
  induction as using makeUtf16String.induct with
  | case1 a b rest ih =>
      have hrest : rest.length % 2 = 0 := by
        simp only [List.length_cons] at h
        omega
      simp [makeUtf16String, ih hrest]
  | case2 as hshort =>
      cases as with
      | nil => rfl
      | cons a as =>
          cases as with
          | nil => simp at h
          | cons b rest => exact absurd rfl (hshort a b rest)

theorem makeBase64String_append (urlSafe : Bool) (as bs : Bytes) (h : as.length % 3 = 0) :
    makeBase64String urlSafe (as ++ bs) =
      makeBase64String urlSafe as ++ makeBase64String urlSafe bs := by
  induction as using makeBase64String.induct with
  | case1 => rfl
  | case2 a => simp at h
  | case3 a b => simp at h
  | case4 a b c rest ih =>
      have hrest : rest.length % 3 = 0 := by
        simp only [List.length_cons] at h
        omega
      simp [makeBase64String, ih hrest]

theorem cuts_ucs2 {as : Bytes} (h : as.length % 2 = 0) (bs : Bytes) : CutsBefore .ucs2 as bs := by
  intro rest
  simp only [makeString_ucs2]
  exact makeUtf16String_append as (bs ++ rest) h

theorem cuts_base64 {as : Bytes} (h : as.length % 3 = 0) (bs : Bytes) :
    CutsBefore .base64 as bs := by
  intro rest
  simp only [makeString_base64]
  exact makeBase64String_append false as (bs ++ rest) h

theorem cuts_base64url {as : Bytes} (h : as.length % 3 = 0) (bs : Bytes) :
    CutsBefore .base64url as bs := by
  intro rest
  simp only [makeString_base64url]
  exact makeBase64String_append true as (bs ++ rest) h

theorem cuts_settled {as : Bytes} (h : Settled as) (bs : Bytes) : CutsBefore .utf8 as bs := by
  intro rest
  simp only [makeString_utf8]
  exact decodeUtf8_append_settled h (bs ++ rest)

theorem cuts_lead (as : Bytes) {b : UInt8} (h : isTail b = false) (bs : Bytes) :
    CutsBefore .utf8 as (b :: bs) := by
  intro rest
  simp only [makeString_utf8]
  exact decodeUtf8_append_lead as h (bs ++ rest)

theorem cuts_single {enc : Encoding} (hsupported : enc.supported = true)
    (hsingle : enc.multibyte = false) (as bs : Bytes) : CutsBefore enc as bs := by
  intro rest
  cases as with
  | nil => rfl
  | cons a as =>
      cases hrest : bs ++ rest with
      | nil => simp [makeString]
      | cons c cs =>
          cases enc with
          | ascii => simp [makeString]
          | latin1 => simp [makeString]
          | hex => simp [makeString, makeHexString]
          | buffer => cases hsupported
          | utf8 => cases hsingle
          | ucs2 => cases hsingle
          | base64 => cases hsingle
          | base64url => cases hsingle

/-! ### Bytes of UTF-8 -/

theorem forall_bytes {p : UInt8 → Prop} (h : ∀ n : Fin 256, p (UInt8.ofNat n.val)) (b : UInt8) :
    p b := by
  have hb := h ⟨b.toNat, b.toNat_lt⟩
  simpa using hb

/-- What the two readers of a lead byte make of each byte. -/
theorem byte_widths (b : UInt8) :
    continues b = isTail b ∧ lacking (utf8Start b).1 ≤ (charWidth b).getD 1 - 1 ∧
      (charWidth b).getD 1 ≤ 4 ∧ (b &&& 0x80 = 0 → isTail b = false ∧ charWidth b = none) ∧
      (charWidth b ≠ none → isTail b = false) :=
  forall_bytes (p := fun b => continues b = isTail b ∧
    lacking (utf8Start b).1 ≤ (charWidth b).getD 1 - 1 ∧ (charWidth b).getD 1 ≤ 4 ∧
    (b &&& 0x80 = 0 → isTail b = false ∧ charWidth b = none) ∧
    (charWidth b ≠ none → isTail b = false)) (by decide +kernel) b

theorem continues_eq (b : UInt8) : continues b = isTail b := (byte_widths b).1

/-- A lead byte lacks at most the rest of its character. -/
theorem lacking_width (b : UInt8) : lacking (utf8Start b).1 ≤ (charWidth b).getD 1 - 1 :=
  (byte_widths b).2.1

theorem charWidth_le (b : UInt8) : (charWidth b).getD 1 ≤ 4 := (byte_widths b).2.2.1

/-- A byte of ASCII leads nothing. -/
theorem charWidth_ascii (b : UInt8) : b &&& 0x80 = 0 → isTail b = false ∧ charWidth b = none :=
  (byte_widths b).2.2.2.1

theorem charWidth_lead (b : UInt8) : charWidth b ≠ none → isTail b = false :=
  (byte_widths b).2.2.2.2

/-- As many continuation bytes as the lead byte asks for settle the text. -/
theorem settled_width (front : Bytes) {lead : UInt8} {tails : Bytes} (hlead : isTail lead = false)
    (htails : ∀ b ∈ tails, isTail b = true) (hwidth : (charWidth lead).getD 1 ≤ tails.length + 1) :
    Settled (front ++ lead :: tails) := by
  have hsettled : Settled ((front ++ [lead]) ++ tails) := by
    apply settled_tails htails
    rw [lacking_lead front hlead]
    have hlack := lacking_width lead
    omega
  simpa using hsettled

/-! ### The state -/

/-- The bytes of the incomplete character. -/
def Decoder.held (d : Decoder) : Bytes := d.chars.take d.buffered

/-- The most bytes a character takes. -/
def Encoding.charSize : Encoding → Nat
  | .utf8 | .ucs2 => 4
  | .base64 | .base64url => 3
  | _ => 0

theorem charSize_le (enc : Encoding) : enc.charSize ≤ 4 := by
  cases enc <;> decide

/-- A character of which `missing` bytes are not there. -/
def Incomplete : Encoding → Bytes → Nat → Prop
  | .utf8, held, missing =>
      ∃ lead tails, held = lead :: tails ∧ charWidth lead = some (held.length + missing) ∧
        ∀ b ∈ tails, isTail b = true
  | .ucs2, held, missing =>
      held.length + missing = 2 ∧ 0 < held.length ∨ held.length + missing = 4 ∧ 1 < held.length
  | .base64, held, missing => held.length + missing = 3 ∧ 0 < held.length
  | .base64url, held, missing => held.length + missing = 3 ∧ 0 < held.length
  | _, _, _ => False

theorem Incomplete.room {enc : Encoding} {held : Bytes} {missing : Nat}
    (h : Incomplete enc held missing) : held.length + missing ≤ enc.charSize := by
  cases enc with
  | utf8 =>
      obtain ⟨lead, tails, hheld, hwidth, htails⟩ := h
      have hle := charWidth_le lead
      rw [hwidth] at hle
      exact hle
  | ucs2 =>
      cases h with
      | inl h => simp [Encoding.charSize, h.1]
      | inr h => simp [Encoding.charSize, h.1]
  | base64 => exact Nat.le_of_eq h.1
  | base64url => exact Nat.le_of_eq h.1
  | ascii => cases h
  | latin1 => cases h
  | hex => cases h
  | buffer => cases h

/-- Bytes that continue the character bring it nearer to its end. -/
theorem Incomplete.extend {enc : Encoding} {held bs : Bytes} {missing : Nat}
    (h : Incomplete enc held missing) (hlength : bs.length ≤ missing)
    (htails : enc = .utf8 → ∀ b ∈ bs, isTail b = true) :
    Incomplete enc (held ++ bs) (missing - bs.length) := by
  have hsum : (held ++ bs).length + (missing - bs.length) = held.length + missing := by
    rw [List.length_append]
    omega
  have hlonger : held.length ≤ (held ++ bs).length := by simp
  cases enc with
  | utf8 =>
      obtain ⟨lead, tails, hheld, hwidth, hall⟩ := h
      subst hheld
      exists lead, tails ++ bs
      constructor
      · rfl
      · constructor
        · rw [hsum]
          exact hwidth
        · intro b hb
          cases List.mem_append.mp hb with
          | inl hb => exact hall b hb
          | inr hb => exact htails rfl b hb
  | ucs2 =>
      cases h with
      | inl h => exact Or.inl ⟨hsum.trans h.1, Nat.lt_of_lt_of_le h.2 hlonger⟩
      | inr h => exact Or.inr ⟨hsum.trans h.1, Nat.lt_of_lt_of_le h.2 hlonger⟩
  | base64 => exact ⟨hsum.trans h.1, Nat.lt_of_lt_of_le h.2 hlonger⟩
  | base64url => exact ⟨hsum.trans h.1, Nat.lt_of_lt_of_le h.2 hlonger⟩
  | ascii => cases h
  | latin1 => cases h
  | hex => cases h
  | buffer => cases h

theorem Incomplete.held_pos {enc : Encoding} {held : Bytes} {missing : Nat}
    (h : Incomplete enc held missing) : 0 < held.length := by
  cases enc with
  | utf8 =>
      obtain ⟨lead, tails, hheld, hwidth, htails⟩ := h
      simp [hheld]
  | ucs2 =>
      cases h with
      | inl h => exact h.2
      | inr h => exact Nat.lt_of_succ_lt h.2
  | base64 => exact h.2
  | base64url => exact h.2
  | ascii => cases h
  | latin1 => cases h
  | hex => cases h
  | buffer => cases h

/-- The string may be cut behind a complete character. -/
theorem Incomplete.cuts {enc : Encoding} {held : Bytes} (h : Incomplete enc held 0) (bs : Bytes) :
    CutsBefore enc held bs := by
  cases enc with
  | utf8 =>
      obtain ⟨lead, tails, hheld, hwidth, htails⟩ := h
      subst hheld
      have hlead : isTail lead = false := charWidth_lead lead (by simp [hwidth])
      apply cuts_settled
      have hsettled : Settled ([] ++ lead :: tails) := by
        apply settled_width [] hlead htails
        simp [hwidth]
      exact hsettled
  | ucs2 =>
      apply cuts_ucs2
      cases h with
      | inl h =>
          have hlength : held.length = 2 := h.1
          simp [hlength]
      | inr h =>
          have hlength : held.length = 4 := h.1
          simp [hlength]
  | base64 =>
      apply cuts_base64
      have hlength : held.length = 3 := h.1
      simp [hlength]
  | base64url =>
      apply cuts_base64url
      have hlength : held.length = 3 := h.1
      simp [hlength]
  | ascii => cases h
  | latin1 => cases h
  | hex => cases h
  | buffer => cases h

/-- Nothing is held. -/
def Decoder.Idle (d : Decoder) : Prop := d.buffered = 0 ∧ d.missing = 0

/-- The decoder holds nothing, or an incomplete character that fits its four bytes. -/
structure WellFormed (d : Decoder) : Prop where
  size : d.chars.length = 4
  room : d.buffered + d.missing ≤ d.encoding.charSize
  shape : d.Idle ∨ 0 < d.missing ∧ Incomplete d.encoding d.held d.missing

theorem Decoder.Idle.held {d : Decoder} (h : d.Idle) : d.held = [] := by
  simp [Decoder.held, h.1]

theorem Decoder.Idle.wellFormed {d : Decoder} (h : d.Idle) (hsize : d.chars.length = 4) :
    WellFormed d where
  size := hsize
  room := by simp [h.1, h.2]
  shape := Or.inl h

theorem WellFormed.buffered_le {d : Decoder} (h : WellFormed d) : d.buffered ≤ 4 := by
  have hroom := h.room
  have hsize := charSize_le d.encoding
  omega

theorem WellFormed.held_length {d : Decoder} (h : WellFormed d) : d.held.length = d.buffered := by
  have hle := h.buffered_le
  simp [Decoder.held, h.size, hle]

end HermesNode.StringDecoder
