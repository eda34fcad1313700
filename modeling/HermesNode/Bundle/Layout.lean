/-
Module: HermesNode.Bundle.Layout
Purpose: Where the writer puts things. Interning only appends to the string table and every offset
  it hands out holds the string it was asked for; the emitted file has each section at the offset
  its header computes, and each payload at an aligned offset of the payload section. Offsets are
  natural numbers throughout: the casts to `uint32_t` lose nothing in a file below 2^32 bytes, and
  that bound enters in `RoundTrip` only.
Trusted boundary: none
Main exports: StringTable.Holds, Frozen.sections, payloadLayout_spec
-/
import HermesNode.Bundle.Writer

namespace HermesNode.Bundle

/-! ### Interning -/

namespace StringTable

/-- The bytes of one string-table entry. -/
def entryBytes (s : Bytes) : Bytes := u32le (UInt32.ofNat s.length) ++ s

/-- Offset `offset` of the table bytes holds the entry of `s`. The offset is the cast of the
position, which may lose bits in a table that is too large. -/
def Holds (stringBytes : Bytes) (offset : UInt32) (s : Bytes) : Prop :=
  ∃ n, offset = UInt32.ofNat n ∧ At stringBytes n (entryBytes s)

/-- Everything the intern table remembers is in the bytes. -/
def Consistent (t : StringTable) : Prop :=
  ∀ s offset, t.internTable.lookup s = some offset → Holds t.stringBytes offset s

theorem consistent_empty : Consistent {} := by
  intro s offset h
  cases h

theorem Holds.extend {bytes bytes' : Bytes} {offset : UInt32} {s : Bytes}
    (h : Holds bytes offset s) (hext : bytes <+: bytes') : Holds bytes' offset s := by
  obtain ⟨n, hn, hat⟩ := h
  obtain ⟨more, rfl⟩ := hext
  exact ⟨n, hn, hat.append more⟩

/-- One interning step: the table stays consistent, keeps what it had and holds the string. -/
theorem internString_spec {t : StringTable} (hc : t.Consistent) (s : Bytes) :
    (t.internString s).2.Consistent ∧ t.stringBytes <+: (t.internString s).2.stringBytes ∧
      Holds (t.internString s).2.stringBytes (t.internString s).1 s := by
  cases hfind : t.internTable.lookup s with
  | some offset =>
      simp only [internString, hfind]
      exact ⟨hc, List.prefix_refl _, hc s offset hfind⟩
  | none =>
      simp only [internString, hfind]
      have hext : t.stringBytes <+: t.stringBytes ++ entryBytes s := List.prefix_append _ _
      have hnew : Holds (t.stringBytes ++ entryBytes s) (UInt32.ofNat t.stringBytes.length) s :=
        ⟨t.stringBytes.length, rfl, t.stringBytes, [], by simp, rfl⟩
      refine ⟨?_, hext, hnew⟩
      intro s' offset' hlookup
      by_cases heq : s' = s
      · subst heq
        have hoffset : UInt32.ofNat t.stringBytes.length = offset' := by
          simpa using hlookup
        rw [← hoffset]
        exact hnew
      · have hold : t.internTable.lookup s' = some offset' := by
          have hbeq : (s' == s) = false := by simpa using heq
          simpa [List.lookup_cons, hbeq] using hlookup
        exact (hc s' offset' hold).extend hext

/-- Interning a list in order: every offset holds its string in the final table. -/
theorem internAll_spec {t : StringTable} (hc : t.Consistent) (ss : List Bytes) :
    (t.internAll ss).2.Consistent ∧ t.stringBytes <+: (t.internAll ss).2.stringBytes ∧
      List.Forall₂ (fun s offset => Holds (t.internAll ss).2.stringBytes offset s) ss
        (t.internAll ss).1 := by
  induction ss generalizing t with
  | nil => exact ⟨hc, List.prefix_refl _, List.Forall₂.nil⟩
  | cons s ss ih =>
      obtain ⟨hc', hext, hholds⟩ := internString_spec hc s
      obtain ⟨hc'', hext', hrest⟩ := ih hc'
      exact ⟨hc'', hext.trans hext', List.Forall₂.cons (hholds.extend hext') hrest⟩

end StringTable

open StringTable

/-- The two strings of every native row. -/
theorem internNatives_spec {t : StringTable} (hc : t.Consistent) (ns : List PendingNative) :
    (internNatives t ns).2.Consistent ∧
      t.stringBytes <+: (internNatives t ns).2.stringBytes ∧
      List.Forall₂ (fun n s => Holds (internNatives t ns).2.stringBytes s.1 n.sidecar ∧
        Holds (internNatives t ns).2.stringBytes s.2 n.digest) ns (internNatives t ns).1 := by
  induction ns generalizing t with
  | nil => exact ⟨hc, List.prefix_refl _, List.Forall₂.nil⟩
  | cons n ns ih =>
      obtain ⟨hc₁, hext₁, hsidecar⟩ := internString_spec hc n.sidecar
      obtain ⟨hc₂, hext₂, hdigest⟩ := internString_spec hc₁ n.digest
      obtain ⟨hc₃, hext₃, hrest⟩ := ih hc₂
      refine ⟨hc₃, hext₁.trans (hext₂.trans hext₃), List.Forall₂.cons ⟨?_, ?_⟩ hrest⟩
      · exact hsidecar.extend (hext₂.trans hext₃)
      · exact hdigest.extend hext₃

/-! ### Alignment -/

theorem le_alignUp_table (n : Nat) : n ≤ alignUp n kTableAlign := by
  simp only [alignUp, kTableAlign]
  omega

theorem le_alignUp_payload (n : Nat) : n ≤ alignUp n kBundlePayloadAlign := by
  simp only [alignUp, kBundlePayloadAlign]
  omega

theorem alignUp_mod (n align : Nat) : alignUp n align % align = 0 := by
  simp [alignUp]

/-- Aligning from an aligned start only rounds the length. -/
theorem alignUp_add {c : Nat} (hc : c % kBundlePayloadAlign = 0) (n : Nat) :
    alignUp (c + n) kBundlePayloadAlign = c + alignUp n kBundlePayloadAlign := by
  simp only [alignUp, kBundlePayloadAlign] at *
  omega

/-! ### Payloads -/

@[simp] theorem paddedPayload_length (m : PendingModule) :
    (Frozen.paddedPayload m).length = alignUp m.payload.length kBundlePayloadAlign := by
  have hle := le_alignUp_payload m.payload.length
  simp only [Frozen.paddedPayload, List.length_append, List.length_replicate]
  omega

/-- The layout loop from an aligned cursor: the section's size is what is emitted, and module `i`
gets the cast of an aligned position at which its payload is emitted. -/
theorem payloadLayout_spec (ms : List PendingModule) (cursor : Nat)
    (hc : cursor % kBundlePayloadAlign = 0) :
    (payloadLayout ms cursor).2 = cursor + (ms.flatMap Frozen.paddedPayload).length ∧
    (payloadLayout ms cursor).1.length = ms.length ∧
    ∀ (i : Nat) (m : PendingModule), ms[i]? = some m → ∃ k,
      (payloadLayout ms cursor).1[i]? = some (UInt32.ofNat (cursor + k)) ∧
      k % kBundlePayloadAlign = 0 ∧ At (ms.flatMap Frozen.paddedPayload) k m.payload := by
  induction ms generalizing cursor with
  | nil => exact ⟨rfl, rfl, fun i m hi => by simp at hi⟩
  | cons m ms ih =>
      have hnext : alignUp (cursor + m.payload.length) kBundlePayloadAlign =
          cursor + alignUp m.payload.length kBundlePayloadAlign := alignUp_add hc _
      have halign := alignUp_mod m.payload.length kBundlePayloadAlign
      have hc' : (cursor + alignUp m.payload.length kBundlePayloadAlign) % kBundlePayloadAlign = 0 := by
        rw [Nat.add_mod, hc, halign]
        rfl
      obtain ⟨hsize, hlen, hplaced⟩ :=
        ih (cursor + alignUp m.payload.length kBundlePayloadAlign) hc'
      refine ⟨?_, ?_, ?_⟩
      · simp only [payloadLayout, hnext, hsize, List.flatMap_cons, List.length_append,
          paddedPayload_length]
        omega
      · simp only [payloadLayout, hnext, List.length_cons, hlen]
      · intro i m' hi
        cases i with
        | zero =>
            simp only [List.getElem?_cons_zero, Option.some.injEq] at hi
            subst hi
            refine ⟨0, rfl, rfl, ?_⟩
            have hwhole := At.self ((m :: ms).flatMap Frozen.paddedPayload)
            rw [List.flatMap_cons] at hwhole ⊢
            have hpadded : At _ 0 (Frozen.paddedPayload m) := hwhole.left
            exact hpadded.left
        | succ i =>
            obtain ⟨k, hk, hmod, hat⟩ := hplaced i m' (by simpa using hi)
            refine ⟨alignUp m.payload.length kBundlePayloadAlign + k, ?_, ?_, ?_⟩
            · simpa [payloadLayout, hnext, Nat.add_assoc] using hk
            · rw [Nat.add_mod, halign, hmod]
              rfl
            · have hwhole := At.self ((m :: ms).flatMap Frozen.paddedPayload)
              rw [List.flatMap_cons] at hwhole ⊢
              have htail := hwhole.right
              rw [paddedPayload_length, Nat.zero_add] at htail
              exact htail.trans hat

/-! ### Sections -/

/-- A table of fixed-size records takes `count * size` bytes. -/
theorem length_flatMap_encode {α : Type} {size : Nat} {encode : α → Bytes}
    (hsize : ∀ x, (encode x).length = size) (xs : List α) :
    (xs.flatMap encode).length = xs.length * size := by
  induction xs with
  | nil => simp
  | cons x xs ih =>
      rw [List.flatMap_cons, List.length_append, ih, hsize, List.length_cons, Nat.succ_mul]
      omega

namespace Frozen

theorem moduleRecords_length (f : Frozen) : f.moduleRecords.length = f.modules.length := by
  obtain ⟨_, hlen, _⟩ := payloadLayout_spec f.modules 0 rfl
  simp [moduleRecords, payloads, hlen]

/-- The sections of an emitted file, each at the offset the layout computes for it. -/
structure Sections (f : Frozen) (generationTag : UInt32) (data : Bytes) : Prop where
  header : At data 0 (f.header generationTag).encode
  strings : At data sizeofBundleHeader f.stringBytes
  modules : At data f.moduleTableOffset (f.moduleRecords.flatMap BundleModuleRecord.encode)
  edges : At data f.edgeTableOffset (f.edges.flatMap BundleEdgeRecord.encode)
  preloads : At data f.preloadTableOffset (f.preloads.flatMap u32le)
  natives : At data f.nativeTableOffset (f.natives.flatMap BundleNativeRecord.encode)
  vmOptions : At data f.vmOptionsTableOffset (f.vmOptions.flatMap u32le)
  payloads : At data f.payloadOffset (f.modules.flatMap paddedPayload)
  size : data.length = f.payloadOffset + f.payloads.2

/-- What is emitted before the padding in front of the payload section. -/
def tablesEnd (f : Frozen) : Nat := f.vmOptionsTableOffset + f.vmOptions.length * 4

theorem sections (f : Frozen) (generationTag : UInt32) :
    f.Sections generationTag (f.emit generationTag) := by
  have hpad₁ : sizeofBundleHeader + f.stringBytes.length ≤ f.moduleTableOffset :=
    le_alignUp_table _
  have hpad₂ : f.tablesEnd ≤ f.payloadOffset := le_alignUp_payload _
  -- every prefix of the file up to a section has the length the layout computed
  have emitted : ∀ {out bs : Bytes} {off : Nat}, out.length = off →
      (out ++ bs).length = off + bs.length := by
    intro out bs off hout
    rw [List.length_append, hout]
  set head := (f.header generationTag).encode ++ f.stringBytes with hhead
  have lhead : head.length = sizeofBundleHeader + f.stringBytes.length := by
    simp [hhead]
  set out₁ := head ++ List.replicate (f.moduleTableOffset - head.length) 0 with hout₁
  have l₁ : out₁.length = f.moduleTableOffset := by
    simp only [hout₁, List.length_append, List.length_replicate]
    omega
  set out₂ := out₁ ++ f.moduleRecords.flatMap BundleModuleRecord.encode with hout₂
  have l₂ : out₂.length = f.edgeTableOffset := by
    rw [hout₂, emitted l₁, length_flatMap_encode BundleModuleRecord.encode_length,
      moduleRecords_length]
    rfl
  set out₃ := out₂ ++ f.edges.flatMap BundleEdgeRecord.encode with hout₃
  have l₃ : out₃.length = f.preloadTableOffset := by
    rw [hout₃, emitted l₂, length_flatMap_encode BundleEdgeRecord.encode_length]
    rfl
  set out₄ := out₃ ++ f.preloads.flatMap u32le with hout₄
  have l₄ : out₄.length = f.nativeTableOffset := by
    rw [hout₄, emitted l₃, length_flatMap_encode u32le_length]
    rfl
  set out₅ := out₄ ++ f.natives.flatMap BundleNativeRecord.encode with hout₅
  have l₅ : out₅.length = f.vmOptionsTableOffset := by
    rw [hout₅, emitted l₄, length_flatMap_encode BundleNativeRecord.encode_length]
    rfl
  set out₆ := out₅ ++ f.vmOptions.flatMap u32le with hout₆
  have l₆ : out₆.length = f.tablesEnd := by
    rw [hout₆, emitted l₅, length_flatMap_encode u32le_length]
    rfl
  set out₇ := out₆ ++ List.replicate (f.payloadOffset - out₆.length) 0 with hout₇
  have l₇ : out₇.length = f.payloadOffset := by
    simp only [hout₇, List.length_append, List.length_replicate]
    omega
  have hemit : f.emit generationTag = out₇ ++ f.modules.flatMap paddedPayload := rfl
  have p₇ : At (f.emit generationTag) 0 out₇ := by
    rw [hemit]
    exact (At.self out₇).append _
  have p₆ : At (f.emit generationTag) 0 out₆ := p₇.left
  have p₅ : At (f.emit generationTag) 0 out₅ := p₆.left
  have p₄ : At (f.emit generationTag) 0 out₄ := p₅.left
  have p₃ : At (f.emit generationTag) 0 out₃ := p₄.left
  have p₂ : At (f.emit generationTag) 0 out₂ := p₃.left
  have p₁ : At (f.emit generationTag) 0 out₁ := p₂.left
  have p₀ : At (f.emit generationTag) 0 head := p₁.left
  refine ⟨p₀.left, ?_, ?_, ?_, ?_, ?_, ?_, ?_, ?_⟩
  · simpa using p₀.right
  · simpa [l₁] using p₂.right
  · simpa [l₂] using p₃.right
  · simpa [l₃] using p₄.right
  · simpa [l₄] using p₅.right
  · simpa [l₅] using p₆.right
  · have hlast : At (f.emit generationTag) 0 (out₇ ++ f.modules.flatMap paddedPayload) :=
      hemit ▸ At.self _
    simpa [l₇] using hlast.right
  · obtain ⟨hsize, _, _⟩ := payloadLayout_spec f.modules 0 rfl
    rw [hemit, List.length_append, l₇, payloads, hsize, Nat.zero_add]

end Frozen

end HermesNode.Bundle
