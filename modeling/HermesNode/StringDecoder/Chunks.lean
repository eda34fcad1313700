/-
Module: HermesNode.StringDecoder.Chunks
Purpose: A decoder decodes a text the same in one chunk as in many. What it returns and what it holds
  back always spell the string of all the bytes it was given, because every place where it cuts the
  bytes is one where the string may be cut. A flushed decoder decodes like a new one.
Trusted boundary: none
Main exports: Completes, KeepsEnd, chunks_invariant
-/
import HermesNode.StringDecoder.Cuts

namespace HermesNode.StringDecoder

/-! ### Finishing the character of the previous chunk -/

variable {d : Decoder}

theorem keep_held {bs : Bytes} (hsize : d.chars.length = 4)
    (hroom : d.buffered + bs.length ≤ 4) : (d.keep bs).held = d.held ++ bs := by
  have hlength : (d.chars.take d.buffered).length = d.buffered := by
    rw [List.length_take, hsize]
    omega
  have htake : (d.chars.take d.buffered ++ bs).length = d.buffered + bs.length := by
    rw [List.length_append, hlength]
  unfold Decoder.held Decoder.keep
  dsimp only
  rw [← htake]
  exact List.take_left

theorem keep_size {bs : Bytes} (hsize : d.chars.length = 4)
    (hroom : d.buffered + bs.length ≤ 4) : (d.keep bs).chars.length = 4 := by
  unfold Decoder.keep
  simp only [List.length_append, List.length_take, List.length_drop, hsize]
  omega

/-- What completing the held character does with a chunk. -/
inductive Completes (d : Decoder) (data : Bytes) : Decoder × Bytes × Option JsString → Prop where
  /-- Nothing is held. -/
  | idle (h : d.Idle) : Completes d data (d, data, none)
  /-- The whole chunk is held too. -/
  | kept {d' : Decoder} (hencoding : d'.encoding = d.encoding) (hwf : WellFormed d')
      (hheld : d'.held = d.held ++ data) : Completes d data (d', [], none)
  /-- The front of the chunk ends the character. -/
  | done {d' : Decoder} {front rest : Bytes} (hencoding : d'.encoding = d.encoding) (hidle : d'.Idle)
      (hsize : d'.chars.length = 4) (hdata : data = front ++ rest)
      (hcuts : CutsBefore d.encoding (d.held ++ front) rest) :
      Completes d data (d', rest, some (makeString d.encoding (d.held ++ front)))

variable {data : Bytes}

/-- No byte among the missing ones stops the character early. -/
theorem fill_spec (hwf : WellFormed d) (hmissing : 0 < d.missing)
    (htails : d.encoding = .utf8 → ∀ b ∈ data.take d.missing, isTail b = true) :
    Completes d data (d.fill data) := by
  have hincomplete : Incomplete d.encoding d.held d.missing := by
    cases hwf.shape with
    | inl h => exact absurd h.2 (Nat.ne_of_gt hmissing)
    | inr h => exact h.2
  have htaken : (data.take (min data.length d.missing)).length = min data.length d.missing := by
    simp
  have hle : (data.take (min data.length d.missing)).length ≤ d.missing := by
    rw [htaken]
    exact Nat.min_le_right _ _
  have hroom : d.buffered + (data.take (min data.length d.missing)).length ≤ 4 := by
    have hwhole := hwf.room
    have hsize := charSize_le d.encoding
    omega
  have hsame : data.take (min data.length d.missing) = data.take d.missing := by
    rw [← List.take_take, List.take_take, Nat.min_comm, ← List.take_take, List.take_length]
  have hnext := hincomplete.extend hle (by rw [hsame]; exact htails)
  rw [htaken] at hnext
  have hheld := keep_held hwf.size hroom
  have hsize := keep_size hwf.size hroom
  unfold Decoder.fill
  dsimp only
  split
  · rename_i hzero
    rw [hzero] at hnext
    have hstring : (d.keep (data.take (min data.length d.missing))).chars.take
        (d.keep (data.take (min data.length d.missing))).buffered =
        d.held ++ data.take (min data.length d.missing) := hheld
    rw [hstring]
    apply Completes.done
    · rfl
    · exact ⟨rfl, hzero⟩
    · exact hsize
    · exact (List.take_append_drop _ _).symm
    · exact hnext.cuts _
  · rename_i hmore
    have hall : min data.length d.missing = data.length := by omega
    rw [hall, List.take_length] at hnext hheld hsize
    rw [hall, List.take_length, List.drop_length]
    rw [hall] at hmore
    apply Completes.kept
    · rfl
    · constructor
      · exact hsize
      · have hwhole := hwf.room
        have hsum : d.buffered + data.length + (d.missing - data.length) =
            d.buffered + d.missing := by omega
        exact Nat.le_trans (Nat.le_of_eq hsum) hwhole
      · apply Or.inr
        constructor
        · exact Nat.pos_of_ne_zero hmore
        · rw [← hheld] at hnext
          exact hnext
    · exact hheld

theorem fill_none (hmissing : d.missing = 0) (hsize : d.chars.length = 4)
    (hbuffered : d.buffered ≤ 4) (data : Bytes) :
    ∃ d', d.fill data = (d', data, some (makeString d.encoding d.held)) ∧
      d'.encoding = d.encoding ∧ d'.Idle ∧ d'.chars.length = 4 := by
  have hroom : d.buffered + ([] : Bytes).length ≤ 4 := hbuffered
  have hheld := keep_held hsize hroom
  rw [List.append_nil] at hheld
  exists { d.keep [] with missing := 0, buffered := 0 }
  constructor
  · unfold Decoder.fill
    simp only [hmissing, Nat.min_zero, List.take_zero, List.drop_zero, Nat.sub_zero, if_true]
    have hstring : (d.keep []).chars.take (d.keep []).buffered = d.held := hheld
    rw [hstring]
  · exact ⟨rfl, ⟨rfl, rfl⟩, keep_size hsize hroom⟩

theorem stopEarly_spec (hwf : WellFormed d) (hmissing : 0 < d.missing)
    (data : Bytes) : Completes d data ((d.stopEarly data).1.fill (d.stopEarly data).2) := by
  unfold Decoder.stopEarly
  by_cases hutf8 : d.encoding = .utf8
  · rw [if_pos hutf8]
    cases hstop : (data.take d.missing).findIdx? (fun b => !continues b) with
    | none =>
        dsimp only
        apply fill_spec hwf hmissing
        intro _ b hb
        have hcontinues := List.findIdx?_eq_none_iff.mp hstop b hb
        rw [← continues_eq b]
        simpa using hcontinues
    | some i =>
        dsimp only
        obtain ⟨hlt, hbyte, hbefore⟩ := List.findIdx?_eq_some_iff_getElem.mp hstop
        rw [List.length_take] at hlt
        rw [List.getElem_take] at hbyte
        have hin : i < data.length := by omega
        have hlead : isTail data[i] = false := by
          rw [← continues_eq]
          simpa using hbyte
        have htaken : (data.take i).length = i := by
          rw [List.length_take]
          omega
        have hroom : d.buffered + (data.take i).length ≤ 4 := by
          have hwhole := hwf.room
          have hsize := charSize_le d.encoding
          omega
        have hsize := keep_size hwf.size hroom
        have hheld := keep_held hwf.size hroom
        have hbuffered : (d.keep (data.take i)).buffered ≤ 4 := hroom
        obtain ⟨d', hfill, hencoding, hidle, hsize'⟩ :=
          fill_none (d := { d.keep (data.take i) with missing := 0 }) rfl hsize hbuffered
            (data.drop i)
        rw [hfill]
        have hstring : Decoder.held { d.keep (data.take i) with missing := 0 } =
            d.held ++ data.take i := hheld
        rw [hstring]
        apply Completes.done
        · exact hencoding
        · exact hidle
        · exact hsize'
        · exact (List.take_append_drop _ _).symm
        · rw [hutf8, List.drop_eq_getElem_cons hin]
          exact cuts_lead _ hlead _
  · rw [if_neg hutf8]
    dsimp only
    apply fill_spec hwf hmissing
    intro h
    exact absurd h hutf8

theorem complete_spec (hwf : WellFormed d) (data : Bytes) :
    Completes d data (d.complete data) := by
  unfold Decoder.complete
  split
  · rename_i hmissing
    exact stopEarly_spec hwf hmissing data
  · rename_i hmissing
    cases hwf.shape with
    | inl hidle => exact Completes.idle hidle
    | inr h => exact absurd h.1 hmissing

/-! ### The incomplete character at the end -/

/-- What is kept of a chunk: nothing where the string may be cut behind it, or an incomplete
character. -/
def KeepsEnd (enc : Encoding) (data : Bytes) (kept : Nat × Nat) : Prop :=
  kept = (0, 0) ∧ CutsBefore enc data [] ∨
    ∃ front last, data = front ++ last ∧ kept.1 = last.length ∧ 0 < kept.2 ∧
      Incomplete enc last kept.2 ∧ CutsBefore enc front last

theorem scanBack_spec (front tails : Bytes) (hfront : front ≠ [])
    (htails : ∀ b ∈ tails, isTail b = true) (hfew : tails.length < 4) :
    KeepsEnd .utf8 (front ++ tails) (scanBack 0 tails.length front.reverse) := by
  induction hn : front.length generalizing front tails with
  | zero => exact absurd (List.length_eq_zero_iff.mp hn) hfront
  | succ n ih =>
      obtain ⟨front, b, rfl⟩ : ∃ fs b, front = fs ++ [b] :=
        ⟨_, _, (List.dropLast_append_getLast hfront).symm⟩
      have hjoin : (front ++ [b]) ++ tails = front ++ b :: tails := by simp
      have hlength : (b :: tails).length = tails.length + 1 := rfl
      rw [List.reverse_append, List.reverse_singleton, List.singleton_append, scanBack, hjoin,
        continues_eq]
      cases htail : isTail b with
      | true =>
          have hall : ∀ c ∈ b :: tails, isTail c = true := by
            intro c hc
            cases List.mem_cons.mp hc with
            | inl h => rw [h, htail]
            | inr h => exact htails c h
          simp only [if_true]
          split
          · rename_i hend
            apply Or.inl
            constructor
            · rfl
            · apply cuts_settled
              apply settled_tails hall
              rw [Bool.or_eq_true, decide_eq_true_eq, List.isEmpty_reverse] at hend
              cases hend with
              | inl hfour =>
                  have hlack := lacking_le (utf8Run none front).1
                  omega
              | inr hempty =>
                  rw [List.isEmpty_iff.mp hempty]
                  exact Nat.zero_le _
          · rename_i hgo
            rw [Bool.or_eq_true, decide_eq_true_eq, List.isEmpty_reverse, not_or] at hgo
            rw [← hlength]
            apply ih front (b :: tails)
            · intro hempty
              exact hgo.2 (List.isEmpty_iff.mpr hempty)
            · exact hall
            · omega
            · simpa using hn
      | false =>
          have hwidth := settled_width front htail htails
          cases hc : charWidth b with
          | none =>
              apply Or.inl
              simp [hc] at hwidth
              exact ⟨rfl, cuts_settled hwidth []⟩
          | some width =>
              simp only [Bool.false_eq_true, if_false]
              split
              · rename_i hle
                apply Or.inl
                rw [hc] at hwidth
                exact ⟨rfl, cuts_settled (hwidth hle) []⟩
              · rename_i hgt
                apply Or.inr
                exists front, b :: tails
                refine ⟨rfl, rfl, Nat.sub_pos_of_lt (Nat.lt_of_not_le hgt), ?_, ?_⟩
                · exists b, tails
                  refine ⟨rfl, ?_, htails⟩
                  rw [hc, hlength]
                  have hsum : tails.length + 1 + (width - (tails.length + 1)) = width := by omega
                  rw [hsum]
                · exact cuts_lead front htail tails

theorem lookAtEnd_utf8 (hdata : data ≠ []) :
    KeepsEnd .utf8 data
      (if lastByte data &&& 0x80 = 0 then (0, 0) else scanBack 0 0 data.reverse) := by
  split
  · rename_i hascii
    apply Or.inl
    obtain ⟨front, b, rfl⟩ : ∃ fs b, data = fs ++ [b] :=
      ⟨_, _, (List.dropLast_append_getLast hdata).symm⟩
    rw [lastByte, List.getLast?_concat, Option.getD_some] at hascii
    obtain ⟨hlead, hwidth⟩ := charWidth_ascii b hascii
    constructor
    · rfl
    · apply cuts_settled
      apply settled_width front hlead
      · intro c hc
        cases hc
      · simp [hwidth]
  · have hscan := scanBack_spec data [] hdata (by intro b hb; cases hb) (by simp)
    rw [List.append_nil] at hscan
    exact hscan

theorem keepsEnd_drop {enc : Encoding} {n missing : Nat} (hn : n ≤ data.length)
    (hmissing : 0 < missing) (hincomplete : ∀ last : Bytes, last.length = n →
      Incomplete enc last missing)
    (hcuts : CutsBefore enc (data.take (data.length - n)) (data.drop (data.length - n))) :
    KeepsEnd enc data (n, missing) := by
  have hlength : (data.drop (data.length - n)).length = n := by
    rw [List.length_drop]
    omega
  apply Or.inr
  exists data.take (data.length - n), data.drop (data.length - n)
  exact ⟨(List.take_append_drop _ _).symm, hlength.symm, hmissing, hincomplete _ hlength, hcuts⟩

theorem lookAtEnd_ucs2 (hdata : data ≠ []) :
    KeepsEnd .ucs2 data
      (if data.length % 2 = 1 then (1, 1)
        else if lastByte data &&& 0xFC = 0xD8 then (2, 2) else (0, 0)) := by
  have hpos : 0 < data.length := List.length_pos_iff.mpr hdata
  split
  · rename_i hodd
    apply keepsEnd_drop hpos (by decide)
    · intro last hlast
      exact Or.inl (by simp [hlast])
    · apply cuts_ucs2
      rw [List.length_take]
      omega
  · split
    · apply keepsEnd_drop (by omega) (by decide)
      · intro last hlast
        exact Or.inr (by simp [hlast])
      · apply cuts_ucs2
        rw [List.length_take]
        omega
    · apply Or.inl
      constructor
      · rfl
      · apply cuts_ucs2
        omega

/-- Both base64 encodings keep what is over a multiple of three. -/
theorem lookAtEnd_base64 {enc : Encoding}
    (hincomplete : ∀ (last : Bytes) (missing : Nat),
      last.length + missing = 3 ∧ 0 < last.length → Incomplete enc last missing)
    (hcuts : ∀ as bs : Bytes, as.length % 3 = 0 → CutsBefore enc as bs) :
    KeepsEnd enc data
      (data.length % 3, if 0 < data.length % 3 then 3 - data.length % 3 else 0) := by
  have hmod : data.length % 3 < 3 := Nat.mod_lt _ (by decide)
  split
  · apply keepsEnd_drop (Nat.mod_le _ _) (by omega)
    · intro last hlast
      apply hincomplete
      omega
    · apply hcuts
      rw [List.length_take]
      omega
  · apply Or.inl
    constructor
    · simp
      omega
    · apply hcuts
      omega

theorem lookAtEnd_spec (hidle : d.Idle) (hmulti : d.encoding.multibyte = true)
    (hdata : data ≠ []) : KeepsEnd d.encoding data (d.lookAtEnd data) := by
  unfold Decoder.lookAtEnd
  rw [hidle.1, hidle.2]
  cases henc : d.encoding with
  | utf8 => exact lookAtEnd_utf8 hdata
  | ucs2 => exact lookAtEnd_ucs2 hdata
  | base64 =>
      exact lookAtEnd_base64 (fun last missing h => h) (fun as bs h => cuts_base64 h bs)
  | base64url =>
      exact lookAtEnd_base64 (fun last missing h => h) (fun as bs h => cuts_base64url h bs)
  | ascii => simp [henc, Encoding.multibyte] at hmulti
  | latin1 => simp [henc, Encoding.multibyte] at hmulti
  | hex => simp [henc, Encoding.multibyte] at hmulti
  | buffer => simp [henc, Encoding.multibyte] at hmulti

/-- The string and what is held spell the bytes. -/
def Spells (d : Decoder) (data : Bytes) (next : Decoder × JsString) : Prop :=
  next.1.encoding = d.encoding ∧ WellFormed next.1 ∧
    ∀ rest, makeString d.encoding (d.held ++ (data ++ rest)) =
      next.2 ++ makeString d.encoding (next.1.held ++ rest)

theorem holdBack_spec (hidle : d.Idle) (hsize : d.chars.length = 4)
    (hmulti : d.encoding.multibyte = true) (hdata : data ≠ []) :
    Spells d data (d.holdBack data) := by
  unfold Spells
  rw [hidle.held]
  cases lookAtEnd_spec hidle hmulti hdata with
  | inl hnone =>
      obtain ⟨hkept, hcuts⟩ := hnone
      have hback : d.holdBack data = (d, makeString d.encoding data) := by
        cases d with
        | mk chars missing buffered encoding =>
            have hcounts : buffered = 0 ∧ missing = 0 := hidle
            obtain ⟨rfl, rfl⟩ := hcounts
            simp [Decoder.holdBack, hkept]
      rw [hback]
      refine ⟨rfl, hidle.wellFormed hsize, ?_⟩
      intro rest
      rw [hidle.held]
      exact hcuts rest
  | inr hsome =>
      obtain ⟨front, last, rfl, hkept, hmissing, hincomplete, hcuts⟩ := hsome
      have hroom := hincomplete.room
      have hfour := charSize_le d.encoding
      have hnread : (front ++ last).length - (d.lookAtEnd (front ++ last)).1 = front.length := by
        rw [hkept, List.length_append, Nat.add_sub_cancel]
      have hbody : (d.holdBack (front ++ last)).2 = makeString d.encoding front := by
        unfold Decoder.holdBack
        dsimp only
        rw [hnread, List.take_left]
      have hchars : (d.holdBack (front ++ last)).1.chars = last ++ d.chars.drop last.length := by
        unfold Decoder.holdBack
        dsimp only
        rw [hnread, List.drop_left, hkept]
      have hheld : (d.holdBack (front ++ last)).1.held = last := by
        unfold Decoder.held
        rw [hchars]
        have hbuffered : (d.holdBack (front ++ last)).1.buffered = last.length := hkept
        rw [hbuffered, List.take_left]
      refine ⟨rfl, ?_, ?_⟩
      · constructor
        · rw [hchars, List.length_append, List.length_drop, hsize]
          omega
        · have hcounts : (d.lookAtEnd (front ++ last)).1 + (d.lookAtEnd (front ++ last)).2 ≤
              d.encoding.charSize := by
            rw [hkept]
            exact hroom
          exact hcounts
        · apply Or.inr
          constructor
          · exact hmissing
          · rw [hheld]
            exact hincomplete
      · intro rest
        rw [hheld, hbody, List.nil_append, List.append_assoc]
        exact hcuts rest

/-! ### Decode, flush and runs -/

theorem decode_spec (hsupported : d.encoding.supported = true) (hwf : WellFormed d)
    (data : Bytes) : Spells d data (d.decodeData data) := by
  unfold Decoder.decodeData
  cases hmulti : d.encoding.multibyte with
  | false =>
      have hidle : d.Idle := by
        cases hwf.shape with
        | inl h => exact h
        | inr h =>
            cases henc : d.encoding <;> simp [henc, Encoding.multibyte, Incomplete] at hmulti h
      simp only [Bool.false_eq_true, if_false]
      refine ⟨rfl, hwf, ?_⟩
      intro rest
      rw [hidle.held]
      exact cuts_single hsupported hmulti data [] rest
  | true =>
      simp only [if_true]
      have hcompletes := complete_spec hwf data
      generalize d.complete data = completed at hcompletes
      cases hcompletes with
      | idle hidle =>
          dsimp only
          split
          · rename_i hempty
            rw [List.isEmpty_iff.mp hempty]
            exact ⟨rfl, hwf, fun rest => rfl⟩
          · rename_i hdata
            apply holdBack_spec hidle hwf.size hmulti
            intro hempty
            exact hdata (List.isEmpty_iff.mpr hempty)
      | kept hencoding hwf' hheld =>
          refine ⟨hencoding, hwf', ?_⟩
          intro rest
          simp [hheld]
      | done hencoding hidle hsize hdata hcuts =>
          rename_i d' front last
          subst hdata
          rw [← hencoding] at hmulti hcuts ⊢
          dsimp only
          split
          · rename_i hempty
            rw [List.isEmpty_iff.mp hempty] at hcuts
            refine ⟨hencoding, hidle.wellFormed hsize, ?_⟩
            intro rest
            have hsplit := hcuts rest
            simp only [List.isEmpty_iff.mp hempty, hidle.held, List.append_nil, List.nil_append,
              List.append_assoc, Option.getD_some, ← hencoding] at hsplit ⊢
            exact hsplit
          · rename_i hlast
            have hback := holdBack_spec hidle hsize hmulti
              (fun hempty => hlast (List.isEmpty_iff.mpr hempty))
            obtain ⟨hencoding', hwf', hspells⟩ := hback
            refine ⟨hencoding'.trans hencoding, hwf', ?_⟩
            intro rest
            have hsplit := hcuts rest
            have hrest := hspells rest
            rw [hidle.held, List.nil_append] at hrest
            simp only [List.append_assoc, Option.getD_some, ← hencoding] at hsplit ⊢
            rw [hsplit, hrest]

/-- A code unit cut in the middle leaves its half out of the string. -/
theorem makeUtf16String_half (as : Bytes) (h : as.length % 2 = 1) :
    makeUtf16String (as.take (as.length - 1)) = makeUtf16String as := by
  have hsplit := makeUtf16String_append (as.take (as.length - 1)) (as.drop (as.length - 1))
    (by rw [List.length_take]; omega)
  rw [List.take_append_drop] at hsplit
  have hlength : (as.drop (as.length - 1)).length = 1 := by
    rw [List.length_drop]
    omega
  obtain ⟨b, hb⟩ := List.length_eq_one_iff.mp hlength
  rw [hsplit, hb]
  simp [makeUtf16String]

/-- Dropping the lone byte keeps the string, and ends the character where nothing is left. -/
theorem dropLone_spec (hwf : WellFormed d) :
    makeString d.encoding (d.dropLone.chars.take d.dropLone.buffered) =
      makeString d.encoding d.held ∧ (d.dropLone.buffered = 0 → d.dropLone.missing = 0) := by
  have hheld := hwf.held_length
  unfold Decoder.dropLone
  split
  · rename_i hlone
    obtain ⟨henc, hodd⟩ := hlone
    constructor
    · have htake : d.chars.take (d.buffered - 1) = d.held.take (d.held.length - 1) := by
        rw [hheld, Decoder.held, List.take_take, Nat.min_eq_left (Nat.sub_le _ _)]
      rw [henc, makeString_ucs2, makeString_ucs2, htake]
      apply makeUtf16String_half
      rw [hheld]
      exact hodd
    · intro hzero
      have hone : d.buffered = 1 := by
        have hpred : d.buffered - 1 = 0 := hzero
        omega
      cases hwf.shape with
      | inl hidle => simp [hidle.1] at hone
      | inr h =>
          obtain ⟨hmissing, hincomplete⟩ := h
          rw [henc] at hincomplete
          cases hincomplete with
          | inl hsum =>
              rw [hheld, hone] at hsum
              have hpred : d.missing - 1 = 0 := by omega
              exact hpred
          | inr hsum =>
              rw [hheld, hone] at hsum
              exact absurd hsum.2 (Nat.lt_irrefl 1)
  · constructor
    · rfl
    · intro hzero
      cases hwf.shape with
      | inl hidle => exact hidle.2
      | inr h =>
          have hpos := h.2.held_pos
          rw [hheld, hzero] at hpos
          exact absurd hpos (Nat.lt_irrefl 0)

theorem dropLone_frame (d : Decoder) :
    d.dropLone.encoding = d.encoding ∧ d.dropLone.chars = d.chars := by
  unfold Decoder.dropLone
  split
  · exact ⟨rfl, rfl⟩
  · exact ⟨rfl, rfl⟩

/-- Flushing spells what is held and leaves nothing held; the bytes stay where they were. -/
theorem flush_spec (hwf : WellFormed d) :
    d.flushData.2 = makeString d.encoding d.held ∧ d.flushData.1.Idle ∧
      d.flushData.1.encoding = d.encoding ∧ d.flushData.1.chars = d.chars := by
  obtain ⟨hstring, hmissing⟩ := dropLone_spec hwf
  obtain ⟨hencoding, hchars⟩ := dropLone_frame d
  unfold Decoder.flushData
  split
  · rename_i hzero
    rw [hzero, List.take_zero] at hstring
    exact ⟨hstring, ⟨hzero, hmissing hzero⟩, hencoding, hchars⟩
  · exact ⟨hstring, ⟨rfl, rfl⟩, hencoding, hchars⟩

theorem flush_wellFormed (hwf : WellFormed d) : WellFormed d.flushData.1 := by
  obtain ⟨hstring, hidle, hencoding, hchars⟩ := flush_spec hwf
  apply hidle.wellFormed
  rw [hchars]
  exact hwf.size

theorem run_wellFormed (hsupported : d.encoding.supported = true)
    (hwf : WellFormed d) (calls : List Call) :
    (d.run calls).1.encoding = d.encoding ∧ WellFormed (d.run calls).1 := by
  induction calls generalizing d with
  | nil => exact ⟨rfl, hwf⟩
  | cons c cs ih =>
      have hcall : (d.call c).1.encoding = d.encoding ∧ WellFormed (d.call c).1 := by
        cases c with
        | decode data =>
            obtain ⟨hencoding, hwf', hspells⟩ := decode_spec hsupported hwf data
            exact ⟨hencoding, hwf'⟩
        | flush =>
            obtain ⟨hstring, hidle, hencoding, hchars⟩ := flush_spec hwf
            exact ⟨hencoding, flush_wellFormed hwf⟩
      have hnext := ih (by rw [hcall.1]; exact hsupported) hcall.2
      exact ⟨hnext.1.trans hcall.1, hnext.2⟩

/-- Some chunks decoded one after the other, and then a flush. -/
def decodeChunks (chunks : List Bytes) : List Call := chunks.map Call.decode ++ [Call.flush]

/-- Decoding chunks and flushing gives the string of the held bytes and all the chunks. -/
theorem decodeChunks_spec (hsupported : d.encoding.supported = true)
    (hwf : WellFormed d) (chunks : List Bytes) :
    (d.run (decodeChunks chunks)).2 = makeString d.encoding (d.held ++ chunks.flatten) := by
  induction chunks generalizing d with
  | nil =>
      obtain ⟨hstring, hidle, hencoding, hchars⟩ := flush_spec hwf
      simp [decodeChunks, Decoder.run, Decoder.call, hstring]
  | cons data chunks ih =>
      obtain ⟨hencoding, hwf', hspells⟩ := decode_spec hsupported hwf data
      have hnext := ih (by rw [hencoding]; exact hsupported) hwf'
      rw [hencoding] at hnext
      have hrun : (d.run (decodeChunks (data :: chunks))).2 =
          (d.decodeData data).2 ++ ((d.decodeData data).1.run (decodeChunks chunks)).2 := rfl
      rw [hrun, hnext, List.flatten_cons]
      exact (hspells chunks.flatten).symm

/-! ### What the bytes behind the held ones are does not matter -/

/-- Two states that differ at most in the bytes they do not hold. -/
structure Alike (d e : Decoder) : Prop where
  encoding : d.encoding = e.encoding
  missing : d.missing = e.missing
  buffered : d.buffered = e.buffered
  held : d.held = e.held
  room : d.buffered + d.missing ≤ 4
  left : d.chars.length = 4
  right : e.chars.length = 4

variable {d e : Decoder}

theorem Alike.keep (h : Alike d e) {bs : Bytes} {missing : Nat}
    (hroom : d.buffered + bs.length + missing ≤ 4) :
    Alike { d.keep bs with missing := missing } { e.keep bs with missing := missing } := by
  have hleft : d.buffered + bs.length ≤ 4 := by omega
  have hright : e.buffered + bs.length ≤ 4 := by
    rw [← h.buffered]
    exact hleft
  constructor
  · exact h.encoding
  · rfl
  · exact congrArg (· + bs.length) h.buffered
  · have hheld : (d.keep bs).held = (e.keep bs).held := by
      rw [keep_held h.left hleft, keep_held h.right hright, h.held]
    exact hheld
  · exact hroom
  · exact keep_size h.left hleft
  · exact keep_size h.right hright

theorem Alike.stopEarly (h : Alike d e) (data : Bytes) :
    Alike (d.stopEarly data).1 (e.stopEarly data).1 ∧ (d.stopEarly data).2 = (e.stopEarly data).2:= by
  unfold Decoder.stopEarly
  rw [← h.encoding, ← h.missing]
  split
  · cases hstop : (data.take d.missing).findIdx? (fun b => !continues b) with
    | none => exact ⟨h, rfl⟩
    | some i =>
        constructor
        · apply h.keep
          have hlt := (List.findIdx?_eq_some_iff_getElem.mp hstop).1
          have hroom := h.room
          rw [List.length_take] at hlt ⊢
          omega
        · rfl
  · exact ⟨h, rfl⟩

theorem Alike.fill (h : Alike d e) (data : Bytes) :
    Alike (d.fill data).1 (e.fill data).1 ∧ (d.fill data).2 = (e.fill data).2 := by
  have hfits : d.buffered + (data.take (min data.length d.missing)).length +
      (d.missing - min data.length d.missing) ≤ 4 := by
    have hroom := h.room
    rw [List.length_take]
    omega
  have hkeep := h.keep hfits
  have hstring := hkeep.held
  unfold Decoder.fill
  rw [← h.encoding, ← h.missing]
  dsimp only
  split
  · constructor
    · exact ⟨hkeep.encoding, hkeep.missing, rfl, rfl, by simp_all, hkeep.left, hkeep.right⟩
    · unfold Decoder.held at hstring
      dsimp only at hstring
      rw [hstring]
  · exact ⟨hkeep, rfl⟩

theorem Alike.complete (h : Alike d e) (data : Bytes) :
    Alike (d.complete data).1 (e.complete data).1 ∧ (d.complete data).2 = (e.complete data).2:= by
  unfold Decoder.complete
  rw [← h.missing]
  split
  · obtain ⟨hstop, hdata⟩ := h.stopEarly data
    rw [← hdata]
    exact hstop.fill _
  · exact ⟨h, rfl⟩

theorem Alike.lookAtEnd (h : Alike d e) (data : Bytes) :
    d.lookAtEnd data = e.lookAtEnd data := by
  unfold Decoder.lookAtEnd
  rw [h.encoding, h.missing, h.buffered]

theorem KeepsEnd.le {enc : Encoding} {kept : Nat × Nat}
    (h : KeepsEnd enc data kept) : kept.1 ≤ data.length := by
  cases h with
  | inl h => simp [h.1]
  | inr h =>
      obtain ⟨front, last, hdata, hkept, hmissing, hincomplete, hcuts⟩ := h
      simp [hdata, hkept]

theorem holdBack_held
    (hle : (d.lookAtEnd data).1 ≤ data.length) :
    (d.holdBack data).1.held = data.drop (data.length - (d.lookAtEnd data).1) := by
  have hlength : (data.drop (data.length - (d.lookAtEnd data).1)).length =
      (d.lookAtEnd data).1 := by
    rw [List.length_drop]
    omega
  have hheld : (data.drop (data.length - (d.lookAtEnd data).1) ++
      d.chars.drop (d.lookAtEnd data).1).take (d.lookAtEnd data).1 =
      data.drop (data.length - (d.lookAtEnd data).1) := List.take_left' hlength
  exact hheld

theorem Alike.holdBack (h : Alike d e) (hidle : d.Idle) (hmulti : d.encoding.multibyte = true)
    (hdata : data ≠ []) :
    Alike (d.holdBack data).1 (e.holdBack data).1 ∧ (d.holdBack data).2 = (e.holdBack data).2 := by
  have hidle' : e.Idle := ⟨h.buffered ▸ hidle.1, h.missing ▸ hidle.2⟩
  have hmulti' : e.encoding.multibyte = true := h.encoding ▸ hmulti
  have hend := h.lookAtEnd data
  have hle := (lookAtEnd_spec hidle hmulti hdata).le
  have hwf := (holdBack_spec hidle h.left hmulti hdata).2.1
  have hwf' := (holdBack_spec hidle' h.right hmulti' hdata).2.1
  constructor
  · constructor
    · exact h.encoding
    · exact congrArg Prod.snd hend
    · exact congrArg Prod.fst hend
    · rw [holdBack_held hle, holdBack_held (hend ▸ hle), hend]
    · exact Nat.le_trans hwf.room (charSize_le _)
    · exact hwf.size
    · exact hwf'.size
  · unfold Decoder.holdBack
    rw [h.encoding, hend]

theorem Alike.decodeData (h : Alike d e) (hwf : WellFormed d) (data : Bytes) :
    Alike (d.decodeData data).1 (e.decodeData data).1 ∧ (d.decodeData data).2 =
    (e.decodeData data).2:= by
  unfold Decoder.decodeData
  rw [← h.encoding]
  cases hmulti : d.encoding.multibyte with
  | false => exact ⟨h, rfl⟩
  | true =>
      simp only [if_true]
      obtain ⟨hcomplete, hrest⟩ := h.complete data
      have hcompletes := complete_spec hwf data
      generalize d.complete data = completed at hcompletes hcomplete hrest
      generalize e.complete data = completed' at hcomplete hrest
      obtain ⟨d', rest, prepend⟩ := completed
      obtain ⟨e', rest', prepend'⟩ := completed'
      cases hrest
      dsimp only
      split
      · exact ⟨hcomplete, rfl⟩
      · rename_i hdata
        have hnonempty : rest ≠ [] := fun hempty => hdata (List.isEmpty_iff.mpr hempty)
        have hidle : d'.Idle ∧ d'.encoding = d.encoding := by
          cases hcompletes with
          | idle hidle => exact ⟨hidle, rfl⟩
          | kept hencoding hwf' hheld => exact absurd rfl hnonempty
          | done hencoding hidle hsize hdata hcuts => exact ⟨hidle, hencoding⟩
        obtain ⟨hback, hbody⟩ :=
          hcomplete.holdBack hidle.1 (hidle.2 ▸ hmulti) hnonempty
        exact ⟨hback, by rw [hbody]⟩

theorem Alike.dropLone (h : Alike d e) :
    d.dropLone.buffered = e.dropLone.buffered ∧ d.dropLone.missing = e.dropLone.missing ∧
      d.dropLone.buffered ≤ d.buffered ∧ d.dropLone.missing ≤ d.missing := by
  unfold Decoder.dropLone
  rw [← h.encoding, ← h.buffered, ← h.missing]
  split
  · exact ⟨rfl, rfl, Nat.sub_le _ _, Nat.sub_le _ _⟩
  · exact ⟨h.buffered, h.missing, Nat.le_refl _, Nat.le_refl _⟩

theorem Alike.flushData (h : Alike d e) :
    Alike d.flushData.1 e.flushData.1 ∧ d.flushData.2 = e.flushData.2 := by
  obtain ⟨hbuffered, hmissing, hless, hfewer⟩ := h.dropLone
  obtain ⟨hencoding, hchars⟩ := dropLone_frame d
  obtain ⟨hencoding', hchars'⟩ := dropLone_frame e
  have hencodings : d.dropLone.encoding = e.dropLone.encoding := by
    rw [hencoding, hencoding', h.encoding]
  have hroom : d.dropLone.buffered + d.dropLone.missing ≤ 4 :=
    Nat.le_trans (Nat.add_le_add hless hfewer) h.room
  -- The prefix that is turned into a string is a prefix of what is held.
  have hheld : d.dropLone.chars.take d.dropLone.buffered =
      e.dropLone.chars.take e.dropLone.buffered := by
    have hprefix := congrArg (List.take d.dropLone.buffered) h.held
    unfold Decoder.held at hprefix
    rw [List.take_take, List.take_take, ← h.buffered, Nat.min_eq_left hless] at hprefix
    rw [hchars, hchars', ← hbuffered]
    exact hprefix
  unfold Decoder.flushData
  rw [← hbuffered]
  split
  · constructor
    · exact ⟨hencodings, hmissing, hbuffered, hheld, hroom, hchars ▸ h.left, hchars' ▸ h.right⟩
    · rfl
  · constructor
    · exact ⟨hencodings, rfl, rfl, rfl, Nat.zero_le _, hchars ▸ h.left, hchars' ▸ h.right⟩
    · dsimp only
      rw [h.encoding, hheld, ← hbuffered]

theorem Alike.run (h : Alike d e) (hsupported : d.encoding.supported = true) (hwf : WellFormed d)
    (calls : List Call) : (d.run calls).2 = (e.run calls).2:= by
  induction calls generalizing d e with
  | nil => rfl
  | cons c cs ih =>
      have hcall : Alike (d.call c).1 (e.call c).1 ∧ (d.call c).2 = (e.call c).2 := by
        cases c with
        | decode data => exact h.decodeData hwf data
        | flush => exact h.flushData
      obtain ⟨hencoding, hwf'⟩ := run_wellFormed hsupported hwf [c]
      have hrest := ih hcall.1 (by rw [← hsupported]; exact congrArg _ hencoding) hwf'
      rw [Decoder.run, Decoder.run, hcall.2, hrest]

theorem init_wellFormed (enc : Encoding) : WellFormed (Decoder.init enc) :=
  Decoder.Idle.wellFormed ⟨rfl, rfl⟩ rfl

/-- However a text is cut into chunks, decoding them and flushing gives what decoding it whole and
flushing gives, from every state a decoder comes to; its counters stay within a character; and a
flush leaves the state of a new decoder but for the bytes of the last incomplete character, which
change nothing that any later call returns. -/
theorem chunks_invariant (enc : Encoding) (hsupported : enc.supported = true)
    (before : List Call) :
    (∀ chunks, (((Decoder.init enc).run before).1.run (decodeChunks chunks)).2 =
      (((Decoder.init enc).run before).1.run (decodeChunks [chunks.flatten])).2) ∧
    ((Decoder.init enc).run before).1.buffered + ((Decoder.init enc).run before).1.missing ≤
      enc.charSize ∧
    ((Decoder.init enc).run before).1.flushData.1 =
      { Decoder.init enc with chars := ((Decoder.init enc).run before).1.chars } ∧
    ∀ later, (((Decoder.init enc).run before).1.flushData.1.run later).2 =
      ((Decoder.init enc).run later).2 := by
  obtain ⟨hencoding, hwf⟩ := run_wellFormed hsupported (init_wellFormed enc) before
  have hencoding' : ((Decoder.init enc).run before).1.encoding = enc := hencoding
  generalize ((Decoder.init enc).run before).1 = d at hencoding' hwf
  subst hencoding'
  obtain ⟨hstring, hidle, hflushed, hchars⟩ := flush_spec hwf
  refine ⟨?_, hwf.room, ?_, ?_⟩
  · intro chunks
    rw [decodeChunks_spec hsupported hwf, decodeChunks_spec hsupported hwf]
    simp
  · cases hd : d.flushData.1 with
    | mk chars missing buffered encoding =>
        rw [hd] at hidle hflushed hchars
        have hcounts : buffered = 0 ∧ missing = 0 := hidle
        obtain ⟨rfl, rfl⟩ := hcounts
        have hchars' : chars = d.chars := hchars
        have hflushed' : encoding = d.encoding := hflushed
        rw [hchars', hflushed']
        rfl
  · intro later
    have hwf' := flush_wellFormed hwf
    apply Alike.run
    · exact ⟨hflushed, hidle.2, hidle.1, by rw [hidle.held]; rfl, by rw [hidle.1, hidle.2]; decide,
        hwf'.size, rfl⟩
    · rw [hflushed]
      exact hsupported
    · exact hwf'

/-- The euro sign in three chunks, one of them empty. -/
theorem euro_chunks :
    ((Decoder.init .utf8).run (decodeChunks [[0xE2], [], [0x82, 0xAC]])).2 = [0x20AC] ∧
      ((Decoder.init .utf8).run (decodeChunks [[0xE2], [], [0x82, 0xAC]])).2 =
        ((Decoder.init .utf8).run (decodeChunks [[0xE2, 0x82, 0xAC]])).2 :=
  ⟨by decide, (chunks_invariant .utf8 rfl []).1 [[0xE2], [], [0x82, 0xAC]]⟩

/-- The lead byte of a cut euro sign is still in the state after the flush. -/
theorem flush_keeps_bytes :
    ((Decoder.init .utf8).run [.decode [0xE2], .flush]).1 ≠ Decoder.init .utf8 := by
  decide

end HermesNode.StringDecoder
