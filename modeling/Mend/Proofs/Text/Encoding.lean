import Mathlib.Tactic.IntervalCases
import Mend.Proofs.Text.Utf8

/-!
# Bytes of texts

What is written in UTF-8 is read back, whatever the characters are.

* `foldl_feed_encodeChar`: the bytes of a character are read as that character.
* `decodeLenient_encode`: a text is read back from its bytes.
* `readText_encode`: a text without carriage returns is what its bytes hold as a file.
-/

namespace Mend.Utf8

namespace Decoder

/-- A byte that goes on with a character: it ends the character or leaves it with one byte less
missing. -/
theorem feed_pending (points : RawText) {p : Pending} {n : Nat} (hsize : n < 256)
    (hleast : p.least.toNat ≤ n) (hgreatest : n ≤ p.greatest.toNat) :
    feed { points, pending := some p } (.ofNat n) =
      if p.missing ≤ 1 then { points := .char (Char.ofNat (64 * p.bits + (n - 0x80))) :: points }
      else {
        points
        pending := some {
          bits := 64 * p.bits + (n - 0x80)
          seen := .ofNat n :: p.seen
          missing := p.missing - 1 } } := by
  have hbyte : (UInt8.ofNat n).toNat = n := by
    rw [UInt8.toNat_ofNat']
    omega
  have hinside :
      (decide (p.least ≤ UInt8.ofNat n) && decide (UInt8.ofNat n ≤ p.greatest)) = true := by
    rw [Bool.and_eq_true, decide_eq_true_iff, decide_eq_true_iff, UInt8.le_iff_toNat_le,
      UInt8.le_iff_toNat_le, hbyte]
    exact ⟨hleast, hgreatest⟩
  unfold feed
  dsimp only
  rw [if_pos hinside, hbyte]

/-- The first byte of a character that has more of them. -/
theorem feed_lead (points : RawText) {b : UInt8} {p : Pending} (h : lead b = .pending p) :
    feed { points } b = { points, pending := some p } := by
  unfold feed start
  dsimp only
  rw [h]

end Decoder

/-- The first of two bytes. -/
theorem lead_two {k : Nat} (hmin : 2 ≤ k) (hmax : k < 32) :
    lead (.ofNat (k + 192)) = .pending { bits := k, seen := [.ofNat (k + 192)], missing := 1 } := by
  have hbyte : (UInt8.ofNat (k + 192)).toNat = k + 192 := by
    rw [UInt8.toNat_ofNat']
    omega
  unfold lead
  dsimp only
  rw [hbyte, if_neg (by omega), if_neg (by omega), if_pos (by omega), Nat.add_sub_cancel]

/-- The first of three bytes. The second is bounded for the first and the thirteenth of them. -/
theorem lead_three {k : Nat} (h : k < 16) :
    ∃ p, lead (.ofNat (k + 224)) = .pending p ∧ p.bits = k ∧ p.missing = 2 ∧
      p.least.toNat = (if k = 0 then 0xa0 else 0x80) ∧
      p.greatest.toNat = if k = 13 then 0x9f else 0xbf := by
  interval_cases k <;> exact ⟨_, rfl, rfl, rfl, rfl, rfl⟩

/-- The first of four bytes. The second is bounded for the first and the last of them. -/
theorem lead_four {k : Nat} (h : k < 5) :
    ∃ p, lead (.ofNat (k + 240)) = .pending p ∧ p.bits = k ∧ p.missing = 3 ∧
      p.least.toNat = (if k = 0 then 0x90 else 0x80) ∧
      p.greatest.toNat = if k = 4 then 0x8f else 0xbf := by
  interval_cases k <;> exact ⟨_, rfl, rfl, rfl, rfl, rfl⟩

/-- **The bytes of a character are read as that character.** -/
theorem foldl_feed_encodeChar (points : RawText) (c : Char) :
    (String.utf8EncodeChar c).foldl Decoder.feed { points } = { points := .char c :: points } := by
  obtain ⟨v, hv⟩ : ∃ v, v = c.toNat := ⟨_, rfl⟩
  have hvalid : v < 0xd800 ∨ 0xdfff < v ∧ v < 0x110000 := hv ▸ c.valid
  have hend : ∀ bits, bits = v → Char.ofNat bits = c := by
    rintro bits rfl
    rw [hv, Char.ofNat_toNat]
  have hval : c.val.toNat = v := hv.symm
  unfold String.utf8EncodeChar
  rw [hval]
  dsimp only
  split
  · next hone =>
    have hlead : lead (.ofNat v) = .char c := by
      unfold lead
      dsimp only
      rw [UInt8.toNat_ofNat', Nat.mod_eq_of_lt (by omega), if_pos (by omega), hend v rfl]
    simp [Decoder.feed, Decoder.start, hlead]
  split
  · next hone htwo =>
    rw [List.foldl_cons, Decoder.feed_lead _ (lead_two (by omega) (by omega)), List.foldl_cons,
      Decoder.feed_pending _ (by omega) (by show 128 ≤ _; omega) (by show _ ≤ 191; omega),
      if_pos (Nat.le_refl 1), List.foldl_nil, hend _ (by dsimp only; omega)]
  split
  · next hone htwo hthree =>
    obtain ⟨p, hp, hbits, hmissing, hleast, hgreatest⟩ :=
      lead_three (k := v / 4096 % 16) (by omega)
    rw [List.foldl_cons, Decoder.feed_lead _ hp, List.foldl_cons,
      Decoder.feed_pending _ (by omega) (by rw [hleast]; split <;> omega)
        (by rw [hgreatest]; split <;> omega), if_neg (by omega), List.foldl_cons,
      Decoder.feed_pending _ (by omega) (by show 128 ≤ _; omega) (by show _ ≤ 191; omega),
      if_pos (by simp [hmissing]), List.foldl_nil, hend _ (by simp only [hbits]; omega)]
  · next hone htwo hthree =>
    obtain ⟨p, hp, hbits, hmissing, hleast, hgreatest⟩ :=
      lead_four (k := v / 262144 % 8) (by omega)
    rw [List.foldl_cons, Decoder.feed_lead _ hp, List.foldl_cons,
      Decoder.feed_pending _ (by omega) (by rw [hleast]; split <;> omega)
        (by rw [hgreatest]; split <;> omega), if_neg (by omega), List.foldl_cons,
      Decoder.feed_pending _ (by omega) (by show 128 ≤ _; omega) (by show _ ≤ 191; omega),
      if_neg (by simp [hmissing]), List.foldl_cons,
      Decoder.feed_pending _ (by omega) (by show 128 ≤ _; omega) (by show _ ≤ 191; omega),
      if_pos (by simp [hmissing]), List.foldl_nil, hend _ (by simp only [hbits]; omega)]

/-- The bytes of a text are read as that text. -/
theorem foldl_feed_encode (points : RawText) (t : Text) :
    (encode t).foldl Decoder.feed { points } = { points := (t.map .char).reverse ++ points } := by
  induction t generalizing points with
  | nil => rfl
  | cons c t ih =>
    unfold encode at ih ⊢
    rw [List.flatMap_cons, List.foldl_append, foldl_feed_encodeChar, ih]
    simp

/-- **A text is read back from its bytes.** -/
theorem decode_encode (t : Text) : decode (encode t) = t.map .char := by
  unfold decode Decoder.run
  rw [foldl_feed_encode]
  simp [Decoder.settled]

theorem decodeLenient_encode (t : Text) : decodeLenient (encode t) = t := by
  unfold decodeLenient
  rw [decode_encode, List.filterMap_map]
  exact List.filterMap_some

end Mend.Utf8

namespace Mend

namespace Text

/-! ## Line endings -/

/-- A text with newlines only has no carriage returns. -/
theorem not_mem_withNewlines (t : Text) : '\r' ∉ withNewlines t := by
  have hfold : ∀ s : List Char × Bool, '\r' ∉ s.1 → '\r' ∉ (t.foldl foldLineEnd s).1 := by
    induction t with
    | nil => exact fun s hs => hs
    | cons c t ih =>
      intro s hs
      refine ih _ ?_
      unfold foldLineEnd
      split
      · simpa using hs
      · next hc =>
        split
        · exact hs
        · simpa [hs] using Ne.symm hc
  unfold withNewlines
  rw [List.mem_reverse]
  exact hfold _ List.not_mem_nil

/-- A text without carriage returns has newlines only. -/
theorem withNewlines_of_not_mem {t : Text} (h : '\r' ∉ t) : withNewlines t = t := by
  unfold withNewlines
  rw [foldl_foldLineEnd h]
  simp

end Text

/-- What a file holds is read without carriage returns. -/
theorem not_mem_readText (bytes : Bytes) : '\r' ∉ readText bytes := Text.not_mem_withNewlines _

theorem readText_encode (t : Text) : readText (Utf8.encode t) = Text.withNewlines t := by
  unfold readText
  rw [Utf8.decodeLenient_encode]

/-- **A text without carriage returns is what its bytes hold.** -/
theorem readText_encode_of_not_mem {t : Text} (h : '\r' ∉ t) : readText (Utf8.encode t) = t := by
  rw [readText_encode, Text.withNewlines_of_not_mem h]

end Mend
