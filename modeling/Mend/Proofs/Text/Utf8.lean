import Mathlib.Data.List.Induction
import Mend.Text.Utf8

/-!
# Bytes of ASCII texts

A byte below 128 is a character of its own, whatever stands before it: it ends a character that is
not complete, since the bytes that go on with a character are 128 or more.

* `decode_append_encode`: an ASCII text behind some bytes is read back as it is.
* `readText?_encode`: an ASCII text without carriage returns is read back from its bytes.
-/

namespace Mend.Utf8

/-- Whether all characters of a text are ASCII characters. -/
def IsAscii (t : Text) : Prop := ∀ c ∈ t, c.toNat < 128

instance (t : Text) : Decidable (IsAscii t) :=
  List.decidableBAll (fun c : Char => c.toNat < 128) t

theorem toNat_lt_of_isDigit {c : Char} (h : c.isDigit = true) : c.toNat < 128 := by
  unfold Char.isDigit at h
  rw [Bool.and_eq_true, decide_eq_true_iff, decide_eq_true_iff] at h
  have hle : c.toNat ≤ 57 := UInt32.le_iff_toNat_le.mp h.2
  omega

theorem encode_cons {c : Char} (hc : c.toNat < 128) (t : Text) :
    encode (c :: t) = UInt8.ofNat c.toNat :: encode t := by
  have hval : c.val ≤ 127 := UInt32.le_iff_toNat_le.mpr (Nat.le_of_lt_succ hc)
  unfold encode
  rw [List.flatMap_cons, String.utf8EncodeChar_eq_singleton (Char.utf8Size_eq_one_iff.mpr hval)]
  rfl

/-! ## The decoder -/

/-- The bytes that go on with a character are 128 or more. -/
def Decoder.Sound (d : Decoder) : Prop := ∀ p, d.pending = some p → 0x80 ≤ p.least.toNat

theorem least_of_lead {b : UInt8} {p : Pending} (h : lead b = .pending p) :
    0x80 ≤ p.least.toNat := by
  unfold lead at h
  dsimp only at h
  repeat' split at h
  all_goals
    simp only [Lead.pending.injEq, reduceCtorEq] at h
    try
      subst h
      exact Nat.le_of_ble_eq_true rfl

namespace Decoder

theorem sound_start (points : RawText) (b : UInt8) : (start points b).Sound := by
  intro p hp
  unfold start at hp
  split at hp
  · cases hp
  · next q hq =>
    cases hp
    exact least_of_lead hq
  · cases hp

theorem Sound.feed {d : Decoder} (b : UInt8) : (d.feed b).Sound := by
  unfold Decoder.feed
  split
  · exact sound_start _ _
  · split
    · dsimp only
      split
      · intro p hp
        cases hp
      · intro p hp
        simp only [Option.some.injEq] at hp
        subst hp
        exact Nat.le_of_ble_eq_true rfl
    · exact sound_start _ _

theorem run_append (bytes : Bytes) (b : UInt8) : run (bytes ++ [b]) = (run bytes).feed b := by
  unfold run
  rw [List.foldl_append]
  rfl

theorem sound_run (bytes : Bytes) : (run bytes).Sound := by
  induction bytes using List.reverseRecOn with
  | nil => exact fun p hp => by cases hp
  | append_singleton bytes b _ =>
    rw [run_append]
    exact Sound.feed b

/-- A byte below 128 is a character, whatever was read before. -/
theorem Sound.settled_feed {d : Decoder} (h : d.Sound) {b : UInt8} (hb : b.toNat < 128) :
    (d.feed b).settled = .char (Char.ofNat b.toNat) :: d.settled := by
  have hlead : lead b = .char (Char.ofNat b.toNat) := by
    unfold lead
    dsimp only
    rw [if_pos hb]
  have hstart : ∀ points, (start points b).settled = .char (Char.ofNat b.toNat) :: points := by
    intro points
    unfold start
    rw [hlead]
    rfl
  unfold Decoder.feed
  cases hpending : d.pending with
  | none =>
    dsimp only
    rw [hstart]
    unfold settled
    rw [hpending]
  | some p =>
    have hsmall : ¬ p.least ≤ b := by
      have hleast := h p hpending
      rw [UInt8.le_iff_toNat_le]
      omega
    simp only [hsmall, decide_false, Bool.false_and, Bool.false_eq_true, if_false]
    exact hstart _

end Decoder

/-! ## Texts -/

theorem decode_append_byte (bytes : Bytes) {b : UInt8} (hb : b.toNat < 128) :
    decode (bytes ++ [b]) = decode bytes ++ [.char (Char.ofNat b.toNat)] := by
  unfold decode
  rw [Decoder.run_append, (Decoder.sound_run bytes).settled_feed hb, List.reverse_cons]

/-- **An ASCII text behind some bytes is read back as it is.** -/
theorem decode_append_encode {t : Text} (ht : IsAscii t) (bytes : Bytes) :
    decode (bytes ++ encode t) = decode bytes ++ t.map .char := by
  induction t generalizing bytes with
  | nil => simp [encode]
  | cons c t ih =>
    have hc : c.toNat < 128 := ht c (by simp)
    have hbyte : (UInt8.ofNat c.toNat).toNat = c.toNat := by
      rw [UInt8.toNat_ofNat']
      omega
    rw [encode_cons hc, List.append_cons, ih (fun x hx => ht x (by simp [hx])),
      decode_append_byte _ (by omega), hbyte, Char.ofNat_toNat]
    simp

@[simp] theorem encodeRaw_map_char (t : Text) : encodeRaw (t.map .char) = encode t := by
  unfold encodeRaw encode
  rw [List.flatMap_map]
  rfl

/-- A raw text with an ASCII text behind it is read back from its bytes with that text behind. -/
theorem decode_encodeRaw_append {t : Text} (ht : IsAscii t) (s : RawText) :
    decode (encodeRaw (s ++ t.map .char)) = decode (encodeRaw s) ++ t.map .char := by
  have happend : encodeRaw (s ++ t.map .char) = encodeRaw s ++ encode t := by
    rw [← encodeRaw_map_char]
    exact List.flatMap_append
  rw [happend, decode_append_encode ht]

theorem decode_encodeRaw {t : Text} (ht : IsAscii t) :
    decode (encodeRaw (t.map .char)) = t.map .char := decode_encodeRaw_append ht []

end Mend.Utf8

namespace Mend

/-! ## Files -/

theorem Text.foldl_foldLineEnd {t : Text} (h : '\r' ∉ t) (done : Text) :
    t.foldl foldLineEnd (done, false) = (t.reverse ++ done, false) := by
  induction t generalizing done with
  | nil => rfl
  | cons c t ih =>
    rw [List.mem_cons, not_or] at h
    have hstep : foldLineEnd (done, false) c = (c :: done, false) := by
      simp [foldLineEnd, Ne.symm h.1]
    rw [List.foldl_cons, hstep, ih h.2]
    simp

/-- **An ASCII text without carriage returns is read back from its bytes.** -/
theorem readText?_encode {t : Text} (ht : Utf8.IsAscii t) (h : '\r' ∉ t) :
    readText? (Utf8.encode t) = some t := by
  have hdecode : Utf8.decode (Utf8.encode t) = t.map .char := Utf8.decode_append_encode ht []
  have hchars : (t.map Point.char).mapM Point.char? = some t := by
    rw [List.mapM_map]
    exact (List.mapM_pure (m := Option) (f := id)).trans (congrArg some (List.map_id t))
  unfold readText? Utf8.decode?
  rw [hdecode, hchars, Option.map_some, Text.withNewlines, Text.foldl_foldLineEnd h]
  simp

end Mend
