import Mathlib.Data.Prod.Lex
import Mend.Confidence

/-!
# The laws that confidences obey

Doubles are no linear order: what is not a number compares with nothing, and the two zeros are
equal without being the same. The laws that planning relies on hold of them all the same.

* `LawfulConfidence`: comparisons are transitive and agree with equality.
* `le_congr_of_beq`: equal confidences reach the same thresholds.
* `Double.le_iff`: doubles compare as their places in a linear order do.
* `Double.neg_one_lt_mul_one`: a safe confidence scores more than nothing does.
* `Double.half_sum`: half of a sum of numbers that have no sign has none.
* `Double.isNaN_half_sum`: half of a sum is a number exactly if the first number is one.
-/

namespace Mend

/-- Confidences whose comparisons are transitive and agree with equality. -/
class LawfulConfidence (κ : Type) [Confidence κ] : Prop where
  trans : ∀ {a b c : κ}, a ≤ b → b ≤ c → a ≤ c
  le_of_beq : ∀ {a b : κ}, (a == b) = true → a ≤ b
  ge_of_beq : ∀ {a b : κ}, (a == b) = true → b ≤ a

/-- Equal confidences reach the same thresholds. -/
theorem le_congr_of_beq {κ : Type} [Confidence κ] [LawfulConfidence κ] {a b : κ}
    (h : (a == b) = true) (x : κ) : x ≤ a ↔ x ≤ b :=
  ⟨fun hx => LawfulConfidence.trans hx (LawfulConfidence.le_of_beq h),
    fun hx => LawfulConfidence.trans hx (LawfulConfidence.ge_of_beq h)⟩

instance : LawfulConfidence Rat where
  trans := Rat.le_trans
  le_of_beq := fun h => by
    obtain rfl := eq_of_beq h
    exact Rat.le_refl
  ge_of_beq := fun h => by
    obtain rfl := eq_of_beq h
    exact Rat.le_refl

/-! ## Doubles -/

namespace Double

open Float.Model

/-- The place of a double in a linear order, the most significant part first: its class, its
exponent and its digits. What is not a number has no place, and the two zeros share one. -/
def place? : UnpackedFloat → Option (ℤ ×ₗ ℤ ×ₗ ℤ)
  | .notANumber => none
  | .infinity .negative => some (toLex (-2, toLex (0, 0)))
  | .finite .negative m e _ => some (toLex (-1, toLex (-e, -m)))
  | .zero _ => some (toLex (0, toLex (0, 0)))
  | .finite .positive m e _ => some (toLex (1, toLex (e, m)))
  | .infinity .positive => some (toLex (2, toLex (0, 0)))

theorem isLE_then (e e' : ℤ) (m m' : ℕ) :
    ((compare e e').then (compare m m')).isLE = true ↔ e < e' ∨ e = e' ∧ m ≤ m' := by
  rcases Int.lt_trichotomy e e' with h | h | h
  · simp [Int.compare_eq_lt.mpr h, h]
  · simp [h, Nat.isLE_compare]
  · simp only [Int.compare_eq_gt.mpr h, Ordering.then]
    simp
    omega

theorem isGE_then (e e' : ℤ) (m m' : ℕ) :
    ((compare e e').then (compare m m')).isGE = true ↔ e' < e ∨ e = e' ∧ m' ≤ m := by
  rcases Int.lt_trichotomy e e' with h | h | h
  · simp only [Int.compare_eq_lt.mpr h, Ordering.then]
    simp
    omega
  · simp [h, Nat.isGE_compare]
  · simp [Int.compare_eq_gt.mpr h, h]

/-- **Doubles compare as their places do.** -/
theorem le_iff (x y : UnpackedFloat) :
    x.le y = true ↔ ∃ a ∈ place? x, ∃ b ∈ place? y, a ≤ b := by
  unfold UnpackedFloat.le
  rcases x with (_ | _) | _ | _ | ⟨_ | _, m, e, _⟩ <;>
    rcases y with (_ | _) | _ | _ | ⟨_ | _, m', e', _⟩ <;>
    dsimp only [UnpackedFloat.compare, place?] <;>
    simp [Prod.Lex.toLex_le_toLex, isLE_then, isGE_then]
  all_goals rfl

/-- Doubles are equal if their places are. -/
theorem beq_iff (x y : UnpackedFloat) :
    x.beq y = true ↔ ∃ a ∈ place? x, a ∈ place? y := by
  unfold UnpackedFloat.beq
  rcases x with (_ | _) | _ | _ | ⟨_ | _, m, e, _⟩ <;>
    rcases y with (_ | _) | _ | _ | ⟨_ | _, m', e', _⟩ <;>
    dsimp only [UnpackedFloat.compare, place?] <;>
    simp
  case infinity.negative.infinity.negative => rfl
  case infinity.positive.infinity.positive => rfl
  all_goals omega

theorem float_le_iff (a b : Float) : a ≤ b ↔ a.toModel.unpack.le b.toModel.unpack = true := by
  show a.le b = true ↔ _
  unfold Float.le
  rw [decide_eq_true_iff]
  rfl

theorem float_beq_iff (a b : Float) :
    (a == b) = true ↔ a.toModel.unpack.beq b.toModel.unpack = true := Iff.rfl

end Double

open Double in
instance : LawfulConfidence Float where
  trans := fun {a b c} h₁ h₂ => by
    obtain ⟨x, hx, y, hy, hxy⟩ := (le_iff _ _).mp ((float_le_iff a b).mp h₁)
    obtain ⟨y', hy', z, hz, hyz⟩ := (le_iff _ _).mp ((float_le_iff b c).mp h₂)
    obtain rfl : y = y' := Option.mem_unique hy hy'
    exact (float_le_iff a c).mpr ((le_iff _ _).mpr ⟨x, hx, z, hz, le_trans hxy hyz⟩)
  le_of_beq := fun {a b} h => by
    obtain ⟨x, hx, hy⟩ := (beq_iff _ _).mp ((float_beq_iff a b).mp h)
    exact (float_le_iff a b).mpr ((le_iff _ _).mpr ⟨x, hx, x, hy, le_refl x⟩)
  ge_of_beq := fun {a b} h => by
    obtain ⟨x, hx, hy⟩ := (beq_iff _ _).mp ((float_beq_iff a b).mp h)
    exact (float_le_iff b a).mpr ((le_iff _ _).mpr ⟨x, hy, x, hx, le_refl x⟩)

/-! ## Doubles without a sign -/

namespace Double

open Float.Model UnpackedFloat

/-- What is above zero, and zero without a sign. -/
def Unsigned : UnpackedFloat → Prop
  | .zero .positive | .finite .positive _ _ _ | .infinity .positive => True
  | _ => False

theorem unpackSign_packComponents {spec : Format} {sign : Sign}
    {exponent : BitVec spec.exponentBits} {mantissa : BitVec spec.mantissaBitsWithoutImplicit} :
    unpackSign (packComponents spec sign exponent mantissa) = sign.toBitVec := by
  unfold unpackSign packComponents
  ext i hi
  obtain rfl : i = 0 := by omega
  simp [BitVec.getLsbD_append, BitVec.getElem_append]

/-- What is rounded is a zero or a number with the sign it had. -/
theorem roundWithAccuracy_cases (spec : Format) (s : Sign) (m : Nat) (e : Int) (a : Accuracy) :
    roundWithAccuracy spec s m e a = .zero s ∨
      ∃ m' e' hm', roundWithAccuracy spec s m e a = .finite s m' e' hm' := by
  obtain ⟨m', e', h⟩ : ∃ m' e', roundWithAccuracy spec s m e a =
      if h : m' = 0 then .zero s else .finite s m' e' (Nat.pos_of_ne_zero h) := ⟨_, _, rfl⟩
  by_cases hm' : m' = 0
  · exact .inl (h.trans (dif_pos hm'))
  · exact .inr ⟨_, _, _, h.trans (dif_neg hm')⟩

/-- Rounding keeps the sign. -/
theorem unsigned_roundWithAccuracy (spec : Format) (m : Nat) (e : Int) (a : Accuracy) :
    Unsigned (roundWithAccuracy spec .positive m e a) := by
  obtain h | ⟨m', e', hm', h⟩ := roundWithAccuracy_cases spec .positive m e a <;> rw [h] <;>
    trivial

theorem unsigned_normalize (spec : Format) {m : Int} (hm : 0 ≤ m) (e : Int) :
    Unsigned (UnpackedFloat.normalize spec m e .positive) := by
  unfold UnpackedFloat.normalize
  split
  · next h => exact absurd (Int.compare_eq_lt.mp h) (by omega)
  · trivial
  · exact unsigned_roundWithAccuracy ..

theorem unsigned_add (spec : Format) {x y : UnpackedFloat}
    (hx : (UnpackedFloat.zero .positive).le x = true) (hy : Unsigned y) :
    Unsigned (add spec x y) := by
  rcases x with (_ | _) | _ | (_ | _) | ⟨_ | _, m, e, _⟩ <;>
    rcases y with (_ | _) | _ | (_ | _) | ⟨_ | _, m', e', _⟩ <;>
    first | trivial | exact absurd hx Bool.false_ne_true | exact absurd hy id | skip
  · refine unsigned_normalize spec ?_ _
    exact Int.add_nonneg (Int.natCast_nonneg _) (Int.natCast_nonneg _)

theorem unsigned_div (spec : Format) {x : UnpackedFloat} (hx : Unsigned x) {m : Nat} {e : Int}
    (hm : 0 < m) : Unsigned (div spec x (.finite .positive m e hm)) := by
  rcases x with (_ | _) | _ | (_ | _) | ⟨_ | _, m', e', _⟩ <;>
    first | trivial | exact absurd hx id | skip
  exact unsigned_roundWithAccuracy ..

theorem unsigned_mul (spec : Format) {x : UnpackedFloat} (hx : Unsigned x) {m : Nat} {e : Int}
    (hm : 0 < m) : Unsigned (mul spec x (.finite .positive m e hm)) := by
  rcases x with (_ | _) | _ | (_ | _) | ⟨_ | _, m', e', _⟩ <;>
    first | trivial | exact absurd hx id | skip
  exact unsigned_roundWithAccuracy ..

theorem ofBitVec_toBitVec (s : Sign) : Sign.ofBitVec s.toBitVec = s := by
  cases s <;> rfl

/-- The doubles that bits are read as. -/
theorem unpack_cases {spec : Format} (b : BitVec spec.numBits) {s : Sign}
    (hs : Sign.ofBitVec (unpackSign b) = s) :
    (unpackExponent b = -1#_ ∧ unpackMantissa b = 0#_ ∧ unpack spec b = .infinity s) ∨
      (unpackExponent b = -1#_ ∧ unpackMantissa b ≠ 0#_ ∧ unpack spec b = .notANumber) ∨
      (unpackExponent b = 0#_ ∧ unpackMantissa b = 0#_ ∧ unpack spec b = .zero s) ∨
      ∃ m e hm, unpack spec b = .finite s m e hm := by
  subst hs
  by_cases hinfinity : unpackExponent b = -1#_
  · by_cases hm : unpackMantissa b = 0#_
    · exact .inl ⟨hinfinity, hm, (if_pos hinfinity).trans (if_pos hm)⟩
    · exact .inr (.inl ⟨hinfinity, hm, (if_pos hinfinity).trans (if_neg hm)⟩)
  refine .inr (.inr ?_)
  by_cases hzero : unpackExponent b = 0#_
  · by_cases hm : unpackMantissa b = 0#_
    · exact .inl ⟨hzero, hm, (if_neg hinfinity).trans ((if_pos hzero).trans (dif_pos hm))⟩
    · exact .inr ⟨_, _, _, (if_neg hinfinity).trans ((if_pos hzero).trans (dif_neg hm))⟩
  · exact .inr ⟨_, _, _, (if_neg hinfinity).trans (if_neg hzero)⟩

/-- Bits without a sign are those of a double without one, if they are not those of what is not a
number. -/
theorem unsigned_unpack {spec : Format} {b : BitVec spec.numBits}
    (hsign : Sign.ofBitVec (unpackSign b) = .positive)
    (h : unpackExponent b = -1#_ → unpackMantissa b = 0#_) : Unsigned (unpack spec b) := by
  obtain ⟨-, -, hb⟩ | ⟨he, hm, -⟩ | ⟨-, -, hb⟩ | ⟨m, e, hm, hb⟩ := unpack_cases b hsign
  · rw [hb]
    trivial
  · exact absurd (h he) hm
  · rw [hb]
    trivial
  · rw [hb]
    trivial

theorem eq_zero_of_unpack {spec : Format} {b : BitVec spec.numBits} {s : Sign}
    (h : unpack spec b = .zero s) : unpackExponent b = 0#_ ∧ unpackMantissa b = 0#_ := by
  obtain ⟨-, -, hb⟩ | ⟨-, -, hb⟩ | ⟨he, hm, -⟩ | ⟨m, e, hm, hb⟩ := unpack_cases b rfl
  · cases hb.symm.trans h
  · cases hb.symm.trans h
  · exact ⟨he, hm⟩
  · cases hb.symm.trans h

/-- A number is packed into components that are those of a number. -/
theorem exists_packComponents {x : UnpackedFloat} (hx : x.isNaN = false) (spec : Format) :
    ∃ s e m, UnpackedFloat.pack spec x = packComponents spec s e m ∧ (e = -1#_ → m = 0#_) ∧
      (Unsigned x → s = .positive) := by
  have hsign : ∀ s, Unsigned (.zero s) ∨ Unsigned (.infinity s) → s = .positive := by
    rintro (_ | _) (h | h) <;> first | rfl | exact absurd h id
  unfold UnpackedFloat.pack
  cases x with
  | notANumber => cases hx
  | infinity s => exact ⟨_, _, _, rfl, fun _ => rfl, fun h => hsign s (.inr h)⟩
  | zero s => exact ⟨_, _, _, rfl, fun _ => rfl, fun h => hsign s (.inl h)⟩
  | finite s m e hm =>
    have hfinite : Unsigned (.finite s m e hm) → s = .positive := by
      rcases s with _ | _
      · exact fun h => absurd h id
      · exact fun _ => rfl
    -- the number itself does not matter from here on, only how it is packed
    generalize Unsigned (.finite s m e hm) = unsigned at hfinite ⊢
    dsimp only
    split
    · exact ⟨_, _, _, rfl, fun _ => rfl, hfinite⟩
    next hsmall =>
    split
    · refine ⟨_, _, _, rfl, fun he => ?_, hfinite⟩
      have he := congrArg BitVec.toNat he
      rw [BitVec.neg_one_eq_allOnes, BitVec.toNat_allOnes, BitVec.toNat_ofNat,
        Nat.mod_eq_of_lt (by omega)] at he
      omega
    · refine ⟨_, _, _, rfl, fun he => ?_, hfinite⟩
      exact absurd (BitVec.zero_eq_neg_one_iff.mp he) (Nat.pos_iff_ne_zero.mp spec.he)

theorem exists_pack {x : UnpackedFloat} (hx : Unsigned x) (spec : Format) : ∃ e m,
    UnpackedFloat.pack spec x = packComponents spec .positive e m ∧
      (e = -1#_ → m = 0#_) := by
  have hnumber : x.isNaN = false := by
    cases x with
    | notANumber => exact absurd hx id
    | _ => rfl
  obtain ⟨s, e, m, hpack, hfinite, hs⟩ := exists_packComponents hnumber spec
  obtain rfl := hs hx
  exact ⟨e, m, hpack, hfinite⟩

/-- What has no sign is read back without one from its bits. -/
theorem unsigned_pack {x : UnpackedFloat} (hx : Unsigned x) :
    Unsigned (Float.Model.pack x).unpack := by
  obtain ⟨e, m, hpack, hfinite⟩ := exists_pack hx Format.binary64
  show Unsigned (UnpackedFloat.unpack _ (UnpackedFloat.pack _ x))
  rw [hpack]
  refine unsigned_unpack ?_ ?_
  · rw [unpackSign_packComponents, ofBitVec_toBitVec]
  · rwa [unpackExponent_packComponents, unpackMantissa_packComponents]

theorem zero_le_of_unsigned {c : Float} (h : Unsigned c.toModel.unpack) : 0.0 ≤ c := by
  rw [float_le_iff]
  have hzero : (0.0 : Float).toModel.unpack = .zero .positive := rfl
  rw [hzero]
  revert h
  generalize c.toModel.unpack = x
  intro h
  rcases x with (_ | _) | _ | (_ | _) | ⟨_ | _, m, e, _⟩ <;>
    first | rfl | exact absurd h id

theorem isNaN_of_zero_le {c : Float} (h : 0.0 ≤ c) : c.isNaN = false := by
  have hle : (UnpackedFloat.zero .positive).le c.toModel.unpack = true := (float_le_iff _ _).mp h
  show c.toModel.unpack.isNaN = false
  revert hle
  generalize c.toModel.unpack = x
  intro hle
  cases x with
  | notANumber => exact absurd hle Bool.false_ne_true
  | _ => rfl

/-- A zero without a sign is zero. -/
theorem eq_zero_of_beq {x : UnpackedFloat} (hx : Unsigned x) {c : Float}
    (hc : c.toModel = Float.Model.pack x) (hzero : (c == 0.0) = true) : c = 0.0 := by
  obtain ⟨e, m, hpack, -⟩ := exists_pack hx Format.binary64
  obtain ⟨s, hs⟩ : ∃ s, c.toModel.unpack = .zero s := by
    have hbeq : c.toModel.unpack.beq (.zero .positive) = true := hzero
    revert hbeq
    generalize c.toModel.unpack = y
    intro hbeq
    rcases y with (_ | _) | _ | _ | ⟨_ | _, m, e, _⟩ <;>
      first | exact ⟨_, rfl⟩ | cases hbeq
  rw [hc] at hs
  have hbits : UnpackedFloat.unpack .binary64 (packComponents .binary64 .positive e m) = .zero s :=
    hpack ▸ hs
  obtain ⟨he, hm⟩ := eq_zero_of_unpack hbits
  rw [unpackExponent_packComponents] at he
  rw [unpackMantissa_packComponents] at hm
  subst he hm
  have hmodel : c.toModel = (0.0 : Float).toModel := by
    rw [hc]
    show Float.Model.mk _ _ = Float.Model.mk _ _
    congr 1
    exact congrArg UInt64.ofBitVec hpack
  exact congrArg Float.ofModel hmodel

/-- **Half of a sum has no sign** if the first number is not below zero and the second has no sign:
it is not below zero, and it is not a zero with a sign. -/
theorem half_sum {a b : Float} (ha : 0.0 ≤ a) (hb : Unsigned b.toModel.unpack) :
    0.0 ≤ (a + b) / 2.0 ∧ (((a + b) / 2.0 == 0.0) = true → (a + b) / 2.0 = 0.0) := by
  have hsum : Unsigned (a + b).toModel.unpack :=
    unsigned_pack (unsigned_add _ ((float_le_iff _ _).mp ha) hb)
  have htwo : (2.0 : Float).toModel.unpack =
    .finite .positive 4503599627370496 (-51) (by decide) := rfl
  have hhalf : Unsigned (UnpackedFloat.div .binary64 (a + b).toModel.unpack
      (2.0 : Float).toModel.unpack) := by
    rw [htwo]
    exact unsigned_div _ hsum _
  refine ⟨zero_le_of_unsigned (unsigned_pack hhalf), fun hzero => ?_⟩
  exact eq_zero_of_beq hhalf rfl hzero

/-- What is not below a number above zero has no sign. -/
theorem unsigned_of_le {m : Nat} {e : Int} {hm : 0 < m} {x : UnpackedFloat}
    (h : (UnpackedFloat.finite .positive m e hm).le x = true) : Unsigned x := by
  rcases x with (_ | _) | _ | (_ | _) | ⟨_ | _, m', e', _⟩ <;> trivial

theorem neg_one_lt_of_unsigned {c : Float} (h : Unsigned c.toModel.unpack) : -1.0 < c := by
  have hone : (-1.0 : Float).toModel.unpack =
      .finite .negative 4503599627370496 (-52) (by decide) := rfl
  show Float.lt (-1.0) c = true
  unfold Float.lt
  rw [decide_eq_true_iff]
  show (-1.0 : Float).toModel.unpack.lt c.toModel.unpack = true
  rw [hone]
  revert h
  generalize c.toModel.unpack = x
  intro h
  rcases x with (_ | _) | _ | (_ | _) | ⟨_ | _, m, e, _⟩ <;>
    first | rfl | exact absurd h id

/-- **A confidence that is safe by the standard scores.** -/
theorem neg_one_lt_mul_one {c : Float} (h : 0.8 ≤ c) : -1.0 < c * 1.0 := by
  have hfraction : (0.8 : Float).toModel.unpack =
      .finite .positive 7205759403792794 (-53) (by decide) := rfl
  have hone : (1.0 : Float).toModel.unpack =
      .finite .positive 4503599627370496 (-52) (by decide) := rfl
  have hc : Unsigned c.toModel.unpack := by
    have hle := (float_le_iff _ _).mp h
    rw [hfraction] at hle
    exact unsigned_of_le hle
  have hproduct : Unsigned (UnpackedFloat.mul .binary64 c.toModel.unpack
      (1.0 : Float).toModel.unpack) := by
    rw [hone]
    exact unsigned_mul _ hc _
  exact neg_one_lt_of_unsigned (unsigned_pack hproduct)

/-! ### What is not a number -/

theorem isNaN_unpack {spec : Format} {b : BitVec spec.numBits}
    (h : unpackExponent b = -1#_ → unpackMantissa b = 0#_) :
    (UnpackedFloat.unpack spec b).isNaN = false := by
  obtain ⟨-, -, hb⟩ | ⟨he, hm, -⟩ | ⟨-, -, hb⟩ | ⟨m, e, hm, hb⟩ := unpack_cases b rfl
  · rw [hb]
    rfl
  · exact absurd (h he) hm
  · rw [hb]
    rfl
  · rw [hb]
    rfl

/-- A number is read back as one from its bits, and what is not a number is not. -/
theorem isNaN_unpack_pack (x : UnpackedFloat) : (Float.Model.pack x).unpack.isNaN = x.isNaN := by
  show (UnpackedFloat.unpack _ (UnpackedFloat.pack _ x)).isNaN = _
  cases hx : x.isNaN with
  | true =>
    obtain rfl : x = .notANumber := by
      cases x with
      | notANumber => rfl
      | _ => cases hx
    rfl
  | false =>
    obtain ⟨s, e, m, hpack, hfinite, -⟩ := exists_packComponents hx Format.binary64
    rw [hpack]
    refine isNaN_unpack ?_
    rwa [unpackExponent_packComponents, unpackMantissa_packComponents]

theorem isNaN_roundWithAccuracy (spec : Format) (s : Sign) (m : Nat) (e : Int) (a : Accuracy) :
    (roundWithAccuracy spec s m e a).isNaN = false := by
  obtain h | ⟨m', e', hm', h⟩ := roundWithAccuracy_cases spec s m e a <;> rw [h] <;> rfl

theorem isNaN_normalize (spec : Format) (m e : Int) (s : Sign) :
    (UnpackedFloat.normalize spec m e s).isNaN = false := by
  unfold UnpackedFloat.normalize
  split
  · exact isNaN_roundWithAccuracy ..
  · rfl
  · exact isNaN_roundWithAccuracy ..

theorem isNaN_add (spec : Format) (x : UnpackedFloat) {y : UnpackedFloat} (hy : y.isFinite = true) :
    (add spec x y).isNaN = x.isNaN := by
  cases x with
  | notANumber => rfl
  | infinity s => cases y <;> first | rfl | cases hy
  | zero s =>
    cases y with
    | zero s' => rcases s with _ | _ <;> rcases s' with _ | _ <;> rfl
    | finite => rfl
    | _ => cases hy
  | finite s m e hm =>
    cases y with
    | zero => rfl
    | finite => exact isNaN_normalize ..
    | _ => cases hy

theorem isNaN_div (spec : Format) (x : UnpackedFloat) {s : Sign} {m : Nat} {e : Int}
    (hm : 0 < m) : (div spec x (.finite s m e hm)).isNaN = x.isNaN := by
  cases x with
  | finite => exact isNaN_roundWithAccuracy ..
  | _ => rfl

/-- **Half of a sum is a number exactly if the first number is one**, where the second is finite. -/
theorem isNaN_half_sum (a : Float) {b : Float} (hb : b.toModel.unpack.isFinite = true) :
    ((a + b) / 2.0).isNaN = a.isNaN := by
  have htwo : (2.0 : Float).toModel.unpack =
    .finite .positive 4503599627370496 (-51) (by decide) := rfl
  calc ((a + b) / 2.0).isNaN
      = (Float.Model.pack (UnpackedFloat.div .binary64 (a + b).toModel.unpack
          (2.0 : Float).toModel.unpack)).unpack.isNaN := rfl
    _ = (a + b).toModel.unpack.isNaN := by rw [isNaN_unpack_pack, htwo, isNaN_div]
    _ = (Float.Model.pack (UnpackedFloat.add .binary64 a.toModel.unpack
          b.toModel.unpack)).unpack.isNaN := rfl
    _ = a.isNaN := by
      rw [isNaN_unpack_pack, isNaN_add _ _ hb]
      rfl

/-- What equals something is a number. -/
theorem isNaN_of_beq {a b : Float} (h : (a == b) = true) : a.isNaN = false := by
  obtain ⟨x, hx, -⟩ := (beq_iff _ _).mp ((float_beq_iff a b).mp h)
  show a.toModel.unpack.isNaN = false
  cases ha : a.toModel.unpack with
  | notANumber =>
    rw [ha] at hx
    cases hx
  | _ => rfl

/-- A number equals itself. -/
theorem beq_self {a : Float} (h : a.isNaN = false) : (a == a) = true := by
  have hplace : ∀ x : UnpackedFloat, x.isNaN = false → ∃ place, place ∈ place? x := by
    rintro ((_ | _) | _ | _ | ⟨_ | _, m, e, _⟩) hx <;> first | exact ⟨_, rfl⟩ | cases hx
  obtain ⟨x, hx⟩ := hplace _ h
  exact (float_beq_iff a a).mpr ((beq_iff _ _).mpr ⟨x, hx, hx⟩)

end Double

end Mend
