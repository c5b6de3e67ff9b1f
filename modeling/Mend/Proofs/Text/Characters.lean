import Mathlib.Algebra.Group.Nat.Defs
import Mathlib.Data.List.Chain
import Mend.Text.Blank
import Mend.Text.Case
import Mend.Text.Digit
import Mend.Text.Word

/-!
# Kinds of characters

* `Ranges.contains_of_mem`: halving finds every character of ranges in increasing order.
* `isWord_of_isDecimal`, `not_isWord_of_isBlank`: the digits of all scripts stand in words, and no
  white space does.
* `decimalValue_toDigits`: the digits that a number is written with have its value.
* `not_mem_upper`: no sign or digit comes up in upper case.
-/

namespace Mend.Text

/-! ## Looking up by halving -/

namespace Ranges

variable {rs : Ranges}

/-- One range stands in front of another, and neither is empty. -/
def Precedes (r s : Nat × Nat) : Prop := r.1 ≤ r.2 ∧ r.2 < s.1 ∧ s.1 ≤ s.2

instance : DecidableRel Precedes := fun r s =>
  inferInstanceAs (Decidable (r.1 ≤ r.2 ∧ r.2 < s.1 ∧ s.1 ≤ s.2))

instance : Trans Precedes Precedes Precedes where
  trans := by
    rintro r s t ⟨hr, hrs, hs⟩ ⟨-, hst, ht⟩
    exact ⟨hr, by omega, ht⟩

/-- The half that is searched on holds the range of the code point. -/
theorem search_of_mem (h : rs.bounds.toList.Pairwise Precedes) {n k : Nat}
    (hk : k < rs.bounds.size) (hfirst : rs.bounds[k].1 ≤ n) (hlast : n ≤ rs.bounds[k].2) :
    ∀ fuel lo hi, lo ≤ k → k < hi → hi ≤ rs.bounds.size → hi - lo < 2 ^ fuel →
      rs.search n lo hi fuel := by
  have apart : ∀ {a b : Nat} (ha : a < rs.bounds.size) (hb : b < rs.bounds.size), a < b →
      Precedes rs.bounds[a] rs.bounds[b] := fun ha hb hab =>
    List.pairwise_iff_getElem.mp h _ _ (by simpa using ha) (by simpa using hb) hab
  intro fuel
  induction fuel with
  | zero => intro lo hi hlo hhi _ hfuel; omega
  | succ fuel ih =>
    intro lo hi hlo hhi hsize hfuel
    rw [Nat.pow_succ] at hfuel
    have hmid : (lo + hi) / 2 < rs.bounds.size := by omega
    rw [search, if_pos (by omega)]
    simp only [Array.getElem?_eq_getElem hmid]
    rcases Nat.lt_trichotomy ((lo + hi) / 2) k with hlt | heq | hgt
    · obtain ⟨hne, hbehind, -⟩ := apart hmid hk hlt
      rw [if_neg (by omega), if_pos (by omega)]
      exact ih _ _ (by omega) hhi hsize (by omega)
    · subst heq
      rw [if_neg (by omega), if_neg (by omega)]
    · obtain ⟨-, hbefore, -⟩ := apart hk hmid hgt
      rw [if_pos (by omega)]
      exact ih _ _ hlo (by omega) (by omega) (by omega)

/-- A character of one of the ranges is found. -/
theorem contains_of_mem (h : rs.bounds.toList.IsChain Precedes) {r : Nat × Nat}
    (hr : r ∈ rs.bounds) {c : Char} (hfirst : r.1 ≤ c.toNat) (hlast : c.toNat ≤ r.2) :
    rs.contains c := by
  obtain ⟨k, hk, rfl⟩ := Array.mem_iff_getElem.mp hr
  have hsize : rs.bounds.size - 0 < 2 ^ (rs.bounds.size.log2 + 2) := by
    have := Nat.lt_log2_self (n := rs.bounds.size)
    rw [Nat.pow_succ]
    omega
  exact search_of_mem (List.isChain_iff_pairwise.mp h) hk hfirst hlast _ _ _ (Nat.zero_le k) hk
    (Nat.le_refl _) hsize

end Ranges

theorem isChain_wordRanges : wordRanges.bounds.toList.IsChain Ranges.Precedes := by
  decide +kernel

/-! ## Digits, words and white space -/

theorem val_lt_of_isDigit {c : Char} (h : c.isDigit) : c.val < 128 := by
  simp only [Char.isDigit, Bool.and_eq_true, decide_eq_true_eq, UInt32.le_iff_toNat_le] at h
  rw [UInt32.lt_iff_toNat_lt]
  exact Nat.lt_of_le_of_lt h.2 (by decide)

theorem isWord_of_isDigit {c : Char} (h : c.isDigit) : isWord c := by
  rw [isWord, if_pos (val_lt_of_isDigit h), Char.isAlphanum, h]
  simp

/-- The digits of all scripts stand in words. -/
theorem isWord_of_isDecimal {c : Char} (h : isDecimal c) : isWord c := by
  -- beyond ASCII, the ten digits of a script stand in one range
  have hall : (zeros.all fun z => (z + 9).blt 128 ||
      wordRanges.bounds.toList.any fun r => r.1.ble z && (z + 9).ble r.2) = true := by
    decide +kernel
  rw [isDecimal, digitValue?] at h
  split at h
  · split at h
    · next hdigit => exact isWord_of_isDigit hdigit
    · cases h
  · next hbeyond =>
    rw [Option.isSome_map, List.find?_isSome] at h
    obtain ⟨z, hz, hrange⟩ := h
    rw [Bool.and_eq_true, decide_eq_true_eq, decide_eq_true_eq] at hrange
    rw [isWord, if_neg hbeyond]
    rw [UInt32.lt_iff_toNat_lt] at hbeyond
    have hten := List.all_eq_true.mp hall z hz
    simp only [Bool.or_eq_true, Nat.blt_eq, List.any_eq_true, Bool.and_eq_true, Nat.ble_eq] at hten
    obtain hascii | ⟨r, hr, hfirst, hlast⟩ := hten
    · exact absurd (show c.toNat < 128 by omega) hbeyond
    · exact Ranges.contains_of_mem isChain_wordRanges (Array.mem_toList_iff.mp hr) (by omega)
        (by omega)

theorem digitValue?_of_isDigit {c : Char} (h : c.isDigit) :
    digitValue? c = some (c.toNat - '0'.toNat) := by
  rw [digitValue?, if_pos (val_lt_of_isDigit h), if_pos h]

theorem isDecimal_of_isDigit {c : Char} (h : c.isDigit) : isDecimal c := by
  rw [isDecimal, digitValue?_of_isDigit h]
  rfl

/-- The digits that a number is written with have its value. -/
theorem decimalValue_toDigits (n : Nat) : decimalValue (Nat.toDigits 10 n) = n := by
  have hvalue : ∀ (ds : List Char) (m : Nat), (∀ c ∈ ds, c.isDigit) →
      (ds.filterMap digitValue?).foldl (fun n d => 10 * n + d) m = Nat.ofDigitChars 10 ds m := by
    intro ds
    induction ds with
    | nil => exact fun _ _ => rfl
    | cons c ds ih =>
      intro m h
      rw [List.filterMap_cons_some (digitValue?_of_isDigit (h c List.mem_cons_self)),
        List.foldl_cons, ih _ fun d hd => h d (List.mem_cons_of_mem c hd)]
      rfl
  rw [decimalValue, ofDigits,
    hvalue _ 0 fun c hc => Nat.isDigit_of_mem_toDigits (by decide) (by decide) hc]
  exact Nat.ofDigitChars_ten_toDigits

/-- White space is no part of a word. -/
theorem not_isWord_of_isBlank {c : Char} (h : isBlank c) : ¬ isWord c := by
  have hall : ∀ k ∈ List.range 0x21 ++ [0x85, 0xa0, 0x1680] ++ List.range' 0x2000 0x60 ++ [0x3000],
      isBlank (Char.ofNat k) → ¬ isWord (Char.ofNat k) := by decide +kernel
  have hmem : c.toNat ∈ List.range 0x21 ++ [0x85, 0xa0, 0x1680] ++ List.range' 0x2000 0x60 ++
      [0x3000] := by
    simp only [isBlank, Bool.or_eq_true, Bool.and_eq_true, beq_iff_eq, decide_eq_true_eq] at h
    simp only [List.mem_append, List.mem_range, List.mem_range'_1, List.mem_cons, List.not_mem_nil,
      or_false]
    omega
  have hc := hall c.toNat hmem
  rw [Char.ofNat_toNat] at hc
  exact hc h

/-! ## Upper case -/

theorem toNat_eq_of_ofNat_eq {k : Nat} {x : Char} (hx : x ≠ '\x00') (h : Char.ofNat k = x) :
    k = x.toNat := by
  rw [Char.ofNat] at h
  by_cases hvalid : k.isValidChar
  · rw [dif_pos hvalid] at h
    exact congrArg Char.toNat h
  · rw [dif_neg hvalid] at h
    exact absurd h.symm hx

/-- No character in front of the letters comes up in upper case. -/
theorem not_mem_upperOf {x c : Char} (hx : 0 < x.toNat ∧ x.toNat < 65) (h : c ≠ x) :
    x ∉ upperOf c := by
  have hnul : x ≠ '\x00' := by
    rintro rfl
    exact absurd hx.1 (by decide)
  rw [upperOf]
  split
  · next hc =>
    have hascii : ∀ k < 128,
        (Char.ofNat k).toUpper = Char.ofNat k ∨ 65 ≤ (Char.ofNat k).toUpper.toNat := by decide
    have hupper := hascii c.toNat (UInt32.lt_iff_toNat_lt.mp hc)
    rw [Char.ofNat_toNat] at hupper
    rw [List.mem_singleton]
    rintro rfl
    rcases hupper with hsame | hletter
    · exact h hsame.symm
    · omega
  · split
    · next us hus =>
      have hall : ∀ row ∈ caseExpansions, ∀ u ∈ row.2, 65 ≤ u := by decide
      obtain ⟨before, after, hrows, -⟩ := List.lookup_eq_some_iff.mp hus
      intro hmem
      obtain ⟨u, hu, hux⟩ := List.mem_map.mp hmem
      have hletter := hall (c.toNat, us) (by rw [hrows]; simp) u hu
      have hcode := toNat_eq_of_ofNat_eq hnul hux
      omega
    · split
      · next r hr =>
        -- the upper case lies among the letters or above them for the whole run
        have hall : ∀ r ∈ caseRuns, 64 < (r.first : Int) + r.shift := by decide +kernel
        have hshift := hall r (List.mem_of_find?_eq_some hr)
        have hrange := List.find?_some hr
        simp only [Bool.and_eq_true, decide_eq_true_eq] at hrange
        rw [List.mem_singleton]
        intro e
        have hcode := toNat_eq_of_ofNat_eq hnul e.symm
        omega
      · simpa using Ne.symm h

theorem not_mem_upper {x : Char} (hx : 0 < x.toNat ∧ x.toNat < 65) {t : List Char}
    (h : x ∉ t) : x ∉ upper t := by
  intro hc
  obtain ⟨c, hmem, hc⟩ := List.mem_flatMap.mp hc
  exact not_mem_upperOf hx (fun e => h (e ▸ hmem)) hc

end Mend.Text
