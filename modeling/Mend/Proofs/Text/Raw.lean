import Mathlib.Data.List.Basic
import Mend.Text.Raw

/-!
# Raw texts and their order

* `Point.ofCode_code`: a code point is told by its number.
* `RawText.atMost_total`, `RawText.atMost_trans`, `RawText.atMost_antisymm`: raw texts are in a
  linear order.
-/

namespace Mend

/-! ## Code points -/

namespace Point

theorem isHigh_iff {n : Nat} : isHigh n = true ↔ 0xd800 ≤ n ∧ n < 0xdc00 := by
  rw [isHigh, Bool.and_eq_true, decide_eq_true_iff, decide_eq_true_iff]
  exact Iff.rfl

theorem isLow_iff {n : Nat} : isLow n = true ↔ 0xdc00 ≤ n ∧ n < 0xe000 := by
  rw [isLow, Bool.and_eq_true, decide_eq_true_iff, decide_eq_true_iff]
  exact Iff.rfl

/-- A code point that is not taken for the beginning of a character of two halves. -/
def Legible (p : Point) : Prop := isHigh p.code = false

theorem legible_char (c : Char) : (char c).Legible := by
  have hvalid : c.toNat < 0xd800 ∨ 0xdfff < c.toNat ∧ c.toNat < 0x110000 := c.valid
  rw [Legible, ← Bool.not_eq_true, isHigh_iff]
  show ¬ (0xd800 ≤ c.toNat ∧ c.toNat < 0xdc00)
  omega

/-- A code point is told by its number. -/
theorem ofCode_code (p : Point) : ofCode p.code = p := by
  cases p with
  | char c =>
    have hvalid : c.toNat < 0xd800 ∨ 0xdfff < c.toNat ∧ c.toNat < 0x110000 := c.valid
    have hlow : isLow c.toNat = false := by
      rw [← Bool.not_eq_true, isLow_iff]
      omega
    have hhigh : isHigh c.toNat = false := legible_char c
    unfold ofCode code
    rw [hlow, hhigh, Char.ofNat_toNat]
    rfl
  | half n =>
    have hn : (n : Nat) < 0x800 := n.isLt
    have hhalf : (isHigh (0xd800 + n) || isLow (0xd800 + n)) = true := by
      rw [Bool.or_eq_true, isHigh_iff, isLow_iff]
      omega
    have hindex : Fin.ofNat halfCount (0xd800 + n - 0xd800) = n := by
      rw [Nat.add_sub_cancel_left]
      exact Fin.ofNat_val_eq_self ..
    unfold ofCode code firstHalf
    rw [if_pos hhalf, hindex]

theorem code_injective {a b : Point} (h : a.code = b.code) : a = b := by
  rw [← ofCode_code a, h, ofCode_code]

end Point

namespace RawText

theorem ofString_injective {s t : String} (h : ofString s = ofString t) : s = t :=
  String.ext (List.map_injective_iff.mpr (fun _ _ => Point.char.inj) h)

/-! ## Order -/

theorem atMost_cons (a b : Point) (s t : RawText) :
    atMost (a :: s) (b :: t) = true ↔ a.code < b.code ∨ a.code = b.code ∧ atMost s t = true := by
  rw [atMost, Bool.or_eq_true, Bool.and_eq_true, decide_eq_true_iff, beq_iff_eq]

theorem atMost_total (s t : RawText) : (atMost s t || atMost t s) = true := by
  rw [Bool.or_eq_true]
  induction s generalizing t with
  | nil => exact .inl rfl
  | cons a s ih =>
    cases t with
    | nil => exact .inr rfl
    | cons b t =>
      rw [atMost_cons, atMost_cons]
      rcases Nat.lt_trichotomy a.code b.code with h | h | h
      · exact .inl (.inl h)
      · exact (ih t).imp (fun hst => .inr ⟨h, hst⟩) fun hts => .inr ⟨h.symm, hts⟩
      · exact .inr (.inl h)

theorem atMost_trans (s t u : RawText) (hst : atMost s t = true) (htu : atMost t u = true) :
    atMost s u = true := by
  induction s generalizing t u with
  | nil => rfl
  | cons a s ih =>
    cases t with
    | nil => cases hst
    | cons b t =>
      cases u with
      | nil => cases htu
      | cons c u =>
        rw [atMost_cons] at hst htu ⊢
        rcases hst with hab | ⟨hab, hst⟩ <;> rcases htu with hbc | ⟨hbc, htu⟩
        · exact .inl (Nat.lt_trans hab hbc)
        · exact .inl (hbc ▸ hab)
        · exact .inl (hab ▸ hbc)
        · exact .inr ⟨hab.trans hbc, ih t u hst htu⟩

theorem atMost_antisymm {s t : RawText} (hst : atMost s t = true) (hts : atMost t s = true) :
    s = t := by
  induction s generalizing t with
  | nil =>
    cases t with
    | nil => rfl
    | cons b t => cases hts
  | cons a s ih =>
    cases t with
    | nil => cases hst
    | cons b t =>
      rw [atMost_cons] at hst hts
      rcases hst with hab | ⟨hab, hst⟩ <;> rcases hts with hba | ⟨hba, hts⟩
      · omega
      · omega
      · omega
      · rw [Point.code_injective hab, ih hst hts]

end RawText
end Mend
