import Mathlib.Data.List.Forall2
import Mathlib.Data.List.Nodup
import Mathlib.Order.MinMax
import Mend.Proofs.Fix.Names
import Mend.Proofs.Fix.Replay
import Mend.Proofs.Text.Words

/-!
# Bound entanglements get fresh names

The names of entanglements in a text are whole words, however their numbers are written: with zeros
in front or in the digits of any script. Names with larger numbers than all of them have occur
nowhere as words, and so are mentioned nowhere as identifiers.

* `Numbered`: a text has a name with a number.
* `lastEntanglement_isLast`: the largest number in use is what transforms take it to be.
* `bindEntanglement_names`: bound entanglements get the next names, in the order of the text.
-/

namespace Mend

open Text Reader Idiom

/-! ## The largest number in use -/

section Largest

variable {α : Type} (value : α → Nat)

theorem le_foldl_max (l : List α) (n : Nat) :
    n ≤ l.foldl (fun n x => max n (value x)) n ∧
      ∀ x ∈ l, value x ≤ l.foldl (fun n x => max n (value x)) n := by
  induction l generalizing n with
  | nil => simp
  | cons y l ih =>
    obtain ⟨hstart, hrest⟩ := ih (max n (value y))
    rw [max_le_iff] at hstart
    exact ⟨hstart.1, List.forall_mem_cons.mpr ⟨hstart.2, hrest⟩⟩

theorem foldl_max_eq (l : List α) (n : Nat) :
    l.foldl (fun n x => max n (value x)) n = n ∨
      ∃ x ∈ l, l.foldl (fun n x => max n (value x)) n = value x := by
  induction l generalizing n with
  | nil => exact .inl rfl
  | cons y l ih =>
    rw [List.foldl_cons]
    obtain h | ⟨x, hx, h⟩ := ih (max n (value y))
    · rw [h]
      obtain hmax | hmax := max_choice n (value y)
      · exact .inl hmax
      · exact .inr ⟨y, List.mem_cons_self, hmax⟩
    · exact .inr ⟨x, List.mem_cons_of_mem y hx, h⟩

end Largest

namespace Idiom

variable {t : Text}

/-- A text has, as a whole word, the name of an entanglement with the number `n`, in decimal digits
of any script. -/
def Numbered (t : Text) (n : Nat) : Prop :=
  ∃ digits, digits ≠ [] ∧ (∀ c ∈ digits, isDecimal c) ∧ OccursWord (entanglementStem ++ digits) t ∧
    decimalValue digits = n

/-- The largest number in the names of entanglements in a text is `m`, or there are none and `m` is
0. -/
def IsLast (t : Text) (m : Nat) : Prop :=
  (∀ n, Numbered t n → n ≤ m) ∧ (Numbered t m ∨ m = 0 ∧ ∀ n, ¬ Numbered t n)

/-- Every number in use is that of a hit. -/
theorem numbered_iff {n : Nat} : Numbered t n ↔ ∃ h ∈ hits entanglementName t,
    decimalValue (h.covered.drop entanglementStem.length) = n := by
  constructor
  · rintro ⟨digits, nonempty, hdigits, ⟨a, v, e, ha, hv⟩, rfl⟩
    have hread : Reads (entanglementName a.getLast?) (entanglementStem ++ digits) v :=
      reads_entanglementName_iff.mpr ⟨ha, hv, digits, rfl, nonempty, hdigits⟩
    have words : ∀ {b u v}, Reads (entanglementName b) u v → ∀ c ∈ u, isWord c := by
      intro b u v hread c hc
      obtain ⟨-, -, digits, rfl, -, hdigits⟩ := reads_entanglementName_iff.mp hread
      obtain hc | hc := List.mem_append.mp hc
      · exact isWord_of_mem_entanglementStem hc
      · exact isWord_of_isDecimal (hdigits c hc)
    obtain ⟨h, hh, hcovered⟩ := (scanned_scan entanglementName t).exists_hit_of_word words e
      (by simp [nonempty]) (by simpa using ha) (by simpa using hread)
    exact ⟨h, hh, by rw [hcovered, List.drop_left]⟩
  · rintro ⟨h, hh, rfl⟩
    obtain ⟨a, v, e, hread⟩ := exists_of_mem_hits hh
    obtain ⟨ha, hv, digits, hcovered, nonempty, hdigits⟩ := reads_entanglementName_iff.mp hread
    rw [hcovered] at e ⊢
    exact ⟨digits, nonempty, hdigits, ⟨a, v, e, ha, hv⟩, by rw [List.drop_left]⟩

/-- **The largest number in use** is found, whatever the digits it is written in. -/
theorem lastEntanglement_isLast (t : Text) : IsLast t (lastEntanglement t) := by
  let value (h : Hit) : Nat := decimalValue (h.covered.drop entanglementStem.length)
  have hle : ∀ h ∈ hits entanglementName t, value h ≤ lastEntanglement t :=
    (le_foldl_max value (hits entanglementName t) 0).2
  refine ⟨fun n hn => ?_, ?_⟩
  · obtain ⟨h, hh, rfl⟩ := numbered_iff.mp hn
    exact hle h hh
  · obtain hlast | ⟨h, hh, hlast⟩ : lastEntanglement t = 0 ∨
        ∃ h ∈ hits entanglementName t, lastEntanglement t = value h :=
      foldl_max_eq value (hits entanglementName t) 0
    · by_cases hused : ∃ n, Numbered t n
      · obtain ⟨n, hn⟩ := hused
        have hzero : n = 0 := by
          obtain ⟨h, hh, rfl⟩ := numbered_iff.mp hn
          exact Nat.le_zero.mp (hlast ▸ hle h hh)
        rw [hlast]
        exact .inl (hzero ▸ hn)
      · exact .inr ⟨hlast, not_exists.mp hused⟩
    · exact .inl (numbered_iff.mpr ⟨h, hh, hlast.symm⟩)

end Idiom

namespace Fix

variable {t : Text}

/-- The names of larger numbers are not mentioned. -/
theorem not_mentions_of_lt {m n : Nat} (h : IsLast t m) (hlt : m < n) :
    mentions (entanglementName n) t = false := by
  rw [Bool.eq_false_iff]
  intro hmentions
  have hword := occursWord_of_mentions hmentions
  rw [entanglementName_eq] at hword
  have hnumbered : Numbered t n := by
    refine ⟨Nat.toDigits 10 n, Nat.toDigits_ne_nil, fun c hc => ?_, hword, decimalValue_toDigits n⟩
    exact isDecimal_of_isDigit (Nat.isDigit_of_mem_toDigits (by decide) (by decide) hc)
  exact absurd (h.1 n hnumbered) (not_le.mpr hlt)

/-! ## The names -/

/-- A change binds an entanglement to a name. -/
def Binds (c : Change) (name : Text) : Prop :=
  ∃ covered, c.before = some covered ∧ c.after = some (bound name covered)

/-- **Bound entanglements get fresh names**: the ones that follow the largest number in use, in the
order of the text, all different and none of them mentioned in the text before. -/
theorem bindEntanglement_names {i : Issue} {f : Fix} (h : bindEntanglement t i = .ok f) :
    ∃ m names, IsLast t m ∧
      names = (List.range' (m + 1) f.changes.length).map entanglementName ∧
      List.Forall₂ Binds f.changes names ∧ SpanAudit t 0 f.changes f.fixed ∧
      names.Nodup ∧ ∀ name ∈ names, mentions name t = false := by
  have hlast := lastEntanglement_isLast t
  have hchanges := changes_bindEntanglement h
  have hnames : (hits bareEntanglement t).map (givenName t) =
      (List.range' (lastEntanglement t + 1) f.changes.length).map entanglementName := by
    have hnumbers : (hits bareEntanglement t).map (fun x => lastEntanglement t + 1 + x.number) =
        List.range' (lastEntanglement t + 1) f.changes.length := by
      rw [hchanges, List.length_map, List.range'_eq_map_range, ← map_number_hits, List.map_map]
      rfl
    rw [← hnumbers, List.map_map]
    refine List.map_congr_left fun x _ => ?_
    rw [givenName, Function.comp_apply, Nat.add_right_comm]
  refine ⟨_, _, hlast, rfl, ?_, bindEntanglement_audit h, ?_, fun name hname => ?_⟩
  · rw [← hnames, hchanges, List.forall₂_map_left_iff, List.forall₂_map_right_iff]
    exact List.forall₂_same.mpr fun x _ => ⟨x.covered, rfl, rfl⟩
  · exact List.Nodup.map entanglementName_injective List.nodup_range'
  · obtain ⟨n, hn, rfl⟩ := List.mem_map.mp hname
    exact not_mentions_of_lt hlast (List.mem_range'_1.mp hn).1

/-- Numbers with zeros in front and in Arabic digits, of which the largest is 12. -/
theorem bindEntanglement_names_sample :
    let t := "f(entanglement_007, entanglement_٠١٢)\nentangle(a);\n  entangle(b);".toList
    lastEntanglement t = 12 ∧ ∃ f, bindEntanglement t { rule := "r", description := "d" } = .ok f ∧
      f.changes.length = 2 ∧ ∃ m names, IsLast t m ∧
        names = (List.range' (m + 1) f.changes.length).map entanglementName ∧
        List.Forall₂ Binds f.changes names ∧ SpanAudit t 0 f.changes f.fixed ∧
        names.Nodup ∧ ∀ name ∈ names, mentions name t = false := by
  intro t
  obtain ⟨f, hf⟩ := exists_bindEntanglement (t := t) (i := { rule := "r", description := "d" })
    (by decide +kernel)
  have hlength : f.changes.length = 2 := by
    rw [changes_bindEntanglement hf, List.length_map]
    decide +kernel
  exact ⟨by decide +kernel, f, hf, hlength, bindEntanglement_names hf⟩

end Fix

end Mend
