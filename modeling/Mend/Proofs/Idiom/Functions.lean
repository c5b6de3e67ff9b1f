import Mend.Idiom.Control
import Mend.Proofs.Text.Braces
import Mend.Proofs.Text.Words

/-!
# Functions and their bodies

The body of a function ends with the brace that closes it. An asynchronous function that is read as
one that never awaits has been looked into up to the first closing brace only.

* `idleAsync_parts`: what is read as an asynchronous function that never awaits.
* `body?`: the body of a function.
* `awaits_iff_of_idle`: such a function awaits behind the first closing brace or not at all.
-/

namespace Mend

open Text Reader

namespace Idiom

variable {b : Option Char} {u v : Text}

instance : Within idleBlock where
  le_length {t n} h := by
    rw [idleBlock] at h
    split at h
    · cases h
    · next m hm =>
      split at h
      · cases h
      · obtain rfl := Option.some.inj h
        exact Within.le_length hm

theorem block_append {a b : Text} (h : '}' ∉ a) : block (a ++ '}' :: b) = a :=
  takeWhile_append_stop (bne_of_not_mem h) (by simp)

theorem reads_idleBlock : Reads idleBlock u v ↔
    ∃ a, u = a ++ ['}'] ∧ '}' ∉ a ∧ ¬ OccursWord "await".toList a := by
  have hawaits : ∀ {a}, '}' ∉ a →
      (awaits (a ++ ['}'] ++ v) = true ↔ OccursWord "await".toList a) := fun {a} ha => by
    rw [awaits, List.append_assoc, List.singleton_append, block_append ha]
    exact occurs_word_iff (by decide)
  constructor
  · intro h
    rw [Reads, idleBlock] at h
    split at h
    · cases h
    · next n hn =>
      split at h
      · cases h
      · next hidle =>
        obtain rfl := Option.some.inj h
        obtain ⟨a, rfl, ha⟩ := reads_through.mp (show Reads (through '}') u v from hn)
        exact ⟨a, rfl, ha, fun hword => hidle ((hawaits ha).mpr hword)⟩
  · rintro ⟨a, rfl, ha, hidle⟩
    have hthrough : Reads (through '}') (a ++ ['}']) v := reads_through.mpr ⟨a, rfl, ha⟩
    rw [Reads] at hthrough
    rw [Reads, idleBlock, hthrough]
    exact if_neg fun h => hidle ((hawaits ha).mp h)

instance : Within (idleAsync b) := inferInstanceAs (Within (Pattern.atWord _ b))

instance : Within awaitedOperand where
  le_length {t n} h := by
    rw [awaitedOperand] at h
    split at h
    · obtain rfl := Option.some.inj h
      exact run_le_length _ t
    · cases h

instance : Within (unhandledAwait b) := inferInstanceAs (Within (Pattern.atWord _ b))

instance : Within (functionBody b) := inferInstanceAs (Within (Pattern.anywhere _ b))

/-- What is read as a function that never awaits: its block ends with the first closing brace. -/
theorem idleAsync_parts (h : Reads (idleAsync b) u v) :
    ∃ gap header a, u = "async".toList ++ (gap ++ ("function".toList ++
        (header ++ '{' :: (a ++ ['}'])))) ∧
      (∀ c ∈ gap, isBlank c) ∧ '{' ∉ header ∧ '}' ∉ a ∧ ¬ OccursWord "await".toList a := by
  simp only [idleAsync, reads_atWord, reads_seq_cons, reads_exactly, reads_someBlanks,
    reads_through, reads_idleBlock, reads_seq_nil] at h
  obtain ⟨-, _, _, rfl, rfl, gap, _, rfl, ⟨-, hgap, -⟩, _, _, rfl, rfl, _, _, rfl,
    ⟨header, rfl, hheader⟩, _, _, rfl, ⟨a, rfl, ha, hidle⟩, rfl⟩ := h
  exact ⟨gap, header, a, by simp, hgap, hheader, ha, hidle⟩

/-- The body of a function: what stands between the first opening brace of a text and the brace that
closes it. -/
def body? (t : Text) : Option Text :=
  match t.dropWhile (· != '{') with
  | [] => none
  | _ :: rest => blockFrom 0 rest

theorem body?_append {header t : Text} (h : '{' ∉ header) :
    body? (header ++ '{' :: t) = blockFrom 0 t := by
  rw [body?, dropWhile_append_stop (bne_of_not_mem h) (by simp)]

/-- **A body whose first block never awaits, up to the first closing brace, awaits behind that
brace or not at all.** -/
theorem awaits_iff_of_idle {a body : Text} (ha : '}' ∉ a) (hidle : ¬ OccursWord "await".toList a)
    (h : blockFrom 0 (a ++ '}' :: v) = some body) :
    (OccursWord "await".toList body ↔ OccursWord "await".toList (body.dropWhile (· != '}'))) ∧
      ('{' ∉ body → ¬ OccursWord "await".toList body) := by
  obtain ⟨hcloses, rest, e⟩ := blockFrom_eq_some_iff.mp h
  have hnil : ¬ OccursWord "await".toList [] := not_occursWord_nil (by decide)
  obtain ⟨z, rfl⟩ := (prefix_append_cons_iff ha).mp ⟨_, e⟩
  rw [List.append_assoc] at e
  cases z with
  | nil =>
    rw [List.append_nil, List.dropWhile_eq_nil_iff.mpr (bne_of_not_mem ha)]
    exact ⟨iff_of_false hidle hnil, fun _ => hidle⟩
  | cons d z =>
    obtain ⟨rfl, -⟩ := List.cons.inj (List.append_cancel_left e)
    rw [dropWhile_append_stop (bne_of_not_mem ha) (by simp)]
    have hbrace : '}' ∉ "await".toList ∧ ¬ isWord '}' := by decide
    have hcut := occursWord_append_cons_iff (a := []) (b := z) hbrace.1 hbrace.2
    refine ⟨?_, fun hopen => absurd (by simp) (hcloses.not_mem hopen)⟩
    rw [occursWord_append_cons_iff hbrace.1 hbrace.2, or_iff_right hidle]
    exact (hcut.trans (or_iff_right hnil)).symm

end Idiom

end Mend
