import Mend.Proofs.Text.Scanning

/-!
# The first place where a pattern reads something

* `Unread p x y`: a pattern reads nothing at the places of `x`, which goes on with `y`.
* `firstMatch?_unread`, `firstMatch?_of_unread`: the first hit of a pattern is what it reads at a
  place where it has read nothing before.
* `occurs_iff_reads`: a pattern occurs where it reads something.
-/

namespace Mend.Text

open Reader

/-- The pattern reads nothing at the places of `x`, which stands behind `w` and in front of `y`. -/
def UnreadBehind (p : Pattern) (w x y : Text) : Prop :=
  ∀ a c b, x = a ++ c :: b → ∀ n, p (w ++ a).getLast? (c :: (b ++ y)) ≠ some (n + 1)

/-- The pattern reads nothing at the places of `x`, which begins a text and goes on with `y`. -/
abbrev Unread (p : Pattern) (x y : Text) : Prop := UnreadBehind p [] x y

section

variable {p : Pattern} {w x y u v : Text} {c : Char}

theorem UnreadBehind.nil : UnreadBehind p w [] y := by
  intro a c b e
  cases a <;> cases e

theorem unreadBehind_cons_iff : UnreadBehind p w (c :: x) y ↔
    (∀ n, p w.getLast? (c :: (x ++ y)) ≠ some (n + 1)) ∧ UnreadBehind p (w ++ [c]) x y := by
  constructor
  · refine fun h => ⟨by simpa using h [] c x rfl, fun a d b e => ?_⟩
    have hd := h (c :: a) d b (by rw [e, List.cons_append])
    rwa [List.append_cons] at hd
  · rintro ⟨hc, h⟩ a d b e
    cases a with
    | nil =>
      obtain ⟨rfl, rfl⟩ := List.cons.inj e
      simpa using hc
    | cons d' a =>
      obtain ⟨rfl, rfl⟩ := List.cons.inj e
      rw [List.append_cons]
      exact h a d b rfl

theorem findFrom_unread {t : Text} {m : Match} (h : findFrom p w.reverse t = some m) :
    ∃ x, m.before = w ++ x ∧ UnreadBehind p w x (m.covered ++ m.after) := by
  induction t generalizing w with
  | nil => cases h
  | cons c rest ih =>
    rw [findFrom] at h
    split at h
    · obtain rfl := Option.some.inj h
      exact ⟨[], by simp, .nil⟩
    · next hn =>
      have hwhole := findFrom_eq_some h
      rw [← List.reverse_concat] at h
      obtain ⟨x, hx, hunread⟩ := ih h
      refine ⟨c :: x, by simp [hx], unreadBehind_cons_iff.mpr ⟨fun n => ?_, hunread⟩⟩
      have hrest : rest = x ++ (m.covered ++ m.after) := by simpa [hx] using hwhole.symm
      rw [List.head?_reverse, hrest] at hn
      exact hn n

theorem findFrom_of_unread (nonempty : u ≠ []) (read : Reads (p (w ++ x).getLast?) u v)
    (h : UnreadBehind p w x (u ++ v)) :
    findFrom p w.reverse (x ++ (u ++ v)) = some ⟨w ++ x, u, v⟩ := by
  induction x generalizing w with
  | nil =>
    rw [List.append_nil] at read ⊢
    obtain ⟨c, u, rfl⟩ := List.exists_cons_of_ne_nil nonempty
    rw [Reads, List.cons_append] at read
    simp [findFrom, read]
  | cons c x ih =>
    obtain ⟨hc, hx⟩ := unreadBehind_cons_iff.mp h
    rw [List.append_cons] at read
    have hrest := ih read hx
    rw [List.reverse_concat, ← List.append_cons] at hrest
    rw [List.cons_append, findFrom, List.head?_reverse]
    split
    · next n hn => exact absurd hn (hc n)
    · exact hrest

theorem findFrom_eq_none (h : findFrom p w.reverse x = none) : UnreadBehind p w x [] := by
  induction x generalizing w with
  | nil => exact .nil
  | cons c x ih =>
    rw [findFrom] at h
    split at h
    · cases h
    · next hn =>
      rw [List.head?_reverse] at hn
      refine unreadBehind_cons_iff.mpr ⟨by simpa using hn, ih ?_⟩
      rwa [List.reverse_concat]

/-- In front of the first hit, a pattern reads nothing. -/
theorem firstMatch?_unread {t : Text} {m : Match} (h : firstMatch? p t = some m) :
    Unread p m.before (m.covered ++ m.after) := by
  obtain ⟨x, hx, hunread⟩ := findFrom_unread (w := []) h
  rwa [hx]

/-- What a pattern reads somewhere does not stand in front of its first hit. -/
theorem before_isPrefix_of_firstMatch? {a : Text} {m : Match}
    (h : firstMatch? p (a ++ (u ++ v)) = some m) (nonempty : u ≠ [])
    (read : Reads (p a.getLast?) u v) : m.before <+: a := by
  have e := firstMatch?_eq_some h
  rw [List.append_assoc] at e
  obtain ⟨n, hn⟩ := read.exists_succ nonempty
  obtain ⟨z, ha, -⟩ | ⟨z, hbefore, hrest⟩ := List.append_eq_append_iff.mp e
  · exact ⟨z, ha.symm⟩
  · cases z with
    | nil => exact ⟨[], by simpa using hbefore⟩
    | cons c z =>
      refine absurd ?_ (firstMatch?_unread h a c z hbefore n)
      rwa [List.nil_append, ← List.cons_append, ← hrest]

/-- **What a pattern reads is its first hit if it reads nothing in front of it.** -/
theorem firstMatch?_of_unread (nonempty : u ≠ []) (read : Reads (p x.getLast?) u v)
    (h : Unread p x (u ++ v)) : firstMatch? p (x ++ (u ++ v)) = some ⟨x, u, v⟩ :=
  findFrom_of_unread (w := []) nonempty read h

/-- **A pattern occurs in a text exactly if it reads something at some place of it.** -/
theorem occurs_iff_reads [∀ b, Within (p b)] {t : Text} :
    occurs p t ↔ ∃ a u v, t = a ++ (u ++ v) ∧ u ≠ [] ∧ Reads (p a.getLast?) u v := by
  constructor
  · intro h
    obtain ⟨m, hm⟩ := occurs_iff.mp h
    obtain ⟨nonempty, hread⟩ := firstMatch?_reads hm
    exact ⟨m.before, m.covered, m.after, by simpa using (firstMatch?_eq_some hm).symm, nonempty,
      hread⟩
  · rintro ⟨a, u, v, rfl, nonempty, hread⟩
    by_contra h
    have hnone : firstMatch? p (a ++ (u ++ v)) = none := by simpa [occurs] using h
    have hunread : Unread p (a ++ (u ++ v)) [] := findFrom_eq_none (w := []) hnone
    obtain ⟨n, hn⟩ := hread.exists_succ nonempty
    obtain ⟨c, u, rfl⟩ := List.exists_cons_of_ne_nil nonempty
    exact hunread a c (u ++ v) rfl n (by simpa using hn)

theorem occurs_atWord_iff {r : Reader} [Within r] {t : Text} : occurs (.atWord r) t ↔
    ∃ a u v, t = a ++ (u ++ v) ∧ u ≠ [] ∧ ¬ a.getLast?.any isWord ∧ Reads r u v := by
  simp only [occurs_iff_reads, reads_atWord]

end

end Mend.Text
