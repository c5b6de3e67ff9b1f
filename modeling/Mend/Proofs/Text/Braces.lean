import Mend.Text.Basic

/-!
# Blocks between matching braces

* `blockFrom`: what stands in front of the brace that closes a block.
* `Closes depth t`: a text that closes as many more braces than it opens, and never more.
* `blockFrom_eq_some_iff`: a block is what closes all that it opens, up to its closing brace.
-/

namespace Mend.Text

variable {depth : Nat} {b t : Text} {c : Char}

/-- What stands in front of the brace that closes a block in which `depth` more blocks are open. -/
def blockFrom (depth : Nat) : Text → Option Text
  | [] => none
  | c :: t =>
    if c = '}' then if depth = 0 then some [] else (blockFrom (depth - 1) t).map (c :: ·)
    else (blockFrom (if c = '{' then depth + 1 else depth) t).map (c :: ·)

/-- A text that closes `depth` braces more than it opens, and at no place has closed more. -/
structure Closes (depth : Nat) (t : Text) : Prop where
  opened : ∀ p, p <+: t → p.count '}' ≤ depth + p.count '{'
  closed : t.count '}' = depth + t.count '{'

theorem closes_nil_iff : Closes depth [] ↔ depth = 0 := by
  refine ⟨fun h => by simpa using h.closed.symm, fun h => ⟨fun p hp => ?_, by simp [h]⟩⟩
  simp [List.prefix_nil.mp hp]

/-- A brace that closes is one of those that are open. -/
theorem closes_cons_closing_iff :
    Closes depth ('}' :: t) ↔ depth ≠ 0 ∧ Closes (depth - 1) t := by
  constructor
  · intro h
    have hfirst : 1 ≤ depth := by simpa using h.opened ['}'] (by simp)
    refine ⟨by omega, fun p hp => ?_, ?_⟩
    · have hcount := h.opened ('}' :: p) (List.cons_prefix_cons.mpr ⟨rfl, hp⟩)
      simp only [List.count_cons_self, List.count_cons_of_ne (by decide : '}' ≠ '{')] at hcount
      omega
    · have hcount := h.closed
      simp only [List.count_cons_self, List.count_cons_of_ne (by decide : '}' ≠ '{')] at hcount
      omega
  · rintro ⟨hdepth, h⟩
    refine ⟨fun p hp => ?_, ?_⟩
    · cases p with
      | nil => simp
      | cons d p =>
        obtain ⟨rfl, hrest⟩ := List.cons_prefix_cons.mp hp
        have hcount := h.opened p hrest
        simp only [List.count_cons_self, List.count_cons_of_ne (by decide : '}' ≠ '{')]
        omega
    · have hcount := h.closed
      simp only [List.count_cons_self, List.count_cons_of_ne (by decide : '}' ≠ '{')]
      omega

theorem closes_cons_of_ne (hc : c ≠ '}') :
    Closes depth (c :: t) ↔ Closes (if c = '{' then depth + 1 else depth) t := by
  have hclosing : ∀ p : Text, (c :: p).count '}' = p.count '}' := fun p => by simp [hc]
  have hopening : ∀ p : Text, depth + (c :: p).count '{' =
      (if c = '{' then depth + 1 else depth) + p.count '{' := fun p => by
    by_cases h : c = '{' <;> simp [h]
    omega
  constructor
  · refine fun h => ⟨fun p hp => ?_, ?_⟩
    · rw [← hclosing, ← hopening]
      exact h.opened _ (List.cons_prefix_cons.mpr ⟨rfl, hp⟩)
    · rw [← hclosing, ← hopening, h.closed]
  · refine fun h => ⟨fun p hp => ?_, ?_⟩
    · cases p with
      | nil => simp
      | cons d p =>
        obtain ⟨rfl, hrest⟩ := List.cons_prefix_cons.mp hp
        rw [hclosing, hopening]
        exact h.opened p hrest
    · rw [hclosing, hopening, h.closed]

/-- **A block is what closes all that it opens**, up to the brace that closes it. -/
theorem blockFrom_eq_some_iff :
    blockFrom depth t = some b ↔ Closes depth b ∧ ∃ rest, t = b ++ '}' :: rest := by
  induction t generalizing depth b with
  | nil => simp [blockFrom]
  | cons c t ih =>
    rw [blockFrom]
    by_cases hc : c = '}'
    · subst hc
      rw [if_pos rfl]
      by_cases hdepth : depth = 0
      · rw [if_pos hdepth, Option.some.injEq]
        constructor
        · rintro rfl
          exact ⟨closes_nil_iff.mpr hdepth, t, rfl⟩
        · rintro ⟨h, rest, e⟩
          cases b with
          | nil => rfl
          | cons d b =>
            obtain ⟨rfl, -⟩ := List.cons.inj e
            exact absurd hdepth (closes_cons_closing_iff.mp h).1
      · rw [if_neg hdepth, Option.map_eq_some_iff]
        constructor
        · rintro ⟨b, hb, rfl⟩
          obtain ⟨h, rest, rfl⟩ := ih.mp hb
          exact ⟨closes_cons_closing_iff.mpr ⟨hdepth, h⟩, rest, rfl⟩
        · rintro ⟨h, rest, e⟩
          cases b with
          | nil => exact absurd (closes_nil_iff.mp h) hdepth
          | cons d b =>
            obtain ⟨rfl, rfl⟩ := List.cons.inj e
            exact ⟨b, ih.mpr ⟨(closes_cons_closing_iff.mp h).2, rest, rfl⟩, rfl⟩
    · rw [if_neg hc, Option.map_eq_some_iff]
      constructor
      · rintro ⟨b, hb, rfl⟩
        obtain ⟨h, rest, rfl⟩ := ih.mp hb
        exact ⟨(closes_cons_of_ne hc).mpr h, rest, rfl⟩
      · rintro ⟨h, rest, e⟩
        cases b with
        | nil => exact absurd (List.cons.inj e).1 hc
        | cons d b =>
          obtain ⟨rfl, rfl⟩ := List.cons.inj e
          exact ⟨b, ih.mpr ⟨(closes_cons_of_ne hc).mp h, rest, rfl⟩, rfl⟩

/-- What opens no brace and closes all that it opens closes none. -/
theorem Closes.not_mem (h : Closes 0 b) (hb : '{' ∉ b) : '}' ∉ b := by
  rw [← List.count_eq_zero] at hb ⊢
  rw [h.closed, hb]

end Mend.Text
