import Mathlib.Data.List.Forall2
import Mend.Proofs.Fix.Audit
import Mend.Proofs.Fix.Collapses
import Mend.Proofs.Text.Places

/-!
# The lines of corrected superpositions

The second pass goes through the text that the first pass leaves, and tells the lines of that text.
What it finds comes from one place in the text that was given: it stands there, or it begins with
what is left of a repeated collapse there. The number of its line is too small by the newlines that
the first pass has taken away in front of it.

* `origin`, `stems`: where a measured collapse comes from.
* `lostLines`, `line_add_lostLines`: the newlines that were taken away in front of it.
* `collapseSuperposition_lines`: the lines of the changes, and when they are those of the text.
-/

namespace Mend.Fix

open Text Reader Idiom

/-- The text that the first pass leaves. -/
def collapsedOnce (t : Text) : Text := replaceHits repeatedCollapse (fun _ => singleCollapse) t

/-- The part of a text that stands in front of the place that a place in the text that the first
pass leaves comes from, `a` being the text in front of that. -/
def origin (t a : Text) : Text :=
  Piece.origin (fun _ => singleCollapse) a.length (scan repeatedCollapse t)

/-- How many newlines the first pass takes away from the part `a` at the front of a text. -/
def lostLines (t a : Text) : Nat :=
  (((places repeatedCollapse t).filter fun x => x.1.length < a.length).flatMap
    fun x => x.2.covered).count '\n'

/-- What the second pass finds at a place stands where the place comes from, or it begins with what
is left of a repeated collapse there. -/
def Stems (t : Text) (x : Text × Hit) : Prop :=
  (∃ v, t = origin t x.1 ++ (x.2.covered ++ v)) ∨
    ∃ h, (origin t x.1, h) ∈ places repeatedCollapse t ∧ singleCollapse <+: x.2.covered

variable {t : Text} {x : Text × Hit}

theorem singleCollapse_ne_nil : singleCollapse ≠ [] := by decide

/-- What the second pass finds begins at a place between two pieces of the first one. -/
theorem exists_pieces (hx : x ∈ places measuredCollapse (collapsedOnce t)) :
    ∃ ps₁ ps₂ v, scan repeatedCollapse t = ps₁ ++ ps₂ ∧
      x.1 = Piece.replace (fun _ => singleCollapse) ps₁ ∧
      Piece.replace (fun _ => singleCollapse) ps₂ = x.2.covered ++ v ∧
      Reused "measure()".toList x.2.covered ∧ x.2.line = x.1.count '\n' + 1 := by
  obtain ⟨v, e, hline⟩ := exists_of_mem_places hx
  have hhit : x.2 ∈ hits measuredCollapse (collapsedOnce t) := by
    rw [← map_snd_places]
    exact List.mem_map_of_mem hx
  obtain ⟨-, b, v', hread⟩ := reads_of_mem_hits hhit
  have hreused := reused_of_measuredCollapse hread
  obtain ⟨ps₁, ps₂, hps, hfront, hbehind⟩ | ⟨-, -, ps₂, y, z, -, hcut, hy, hz, hbehind⟩ :=
    Piece.cut_replace e
  · exact ⟨ps₁, ps₂, v, hps, hfront, hbehind.symm, hreused, hline⟩
  · have honce : OnlyInFront "superposition".toList singleCollapse := by decide +kernel
    exact absurd hbehind (hreused.append_ne_append honce hcut hy hz _ _)

variable {ps₁ ps₂ : List Piece}

theorem origin_eq (hps : scan repeatedCollapse t = ps₁ ++ ps₂) :
    origin t (Piece.replace (fun _ => singleCollapse) ps₁) = ps₁.flatMap Piece.source := by
  rw [origin, hps]
  exact Piece.origin_append fun _ _ => singleCollapse_ne_nil

theorem lostLines_eq (hps : scan repeatedCollapse t = ps₁ ++ ps₂) :
    lostLines t (ps₁.flatMap Piece.source) =
      ((Piece.hits ps₁).flatMap Hit.covered).count '\n' := by
  have hfront : ∀ y ∈ Piece.placed [] ps₁, y.1.length < (ps₁.flatMap Piece.source).length := by
    intro y hy
    have hlen := (Piece.prefix_of_mem_placed hy).2.length_le
    have hhit : y.2 ∈ hits repeatedCollapse t := by
      rw [← map_snd_places, places, hps, Piece.placed_append, List.map_append]
      exact List.mem_append_left _ (List.mem_map_of_mem hy)
    have hcovers := List.length_pos_iff.mpr (reads_of_mem_hits hhit).1
    rw [List.length_append, List.nil_append] at hlen
    omega
  have hbehind : ∀ y ∈ Piece.placed ([] ++ ps₁.flatMap Piece.source) ps₂,
      ¬ y.1.length < (ps₁.flatMap Piece.source).length := fun y hy =>
    Nat.not_lt.mpr (Piece.prefix_of_mem_placed hy).1.length_le
  rw [lostLines, places, hps, Piece.placed_append, List.filter_append,
    List.filter_eq_self.mpr (by simpa using hfront),
    List.filter_eq_nil_iff.mpr (by simpa using hbehind),
    List.append_nil, ← Piece.map_snd_placed (a := []), List.flatMap_map]

/-- **The line of what the second pass finds is too small by the newlines that were taken away in
front of it.** -/
theorem line_add_lostLines (hx : x ∈ places measuredCollapse (collapsedOnce t)) :
    x.2.line + lostLines t (origin t x.1) = (origin t x.1).count '\n' + 1 := by
  obtain ⟨ps₁, ps₂, -, hps, hfront, -, -, hline⟩ := exists_pieces hx
  have hcount : (ps₁.flatMap Piece.source).count '\n' = x.1.count '\n' +
      ((Piece.hits ps₁).flatMap Hit.covered).count '\n' := by
    rw [hfront]
    exact Piece.count_source fun _ _ => by decide
  rw [hline, hfront, origin_eq hps, lostLines_eq hps, hcount, hfront]
  omega

/-- **What the second pass finds stems from one place in the text that was given.** -/
theorem stems (hx : x ∈ places measuredCollapse (collapsedOnce t)) : Stems t x := by
  obtain ⟨ps₁, ps₂, v, hps, hfront, hbehind, hreused, -⟩ := exists_pieces hx
  have ht : t = ps₁.flatMap Piece.source ++ ps₂.flatMap Piece.source := by
    rw [← List.flatMap_append, ← hps, flatMap_source_scan]
  rw [Stems, hfront, origin_eq hps]
  cases ps₂ with
  | nil => exact absurd (List.append_eq_nil_iff.mp hbehind.symm).1 hreused.ne_nil
  | cons q ps₂ =>
    cases q with
    | hit h =>
      refine .inr ⟨h, ?_, ?_⟩
      · rw [places, hps, Piece.placed_append]
        simp [Piece.placed]
      · have e : x.2.covered ++ v = "superposition".toList ++ (".collapse()".toList ++
            Piece.replace (fun _ => singleCollapse) ps₂) := by
          rw [← hbehind, Piece.replace_hit, ← List.append_assoc, ← singleCollapse_eq]
        obtain ⟨second, -, hrest⟩ := hreused.of_append_eq e
        rw [← hrest, ← List.append_assoc, ← List.append_assoc, ← singleCollapse_eq] at e
        exact ⟨second, (List.append_cancel_right e).symm⟩
    | plain c =>
      left
      obtain ⟨b, l, n, hscanned⟩ := (hps ▸ scanned_scan repeatedCollapse t).exists_behind
      obtain ⟨d, w, hw⟩ := List.exists_cons_of_ne_nil hreused.ne_nil
      rw [hw, Piece.replace_plain, List.cons_append, List.cons.injEq] at hbehind
      obtain ⟨rfl, hbehind⟩ := hbehind
      generalize hs : (Piece.plain c :: ps₂).flatMap Piece.source = s at hscanned ht
      cases hscanned with
      | plain _ rest =>
        obtain ⟨v', hv⟩ | ⟨y, z, h, ps, rfl, hcross⟩ := rest.prefix_replace hbehind
        · exact ⟨v', by rw [hw, List.cons_append, ← hv, ← ht]⟩
        · -- it would reach into what is left of a repeated collapse
          have htext := hcross.text_eq
          rw [singleCollapse_eq, List.append_assoc] at htext
          exact absurd htext (hreused.append_ne isReuse_measure hw (List.cons_ne_nil c y)
            hcross.nonempty _ _)

/-! ## The lines of the changes -/

theorem changes_collapseSuperposition (t : Text) (i : Issue) :
    (collapseSuperposition t i).changes =
      uniformChanges repeatedCollapse singleCollapse "Removed repeated collapse" t ++
        uniformChanges measuredCollapse notedCollapse
          "Removed measurement of collapsed superposition" (collapsedOnce t) := by
  rw [collapseSuperposition]
  split
  · next h => exact (List.isEmpty_iff.mp h).symm
  · rfl

/-- A change for every hit is one for every place. -/
theorem forall₂_uniformChanges {p : Pattern} {new : Text} {description : String}
    {R : Change → Text × Hit → Prop}
    (h : ∀ x ∈ places p t, ∀ c : Change, c.before = some x.2.covered →
      c.line = (x.2.line : Int) → R c x) :
    List.Forall₂ R (uniformChanges p new description t) (places p t) := by
  rw [uniformChanges, ← map_snd_places, List.map_map, List.forall₂_map_left_iff, List.forall₂_same]
  exact fun x hx => h x hx _ rfl rfl

/-- A change tells the line of the text on which what it rewrites starts, behind `a`. -/
def Tells (t a : Text) (c : Change) : Prop := c.line = (lineAt t a.length : Int)

/-- **The lines that changes of collapses tell.** A repeated collapse is told with the line on which
it starts in the text that was given. So is a measured collapse, which stands in that text or is left
of a repeated collapse there, if and only if no repeated collapse in front of it spans lines;
otherwise the number is too small by the newlines in these. -/
theorem collapseSuperposition_lines (t : Text) (i : Issue) : ∃ firsts seconds,
    (collapseSuperposition t i).changes = firsts ++ seconds ∧
    List.Forall₂ (fun c x => c.before = some x.2.covered ∧
      (∃ v, t = x.1 ++ (x.2.covered ++ v)) ∧ Tells t x.1 c) firsts (places repeatedCollapse t) ∧
    List.Forall₂ (fun c x => c.before = some x.2.covered ∧ Stems t x ∧
      c.line + (lostLines t (origin t x.1) : Int) = (lineAt t (origin t x.1).length : Int) ∧
      (Tells t (origin t x.1) c ↔ ∀ y ∈ places repeatedCollapse t,
        y.1.length < (origin t x.1).length → '\n' ∉ y.2.covered))
      seconds (places measuredCollapse (collapsedOnce t)) := by
  refine ⟨_, _, changes_collapseSuperposition t i, forall₂_uniformChanges ?_,
    forall₂_uniformChanges ?_⟩
  · intro x hx c hbefore hline
    obtain ⟨v, ht, hnumber⟩ := exists_of_mem_places hx
    refine ⟨hbefore, ⟨v, ht⟩, ?_⟩
    rw [Tells, hline, hnumber, ht, lineAt_append]
  · intro x hx c hbefore hline
    have hstems := stems hx
    obtain ⟨v, ht⟩ : ∃ v, t = origin t x.1 ++ v := by
      obtain ⟨v, ht⟩ | ⟨h, hh, -⟩ := hstems
      · exact ⟨_, ht⟩
      · obtain ⟨v, ht, -⟩ := exists_of_mem_places hh
        exact ⟨_, ht⟩
    have hsum : x.2.line + lostLines t (origin t x.1) = lineAt t (origin t x.1).length := by
      have hlineAt := congrArg (lineAt · (origin t x.1).length) ht
      rw [line_add_lostLines hx, hlineAt, lineAt_append]
    have hkept : lostLines t (origin t x.1) = 0 ↔ ∀ y ∈ places repeatedCollapse t,
        y.1.length < (origin t x.1).length → '\n' ∉ y.2.covered := by
      simp only [lostLines, List.count_eq_zero, List.mem_flatMap, List.mem_filter,
        decide_eq_true_eq, not_exists, not_and, and_imp]
    refine ⟨hbefore, hstems, by rw [hline, ← hsum, Int.natCast_add], ?_⟩
    rw [Tells, hline, ← hsum, ← hkept]
    omega

/-- **A line is told that is not the one on which the superposition starts**: a repeated collapse in
front of it spans two lines. -/
theorem collapseSuperposition_misnumbers :
    let a := "superposition.collapse()\n.collapse()\n".toList
    let u := "superposition.collapse().measure()".toList
    let i : Issue := { rule := "quantum_superposition_misuse", description := "" }
    ∃ c ∈ (collapseSuperposition (a ++ u) i).changes, c.before = some u ∧
      (places measuredCollapse (collapsedOnce (a ++ u))).map (fun x => origin (a ++ u) x.1) = [a] ∧
      c.line = 2 ∧ lineAt (a ++ u) a.length = 3 := by
  intro a u i
  refine ⟨{
    kind := .modify
    line := 2
    description := "Removed measurement of collapsed superposition"
    before := some u
    after := some notedCollapse }, ?_, rfl, ?_, rfl, ?_⟩
  · decide +kernel
  · decide +kernel
  · decide +kernel

end Mend.Fix
