import Mathlib.Data.List.Infix
import Mend.Proofs.Text.Scanning

/-!
# Where a word stands in a text with replaced hits

A word in a text whose hits were replaced either stands apart from what replaces them, where it
stood before; or it begins inside of that; or it begins in front of it and reaches into it. So what
a pattern reads is gone from a text if it can neither begin inside what replaces a hit nor reach
into it.

* `Behind p b h ps`: a hit that is read behind the character `b`, with the pieces that follow it.
* `Scanned.prefix_replace`: what such a text begins with, the text began with, or it reaches into
  what replaces a hit.
* `Scanned.standing`: the three ways in which a word stands.
-/

namespace Mend.Text

open Reader

/-- `h` is read behind the character `b`, and the scan goes on with the pieces `ps`. -/
def Behind (p : Pattern) (b : Option Char) (h : Hit) (ps : List Piece) : Prop :=
  ∃ v l n, Reads (p b) h.covered v ∧ Scanned p h.covered.getLast? l n v ps

/-- A text begins with `x`, which it began with before its hits were replaced, and then with
`y ++ v`, of which `y` is not empty and begins what replaces a hit. -/
structure Crossing (p : Pattern) (f : Hit → Text) (b : Option Char) (x y v : Text) (h : Hit)
    (ps : List Piece) : Prop where
  behind : Behind p (x.getLast?.or b) h ps
  nonempty : y ≠ []
  text_eq : y ++ v = f h ++ Piece.replace f ps

/-- How the word `w` stands behind `a` and in front of `v` in the text that comes of `t`, which
follows the character `b`, when the hits of a pattern are replaced. -/
inductive Standing (p : Pattern) (f : Hit → Text) (b : Option Char) (t a w v : Text) : Prop
  | apart {d z : Text} (text_eq : t = d ++ (w ++ z))
      (unread : ∀ m, p (d.getLast?.or b) (w ++ z) ≠ some (m + 1))
      (before : d.getLast?.or b = a.getLast?.or b ∨
        ∃ b' h ps, Behind p b' h ps ∧ d.getLast?.or b = h.covered.getLast?)
  | inside {b' : Option Char} {h : Hit} {ps : List Piece} {x y : Text} (behind : Behind p b' h ps)
      (cut : f h = x ++ y) (nonempty : y ≠ []) (text_eq : w ++ v = y ++ Piece.replace f ps)
  | across {h : Hit} {ps : List Piece} {x y : Text} (cut : w = x ++ y) (front : x ≠ [])
      (crossing : Crossing p f none x y v h ps)

/-- The word `w` begins in `z` with its first character or not at all. -/
def OnlyInFront (w z : Text) : Prop := ∀ s ∈ z.tail.tails, s ≠ [] → ¬ s <+: w ∧ ¬ w <+: s

instance {w z : Text} : Decidable (OnlyInFront w z) :=
  inferInstanceAs (Decidable (∀ s ∈ z.tail.tails, s ≠ [] → ¬ s <+: w ∧ ¬ w <+: s))

theorem OnlyInFront.append_ne {w z x y : Text} (h : OnlyInFront w z) (cut : z = x ++ y)
    (front : x ≠ []) (nonempty : y ≠ []) (v v' : Text) : w ++ v ≠ y ++ v' := by
  intro e
  obtain ⟨c, x, rfl⟩ := List.exists_cons_of_ne_nil front
  have hmem : y ∈ z.tail.tails := by
    rw [cut, List.mem_tails]
    exact List.suffix_append x y
  obtain ⟨hpart, hwhole⟩ := h y hmem nonempty
  obtain hpre | hpre := List.prefix_or_prefix_of_prefix (List.prefix_append y v')
    (e ▸ List.prefix_append w v)
  · exact hpart hpre
  · exact hwhole hpre

variable {p : Pattern} {f : Hit → Text} {b : Option Char} {l n : Nat} {t a w v : Text}
  {ps : List Piece}

/-- A character in front changes nothing about a crossing. -/
theorem Crossing.cons {c : Char} {x y : Text} {h : Hit} (s : Crossing p f (some c) x y v h ps) :
    Crossing p f b (c :: x) y v h ps where
  behind := by
    rw [getLast?_cons_or]
    exact s.behind
  nonempty := s.nonempty
  text_eq := s.text_eq

/-- What a text with replaced hits begins with, the text began with, or it reaches into what
replaces a hit. -/
theorem Scanned.prefix_replace (s : Scanned p b l n t ps) (e : Piece.replace f ps = w ++ v) :
    (∃ v', t = w ++ v') ∨ ∃ x y h ps', w = x ++ y ∧ Crossing p f b x y v h ps' := by
  induction s generalizing w with
  | nil =>
    obtain ⟨rfl, -⟩ := List.append_eq_nil_iff.mp e.symm
    exact .inl ⟨[], rfl⟩
  | @plain b l n c t ps unread rest ih =>
    cases w with
    | nil => exact .inl ⟨_, rfl⟩
    | cons d w =>
      rw [Piece.replace_plain, List.cons_append, List.cons.injEq] at e
      obtain ⟨rfl, e⟩ := e
      obtain ⟨v', rfl⟩ | ⟨x, y, h, ps', rfl, hcross⟩ := ih e
      · exact .inl ⟨v', rfl⟩
      · exact .inr ⟨c :: x, y, h, ps', rfl, hcross.cons⟩
  | @hit b l n u t ps covers read rest ih =>
    by_cases hw : w = []
    · exact .inl ⟨_, by rw [hw, List.nil_append]⟩
    · exact .inr ⟨[], w, ⟨n, l, u⟩, ps, rfl, ⟨t, _, _, read, rest⟩, hw, e.symm⟩

/-- **In a text with replaced hits, a word stands apart from what replaces them, begins inside of it
or reaches into it.** -/
theorem Scanned.standing (s : Scanned p b l n t ps) (nonempty : w ≠ [])
    (e : Piece.replace f ps = a ++ (w ++ v)) : Standing p f b t a w v := by
  induction s generalizing a with
  | nil =>
    have hnil := (List.append_eq_nil_iff.mp (List.append_eq_nil_iff.mp e.symm).2).1
    exact absurd hnil nonempty
  | @plain b l n c t ps unread rest ih =>
    cases a with
    | nil =>
      obtain ⟨d, w, rfl⟩ := List.exists_cons_of_ne_nil nonempty
      rw [Piece.replace_plain, List.nil_append, List.cons_append, List.cons.injEq] at e
      obtain ⟨rfl, e⟩ := e
      obtain ⟨v', rfl⟩ | ⟨x, y, h, ps', rfl, hcross⟩ := rest.prefix_replace e
      · exact .apart (d := []) rfl unread (.inl rfl)
      · exact .across rfl (List.cons_ne_nil c x) hcross.cons
    | cons d a =>
      rw [Piece.replace_plain, List.cons_append, List.cons.injEq] at e
      obtain ⟨rfl, e⟩ := e
      cases ih e with
      | apart text_eq unread' before =>
        rw [← getLast?_cons_or c _ b] at unread' before
        rw [← getLast?_cons_or c a b] at before
        exact .apart (congrArg (c :: ·) text_eq) unread' before
      | inside behind cut nonempty text_eq => exact .inside behind cut nonempty text_eq
      | across cut front crossing => exact .across cut front crossing
  | @hit b l n u t ps covers read rest ih =>
    have hbehind : Behind p b ⟨n, l, u⟩ ps := ⟨t, _, _, read, rest⟩
    -- a place behind what replaces the hit is one behind the hit
    have hpast : ∀ a', a = f ⟨n, l, u⟩ ++ a' → Piece.replace f ps = a' ++ (w ++ v) →
        Standing p f b (u ++ t) a w v := by
      rintro a' rfl e
      cases ih e with
      | @apart d _ text_eq unread' before =>
        obtain ⟨last, hlast⟩ := Option.isSome_iff_exists.mp (List.getLast?_isSome.mpr covers)
        have hfront : (u ++ d).getLast?.or b = d.getLast?.or u.getLast? := by
          rw [List.getLast?_append, hlast, Option.or_assoc, Option.some_or]
        refine .apart (d := u ++ d) (by rw [text_eq, List.append_assoc]) ?_ ?_
        · rwa [hfront]
        · rw [hfront]
          obtain before | before := before
          · cases hc : a'.getLast? with
            | none => exact .inr ⟨b, _, ps, hbehind, by rw [before, hc, Option.none_or]⟩
            | some c => exact .inl (by rw [before, List.getLast?_append, hc]; rfl)
          · exact .inr before
      | inside behind cut nonempty text_eq => exact .inside behind cut nonempty text_eq
      | across cut front crossing => exact .across cut front crossing
    rw [Piece.replace_hit] at e
    obtain ⟨a', ha, hrest⟩ | ⟨y, hy, hrest⟩ := List.append_eq_append_iff.mp e
    · exact hpast a' ha hrest
    · by_cases hnil : y = []
      · rw [hnil, List.append_nil] at hy
        rw [hnil, List.nil_append] at hrest
        exact hpast [] (by rw [List.append_nil, hy]) hrest.symm
      · exact .inside hbehind hy hnil hrest

end Mend.Text
