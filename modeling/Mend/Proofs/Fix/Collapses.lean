import Mend.Proofs.Fix.Quantum
import Mend.Proofs.Text.Seams

/-!
# Corrected superpositions stay corrected

What replaces a superposition that is used again begins with a superposition, and what does, cannot
be reached into, since the name of a superposition begins neither inside itself nor in the calls. So
a superposition that is used again begins with what replaced one before, or has stood apart. Behind
what the first pass puts in no call follows, because it took all of them, and behind what the second
pass puts in a note does.

* `Reused`: a superposition that collapses and is used again with a call.
* `hits_repeatedCollapse_once`: after the first pass, no collapse is repeated.
* `exists_of_noted`: after the second pass, what is used again was used again before it.
* `collapseSuperposition_settles`: what collapses are corrected to needs no correction.
-/

namespace Mend

open Text Reader Idiom

/-! ## Superpositions that are used again -/

namespace Idiom

/-- The calls that a superposition is used again with. -/
def isReuse (call : Text) : Bool := call == "collapse()".toList || call == "measure()".toList

theorem isReuse_collapse : isReuse "collapse()".toList := by decide

theorem isReuse_measure : isReuse "measure()".toList := by decide

/-- A superposition that collapses and is used again with a call. -/
def Reused (call w : Text) : Prop :=
  ∃ first second, w = "superposition".toList ++ (first ++ second) ∧
    IsMember "collapse()".toList first ∧ IsMember call second

theorem Reused.ne_nil {call w : Text} (h : Reused call w) : w ≠ [] := by
  obtain ⟨first, second, rfl, -⟩ := h
  simp

theorem reused_of_repeatedCollapse {b : Option Char} {u v : Text}
    (h : Reads (repeatedCollapse b) u v) :
    ∃ w rest, u = w ++ rest ∧ Reused "collapse()".toList w := by
  obtain ⟨first, second, rest, rfl, hfirst, hsecond, -⟩ := repeatedCollapse_parts h
  exact ⟨_, rest.flatten, by simp, first, second, rfl, hfirst, hsecond⟩

theorem reused_of_measuredCollapse {b : Option Char} {u v : Text}
    (h : Reads (measuredCollapse b) u v) : Reused "measure()".toList u := by
  obtain ⟨first, second, rfl, hfirst, hsecond⟩ := measuredCollapse_parts h
  exact ⟨first, second, rfl, hfirst, hsecond⟩

theorem reads_collapseCall {m : Text} (h : IsMember "collapse()".toList m) (v : Text) :
    Reads collapseCall m v :=
  reads_member h (reads_exactly.mpr rfl) (by simp [isBlank])

/-- A superposition that collapses again is seen wherever it stands. -/
theorem repeatedCollapse_of_reused {w : Text} (h : Reused "collapse()".toList w)
    (b : Option Char) (z : Text) : ∃ m, repeatedCollapse b (w ++ z) = some (m + 1) := by
  obtain ⟨first, second, rfl, hfirst, hsecond⟩ := h
  obtain ⟨n, hn⟩ := Option.isSome_iff_exists.mp (isSome_upTo collapseCall z.length z)
  obtain ⟨rest, v, rfl, -, hrest⟩ := exists_reads (r := repeated collapseCall) hn
  have hread : Reads (repeatedCollapse b) ("superposition".toList ++ (first ++ (second ++ rest)))
      v := by
    simp only [repeatedCollapse, reads_anywhere, reads_seq_cons, reads_exactly, reads_seq_nil]
    exact ⟨_, _, rfl, rfl, first, _, rfl, reads_collapseCall hfirst _, second, _, rfl,
      reads_collapseCall hsecond _, rest, [], by simp, hrest, rfl⟩
  obtain ⟨m, hm⟩ := hread.exists_succ (by simp)
  exact ⟨m, by simpa using hm⟩

/-- A superposition that is measured after it has collapsed is seen wherever it stands. -/
theorem measuredCollapse_of_reused {w : Text} (h : Reused "measure()".toList w)
    (b : Option Char) (z : Text) : ∃ m, measuredCollapse b (w ++ z) = some (m + 1) := by
  obtain ⟨first, second, rfl, hfirst, hsecond⟩ := h
  have hread : Reads (measuredCollapse b) ("superposition".toList ++ (first ++ second)) z := by
    simp only [measuredCollapse, reads_anywhere, reads_seq_cons, reads_exactly, reads_seq_nil]
    exact ⟨_, _, rfl, rfl, first, _, rfl, reads_collapseCall hfirst _, second, [], by simp,
      reads_member hsecond (reads_exactly.mpr rfl) (by simp [isBlank]), rfl⟩
  exact hread.exists_succ (by simp)

/-- What a repeated collapse is read up to is no further collapse. -/
theorem not_isMember_of_repeatedCollapse {b : Option Char} {u v m v' : Text}
    (h : Reads (repeatedCollapse b) u v) (hm : IsMember "collapse()".toList m) : v ≠ m ++ v' := by
  rintro rfl
  simp only [repeatedCollapse, reads_anywhere, reads_seq_cons, reads_exactly, reads_seq_nil] at h
  obtain ⟨_, _, rfl, rfl, first, _, rfl, -, second, _, rfl, -, rest, _, rfl, hrest, rfl⟩ := h
  have hne : m ≠ [] := by
    obtain ⟨g, g', rfl, -⟩ := hm
    simp
  obtain ⟨n, hn⟩ := (reads_collapseCall hm v').exists_succ hne
  exact unread_of_reads_repeated hrest n hn

/-! ### Where a superposition cannot begin -/

/-- No superposition begins in calls of members: their last character is none of it, and it has one
that they do not have. -/
theorem suffix_append_ne {calls y : Text} (hi : 'i' ∉ calls) (hlast : calls.getLast? = some ')')
    (hy : y <:+ calls) (nonempty : y ≠ []) (v v' : Text) :
    y ++ v ≠ "superposition".toList ++ v' := by
  intro e
  obtain ⟨x, rfl⟩ := hy
  rw [List.getLast?_append_of_ne_nil x nonempty] at hlast
  obtain hpre | hpre := List.prefix_or_prefix_of_prefix (List.prefix_append y v)
    (e ▸ List.prefix_append _ v')
  · have hmem : ')' ∈ "superposition".toList := hpre.subset (List.mem_of_getLast? hlast)
    exact absurd hmem (by decide)
  · exact hi (List.mem_append_right x (hpre.subset (by decide)))

theorem IsMember.calls {call m : Text} (h : IsMember call m) (hcall : isReuse call) :
    'i' ∉ m ∧ m.getLast? = some ')' := by
  have hparts : 'i' ∉ call ∧ call.getLast? = some ')' := by
    rw [isReuse, Bool.or_eq_true, beq_iff_eq, beq_iff_eq] at hcall
    obtain rfl | rfl := hcall <;> decide
  refine ⟨h.not_mem (by decide) hparts.1, ?_⟩
  obtain ⟨g, g', rfl, -⟩ := h
  have hlast : (g ++ '.' :: g' ++ call).getLast? = some ')' := by
    rw [List.getLast?_append, hparts.2, Option.some_or]
  simpa using hlast

variable {call w : Text}

/-- A superposition that is used again does not reach into another one. -/
theorem Reused.append_ne (h : Reused call w) (hcall : isReuse call) {x y : Text}
    (cut : w = x ++ y) (front : x ≠ []) (nonempty : y ≠ []) (v v' : Text) :
    y ++ v ≠ "superposition".toList ++ v' := by
  obtain ⟨first, second, rfl, hfirst, hsecond⟩ := h
  obtain ⟨hi, -⟩ := hfirst.calls isReuse_collapse
  obtain ⟨hi', hlast⟩ := hsecond.calls hcall
  have hcalls : ∀ y, y <:+ first ++ second → y ≠ [] → y ++ v ≠ "superposition".toList ++ v' := by
    intro y hy nonempty
    refine suffix_append_ne (by simp [hi, hi']) ?_ hy nonempty v v'
    rw [List.getLast?_append, hlast, Option.some_or]
  obtain ⟨z, -, hz⟩ | ⟨z, hz, rfl⟩ := List.append_eq_append_iff.mp cut
  · exact hcalls y ⟨z, hz.symm⟩ nonempty
  · by_cases hnil : z = []
    · rw [hnil, List.nil_append] at nonempty ⊢
      exact hcalls _ List.suffix_rfl nonempty
    · have honce : OnlyInFront "superposition".toList "superposition".toList := by decide
      rw [List.append_assoc]
      exact (honce.append_ne hz front hnil _ _).symm

/-- A superposition that is used again begins in a text with its first character or not at all, if
its name does. -/
theorem Reused.append_ne_append (h : Reused call w) {z x y : Text}
    (once : OnlyInFront "superposition".toList z) (cut : z = x ++ y) (front : x ≠ [])
    (nonempty : y ≠ []) (v v' : Text) : w ++ v ≠ y ++ v' := by
  obtain ⟨first, second, rfl, -⟩ := h
  rw [List.append_assoc]
  exact once.append_ne cut front nonempty _ _

/-- The first call of a superposition that is used again is told from the second one. -/
theorem Reused.of_append_eq (h : Reused call w) {v v' : Text}
    (e : w ++ v = "superposition".toList ++ (".collapse()".toList ++ v')) :
    ∃ second, IsMember call second ∧ second ++ v = v' := by
  obtain ⟨first, second, rfl, hfirst, hsecond⟩ := h
  rw [List.append_assoc, List.append_assoc, List.append_cancel_left_eq] at e
  have hdot : IsMember "collapse()".toList ".collapse()".toList :=
    ⟨[], [], by decide, by simp, by simp⟩
  obtain rfl := (reads_collapseCall hfirst _).unique (reads_collapseCall hdot v') e
  exact ⟨second, hsecond, List.append_cancel_left e⟩

end Idiom

namespace Fix

theorem singleCollapse_eq :
    singleCollapse = "superposition".toList ++ ".collapse()".toList := by decide

theorem notedCollapse_eq : notedCollapse = "superposition".toList ++
    (".collapse()".toList ++ " /* already measured during collapse */".toList) := by
  decide +kernel

/-! ### The first pass -/

/-- **After repeated collapses were removed, none is repeated.** -/
theorem hits_repeatedCollapse_once (t : Text) :
    hits repeatedCollapse (replaceHits repeatedCollapse (fun _ => singleCollapse) t) = [] := by
  by_contra hfound
  obtain ⟨a, u, v, e, -, hread⟩ := hits_ne_nil_iff.mp hfound
  obtain ⟨w, rest, rfl, hw⟩ := reused_of_repeatedCollapse hread
  rw [List.append_assoc] at e
  have hsingle : ∀ z, singleCollapse ++ z =
      "superposition".toList ++ (".collapse()".toList ++ z) := by
    intro z
    rw [singleCollapse_eq, List.append_assoc]
  have honce : OnlyInFront "superposition".toList singleCollapse := by decide +kernel
  cases (scanned_scan repeatedCollapse t).standing hw.ne_nil e with
  | @apart d z _ unread _ =>
    obtain ⟨m, hm⟩ := repeatedCollapse_of_reused hw (d.getLast?.or none) z
    exact unread m hm
  | @inside _ _ ps x y behind cut nonempty text_eq =>
    by_cases hx : x = []
    · obtain rfl : singleCollapse = y := by rw [cut, hx, List.nil_append]
      rw [hsingle] at text_eq
      obtain ⟨second, hsecond, hrest⟩ := hw.of_append_eq text_eq
      obtain ⟨v', _, _, hread', hscanned⟩ := behind
      obtain ⟨v'', hv⟩ | ⟨x, y, _, _, hcut, hcross⟩ := hscanned.prefix_replace hrest.symm
      · exact not_isMember_of_repeatedCollapse hread' hsecond hv
      · obtain ⟨hi, hlast⟩ := hsecond.calls isReuse_collapse
        exact suffix_append_ne hi hlast ⟨x, hcut.symm⟩ hcross.nonempty _ _
          (hcross.text_eq.trans (hsingle _))
    · exact hw.append_ne_append honce cut hx nonempty _ _ text_eq
  | across cut front crossing =>
    exact hw.append_ne isReuse_collapse cut front crossing.nonempty _ _
      (crossing.text_eq.trans (hsingle _))

/-! ### The second pass -/

/-- **A superposition that is used again stands apart from every note**, where it stood before. -/
theorem exists_of_noted {call w t a v : Text} (hw : Reused call w) (hcall : isReuse call)
    (e : replaceHits measuredCollapse (fun _ => notedCollapse) t = a ++ (w ++ v)) :
    ∃ d z b, t = d ++ (w ++ z) ∧ ∀ m, measuredCollapse b (w ++ z) ≠ some (m + 1) := by
  have hnoted : ∀ z, notedCollapse ++ z = "superposition".toList ++ (".collapse()".toList ++
      (" /* already measured during collapse */".toList ++ z)) := by
    intro z
    rw [notedCollapse_eq, List.append_assoc, List.append_assoc]
  have honce : OnlyInFront "superposition".toList notedCollapse := by decide +kernel
  cases (scanned_scan measuredCollapse t).standing hw.ne_nil e with
  | apart text_eq unread _ => exact ⟨_, _, _, text_eq, unread⟩
  | @inside _ _ ps x y _ cut nonempty text_eq =>
    exfalso
    by_cases hx : x = []
    · obtain rfl : notedCollapse = y := by rw [cut, hx, List.nil_append]
      rw [hnoted] at text_eq
      -- a note begins where the second call would
      obtain ⟨_, ⟨g, g', rfl, hg, -⟩, hrest⟩ := hw.of_append_eq text_eq
      have hclash : Clash (g ++ '.' :: (g' ++ call))
          " /* already measured during collapse */".toList :=
        Clash.of_blanks hg (by decide) (by decide) (.of_ne (by decide) _ _)
      exact hclash _ _ hrest
    · exact hw.append_ne_append honce cut hx nonempty _ _ text_eq
  | across cut front crossing =>
    exact absurd (crossing.text_eq.trans (hnoted _))
      (hw.append_ne hcall cut front crossing.nonempty _ _)

/-- **After measurements were noted, none follows a collapse.** -/
theorem hits_measuredCollapse_noted (t : Text) :
    hits measuredCollapse (replaceHits measuredCollapse (fun _ => notedCollapse) t) = [] := by
  by_contra hfound
  obtain ⟨a, w, v, e, -, hread⟩ := hits_ne_nil_iff.mp hfound
  have hw := reused_of_measuredCollapse hread
  obtain ⟨d, z, b, -, unread⟩ := exists_of_noted hw isReuse_measure e
  obtain ⟨m, hm⟩ := measuredCollapse_of_reused hw b z
  exact unread m hm

/-- Notes on measurements bring in no repeated collapse. -/
theorem hits_repeatedCollapse_noted {t : Text} (h : hits repeatedCollapse t = []) :
    hits repeatedCollapse (replaceHits measuredCollapse (fun _ => notedCollapse) t) = [] := by
  by_contra hfound
  obtain ⟨a, u, v, e, -, hread⟩ := hits_ne_nil_iff.mp hfound
  obtain ⟨w, rest, rfl, hw⟩ := reused_of_repeatedCollapse hread
  rw [List.append_assoc] at e
  obtain ⟨d, z, -, rfl, -⟩ := exists_of_noted hw isReuse_collapse e
  obtain ⟨m, hm⟩ := repeatedCollapse_of_reused hw d.getLast? z
  obtain ⟨u', v', e', hlen, hread'⟩ := exists_reads hm
  refine hits_ne_nil_iff.mpr ⟨d, u', v', by rw [e'], ?_, hread'⟩ h
  exact List.ne_nil_of_length_eq_add_one hlen

/-- A text without either misuse is left as it is. -/
theorem collapseSuperposition_idle {t : Text} (i : Issue) (hrepeated : hits repeatedCollapse t = [])
    (hmeasured : hits measuredCollapse t = []) : (collapseSuperposition t i).success = false := by
  rw [collapseSuperposition, replaceHits_of_hits_eq_nil hrepeated, uniformChanges, uniformChanges,
    hrepeated, hmeasured]
  rfl

theorem fixed_collapseSuperposition {t : Text} {i : Issue}
    (success : (collapseSuperposition t i).success) : (collapseSuperposition t i).fixed =
      replaceHits measuredCollapse (fun _ => notedCollapse)
        (replaceHits repeatedCollapse (fun _ => singleCollapse) t) := by
  rw [collapseSuperposition] at success ⊢
  split at success
  · cases success
  · next h =>
    rw [if_neg h]

/-- **What collapses are corrected to needs no correction.** -/
theorem collapseSuperposition_settles {t : Text} {i : Issue}
    (success : (collapseSuperposition t i).success) (i' : Issue) :
    (collapseSuperposition (collapseSuperposition t i).fixed i').success = false := by
  rw [fixed_collapseSuperposition success]
  exact collapseSuperposition_idle i' (hits_repeatedCollapse_noted (hits_repeatedCollapse_once t))
    (hits_measuredCollapse_noted _)

end Fix

end Mend
