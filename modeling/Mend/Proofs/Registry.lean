import Mend.Catalog

/-!
# Registries that were built by registering

* `Registry.Built`: a registry that comes about by registering strategies, one after the other.
* `Registry.Built.sound`: no two strategies of such a registry share an identifier, every strategy
  listed for a rule is registered, and every confidence lies between 0 and 1.
* `Registry.built_standard`: the registry that comes with the program is one of them.
* `Registry.Sound.get?_id`: a registered strategy is found by its identifier.
-/

namespace Mend.Registry

variable {κ : Type}

/-- What holds of a registry after every registration. -/
structure Sound [Confidence κ] (r : Registry κ) : Prop where
  /-- No identifier is taken twice. -/
  distinct : (r.strategies.map (·.id)).Nodup
  mem_of_listed : ∀ {rule : String} {s : Strategy κ}, s ∈ r.forRule rule → s ∈ r.strategies
  range : ∀ {s : Strategy κ}, s ∈ r.strategies → 0.0 ≤ s.confidence ∧ s.confidence ≤ 1.0

/-- What is listed for a rule after a strategy was put behind those of a rule. -/
theorem lookup_index (s : Strategy κ) (name rule : String)
    (listed : List (String × List (Strategy κ))) :
    (index s name listed).lookup rule =
      if rule = name then some ((listed.lookup rule).getD [] ++ [s]) else listed.lookup rule := by
  induction listed with
  | nil =>
    by_cases hrule : rule = name
    · simp [index, hrule]
    · simp [index, List.lookup_cons, beq_false_of_ne hrule, hrule]
  | cons row rest ih =>
    obtain ⟨first, ss⟩ := row
    by_cases hrule : rule = first
    · by_cases hname : first = name
      · simp [index, hrule, hname]
      · simp [index, hrule, hname]
    · by_cases hname : first = name
      · subst hname
        simp [index, List.lookup_cons, beq_false_of_ne hrule, hrule]
      · simp [index, List.lookup_cons, beq_false_of_ne hrule, hname, ih]

theorem mem_of_mem_lookup_foldl_index {s x : Strategy κ} {rule : String} {names : List String} :
    ∀ {listed : List (String × List (Strategy κ))},
      x ∈ ((names.foldl (fun listed name => index s name listed) listed).lookup rule).getD [] →
        x = s ∨ x ∈ (listed.lookup rule).getD [] := by
  induction names with
  | nil => exact .inr
  | cons name names ih =>
    intro listed h
    rcases ih h with h | h
    · exact .inl h
    · rw [lookup_index] at h
      split at h
      · rw [Option.getD_some, List.mem_append, List.mem_singleton] at h
        exact h.symm
      · exact .inr h

variable [Confidence κ]

theorem sound_empty : Sound (empty : Registry κ) where
  distinct := List.nodup_nil
  mem_of_listed h := absurd h List.not_mem_nil
  range h := absurd h List.not_mem_nil

/-- **A registration keeps a registry sound.** -/
theorem Sound.register {r r' : Registry κ} {s : Strategy κ} (h : r.Sound)
    (hr : r.register s = .ok r') : r'.Sound := by
  unfold Registry.register at hr
  split at hr
  · cases hr
  · next hnew =>
    split at hr
    · next hrange =>
      cases hr
      have hfresh : ∀ x ∈ r.strategies, x.id ≠ s.id := by
        intro x hx hid
        exact hnew (List.any_eq_true.mpr ⟨x, hx, beq_iff_eq.mpr hid⟩)
      constructor
      · simp only [List.map_append, List.map_cons, List.map_nil]
        rw [List.nodup_append]
        refine ⟨h.distinct, by simp, ?_⟩
        intro id hid id' hid'
        obtain ⟨x, hx, rfl⟩ := List.mem_map.mp hid
        obtain rfl := List.mem_singleton.mp hid'
        exact hfresh x hx
      · intro rule x hx
        rw [List.mem_append, List.mem_singleton]
        rcases mem_of_mem_lookup_foldl_index hx with rfl | hx
        · exact .inr rfl
        · exact .inl (h.mem_of_listed hx)
      · intro x hx
        rcases List.mem_append.mp hx with hx | hx
        · exact h.range hx
        · obtain rfl := List.mem_singleton.mp hx
          exact hrange
    · cases hr

theorem Sound.foldlM {ss : List (Strategy κ)} : ∀ {r r' : Registry κ}, r.Sound →
    ss.foldlM Registry.register r = .ok r' → r'.Sound := by
  induction ss with
  | nil =>
    intro r r' h hr
    cases hr
    exact h
  | cons s ss ih =>
    intro r r' h hr
    rw [List.foldlM_cons] at hr
    cases hs : r.register s with
    | error e =>
      rw [hs] at hr
      cases hr
    | ok r₁ =>
      rw [hs] at hr
      exact ih (h.register hs) hr

/-- A registry that comes about by registering strategies one after the other. -/
def Built (r : Registry κ) : Prop := ∃ ss, ofList? ss = .ok r

theorem Built.sound {r : Registry κ} (h : r.Built) : r.Sound := by
  obtain ⟨ss, hss⟩ := h
  exact sound_empty.foldlM hss

theorem Built.register {r r' : Registry κ} {s : Strategy κ} (h : r.Built)
    (hr : r.register s = .ok r') : r'.Built := by
  obtain ⟨ss, hss⟩ := h
  refine ⟨ss ++ [s], ?_⟩
  rw [ofList?] at hss ⊢
  rw [List.foldlM_append, hss]
  show [s].foldlM Registry.register r = .ok r'
  rw [List.foldlM_cons, hr]
  rfl

/-- Strategies that are refused may be passed over. -/
theorem Built.foldl {r : Registry κ} (h : r.Built) (ss : List (Strategy κ)) :
    (ss.foldl (fun r s => (r.register s).toOption.getD r) r).Built := by
  induction ss generalizing r with
  | nil => exact h
  | cons s ss ih =>
    rw [List.foldl_cons]
    apply ih
    cases hs : r.register s with
    | error e => exact h
    | ok r' => exact h.register hs

theorem built_standard : (standard : Registry κ).Built := Built.foldl ⟨[], rfl⟩ Strategy.catalog

/-- A registered strategy is found by its identifier. -/
theorem Sound.get?_id {r : Registry κ} (h : r.Sound) {s : Strategy κ} (hs : s ∈ r.strategies) :
    r.get? s.id = some s := by
  have hdistinct := h.distinct
  unfold get?
  generalize r.strategies = ss at hs hdistinct
  induction ss with
  | nil => exact absurd hs List.not_mem_nil
  | cons x ss ih =>
    rw [List.map_cons, List.nodup_cons] at hdistinct
    rcases List.mem_cons.mp hs with rfl | hs
    · rw [List.find?_cons_of_pos (by simp)]
    · have hne : x.id ≠ s.id := fun hid => hdistinct.1 (List.mem_map.mpr ⟨s, hs, hid.symm⟩)
      rw [List.find?_cons_of_neg (by simpa using hne)]
      exact ih hs hdistinct.2

/-! ## The strategies that come with the program -/

theorem mem_of_mem_foldl_register {s : Strategy κ} {ss : List (Strategy κ)} {r : Registry κ}
    (h : s ∈ (ss.foldl (fun r s => (r.register s).toOption.getD r) r).strategies) :
    s ∈ r.strategies ∨ s ∈ ss := by
  induction ss generalizing r with
  | nil => exact .inl h
  | cons x ss ih =>
    obtain h | h := ih h
    · dsimp only at h
      cases hx : r.register x with
      | error e =>
        rw [hx] at h
        exact .inl h
      | ok r' =>
        rw [hx] at h
        unfold register at hx
        split at hx
        · cases hx
        · split at hx
          · cases hx
            obtain h | h := List.mem_append.mp h
            · exact .inl h
            · obtain rfl := List.mem_singleton.mp h
              exact .inr List.mem_cons_self
          · cases hx
    · exact .inr (List.mem_cons_of_mem x h)

/-- What is registered from the start is in the catalog. -/
theorem mem_catalog {s : Strategy κ} (h : s ∈ (standard : Registry κ).strategies) :
    s ∈ Strategy.catalog :=
  (mem_of_mem_foldl_register h).resolve_left List.not_mem_nil

/-- Strategies that come with the program run the transforms that come with it. -/
theorem exists_kind {s : Strategy κ} (h : s ∈ (standard : Registry κ).strategies) :
    ∃ k : TransformKind, s.transform = k.transform := by
  have hall : ∀ s ∈ (Strategy.catalog : List (Strategy κ)),
      ∃ k : TransformKind, s.transform = k.transform := by
    simp only [Strategy.catalog, List.forall_mem_cons, Strategy.builtin]
    exact ⟨⟨_, rfl⟩, ⟨_, rfl⟩, ⟨_, rfl⟩, ⟨_, rfl⟩, ⟨_, rfl⟩, ⟨_, rfl⟩, ⟨_, rfl⟩, ⟨_, rfl⟩, ⟨_, rfl⟩,
      ⟨_, rfl⟩, by simp⟩
  exact hall s (mem_catalog h)

end Mend.Registry
