import Mend.Command.Basic
import Mend.Proofs.Project.Intact

/-!
# Opening a project

* `Founded`, `Grows`, `Brings`: what may come anew where commands are run.
* `Untouched`: whatever can be read in a project reads the same, and the same rows are saved.
* `prepare_untouched`, `openWithSettings_untouched`: to open a project is to leave it untouched,
  also if that fails.
* `saveStore_brings`: saving what was learned changes nothing but what is kept about the project.
-/

namespace Mend.Project

variable {p q : Project} {S : RawText → Prop} {t t' : Tree}

theorem keep_prefix_database (p : Project) : p.keep <+: p.database := List.prefix_append _ _

theorem keep_ne_database (p : Project) : p.keep ≠ p.database := by simp [database]

/-! ## What comes anew -/

/-- Where something may come anew: the folder that is kept about a project, the database, the folder
for the batches, and what is in the batches with some names. -/
def Founded (p : Project) (S : RawText → Prop) (l : Location) : Prop :=
  l = p.keep ∨ l = p.database ∨ l = p.backups ∨ ∃ stamp, S stamp ∧ p.batch stamp <+: l

theorem Founded.below_keep {l : Location} (h : p.Founded S l) : p.keep <+: l := by
  rcases h with rfl | rfl | rfl | ⟨stamp, -, hl⟩
  · exact List.prefix_refl _
  · exact p.keep_prefix_database
  · exact List.prefix_append _ _
  · exact (p.keep_prefix_batch stamp).trans hl

theorem Founded.mono {l : Location} (h : p.Founded S l) {S' : RawText → Prop}
    (hS : ∀ stamp, S stamp → S' stamp) : p.Founded S' l :=
  h.imp_right fun h => h.imp_right fun h => h.imp_right fun ⟨stamp, hstamp, hl⟩ =>
    ⟨stamp, hS stamp hstamp, hl⟩

/-- A tree in which no folder of a project is gone, and nothing has come but what is kept about the
project, with batches of some names. -/
structure Grows (p : Project) (S : RawText → Prop) (t : Tree) : Prop where
  folders : ∀ l, p.tree.get? l = some .folder → t.get? l = some .folder
  founded : ∀ l, p.tree.get? l = none → t.get? l ≠ none → p.Founded S l

namespace Grows

theorem refl (p : Project) (S : RawText → Prop) : p.Grows S p.tree :=
  ⟨fun _ h => h, fun _ hnone hsome => absurd hnone hsome⟩

theorem trans (h : p.Grows S t) (h' : { p with tree := t }.Grows S t') : p.Grows S t' where
  folders := fun l hl => h'.folders l (h.folders l hl)
  founded := fun l hnone hsome => by
    by_cases ht : t.get? l = none
    · exact h'.founded l ht hsome
    · exact h.founded l hnone ht

theorem mono (h : p.Grows S t) {S' : RawText → Prop} (hS : ∀ stamp, S stamp → S' stamp) :
    p.Grows S' t :=
  ⟨h.folders, fun l hnone hsome => (h.founded l hnone hsome).mono hS⟩

end Grows

/-- A tree that has grown only in the folder that is kept about a project. -/
structure Brings (p : Project) (S : RawText → Prop) (t : Tree) : Prop extends p.Grows S t where
  outside : ∀ l, ¬ p.keep <+: l → t.get? l = p.tree.get? l

namespace Brings

theorem refl (p : Project) (S : RawText → Prop) : p.Brings S p.tree := ⟨.refl p S, fun _ _ => rfl⟩

theorem trans (h : p.Brings S t) (h' : { p with tree := t }.Brings S t') : p.Brings S t' where
  toGrows := h.toGrows.trans h'.toGrows
  outside := fun l hl => (h'.outside l hl).trans (h.outside l hl)

theorem adds (h : p.Brings S t) : p.Adds t := ⟨h.outside, h.folders⟩

/-- An entry that is put into the folder that is kept, where no folder is, and where something may
come or something is. -/
theorem set {l : Location} (hfounded : p.Founded S l) (hl : p.tree.get? l ≠ some .folder)
    (e : Entry) : p.Brings S (p.tree.set l e) where
  folders := (Adds.set hfounded.below_keep hl e).folders
  outside := (Adds.set hfounded.below_keep hl e).outside
  founded := fun k hnone hsome => by
    by_cases hk : l = k
    · exact hk ▸ hfounded
    · rw [Tree.get?_set_of_ne hk] at hsome
      exact absurd hnone hsome

end Brings

/-! ## What leaves a project untouched -/

/-- A tree that differs from that of a project only in the folder that is kept about it, where files
hold the same bytes and the same rows are saved. -/
structure Untouched (p : Project) (t : Tree) : Prop extends p.Brings (fun _ => False) t where
  bytes : ∀ {l b}, p.tree.bytesAt l = .ok b → t.bytesAt l = .ok b
  rows : { p with tree := t }.savedRows = p.savedRows

namespace Untouched

theorem refl (p : Project) : p.Untouched p.tree := ⟨.refl p _, fun h => h, rfl⟩

theorem trans (h : p.Untouched t) (h' : { p with tree := t }.Untouched t') : p.Untouched t' where
  toBrings := h.toBrings.trans h'.toBrings
  bytes := fun hl => h'.bytes (h.bytes hl)
  rows := h'.rows.trans h.rows

/-- **What can be read in a project reads the same.** -/
theorem read (h : p.Untouched t) {file : Path} {b : Bytes} (hb : p.read file = .ok b) :
    { p with tree := t }.read file = .ok b := by
  rw [read_eq_ok_iff] at hb ⊢
  exact Tree.read_mono hb h.folders fun l hl => h.bytes hl

/-- An entry that is put into the folder that is kept, where nothing can be read that would not read
the same. -/
theorem set {l : Location} {e : Entry} (hfounded : p.Founded (fun _ => False) l)
    (hbytes : ∀ b, p.tree.bytesAt l = .ok b → (p.tree.set l e).bytesAt l = .ok b)
    (hfolder : p.tree.get? l ≠ some .folder)
    (hrows : { p with tree := p.tree.set l e }.savedRows = p.savedRows) :
    p.Untouched (p.tree.set l e) where
  toBrings := .set hfounded hfolder e
  bytes := fun {k b} hb => by
    by_cases hk : l = k
    · obtain rfl := hk
      exact hbytes b hb
    · rwa [Tree.bytesAt_congr (Tree.get?_set_of_ne hk e)]
  rows := hrows

end Untouched

/-- Making sure that there is the folder for what is kept leaves a project untouched. -/
theorem prepare_untouched (h : p.prepare = .ok q) :
    ∃ t, q = { p with tree := t } ∧ p.Untouched t := by
  unfold prepare at h
  split at h
  · next hnone =>
    obtain rfl := Except.ok.inj h
    refine ⟨_, rfl, .set (.inl rfl) (fun b hb => ?_) (by simp [hnone]) ?_⟩
    · exact absurd hnone (Tree.ne_none_of_bytesAt hb)
    · have hdatabase : (p.tree.set p.keep .folder).get? p.database = p.tree.get? p.database :=
        Tree.get?_set_of_ne p.keep_ne_database _
      unfold savedRows
      dsimp only [database, keep] at hdatabase ⊢
      rw [hdatabase]
  · obtain rfl := Except.ok.inj h
    exact ⟨p.tree, rfl, .refl p⟩
  · cases h

/-- A database that holds the rows that are saved leaves a project untouched. -/
theorem untouched_setDatabase {rows : List Row} (h : p.savedRows = .ok rows) :
    p.Untouched (p.tree.set p.database (.database rows)) := by
  have hrows : { p with tree := p.tree.set p.database (.database rows) }.savedRows =
      p.savedRows := by
    have hdatabase := Tree.get?_set_self p.tree p.database (.database rows)
    rw [h]
    unfold savedRows
    dsimp only [database, keep] at hdatabase ⊢
    rw [hdatabase]
  refine .set (.inr (.inl rfl)) (fun b hb => ?_) (fun hfolder => ?_) hrows
  · unfold savedRows at h
    unfold Tree.bytesAt at hb ⊢
    rw [Tree.get?_set_self]
    split at h <;> simp_all
  · unfold savedRows at h
    rw [hfolder] at h
    cases h

/-- Opening the store of a project leaves the project untouched, and if that succeeds there is a
database to save to. -/
theorem openStore_untouched (p : Project) :
    ∃ t, p.openStore.2 = { p with tree := t } ∧ p.Untouched t ∧
      ∀ s, p.openStore.1 = .ok s → t.get? p.database ≠ some .folder := by
  unfold openStore
  split
  · exact ⟨p.tree, rfl, .refl p, by simp⟩
  next q hq =>
  obtain ⟨t, rfl, ht⟩ := prepare_untouched hq
  split
  · exact ⟨t, rfl, ht, by simp⟩
  next rows hrows =>
  have hset := ht.trans (untouched_setDatabase hrows)
  have hdatabase : (t.set p.database (.database rows)).get? p.database ≠ some .folder := by
    simp [Tree.get?_set_self]
  dsimp only
  split
  · exact ⟨_, rfl, hset, by simp⟩
  · exact ⟨_, rfl, hset, fun _ _ => hdatabase⟩

/-- **To open a project is to leave it untouched**, also if that fails. -/
theorem openWithSettings_untouched (p : Project) :
    ∃ t, p.openWithSettings.2 = { p with tree := t } ∧ p.Untouched t ∧
      ∀ o, p.openWithSettings.1 = .ok o → o.store.saved.isSome = true →
        t.get? p.database ≠ some .folder := by
  unfold openWithSettings
  split
  · exact ⟨p.tree, rfl, .refl p, by simp⟩
  split
  · obtain ⟨t, ht, huntouched, hdatabase⟩ := p.openStore_untouched
    split
    · next hopen =>
      rw [hopen] at ht
      exact ⟨t, ht, huntouched, by simp⟩
    · next hopen =>
      rw [hopen] at ht hdatabase
      exact ⟨t, ht, huntouched, fun _ _ _ => hdatabase _ rfl⟩
  · refine ⟨p.tree, rfl, .refl p, fun o ho hsaved => ?_⟩
    rw [← Except.ok.inj ho] at hsaved
    cases hsaved

/-- Saving what was learned changes nothing but what is kept about the project. -/
theorem saveStore_brings {s : Store}
    (h : s.saved.isSome = true → p.tree.get? p.database ≠ some .folder) :
    ∃ t, p.saveStore s = { p with tree := t } ∧ p.Brings (fun _ => False) t := by
  unfold saveStore
  split
  · exact ⟨p.tree, rfl, .refl p _⟩
  · next rows hrows => exact ⟨_, rfl, .set (.inr (.inl rfl)) (h (by simp [hrows])) _⟩

end Mend.Project
