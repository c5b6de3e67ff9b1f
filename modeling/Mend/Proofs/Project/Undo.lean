import Mend.Proofs.Project.Backup

/-!
# Undoing writes

* `IntactIn.restore`, `Intact.undo`, `Intact.undoLast`: nothing that is kept changes by undoing.
* `IntactIn.restore_eq`: a file that can be reached is restored to what was kept of it.
* `Intact.undo_eq`: undoing a session restores its file.
* `IntactIn.undoLast_eq`: undoing the latest batch puts back what each of its files held before the
  first write of the batch.
-/

namespace Mend.Project

variable {p q : Project} {S : RawText → Prop} {ks : List Kept} {k : Kept}

/-- What a project is after some of its sources have been restored. -/
def Restored (p q : Project) : Prop :=
  ∃ t, q = { p with tree := t } ∧ p.Spares t ∧ p.KeepsFolders t

namespace Restored

theorem refl (hp : p.Proper) : p.Restored p :=
  ⟨p.tree, rfl, ⟨fun _ _ => rfl, hp.way⟩, .refl p⟩

theorem trans {q' : Project} (h : p.Restored q) (h' : q.Restored q') : p.Restored q' := by
  obtain ⟨t, rfl, hspares, hfolders⟩ := h
  obtain ⟨t', rfl, hspares', hfolders'⟩ := h'
  exact ⟨t', rfl, ⟨fun l hl => (hspares'.keep l hl).trans (hspares.keep l hl), hspares'.way⟩,
    hfolders.trans hfolders'⟩

theorem place_eq (h : p.Restored q) : q.place = p.place := by
  obtain ⟨t, rfl, -⟩ := h
  exact p.place_withTree t

theorem set (hp : p.Proper) {l : Location} (houtside : ¬ p.keep <+: l)
    (hl : p.tree.get? l ≠ some .folder) (bytes : Bytes) :
    p.Restored { p with tree := p.tree.set l (.file bytes) } :=
  ⟨_, rfl, .set hp houtside hl bytes, .set hl bytes⟩

end Restored

/-- A source that is reached is still reached after some sources have been restored. -/
theorem Reaches.restored {file : Path} (h : p.Reaches file) (hfile : p.IsSource file)
    (hq : p.Restored q) : q.Reaches file := by
  obtain ⟨t, rfl, -, hfolders⟩ := hq
  exact h.mono hfile hfolders

/-- Bytes are written to a file that is reached. -/
theorem Reaches.write {file : Path} (h : p.Reaches file) (bytes : Bytes) :
    p.tree.write p.here file bytes = .ok (p.tree.set (p.place file) (.file bytes)) := by
  unfold Tree.write
  rw [h.1]
  exact Tree.writeAt_eq_ok_iff.mpr ⟨h.2, rfl⟩

namespace IntactIn

theorem restored (h : p.IntactIn S ks) (hq : p.Restored q) : q.IntactIn S ks := by
  obtain ⟨t, rfl, hspares, -⟩ := hq
  exact h.spared hspares

/-! ## One file -/

/-- **A backup that is kept holds its bytes**, where its path leads. -/
theorem read_backup (h : p.IntactIn S ks) (hk : k ∈ ks) :
    p.tree.leads p.here k.backup = .ok true ∧ p.tree.read p.here k.backup = .ok k.bytes := by
  have hplace := (h.kept k hk).locate_backup h.proper (h.hasBatch k hk)
  have hheld := h.held k hk
  refine ⟨?_, Tree.read_eq_ok_iff.mpr ⟨_, hplace, Tree.bytesAt_of_file hheld⟩⟩
  unfold Tree.leads
  rw [hplace]
  dsimp only
  rw [hheld]
  rfl

/-- A copy of a backup goes to a place that is not in the folder that is kept: to that of its file,
or, if a folder is there, right into that folder. -/
theorem outside_of_copyTarget (h : p.IntactIn S ks) (hk : k ∈ ks) {l : Location}
    (hl : p.tree.locate p.here (p.tree.copyTarget p.here k.backup k.file) = .ok l) :
    ¬ p.keep <+: l := by
  obtain ⟨hstamp, ⟨name, hname, hbackup, base, hbase⟩, hsource⟩ := h.kept k hk
  have hlast : k.backup.names.getLast? = some name := by
    rw [hbackup, names_batchPath]
    simp
  unfold Tree.copyTarget at hl
  split at hl
  · rw [hlast, Option.toList_some, Path.join_names] at hl
    obtain ⟨-, -, rfl⟩ := locate_eq_ok_iff.mp hl
    have hplace : p.place { k.file with names := k.file.names ++ [name] } =
        Tree.next (p.place k.file) name :=
      Tree.place_append _ k.file.names [name]
    rw [hplace, Tree.next_eq hname.ne_around, hbase, List.prefix_concat_iff, not_or]
    refine ⟨fun heq => ?_, hsource.outside⟩
    -- the folder that is kept is not named as backups are
    have hlast := congrArg List.getLast? heq
    unfold keep at hlast
    rw [List.getLast?_concat, List.getLast?_concat, Option.some.injEq] at hlast
    exact Kept.append_ending_ne base (by decide) hlast.symm
  · obtain ⟨-, -, rfl⟩ := locate_eq_ok_iff.mp hl
    exact hsource.outside

/-- Restoring a file changes no more than what is in one place outside of the folder that is
kept. -/
theorem restore (h : p.IntactIn S ks) (hk : k ∈ ks) : p.Restored (p.restore k.saved).2 := by
  obtain ⟨hleads, hread⟩ := h.read_backup hk
  have hfile : p.path.join k.file = k.file := (h.kept k hk).source.settled
  unfold Project.restore leads
  dsimp only [Kept.saved]
  rw [hleads, hfile]
  dsimp only [Except.mapError]
  split
  · exact .refl h.proper
  next t ht =>
  unfold Tree.copy at ht
  dsimp only at ht
  split at ht
  · cases ht
  rw [hread] at ht
  unfold Tree.write at ht
  dsimp only at ht
  split at ht
  · next l hl =>
    obtain ⟨hfolder, rfl⟩ := Tree.writeAt_eq_ok_iff.mp ht
    exact .set h.proper (h.outside_of_copyTarget hk hl) hfolder _
  · cases ht

/-- **A file that can be reached is restored to what was kept of it.** -/
theorem restore_eq (h : p.IntactIn S ks) (hk : k ∈ ks) (hreach : p.Reaches k.file) :
    ∃ w, w.success = true ∧ p.restore k.saved =
      (.ok w, { p with tree := p.tree.set (p.place k.file) (.file k.bytes) }) := by
  obtain ⟨hleads, hread⟩ := h.read_backup hk
  have hproper := h.kept k hk
  have hfile : p.path.join k.file = k.file := hproper.source.settled
  have htarget : p.tree.copyTarget p.here k.backup k.file = k.file := by
    unfold Tree.copyTarget Tree.find?
    rw [hreach.1]
    dsimp only
    split
    · next hfolder => exact absurd hfolder hreach.2
    · rfl
  have hsame : p.tree.isSame p.here k.backup k.file = false := by
    unfold Tree.isSame
    rw [hproper.locate_backup h.proper (h.hasBatch k hk), hreach.1]
    have hne := hproper.place_ne_target hproper h.proper
    simp [hne]
  have hcopy : p.tree.copy p.here k.backup k.file =
      .ok (p.tree.set (p.place k.file) (.file k.bytes)) := by
    unfold Tree.copy
    dsimp only
    rw [htarget, hsame, hread]
    exact hreach.write k.bytes
  unfold Project.restore leads
  dsimp only [Kept.saved]
  rw [hleads, hfile, hcopy]
  exact ⟨_, rfl, rfl⟩

end IntactIn

namespace Intact

theorem restored (h : p.Intact ks) (hq : p.Restored q) : q.Intact ks :=
  (h.intactIn.restored hq).intact

theorem read_backup (h : p.Intact ks) (hk : k ∈ ks) :
    p.tree.leads p.here k.backup = .ok true ∧ p.tree.read p.here k.backup = .ok k.bytes :=
  h.intactIn.read_backup hk

theorem restore_eq (h : p.Intact ks) (hk : k ∈ ks) (hreach : p.Reaches k.file) :
    ∃ w, w.success = true ∧ p.restore k.saved =
      (.ok w, { p with tree := p.tree.set (p.place k.file) (.file k.bytes) }) :=
  h.intactIn.restore_eq hk hreach

/-! ## One session -/

theorem isFor_saved (k : Kept) (session : String) :
    k.saved.isFor session = true ↔ k.session = session := by
  show (RawText.ofString k.session == RawText.ofString session) = true ↔ _
  rw [beq_iff_eq]
  exact ⟨RawText.ofString_injective, congrArg RawText.ofString⟩

/-- Undoing a session restores one of the backups that are kept, if it changes anything. -/
theorem undo (h : p.Intact ks) (session : String) : p.Restored (p.undo session).2 := by
  unfold Project.undo
  split
  · exact .refl h.proper
  next all hall =>
  split
  · next s hs =>
    obtain ⟨k, hk, rfl⟩ := h.exists_kept_of_saved hall s (List.mem_of_find?_eq_some hs)
    exact h.intactIn.restore hk
  · exact .refl h.proper

/-- **Undoing a session restores its file**, if no other backup is kept for that session. -/
theorem undo_eq (h : p.Intact ks) (hk : k ∈ ks)
    (hunique : ∀ k' ∈ ks, k'.session = k.session → k' = k) :
    p.undo k.session = p.restore k.saved := by
  obtain ⟨all, hall, hlisted⟩ := h.saved hk
  have hfound : all.find? (·.isFor k.session) = some k.saved := by
    obtain ⟨s, hs⟩ : ∃ s, all.find? (·.isFor k.session) = some s := by
      refine Option.isSome_iff_exists.mp (List.find?_isSome.mpr ⟨k.saved, hlisted k hk, ?_⟩)
      exact (isFor_saved k _).mpr rfl
    obtain ⟨k', hk', rfl⟩ := h.exists_kept_of_saved hall s (List.mem_of_find?_eq_some hs)
    have hfor : k'.saved.isFor k.session = true := by simpa using List.find?_some hs
    rw [hs, hunique k' hk' ((isFor_saved k' _).mp hfor)]
  unfold Project.undo
  rw [hall]
  dsimp only
  rw [hfound]

end Intact

/-! ## One batch -/

/-- What is at a location after some files have been restored, the first of them last. -/
def restoredAt (p : Project) (js : List Kept) (l : Location) : Option Entry :=
  match js.find? (p.place ·.file = l) with
  | some k => some (.file k.bytes)
  | none => p.tree.get? l

namespace IntactIn

/-- Restoring files one after the other changes no more than sources. -/
theorem restoreAll (h : p.IntactIn S ks) {js : List Kept} (hjs : js ⊆ ks) :
    p.Restored (p.restoreAll (js.map Kept.saved)).2 := by
  induction js generalizing p with
  | nil => exact .refl h.proper
  | cons k js ih =>
    rw [List.cons_subset] at hjs
    have hone := h.restore hjs.1
    have hrest := ih (h.restored hone) hjs.2
    rw [List.map_cons]
    unfold Project.restoreAll
    generalize p.restore k.saved = answer at hone hrest ⊢
    obtain ⟨e | w, p'⟩ := answer
    · exact hone
    dsimp only at hone hrest ⊢
    generalize p'.restoreAll (js.map Kept.saved) = answer at hrest ⊢
    obtain ⟨e | ws, p''⟩ := answer
    · exact hone.trans hrest
    · exact hone.trans hrest

/-- **Files that can be reached are restored one after the other**: of several backups of a file,
the one that is restored last is what the file holds then. -/
theorem restoreAll_eq (h : p.IntactIn S ks) {js : List Kept} (hjs : js ⊆ ks)
    (hreach : ∀ k ∈ js, p.Reaches k.file) :
    ∃ ws, (p.restoreAll (js.map Kept.saved)).1 = .ok ws ∧ (∀ w ∈ ws, w.success = true) ∧
      ∀ l, (p.restoreAll (js.map Kept.saved)).2.tree.get? l = p.restoredAt js.reverse l := by
  induction js generalizing p with
  | nil => exact ⟨[], rfl, by simp, fun l => rfl⟩
  | cons k js ih =>
    rw [List.cons_subset] at hjs
    rw [List.forall_mem_cons] at hreach
    obtain ⟨w, hw, hrestore⟩ := h.restore_eq hjs.1 hreach.1
    obtain ⟨p', hp'⟩ : ∃ p',
      p' = { p with tree := p.tree.set (p.place k.file) (.file k.bytes) } := ⟨_, rfl⟩
    rw [← hp'] at hrestore
    have hone : p.Restored p' := by
      rw [hp']
      exact .set h.proper (h.kept k hjs.1).source.outside hreach.1.2 _
    obtain ⟨ws, hws, hsuccess, hget⟩ := ih (h.restored hone) hjs.2 fun k' hk' =>
      (hreach.2 k' hk').restored (h.kept k' (hjs.2 hk')).source hone
    rw [List.map_cons]
    unfold Project.restoreAll
    rw [hrestore]
    dsimp only
    generalize p'.restoreAll (js.map Kept.saved) = answer at hws hget ⊢
    obtain ⟨answer, p''⟩ := answer
    obtain rfl : answer = .ok ws := hws
    refine ⟨w :: ws, rfl, by simpa [hw] using hsuccess, fun l => ?_⟩
    refine (hget l).trans ?_
    have hplace : p'.place = p.place := by rw [hp', place_withTree]
    unfold restoredAt
    rw [List.reverse_cons, List.find?_append, hplace]
    cases js.reverse.find? (p.place ·.file = l) with
    | some k' => rfl
    | none =>
      rw [hp', Tree.get?_set]
      by_cases hl : p.place k.file = l <;> simp [hl]

end IntactIn

/-! ## The latest batch -/

/-- The batch with the greatest name. -/
structure Latest (p : Project) (stamp : RawText) : Prop where
  folder : p.tree.get? p.backups = some .folder
  mem : stamp ∈ p.tree.namesIn p.backups
  greatest : ∀ name ∈ p.tree.namesIn p.backups, name.atMost stamp = true

/-- The batch with the greatest name comes first. -/
theorem Latest.batches_eq {stamp : RawText} (h : p.Latest stamp) :
    ∃ rest, p.batches = .ok (stamp :: rest) := by
  obtain ⟨names, hnames⟩ : ∃ names,
    names = (p.tree.namesIn p.backups).mergeSort fun a b => b.atMost a := ⟨_, rfl⟩
  have hbatches : p.batches = .ok names := by
    unfold batches
    rw [h.folder, hnames]
  have hmem : ∀ name, name ∈ names ↔ name ∈ p.tree.namesIn p.backups := by
    intro name
    rw [hnames, List.mem_mergeSort]
  have hsorted : names.Pairwise fun a b => b.atMost a = true := by
    rw [hnames]
    exact List.pairwise_mergeSort (fun a b c hab hbc => RawText.atMost_trans c b a hbc hab)
      (fun a b => RawText.atMost_total b a) _
  rw [hbatches]
  cases names with
  | nil => exact absurd ((hmem stamp).mpr h.mem) List.not_mem_nil
  | cons first rest =>
    have hfirst := h.greatest first ((hmem first).mp List.mem_cons_self)
    refine ⟨rest, ?_⟩
    rcases List.mem_cons.mp ((hmem stamp).mpr h.mem) with heq | hrest
    · rw [heq]
    · rw [RawText.atMost_antisymm hfirst ((List.pairwise_cons.mp hsorted).1 stamp hrest)]

theorem Latest.restored {stamp : RawText} (h : p.Latest stamp) (hq : p.Restored q) :
    q.Latest stamp := by
  obtain ⟨t, rfl, hspares, -⟩ := hq
  have hnames : ∀ name, name ∈ t.namesIn p.backups ↔ name ∈ p.tree.namesIn p.backups := by
    intro name
    have hsame : t.get? (p.backups ++ [name]) = p.tree.get? (p.backups ++ [name]) :=
      hspares.keep _ (p.keep_prefix_batch name)
    rw [Tree.mem_namesIn, Tree.mem_namesIn, hsame]
  refine ⟨?_, (hnames stamp).mpr h.mem, fun name hname => h.greatest name ((hnames name).mp hname)⟩
  exact (hspares.keep _ (List.prefix_append _ _)).trans h.folder

/-- **Undoing the latest batch puts back what each of its files held before the first write of the
batch**, if the files can be reached. -/
theorem IntactIn.undoLast_eq (h : p.IntactIn S ks) {stamp : RawText} (hstamp : S stamp)
    (hlatest : p.Latest stamp) (hreach : ∀ k ∈ ks, k.stamp = stamp → p.Reaches k.file) :
    ∃ ws, p.undoLast.1 = .ok ws ∧ (∀ w ∈ ws, w.success = true) ∧
      ∀ l, p.undoLast.2.tree.get? l = p.restoredAt (ks.filter (·.stamp = stamp)) l := by
  obtain ⟨rest, hbatches⟩ := hlatest.batches_eq
  unfold Project.undoLast
  rw [hbatches]
  dsimp only
  rw [h.savedIn hstamp]
  dsimp only
  rw [← List.map_reverse]
  have hbatch : ∀ k ∈ (ks.filter (·.stamp = stamp)).reverse, k ∈ ks ∧ k.stamp = stamp := by
    intro k hk
    simpa using List.mem_filter.mp (List.mem_reverse.mp hk)
  have hall := h.restoreAll_eq (fun k hk => (hbatch k hk).1) fun k hk =>
    hreach k (hbatch k hk).1 (hbatch k hk).2
  rwa [List.reverse_reverse] at hall

namespace Intact

/-- Undoing the latest batch changes no more than sources. -/
theorem undoLast (h : p.Intact ks) : p.Restored p.undoLast.2 := by
  unfold Project.undoLast
  split
  · exact .refl h.proper
  · exact .refl h.proper
  next latest rest hbatches =>
  rw [h.intactIn.savedIn trivial]
  dsimp only
  rw [← List.map_reverse]
  refine h.intactIn.restoreAll fun k hk => ?_
  exact List.mem_of_mem_filter (List.mem_reverse.mp hk)

theorem undoLast_eq (h : p.Intact ks) {stamp : RawText} (hlatest : p.Latest stamp)
    (hreach : ∀ k ∈ ks, k.stamp = stamp → p.Reaches k.file) :
    ∃ ws, p.undoLast.1 = .ok ws ∧ (∀ w ∈ ws, w.success = true) ∧
      ∀ l, p.undoLast.2.tree.get? l = p.restoredAt (ks.filter (·.stamp = stamp)) l :=
  h.intactIn.undoLast_eq trivial hlatest hreach

end Intact

end Mend.Project
