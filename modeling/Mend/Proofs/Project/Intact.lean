import Mend.Project.Undo
import Mend.Proofs.Project.Kept

/-!
# Intact projects

* `Intact`: a project in which some backups are kept: they are all listed, nothing else is, and
  each holds its bytes.
* `IntactIn`: the same where only the manifests of some batches are looked at.
* `Intact.saved`: the backups that an intact project lists are those that are kept.
* `IntactIn.spared`: a project stays intact whatever happens outside the folder that is kept about
  it.
* `KeepsFolders`: no folder goes, and none comes outside of the folder that is kept.
-/

namespace Mend

namespace Project

theorem read_eq_ok_iff {p : Project} {file : Path} {bytes : Bytes} {disk : Disk} :
    p.read file disk = .ok bytes ↔ p.tree.read p.here file disk = .ok bytes := by
  unfold Project.read
  cases p.tree.read p.here file disk <;> simp [Except.mapError]

theorem read_of_disk {p : Project} {file : Path} {bytes : Bytes} {disk : Disk}
    (h : p.read file disk = .ok bytes) : p.read file = .ok bytes :=
  read_eq_ok_iff.mpr (Tree.read_of_disk (read_eq_ok_iff.mp h))

theorem readSource_eq_ok_iff {p : Project} {file : Path} {t : Text} :
    p.readSource file = .ok t ↔ ∃ bytes, p.read file = .ok bytes ∧ readText bytes = t := by
  unfold readSource
  cases p.read file <;> simp [Except.map]

/-- The location of the manifest of a batch. -/
def manifest (p : Project) (stamp : RawText) : Location := p.batch stamp ++ [Manifest.fileName]

@[simp] theorem batch_withTree (p : Project) (t : Tree) : { p with tree := t }.batch = p.batch := rfl

@[simp] theorem manifest_withTree (p : Project) (t : Tree) :
    { p with tree := t }.manifest = p.manifest := rfl

theorem keep_prefix_manifest (p : Project) (stamp : RawText) : p.keep <+: p.manifest stamp :=
  (p.keep_prefix_batch stamp).trans (List.prefix_append _ _)

theorem manifest_injective {p : Project} {stamp stamp' : RawText}
    (h : p.manifest stamp = p.manifest stamp') : stamp = stamp' := by
  unfold manifest batch at h
  rw [List.append_assoc, List.append_assoc] at h
  exact (List.cons.inj (List.append_cancel_left h)).1

end Project

/-- What is at a location is the manifest of some backups, and of nothing else; there need be none
if there is nothing to list. -/
def Tree.Lists (t : Tree) (l : Location) (ks : List Kept) : Prop :=
  t.get? l = none ∧ ks = [] ∨
    ∃ bytes, t.get? l = some (.file bytes) ∧
      Manifest.jsonOf bytes = .ok (.list (ks.map Kept.entry))

theorem Tree.Lists.congr {t t' : Tree} {l : Location} {ks : List Kept} (h : t.Lists l ks)
    (heq : t'.get? l = t.get? l) : t'.Lists l ks := by
  unfold Lists
  rwa [heq]

namespace Kept.Proper

variable {p : Project} {k : Kept}

theorem keep_prefix_place (h : k.Proper p) (hp : p.Proper) : p.keep <+: p.place k.backup := by
  obtain ⟨base, hplace⟩ := h.exists_place hp
  rw [hplace]
  exact (p.keep_prefix_batch k.stamp).trans (List.prefix_append _ _)

/-- A backup is in the place of no manifest. -/
theorem place_ne_manifest (h : k.Proper p) (hp : p.Proper) (stamp : RawText) :
    p.place k.backup ≠ p.manifest stamp := by
  obtain ⟨base, hplace⟩ := h.exists_place hp
  intro heq
  have hlast := congrArg List.getLast? (hplace.symm.trans heq)
  unfold Project.manifest at hlast
  rw [List.getLast?_concat, List.getLast?_concat, Option.some.injEq] at hlast
  exact append_ending_ne base (by decide) hlast

/-- A backup is in the place of no file that is written. -/
theorem place_ne_target {k' : Kept} (h : k.Proper p) (hk' : k'.Proper p) (hp : p.Proper) :
    p.place k.backup ≠ p.place k'.file := by
  intro heq
  have hkeep := h.keep_prefix_place hp
  rw [heq] at hkeep
  exact hk'.source.outside hkeep

end Kept.Proper

namespace Project

/-- A project in which some backups are kept, in the order in which they were made: each holds its
bytes, and the manifests list them and nothing else. -/
structure Intact (p : Project) (ks : List Kept) : Prop where
  proper : p.Proper
  kept : ∀ k ∈ ks, k.Proper p
  hasBatch : ∀ k ∈ ks, p.HasBatch k.stamp
  held : ∀ k ∈ ks, p.tree.get? (p.place k.backup) = some (.file k.bytes)
  listed : ∀ stamp, p.tree.Lists (p.manifest stamp) (ks.filter (·.stamp = stamp))

/-- A project in which some backups are kept, in the order in which they were made: each holds its
bytes, and of some batches, the manifests list them and nothing else. -/
structure IntactIn (p : Project) (S : RawText → Prop) (ks : List Kept) : Prop where
  proper : p.Proper
  kept : ∀ k ∈ ks, k.Proper p
  hasBatch : ∀ k ∈ ks, p.HasBatch k.stamp
  held : ∀ k ∈ ks, p.tree.get? (p.place k.backup) = some (.file k.bytes)
  listed : ∀ stamp, S stamp → p.tree.Lists (p.manifest stamp) (ks.filter (·.stamp = stamp))

theorem Intact.intactIn {p : Project} {ks : List Kept} (h : p.Intact ks) :
    p.IntactIn (fun _ => True) ks :=
  ⟨h.proper, h.kept, h.hasBatch, h.held, fun stamp _ => h.listed stamp⟩

theorem IntactIn.intact {p : Project} {ks : List Kept} (h : p.IntactIn (fun _ => True) ks) :
    p.Intact ks :=
  ⟨h.proper, h.kept, h.hasBatch, h.held, fun stamp => h.listed stamp trivial⟩

/-- A project without manifests is intact: no backups are kept in it. -/
theorem Proper.intactIn {p : Project} (h : p.Proper) {S : RawText → Prop}
    (hnone : ∀ stamp, S stamp → p.tree.get? (p.manifest stamp) = none) : p.IntactIn S [] where
  proper := h
  kept := by simp
  hasBatch := by simp
  held := by simp
  listed := fun stamp hstamp => .inl ⟨hnone stamp hstamp, rfl⟩

theorem Proper.intact {p : Project} (h : p.Proper)
    (hnone : ∀ stamp, p.tree.get? (p.manifest stamp) = none) : p.Intact [] :=
  (h.intactIn fun stamp _ => hnone stamp).intact

namespace IntactIn

variable {p : Project} {S : RawText → Prop} {ks : List Kept} {stamp : RawText}

/-! ## Reading the manifests -/

/-- What is read from the manifest of a batch. -/
theorem manifestBytes?_batch (h : p.IntactIn S ks) (hstamp : S stamp) :
    p.manifestBytes? (p.batch stamp) = .ok none ∧ ks.filter (·.stamp = stamp) = [] ∨
      ∃ bytes, p.manifestBytes? (p.batch stamp) = .ok (some bytes) ∧
        Manifest.jsonOf bytes =
          .ok (.list ((ks.filter (·.stamp = stamp)).map Kept.entry)) := by
  have hmanifest : p.batch stamp ++ [Manifest.fileName] = p.manifest stamp := rfl
  unfold manifestBytes?
  rw [hmanifest]
  dsimp only
  by_cases hbatch : p.tree.get? (p.batch stamp) = some .folder
  · rcases h.listed stamp hstamp with ⟨hnone, hnil⟩ | ⟨bytes, hbytes, hjson⟩
    · exact .inl ⟨by rw [hbatch, hnone], hnil⟩
    · refine .inr ⟨bytes, ?_, hjson⟩
      rw [hbatch, Tree.bytesAt_of_file hbytes, hbytes]
      rfl
  -- without the folder of a batch, nothing is kept in that batch
  · refine .inl ⟨?_, ?_⟩
    · split
      · next hfolder _ => exact absurd hfolder hbatch
      · rfl
    · refine List.filter_eq_nil_iff.mpr fun k hk heq => hbatch ?_
      rw [← of_decide_eq_true heq]
      exact (h.hasBatch k hk).batch

theorem mapM_savedOf (h : p.IntactIn S ks) {ks' : List Kept} (hks : ks' ⊆ ks) :
    (ks'.map Kept.entry).mapM Manifest.savedOf = .ok (ks'.map Kept.saved) := by
  induction ks' with
  | nil => rfl
  | cons k ks' ih =>
    rw [List.cons_subset] at hks
    rw [List.map_cons, List.mapM_cons, (h.kept k hks.1).savedOf_entry h.proper, ih hks.2]
    rfl

/-- **The backups of a batch that are listed are those that are kept in it.** -/
theorem savedIn (h : p.IntactIn S ks) (hstamp : S stamp) :
    p.savedIn stamp = .ok ((ks.filter (·.stamp = stamp)).map Kept.saved) := by
  have hbatch : p.backups ++ [stamp] = p.batch stamp := rfl
  unfold Project.savedIn
  rw [hbatch]
  rcases h.manifestBytes?_batch hstamp with ⟨hnone, hnil⟩ | ⟨bytes, hbytes, hjson⟩
  · rw [hnone, hnil]
    rfl
  · rw [hbytes]
    unfold Manifest.ofBytes
    dsimp only
    rw [hjson]
    dsimp only [Manifest.entriesOf]
    rw [h.mapM_savedOf fun _ hk => List.mem_of_mem_filter hk]
    rfl

/-- A project stays intact if no folder goes, and the backups and what is in the places of manifests
stay. -/
theorem congr (h : p.IntactIn S ks) {t : Tree} (hway : p.Way t)
    (hfolders : ∀ l, p.keep <+: l → p.tree.get? l = some .folder → t.get? l = some .folder)
    (hheld : ∀ k ∈ ks, t.get? (p.place k.backup) = p.tree.get? (p.place k.backup))
    (hlisted : ∀ stamp, S stamp → t.Lists (p.manifest stamp) (ks.filter (·.stamp = stamp))) :
    { p with tree := t }.IntactIn S ks where
  proper := h.proper.withTree hway
  kept := fun k hk => (h.kept k hk).withTree t
  hasBatch := fun k hk => (h.hasBatch k hk).mono hfolders
  held := fun k hk => (hheld k hk).trans (h.held k hk)
  listed := hlisted

end IntactIn

namespace Intact

variable {p : Project} {ks : List Kept} {k : Kept}

theorem mapM_savedIn (h : p.Intact ks) (stamps : List RawText) :
    stamps.mapM p.savedIn =
      .ok (stamps.map fun stamp => (ks.filter (·.stamp = stamp)).map Kept.saved) := by
  induction stamps with
  | nil => rfl
  | cons stamp stamps ih =>
    rw [List.mapM_cons, h.intactIn.savedIn trivial, ih]
    rfl

/-- Nothing is listed but what is kept. -/
theorem exists_kept_of_saved (h : p.Intact ks) {all : List Saved} (hall : p.saved = .ok all) :
    ∀ s ∈ all, ∃ k ∈ ks, s = k.saved := by
  unfold Project.saved at hall
  split at hall
  · cases hall
  · rw [h.mapM_savedIn] at hall
    obtain rfl := Except.ok.inj hall
    intro s hs
    obtain ⟨batch, hbatch, hs⟩ := List.mem_flatten.mp hs
    obtain ⟨stamp, -, rfl⟩ := List.mem_map.mp hbatch
    obtain ⟨k, hk, rfl⟩ := List.mem_map.mp hs
    exact ⟨k, List.mem_of_mem_filter hk, rfl⟩

/-- **The backups that an intact project lists are those that are kept.** -/
theorem saved (h : p.Intact ks) (hk : k ∈ ks) :
    ∃ all, p.saved = .ok all ∧ ∀ k ∈ ks, k.saved ∈ all := by
  have hbatches : p.batches =
      .ok ((p.tree.namesIn p.backups).mergeSort fun a b => b.atMost a) := by
    unfold batches
    rw [(h.hasBatch k hk).backups]
  refine ⟨(((p.tree.namesIn p.backups).mergeSort fun a b => b.atMost a).map fun stamp =>
    (ks.filter (·.stamp = stamp)).map Kept.saved).flatten, ?_, ?_⟩
  · unfold Project.saved
    rw [hbatches]
    dsimp only
    rw [h.mapM_savedIn]
    rfl
  · intro k hk
    refine List.mem_flatten.mpr ⟨_, List.mem_map.mpr ⟨k.stamp, ?_, rfl⟩, ?_⟩
    · rw [List.mem_mergeSort, Tree.mem_namesIn]
      exact Option.isSome_of_mem (h.hasBatch k hk).batch
    · exact List.mem_map.mpr ⟨k, List.mem_filter.mpr ⟨hk, by simp⟩, rfl⟩

end Intact

/-! ## What leaves a project intact -/

/-- A tree that is the same as that of a project in all that is kept about the project, and in which
the path of the project leads to it. -/
structure Spares (p : Project) (t : Tree) : Prop where
  keep : ∀ l, p.keep <+: l → t.get? l = p.tree.get? l
  way : p.Way t

/-- A file that is put elsewhere, where no folder is. -/
theorem Spares.set {p : Project} (hp : p.Proper) {l : Location} (houtside : ¬ p.keep <+: l)
    (hl : p.tree.get? l ≠ some .folder) (bytes : Bytes) :
    p.Spares (p.tree.set l (.file bytes)) where
  keep := fun k hk => by
    have hne : l ≠ k := fun h => houtside (by rw [h]; exact hk)
    exact Tree.get?_set_of_ne hne _
  way := hp.way.mono fun k hk => by
    have hne : l ≠ k := fun h => hl (by rw [h]; exact hk)
    rwa [Tree.get?_set_of_ne hne]

/-- **A project stays intact whatever happens outside the folder that is kept about it.** -/
theorem IntactIn.spared {p : Project} {S : RawText → Prop} {ks : List Kept} (h : p.IntactIn S ks)
    {t : Tree} (ht : p.Spares t) : { p with tree := t }.IntactIn S ks := by
  refine h.congr ht.way (fun l hl hfolder => (ht.keep l hl).trans hfolder) (fun k hk => ?_)
    fun stamp hstamp => (h.listed stamp hstamp).congr (ht.keep _ (p.keep_prefix_manifest stamp))
  exact ht.keep _ ((h.kept k hk).keep_prefix_place h.proper)

theorem Intact.spared {p : Project} {ks : List Kept} (h : p.Intact ks) {t : Tree}
    (ht : p.Spares t) : { p with tree := t }.Intact ks := (h.intactIn.spared ht).intact

/-- A tree that differs from that of a project only in the folder that is kept about it, where no
folder is gone. -/
structure Adds (p : Project) (t : Tree) : Prop where
  outside : ∀ l, ¬ p.keep <+: l → t.get? l = p.tree.get? l
  folders : ∀ l, p.tree.get? l = some .folder → t.get? l = some .folder

namespace Adds

variable {p : Project} {t t' : Tree}

theorem refl (p : Project) : p.Adds p.tree := ⟨fun _ _ => rfl, fun _ h => h⟩

theorem trans (h : p.Adds t) (h' : { p with tree := t }.Adds t') : p.Adds t' where
  outside := fun l hl => (h'.outside l hl).trans (h.outside l hl)
  folders := fun l hl => h'.folders l (h.folders l hl)

/-- An entry that is put into the folder that is kept, where no folder is. -/
theorem set {l : Location} (hkeep : p.keep <+: l) (hl : p.tree.get? l ≠ some .folder) (e : Entry) :
    p.Adds (p.tree.set l e) where
  outside := fun k hk => by
    have hne : l ≠ k := fun h => hk (by rw [← h]; exact hkeep)
    exact Tree.get?_set_of_ne hne _
  folders := fun k hk => by
    have hne : l ≠ k := fun h => hl (by rw [h]; exact hk)
    rw [Tree.get?_set_of_ne hne]
    exact hk

theorem way (h : p.Adds t) (hp : p.Led) : p.Way t := hp.way.mono h.folders

end Adds

/-- A tree with the folders of a project: none is gone, and none has come outside of the folder that
is kept about the project. -/
structure KeepsFolders (p : Project) (t : Tree) : Prop where
  keeps : ∀ l, p.tree.get? l = some .folder → t.get? l = some .folder
  outside : ∀ l, ¬ p.keep <+: l → t.get? l = some .folder → p.tree.get? l = some .folder

namespace KeepsFolders

variable {p : Project} {t t' : Tree}

theorem refl (p : Project) : p.KeepsFolders p.tree := ⟨fun _ h => h, fun _ _ h => h⟩

theorem trans (h : p.KeepsFolders t) (h' : { p with tree := t }.KeepsFolders t') :
    p.KeepsFolders t' where
  keeps := fun l hl => h'.keeps l (h.keeps l hl)
  outside := fun l hl hfolder => h.outside l hl (h'.outside l hl hfolder)

theorem of_adds (h : p.Adds t) : p.KeepsFolders t where
  keeps := h.folders
  outside := fun l hl hfolder => by rwa [h.outside l hl] at hfolder

/-- A file that is put where no folder is leaves the folders. -/
theorem set {l : Location} (hl : p.tree.get? l ≠ some .folder) (bytes : Bytes) :
    p.KeepsFolders (p.tree.set l (.file bytes)) where
  keeps := fun k hk => by
    have hne : l ≠ k := fun h => hl (by rw [h]; exact hk)
    rw [Tree.get?_set_of_ne hne]
    exact hk
  outside := fun k _ hk => by
    rw [Tree.get?_set] at hk
    split at hk
    · cases hk
    · exact hk

end KeepsFolders

end Project

end Mend
