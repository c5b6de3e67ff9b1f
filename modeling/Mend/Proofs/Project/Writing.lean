import Mathlib.Data.List.Infix
import Mend.Proofs.Project.Backup
import Mend.Proofs.Project.Opening

/-!
# What a write changes

Whatever is kept about a project, and whether or not it is in order, a write changes one file at
most, apart from what is kept.

* `backUp_brings`: a backup changes nothing outside of the folder that is kept, and no folder goes.
* `write_alters`: a write that succeeds puts the fixed text into a file that held what the session
  has seen, and changes nothing else outside of that folder; one that does not succeed changes
  nothing there.
-/

namespace Mend.Project

variable {p : Project} {S : RawText → Prop} {t : Tree}

/-- A tree that has grown only in one place and in the folder that is kept about a project. -/
structure Alters (p : Project) (S : RawText → Prop) (l : Location) (t : Tree) : Prop
    extends p.Grows S t where
  outside : ∀ k, ¬ p.keep <+: k → k ≠ l → t.get? k = p.tree.get? k

theorem founded_of_made {stamp : RawText} {l : Location}
    (h : Tree.Made p.root [keepName, backupsName, stamp] l) : p.Founded (· = stamp) l := by
  obtain ⟨made, hne, hprefix, rfl⟩ := h
  have hcases : made ∈ [keepName, backupsName, stamp].inits := (List.mem_inits _ _).mpr hprefix
  simp only [List.inits, List.map, List.mem_cons, List.not_mem_nil, or_false] at hcases
  rcases hcases with rfl | rfl | rfl | rfl
  · exact absurd rfl hne
  · exact .inl rfl
  · exact .inr (.inr (.inl (by simp [backups, keep])))
  · exact .inr (.inr (.inr ⟨stamp, rfl, by simp [batch, backups, keep]⟩))

/-- Making the folders for a batch brings nothing but those. -/
theorem makeBatch_brings {stamp : RawText} {disk : Disk} {done : Except TreeError Unit}
    (h : p.tree.makeOn disk p.root [keepName, backupsName, stamp] = (done, t)) :
    p.Brings (· = stamp) t := by
  obtain ⟨hothers, -⟩ := Tree.makeOn_spec h
  refine ⟨⟨?_, ?_⟩, fun l hl => (hothers l).resolve_right fun hmade => hl (made_batch hmade.1).1⟩
  · intro l hl
    rcases hothers l with heq | ⟨-, hnone, -⟩
    · rw [heq, hl]
    · rw [hl] at hnone
      cases hnone
  · intro l hnone hsome
    rcases hothers l with heq | ⟨hmade, -⟩
    · exact absurd (heq.trans hnone) hsome
    · exact founded_of_made hmade

/-- Listing a backup brings nothing but a manifest. -/
theorem list_brings (p : Project) (stamp : RawText) (entry : Json) (disk : Disk) :
    ∃ t, (p.list (p.batch stamp) entry disk).2 = { p with tree := t } ∧
      p.Brings (· = stamp) t := by
  have hfounded : p.Founded (· = stamp) (p.manifest stamp) :=
    .inr (.inr (.inr ⟨stamp, rfl, List.prefix_append _ _⟩))
  obtain ⟨e, he⟩ | ⟨bytes, before, -, -, hfile, hdone | ⟨n, e, -, he⟩⟩ :=
    p.list_steps stamp entry disk
  · exact ⟨p.tree, by rw [he], .refl p _⟩
  · exact ⟨_, by rw [hdone], .set hfounded hfile _⟩
  · exact ⟨_, by rw [he], .set hfounded hfile _⟩

/-- **A backup changes nothing outside of the folder that is kept, and brings nothing but what is in
its batch**, also if it fails. -/
theorem backUp_brings (p : Project) (session : String) (file : Path) (bytes : Bytes)
    (now : Instant) (disk : Disk) :
    ∃ t, (p.backUp session file bytes now disk).2 = { p with tree := t } ∧
      p.Brings (· = RawText.ofString now.stamp) t := by
  obtain ⟨stamp, hstamp⟩ : ∃ stamp, stamp = RawText.ofString now.stamp := ⟨_, rfl⟩
  rw [← hstamp]
  obtain ⟨done, t, ht, ⟨e, he⟩ | ⟨name, n, -, hn, -, hfree, hsaves⟩⟩ :=
    p.backUp_steps session file bytes hstamp disk
  · exact ⟨t, by rw [he], makeBatch_brings ht⟩
  have hfounded : { p with tree := t }.Founded (· = stamp) (Tree.next (p.batch stamp) name) := by
    rw [hn, Tree.next_eq (backupName_ne_around _ _)]
    exact .inr (.inr (.inr ⟨stamp, rfl, List.prefix_append _ _⟩))
  have hsaved : ∀ bytes, p.Brings (· = stamp)
      (t.set (Tree.next (p.batch stamp) name) (.file bytes)) := fun bytes =>
    (makeBatch_brings ht).trans (.set hfounded (by simp [hfree]) _)
  obtain ⟨m, e, he⟩ | hlists := hsaves
  · exact ⟨_, by rw [he], hsaved _⟩
  · obtain ⟨t', ht', hbrings⟩ := list_brings
      { p with tree := t.set (Tree.next (p.batch stamp) name) (.file bytes) } stamp
      (Manifest.entry session file (p.batchPath stamp name) stamp) disk
    exact ⟨t', by rw [hlists]; exact ht', (hsaved bytes).trans hbrings⟩

/-- What is read from a file is in its place. -/
theorem bytesAt_of_read {file : Path} {bytes : Bytes} (h : p.read file = .ok bytes) :
    p.tree.bytesAt (p.place file) = .ok bytes := by
  obtain ⟨l, hl, hbytes⟩ := Tree.read_eq_ok_iff.mp (read_eq_ok_iff.mp h)
  obtain ⟨-, -, rfl⟩ := locate_eq_ok_iff.mp hl
  exact hbytes

theorem get?_ne_none_of_read {file : Path} {bytes : Bytes} (h : p.read file = .ok bytes) :
    p.tree.get? (p.place file) ≠ none :=
  Tree.ne_none_of_bytesAt (bytesAt_of_read h)

/-- What was found by a path is found by it after the tree has grown. -/
theorem Grows.read (h : p.Grows S t) {file : Path} {bytes bytes' : Bytes}
    (hread : p.read file = .ok bytes) (hfile : t.get? (p.place file) = some (.file bytes')) :
    { p with tree := t }.read file = .ok bytes' := by
  obtain ⟨l, hl, -⟩ := Tree.read_eq_ok_iff.mp (read_eq_ok_iff.mp hread)
  obtain ⟨-, -, rfl⟩ := locate_eq_ok_iff.mp hl
  exact read_eq_ok_iff.mpr (Tree.read_eq_ok_iff.mpr
    ⟨_, Tree.locate_mono hl h.folders, Tree.bytesAt_of_file hfile⟩)

/-- A file that is written over is changed, and nothing else. -/
theorem Brings.alters (h : p.Brings S t) {l : Location} (hthere : p.tree.get? l ≠ none)
    (hfile : t.get? l ≠ some .folder) (bytes : Bytes) :
    p.Alters S l (t.set l (.file bytes)) where
  folders := fun k hk => by
    have hfolder := h.folders k hk
    rw [Tree.get?_set_of_ne fun heq => hfile (by rw [heq, hfolder])]
    exact hfolder
  founded := fun k hnone hsome => by
    rw [Tree.get?_set_of_ne fun heq => hthere (by rw [heq, hnone])] at hsome
    exact h.founded k hnone hsome
  outside := fun k hk hne => by rw [Tree.get?_set_of_ne (Ne.symm hne), h.outside k hk]

/-- Writing over a file changes that file and what is kept, or it fails and changes what is kept. -/
theorem writeOver_alters (p : Project) (backup : Bool) (r : SessionResult) {file : Path}
    (hthere : p.tree.get? (p.place file) ≠ none) (bytes : Bytes) (now : Instant) :
    ∃ t, (p.writeOver backup r file bytes now).2 = { p with tree := t } ∧
      ((∃ e, (p.writeOver backup r file bytes now).1 = .error e) ∧
          p.Brings (· = RawText.ofString now.stamp) t ∨
        (∃ w, (p.writeOver backup r file bytes now).1 = .ok w ∧ w.success = true) ∧
          p.Alters (· = RawText.ofString now.stamp) (p.place file) t ∧
          t.get? (p.place file) = some (.file (Utf8.encode r.fixed))) := by
  obtain ⟨t, ht, hbrings⟩ := p.backUp_brings r.session.id file bytes now .sound
  obtain ⟨e, q, -, hbackUp, he⟩ | ⟨path, q, hsaved, hwrite⟩ :=
    p.writeOver_steps backup r file bytes now .sound
  · rw [hbackUp] at ht
    exact ⟨t, by rw [he]; exact ht, .inl ⟨⟨e, by rw [he]⟩, hbrings⟩⟩
  obtain ⟨t, rfl, hbrings⟩ : ∃ t, q = { p with tree := t } ∧
      p.Brings (· = RawText.ofString now.stamp) t := by
    obtain ⟨-, -, rfl⟩ | ⟨-, b, -, hbackUp⟩ := hsaved
    · exact ⟨q.tree, rfl, .refl q _⟩
    · rw [hbackUp] at ht
      exact ⟨t, ht, hbrings⟩
  obtain ⟨e, he, -⟩ | ⟨l, hl, hfile, ⟨w, hsuccess, -, hdone⟩ | ⟨n, e, hcut, -⟩⟩ := hwrite
  · exact ⟨t, by rw [he], .inl ⟨⟨e, by rw [he]⟩, hbrings⟩⟩
  · obtain ⟨-, -, rfl⟩ := locate_eq_ok_iff.mp hl
    exact ⟨_, congrArg Prod.snd hdone, .inr ⟨⟨w, congrArg Prod.fst hdone, hsuccess⟩,
      hbrings.alters hthere hfile _, Tree.get?_set_self _ _ _⟩⟩
  · cases hcut

/-- What a session has seen is written over, if it has changed it and it is still there. -/
theorem write_eq_writeOver {r : SessionResult} (hchanged : r.changed = true)
    (hleads : p.leads (p.fileOf r) = .ok true) {bytes : Bytes}
    (hread : p.read (p.fileOf r) = .ok bytes) (hsource : readText bytes = r.source) (backup : Bool)
    (now : Instant) : p.write backup r now = p.writeOver backup r (p.fileOf r) bytes now := by
  have hfile : p.path.join (.ofText r.session.file) = p.fileOf r := rfl
  unfold write
  dsimp only
  rw [hfile, hchanged, hleads, hread]
  simp [hsource]

/-- A write fails if it cannot be told whether the file is there. -/
theorem write_error {r : SessionResult} (hchanged : r.changed = true) {e : ProjectError}
    (hleads : p.leads (p.fileOf r) = .error e) (backup : Bool) (now : Instant) :
    p.write backup r now = (.error e, p) := by
  have hfile : p.path.join (.ofText r.session.file) = p.fileOf r := rfl
  unfold write
  dsimp only
  rw [hfile, hchanged, hleads]
  rfl

/-- **A write puts the fixed text into a file that held what the session has seen, or it changes
nothing outside of the folder that is kept.** -/
theorem write_alters (p : Project) (backup : Bool) (r : SessionResult) (now : Instant) :
    ∃ t, (p.write backup r now).2 = { p with tree := t } ∧
      ((∀ w, (p.write backup r now).1 = .ok w → w.success = false) ∧
          p.Brings (· = RawText.ofString now.stamp) t ∨
        (∃ w, (p.write backup r now).1 = .ok w ∧ w.success = true) ∧
          (∃ bytes, p.read (p.fileOf r) = .ok bytes ∧ readText bytes = r.source) ∧
          p.Alters (· = RawText.ofString now.stamp) (p.target r) t ∧
          t.get? (p.target r) = some (.file (Utf8.encode r.fixed))) := by
  rcases p.write_cases backup r now .sound with
    ⟨hsame, hfailed⟩ | ⟨bytes, hbytes, -, hsource, hover⟩
  · exact ⟨p.tree, hsame, .inl ⟨hfailed, .refl p _⟩⟩
  rw [hover]
  have hthere := get?_ne_none_of_read hbytes
  obtain ⟨t, ht, ⟨⟨e, he⟩, hbrings⟩ | ⟨hsuccess, halters, hwritten⟩⟩ :=
    p.writeOver_alters backup r hthere bytes now
  · refine ⟨t, ht, .inl ⟨fun w hw => ?_, hbrings⟩⟩
    rw [he] at hw
    cases hw
  · exact ⟨t, ht, .inr ⟨hsuccess, ⟨bytes, hbytes, hsource⟩, halters, hwritten⟩⟩

end Mend.Project
