import Mend.Proofs.Project.Deeds
import Mend.Proofs.Project.Seen
import Mend.Proofs.Project.Writing

/-!
# All or nothing

A write goes through several steps that can fail: folders are made, a copy is saved, a manifest is
read and written anew, and only then the file is written over. The disk can refuse each of these
accesses, and break off each write.

* `Tree.Extends`: whatever was there is as it was; the steps before the manifest preserve this.
* `Torn`: the disk has broken off a manifest; whatever else was there is as it was.
* `backUp_cases`: a backup is made and listed, or whatever was there is as it was, up to a torn
  manifest.
* `writeOver_cases`: once a backup is listed, nothing but the disk keeps the file from being written
  over.
* `Overwritten`, `GivenUp`, `BrokenOff`: all that a write does that succeeds, what is left of one
  that fails before the file is written, and of one that fails then.
* `write_all_or_nothing`: **a write that succeeds has done all of it, one that is refused has
  changed nothing, and one that fails before the file is written over leaves every file as it was**,
  up to a torn manifest.
* `write_unlists`: a write to the manifest in which its backup is listed loses the entry, and a disk
  that has no room leaves a file empty.
-/

namespace Mend

namespace Tree

variable {t t' t'' : Tree}

/-- Whatever is in a tree is in the other one, as it is. -/
def Extends (t t' : Tree) : Prop := ∀ l, t.get? l ≠ none → t'.get? l = t.get? l

namespace Extends

theorem refl (t : Tree) : t.Extends t := fun _ _ => rfl

theorem trans (h : t.Extends t') (h' : t'.Extends t'') : t.Extends t'' := by
  intro l hl
  have heq := h l hl
  rw [h' l (by rwa [heq]), heq]

/-- An entry that is put where nothing is. -/
theorem set {l : Location} (hl : t.get? l = none) (e : Entry) : t.Extends (t.set l e) := by
  intro k hk
  refine get?_set_of_ne (fun heq => hk ?_) e
  rw [← heq, hl]

theorem makeOn {disk : Disk} {start : Location} {names : List RawText}
    {done : Except TreeError Unit} (h : t.makeOn disk start names = (done, t')) : t.Extends t' := by
  intro l hl
  exact ((makeOn_spec h).1 l).resolve_right fun hmade => hl hmade.2.1

theorem get?_eq_none (h : t.Extends t') {l : Location} (hl : t'.get? l = none) :
    t.get? l = none := by
  by_contra hsome
  exact hsome ((h l hsome).symm.trans hl)

/-- **What can be read reads the same.** -/
theorem read (h : t.Extends t') {here : Location} {file : Path} {bytes : Bytes}
    (hread : t.read here file = .ok bytes) : t'.read here file = .ok bytes := by
  refine read_mono hread (fun l hl => (h l (by simp [hl])).trans hl) fun l hat => ?_
  exact (bytesAt_congr (h l (ne_none_of_bytesAt hat))).trans hat

end Extends

end Tree

namespace Project

variable {p : Project} {t : Tree} {session : String} {file backup : Path} {bytes : Bytes}
  {stamp : RawText}

/-! ## Making a backup -/

/-- The place of a backup in its batch. -/
def placeIn (p : Project) (stamp : RawText) (backup : Path) : Location :=
  Tree.next (p.batch stamp) backup.name

/-- A file is saved in a batch, under a name that was not taken. -/
structure Saves (p : Project) (bytes : Bytes) (stamp : RawText) (backup : Path) (t : Tree) :
    Prop where
  path : backup = p.batchPath stamp backup.name
  free : p.tree.get? (p.placeIn stamp backup) = none
  held : t.get? (p.placeIn stamp backup) = some (.file bytes)

/-- A manifest has one entry more than it had, for a backup. -/
def ListsOneMore (p : Project) (session : String) (file : Path) (stamp : RawText) (backup : Path)
    (t : Tree) : Prop :=
  ∃ before, Manifest.toExtend (p.tree.bytesAt (p.manifest stamp)).toOption = .ok before ∧
    t.get? (p.manifest stamp) =
      some (.file (Manifest.toBytes (before ++ [Manifest.entry session file backup stamp])))

/-- Nothing has changed but what is at some locations, and that folders for a batch may have come.
-/
def ChangesOnly (p : Project) (stamp : RawText) (ls : List Location) (t : Tree) : Prop :=
  ∀ l, l ∉ ls → t.get? l = p.tree.get? l ∨
    Tree.Made p.root [keepName, backupsName, stamp] l ∧ p.tree.get? l = none ∧
      t.get? l = some .folder

/-- A backup is made: a file is saved and listed, and nothing else has changed. -/
structure BackedUp (p : Project) (session : String) (file : Path) (bytes : Bytes) (stamp : RawText)
    (backup : Path) (t : Tree) : Prop extends p.Saves bytes stamp backup t where
  listed : p.ListsOneMore session file stamp backup t
  others : p.ChangesOnly stamp [p.placeIn stamp backup, p.manifest stamp] t

/-- What was there and is not at one of the locations is as it was. -/
theorem ChangesOnly.get?_eq {ls : List Location} (h : p.ChangesOnly stamp ls t) {l : Location}
    (hl : l ∉ ls) (hsome : p.tree.get? l ≠ none) : t.get? l = p.tree.get? l :=
  (h l hl).resolve_right fun hmade => hsome hmade.2.1

@[simp] theorem name_batchPath (p : Project) (stamp name : RawText) :
    (p.batchPath stamp name).name = name := by
  unfold batchPath Path.name
  rw [Path.join_names]
  simp

/-- No backup is in the place of the manifest. -/
theorem next_backupName_ne_manifest (p : Project) (stamp name : RawText) (n : Nat) :
    Tree.next (p.batch stamp) (backupName name n) ≠ p.manifest stamp := by
  rw [Tree.next_eq (backupName_ne_around _ _), decode_backupName]
  intro heq
  have hlast := (List.cons.inj (List.append_cancel_left heq)).1
  exact Kept.append_ending_ne _ (by decide) hlast

/-- The entries of the manifest of a batch that is there. -/
theorem toOption_bytesAt_manifest (hbatch : p.tree.get? (p.batch stamp) = some .folder)
    {read : Option Bytes} (h : p.manifestBytes? (p.batch stamp) = .ok read) :
    (p.tree.bytesAt (p.manifest stamp)).toOption = read := by
  have hmanifest : p.batch stamp ++ [Manifest.fileName] = p.manifest stamp := rfl
  unfold manifestBytes? at h
  rw [hmanifest, hbatch] at h
  dsimp only at h
  unfold Tree.bytesAt at h ⊢
  cases hat : p.tree.get? (p.manifest stamp) with
  | none =>
    rw [hat] at h
    exact Except.ok.inj h
  | some e =>
    rw [hat] at h
    cases e with
    | folder => cases h
    | file b => exact Except.ok.inj h
    | database rows => exact Except.ok.inj h

/-- What the steps of a backup before its listing have come to: the folders of the batch are made,
and the bytes are saved where nothing was. -/
structure Saved (p : Project) (bytes : Bytes) (stamp : RawText) (backup : Path) (t : Tree) : Prop
    extends p.Saves bytes stamp backup t where
  batch : t.get? (p.batch stamp) = some .folder
  manifest : t.get? (p.manifest stamp) = p.tree.get? (p.manifest stamp)
  others : p.ChangesOnly stamp [p.placeIn stamp backup] t

theorem saved_of_makeOn {disk : Disk}
    (ht : p.tree.makeOn disk p.root [keepName, backupsName, stamp] = (.ok (), t))
    (hpath : backup = p.batchPath stamp backup.name)
    (hfree : t.get? (p.placeIn stamp backup) = none)
    (hplace : p.placeIn stamp backup ≠ p.manifest stamp) :
    p.Saved bytes stamp backup (t.set (p.placeIn stamp backup) (.file bytes)) := by
  obtain ⟨hothers, hmade⟩ := Tree.makeOn_spec ht
  have hfolder : t.get? (p.batch stamp) = some .folder :=
    hmade rfl _ ⟨_, by simp, List.prefix_refl _, by simp [Project.batch, backups, keep]⟩
  refine ⟨⟨hpath, (Tree.Extends.makeOn ht).get?_eq_none hfree, Tree.get?_set_self _ _ _⟩, ?_, ?_,
    fun l hl => ?_⟩
  · rwa [Tree.get?_set_of_ne]
    intro heq
    rw [heq, hfolder] at hfree
    cases hfree
  · rw [Tree.get?_set_of_ne hplace]
    exact (hothers _).resolve_right fun h => (made_batch h.1).2 stamp rfl
  · rw [List.mem_singleton] at hl
    rw [Tree.get?_set_of_ne (Ne.symm hl)]
    exact hothers l

/-- A backup that is saved is made once its manifest is written. -/
theorem Saved.backedUp (h : p.Saved bytes stamp backup t)
    (hplace : p.placeIn stamp backup ≠ p.manifest stamp) {before : List Json}
    (hbefore : Manifest.toExtend (t.bytesAt (p.manifest stamp)).toOption = .ok before) :
    p.BackedUp session file bytes stamp backup (t.set (p.manifest stamp) (.file
      (Manifest.toBytes (before ++ [Manifest.entry session file backup stamp])))) := by
  refine ⟨⟨h.path, h.free, ?_⟩, ⟨before, ?_, Tree.get?_set_self _ _ _⟩, fun l hl => ?_⟩
  · rw [Tree.get?_set_of_ne hplace.symm]
    exact h.held
  · rwa [← Tree.bytesAt_congr h.manifest]
  · simp only [List.mem_cons, List.not_mem_nil, or_false, not_or] at hl
    rw [Tree.get?_set_of_ne (Ne.symm hl.2)]
    exact h.others l (by simpa using hl.1)

/-- The disk has broken off the manifest of a batch; whatever else was there is as it was. -/
def Torn (p : Project) (stamp : RawText) (disk : Disk) (t : Tree) : Prop :=
  ∃ u manifest n e, p.tree.Extends u ∧ u.get? (p.manifest stamp) ≠ some .folder ∧
    disk.takes u (p.manifest stamp) manifest = .cut n e ∧
    t = u.set (p.manifest stamp) (.file (manifest.take n))

/-- **A backup is made and listed, or whatever was there is as it was**, up to a manifest that the
disk has broken off. -/
theorem backUp_cases (p : Project) (session : String) (file : Path) (bytes : Bytes)
    (now : Instant) (disk : Disk) :
    (∃ e t, p.backUp session file bytes now disk = (.error e, { p with tree := t }) ∧
        (p.tree.Extends t ∨ p.Torn now.stamp disk t)) ∨
      ∃ backup t, p.backUp session file bytes now disk = (.ok backup, { p with tree := t }) ∧
        p.BackedUp session file bytes now.stamp backup t := by
  obtain ⟨stamp, hstamp⟩ : ∃ stamp, stamp = RawText.ofString now.stamp := ⟨_, rfl⟩
  rw [← hstamp]
  obtain ⟨done, t, ht, ⟨e, he⟩ | ⟨name, n, rfl, hn, -, hfree, hsaves⟩⟩ :=
    p.backUp_steps session file bytes hstamp disk
  · exact .inl ⟨e, t, he, .inl (.makeOn ht)⟩
  have hextends : ∀ bytes, p.tree.Extends (t.set (Tree.next (p.batch stamp) name) (.file bytes)) :=
    fun bytes => (Tree.Extends.makeOn ht).trans (.set hfree _)
  obtain ⟨m, e, he⟩ | hlists := hsaves
  · exact .inl ⟨e, _, he, .inl (hextends _)⟩
  have hplace : Tree.next (p.batch stamp) name = p.placeIn stamp (p.batchPath stamp name) := by
    unfold placeIn
    rw [name_batchPath]
  have hne : p.placeIn stamp (p.batchPath stamp name) ≠ p.manifest stamp := by
    rw [← hplace, hn]
    exact p.next_backupName_ne_manifest stamp _ n
  have hsaved : p.Saved bytes stamp (p.batchPath stamp name)
      (t.set (Tree.next (p.batch stamp) name) (.file bytes)) := by
    rw [hplace] at hfree ⊢
    exact saved_of_makeOn ht (by rw [name_batchPath]) hfree hne
  replace hextends := hextends bytes
  -- what the listing does depends on the tree in which the bytes are saved, however that came about
  generalize t.set (Tree.next (p.batch stamp) name) (.file bytes) = u at hlists hsaved hextends
  obtain ⟨e, he⟩ | ⟨read, before, hread, hbefore, hfile, hlisted⟩ :=
    list_steps { p with tree := u } stamp
      (Manifest.entry session file (p.batchPath stamp name) stamp) disk
  · rw [batch_withTree] at he
    exact .inl ⟨e, u, by rw [hlists, he]; rfl, .inl hextends⟩
  rw [batch_withTree, manifest_withTree] at hlisted
  obtain hdone | ⟨n, e, hcut, he⟩ := hlisted
  · rw [batch_withTree] at hread
    have hbatch : { p with tree := u }.tree.get? (p.batch stamp) = some .folder := hsaved.batch
    have hentries := toOption_bytesAt_manifest hbatch hread
    rw [manifest_withTree] at hentries
    exact .inr ⟨_, _, by rw [hlists, hdone]; rfl, hsaved.backedUp hne (by rw [hentries, hbefore])⟩
  · exact .inl ⟨_, _, by rw [hlists, he]; rfl, .inr ⟨u, _, n, e, hextends, hfile, hcut, rfl⟩⟩

/-! ## Writing over a file -/

/-- All that a write does that succeeds: what the session has seen is written over, and nothing
else; if a backup is wanted, it holds what was there, and it is listed, unless it is the manifest
that is written over. -/
structure Overwritten (p : Project) (backup : Bool) (r : SessionResult) (now : Instant)
    (w : WriteResult) (t : Tree) : Prop where
  seen : p.readSource (p.fileOf r) = .ok r.source
  changed : r.source ≠ r.fixed
  written : { p with tree := t }.read (p.fileOf r) = .ok (Utf8.encode r.fixed)
  unsaved : backup = false →
    w.backup = none ∧ ∀ l, l ≠ p.target r → t.get? l = p.tree.get? l
  saved : backup = true → ∃ path bytes, w.backup = some path ∧
    p.read (p.fileOf r) = .ok bytes ∧ p.Saves bytes now.stamp path t ∧
    (p.target r ≠ p.manifest now.stamp →
      p.ListsOneMore r.session.id (p.fileOf r) now.stamp path t) ∧
    p.ChangesOnly now.stamp [p.target r, p.placeIn now.stamp path, p.manifest now.stamp] t

/-- What there is before a file is written over: its backup, if one is wanted, which has been made
without failing. -/
def Secures (p : Project) (backup : Bool) (r : SessionResult) (bytes : Bytes) (now : Instant)
    (disk : Disk) (path : Option Path) (t : Tree) : Prop :=
  backup = false ∧ path = none ∧ t = p.tree ∨
    backup = true ∧ ∃ b, path = some b ∧
      p.backUp r.session.id (p.fileOf r) bytes now disk = (.ok b, { p with tree := t }) ∧
      p.BackedUp r.session.id (p.fileOf r) bytes now.stamp b t

/-- What is left of a write that fails before the file is written over: what could be read reads the
same, up to a manifest that the disk has broken off. -/
structure GivenUp (p : Project) (stamp : RawText) (disk : Disk) (t : Tree) : Prop where
  forborne : p.tree.Extends t ∨ p.Torn stamp disk t
  read : ∀ file bytes, p.read file = .ok bytes →
    { p with tree := t }.read file = .ok bytes ∨
      p.place file = p.manifest stamp ∧ p.Torn stamp disk t

/-- What is left of a write that fails when the file is written over: the backup, if one is wanted,
and the file as the disk has left it, as it was or with the first of the bytes it should have. -/
structure BrokenOff (p : Project) (backup : Bool) (r : SessionResult) (now : Instant) (disk : Disk)
    (t : Tree) : Prop where
  seen : p.readSource (p.fileOf r) = .ok r.source
  changed : r.source ≠ r.fixed
  secured : ∃ bytes path u, p.read (p.fileOf r) = .ok bytes ∧
    p.Secures backup r bytes now disk path u ∧
    ((∃ e, disk.takes u (p.target r) (Utf8.encode r.fixed) = .refused e) ∧ t = u ∨
      ∃ n e, disk.takes u (p.target r) (Utf8.encode r.fixed) = .cut n e ∧
        t = u.set (p.target r) (.file ((Utf8.encode r.fixed).take n)))

theorem GivenUp.refl (p : Project) (stamp : RawText) (disk : Disk) :
    p.GivenUp stamp disk p.tree :=
  ⟨.inl (.refl _), fun _ _ h => .inl h⟩

theorem givenUp_of_extends (h : p.tree.Extends t) (disk : Disk) : p.GivenUp stamp disk t :=
  ⟨.inl h, fun _ _ hread => .inl (read_eq_ok_iff.mpr (h.read (read_eq_ok_iff.mp hread)))⟩

theorem Torn.givenUp {disk : Disk} (h : p.Torn stamp disk t) : p.GivenUp stamp disk t := by
  refine ⟨.inr h, fun file bytes hread => or_iff_not_imp_right.mpr fun hother => ?_⟩
  have hne : p.place file ≠ p.manifest stamp := fun heq => hother ⟨heq, h⟩
  obtain ⟨u, manifest, n, e, hextends, hfile, -, rfl⟩ := h
  obtain ⟨l, hl, hat⟩ := Tree.read_eq_ok_iff.mp (hextends.read (read_eq_ok_iff.mp hread))
  obtain ⟨-, -, rfl⟩ := locate_eq_ok_iff (p := { p with tree := u }).mp hl
  refine read_eq_ok_iff.mpr (Tree.read_eq_ok_iff.mpr ⟨_, Tree.locate_mono hl fun k hk => ?_, ?_⟩)
  · rwa [Tree.get?_set_of_ne]
    rintro rfl
    exact hfile hk
  · exact (Tree.bytesAt_congr (Tree.get?_set_of_ne (Ne.symm hne) _)).trans hat

/-- A file that was there is reached after a backup is made, also if it is the manifest. -/
theorem Reaches.backedUp (h : p.Reaches file) (hthere : p.tree.get? (p.place file) ≠ none)
    (hfolders : ∀ l, p.tree.get? l = some .folder → t.get? l = some .folder)
    (hbacked : p.BackedUp session file bytes stamp backup t) :
    { p with tree := t }.Reaches file := by
  refine ⟨Tree.locate_mono h.1 hfolders, fun hfolder => h.2 ?_⟩
  rw [place_withTree] at hfolder
  by_cases hmanifest : p.place file = p.manifest stamp
  · obtain ⟨before, -, hlisted⟩ := hbacked.listed
    rw [hmanifest] at hfolder
    cases hlisted.symm.trans hfolder
  · have hplace : p.place file ≠ p.placeIn stamp backup := fun heq => hthere (heq ▸ hbacked.free)
    rw [← hbacked.others.get?_eq (by simp [hplace, hmanifest]) hthere]
    exact hfolder

/-- A file that is reached reads as it is written. -/
theorem Reaches.read_set (h : { p with tree := t }.Reaches file) (bytes : Bytes) :
    { p with tree := t.set (p.place file) (.file bytes) }.read file = .ok bytes := by
  obtain ⟨hl, hfile⟩ := h
  rw [place_withTree] at hl hfile
  refine read_eq_ok_iff.mpr (Tree.read_eq_ok_iff.mpr ⟨_, Tree.locate_mono hl fun k hk => ?_,
    Tree.bytesAt_of_file (Tree.get?_set_self _ _ _)⟩)
  rwa [Tree.get?_set_of_ne]
  rintro rfl
  exact hfile hk

/-- **Once a backup is listed, nothing but the disk keeps the file from being written over.** If
none can be made, whatever was there is as it was, up to a manifest that the disk has broken off. -/
theorem writeOver_cases (p : Project) (backup : Bool) (r : SessionResult) {bytes : Bytes}
    (hread : p.read (p.fileOf r) = .ok bytes) (now : Instant) (disk : Disk) :
    (∃ e t, p.writeOver backup r (p.fileOf r) bytes now disk = (.error e, { p with tree := t }) ∧
        (p.tree.Extends t ∨ p.Torn now.stamp disk t)) ∨
      ∃ path u, p.Secures backup r bytes now disk path u ∧
        { p with tree := u }.Reaches (p.fileOf r) ∧
        ((∃ w, p.writeOver backup r (p.fileOf r) bytes now disk =
              (.ok w, { p with tree := u.set (p.target r) (.file (Utf8.encode r.fixed)) }) ∧
            w.success = true ∧ w.backup = path) ∨
          (∃ e e', disk.takes u (p.target r) (Utf8.encode r.fixed) = .refused e' ∧
            p.writeOver backup r (p.fileOf r) bytes now disk = (.error e, { p with tree := u })) ∨
          ∃ n e, disk.takes u (p.target r) (Utf8.encode r.fixed) = .cut n e ∧
            p.writeOver backup r (p.fileOf r) bytes now disk = (.error (.tree e), { p with
              tree := u.set (p.target r) (.file ((Utf8.encode r.fixed).take n)) })) := by
  obtain ⟨hreach, -⟩ := reaches_of_read hread
  have hbackUp := p.backUp_cases r.session.id (p.fileOf r) bytes now disk
  obtain ⟨e, q, -, he, hover⟩ | ⟨path, q, hsaved, hover⟩ :=
    p.writeOver_steps backup r (p.fileOf r) bytes now disk
  · obtain ⟨e', t, ht, hleft⟩ | ⟨b, t, ht, -⟩ := hbackUp
    · obtain ⟨-, rfl⟩ := Prod.mk.inj (he.symm.trans ht)
      exact .inl ⟨e, t, hover, hleft⟩
    · cases he.symm.trans ht
  obtain ⟨u, rfl, hsecures, hreach⟩ : ∃ u, q = { p with tree := u } ∧
      p.Secures backup r bytes now disk path u ∧ { p with tree := u }.Reaches (p.fileOf r) := by
    obtain ⟨rfl, rfl, rfl⟩ | ⟨rfl, b, rfl, hb⟩ := hsaved
    · exact ⟨q.tree, rfl, .inl ⟨rfl, rfl, rfl⟩, hreach⟩
    obtain ⟨e', t, ht, -⟩ | ⟨b', u, hu, hbacked⟩ := hbackUp
    · cases hb.symm.trans ht
    obtain ⟨hpath, rfl⟩ := Prod.mk.inj (hb.symm.trans hu)
    obtain rfl := Except.ok.inj hpath
    obtain ⟨u', hu', hbrings⟩ := p.backUp_brings r.session.id (p.fileOf r) bytes now disk
    rw [hu] at hu'
    obtain rfl : u = u' := congrArg Project.tree hu'
    exact ⟨u, rfl, .inr ⟨rfl, b, rfl, hb, hbacked⟩,
      hreach.backedUp (get?_ne_none_of_read hread) hbrings.folders hbacked⟩
  refine .inr ⟨path, u, hsecures, hreach, ?_⟩
  have htarget : ∀ l, u.locate p.here (p.fileOf r) = .ok l → l = p.target r :=
    fun l hl => Except.ok.inj (hl.symm.trans hreach.1)
  obtain ⟨e, he, hrefused⟩ | ⟨l, hl, -, ⟨w, hsuccess, hw, hdone⟩ | ⟨n, e, hcut, he⟩⟩ := hover
  · obtain ⟨e', he'⟩ := hrefused _ hreach.1 hreach.2
    exact .inr (.inl ⟨e, e', he', he⟩)
  · rw [htarget l hl] at hdone
    exact .inl ⟨w, hdone, hsuccess, hw⟩
  · rw [htarget l hl] at hcut he
    exact .inr (.inr ⟨n, e, hcut, he⟩)

/-- A file that is written over after its backup is made: the backup stays, and so does its entry
unless that was in the file. -/
theorem overwritten {backup : Bool} {r : SessionResult} {now : Instant} {disk : Disk}
    {w : WriteResult}
    (hread : p.read (p.fileOf r) = .ok bytes) (hsource : readText bytes = r.source)
    (hchanged : r.source ≠ r.fixed) (hreach : { p with tree := t }.Reaches (p.fileOf r))
    (hsecures : p.Secures backup r bytes now disk w.backup t) :
    p.Overwritten backup r now w (t.set (p.target r) (.file (Utf8.encode r.fixed))) where
  seen := readSource_eq_ok_iff.mpr ⟨bytes, hread, hsource⟩
  changed := hchanged
  written := hreach.read_set _
  unsaved := fun hbackup => by
    rcases hsecures with ⟨-, hnone, rfl⟩ | ⟨hwanted, -⟩
    · exact ⟨hnone, fun l hl => Tree.get?_set_of_ne (Ne.symm hl) _⟩
    · rw [hbackup] at hwanted
      cases hwanted
  saved := fun hbackup => by
    rcases hsecures with ⟨hunwanted, -⟩ | ⟨-, path, hpath, -, hbacked⟩
    · rw [hbackup] at hunwanted
      cases hunwanted
    have hplace : p.target r ≠ p.placeIn now.stamp path := by
      intro heq
      have hfree := hbacked.free
      rw [← heq] at hfree
      exact get?_ne_none_of_read hread hfree
    refine ⟨path, bytes, hpath, hread, ⟨hbacked.path, hbacked.free, ?_⟩, fun hmanifest => ?_,
      fun l hl => ?_⟩
    · rw [Tree.get?_set_of_ne hplace, hbacked.held]
    · obtain ⟨before, hbefore, hlisted⟩ := hbacked.listed
      exact ⟨before, hbefore, by rw [Tree.get?_set_of_ne hmanifest, hlisted]⟩
    · rw [List.mem_cons, not_or] at hl
      rw [Tree.get?_set_of_ne (Ne.symm hl.1)]
      exact hbacked.others l hl.2

/-- **Writing is all or nothing.** A write that succeeds has done all of it, one that is refused has
changed nothing, and one that fails before the file is written over leaves every file as it was, up
to a manifest that the disk has broken off. One that fails when the file is written over has made
its backup before. -/
theorem write_all_or_nothing (p : Project) (backup : Bool) (r : SessionResult) (now : Instant)
    (disk : Disk) :
    ∃ t, (p.write backup r now disk).2 = { p with tree := t } ∧
      ((∃ w, (p.write backup r now disk).1 = .ok w ∧ w.success = false) ∧ t = p.tree ∨
        (∃ w, (p.write backup r now disk).1 = .ok w ∧ w.success = true ∧
          p.Overwritten backup r now w t) ∨
        (∃ e, (p.write backup r now disk).1 = .error e) ∧
          (p.GivenUp now.stamp disk t ∨ p.BrokenOff backup r now disk t)) := by
  rcases p.write_cases backup r now disk with
    ⟨hsame, hfailed⟩ | ⟨bytes, hread, hchanged, hsource, hover⟩
  · refine ⟨p.tree, hsame, ?_⟩
    cases hwrite : (p.write backup r now disk).1 with
    | error e => exact .inr (.inr ⟨⟨e, rfl⟩, .inl (.refl p _ _)⟩)
    | ok w => exact .inl ⟨⟨w, rfl, hfailed w hwrite⟩, rfl⟩
  replace hchanged : r.source ≠ r.fixed := fun heq => by
    unfold SessionResult.changed at hchanged
    simp [heq] at hchanged
  have hseen : p.readSource (p.fileOf r) = .ok r.source :=
    readSource_eq_ok_iff.mpr ⟨bytes, hread, hsource⟩
  rw [hover]
  obtain ⟨e, t, hwrite, hleft⟩ | ⟨path, u, hsecures, hreach, hwrite⟩ :=
    p.writeOver_cases backup r hread now disk
  · rw [hwrite]
    exact ⟨t, rfl, .inr (.inr ⟨⟨e, rfl⟩, .inl (hleft.elim (givenUp_of_extends · _) (·.givenUp))⟩)⟩
  obtain ⟨w, hwrite, hsuccess, rfl⟩ | ⟨e, e', hrefused, hwrite⟩ | ⟨n, e, hcut, hwrite⟩ := hwrite
  all_goals rw [hwrite]
  · exact ⟨_, rfl, .inr (.inl ⟨w, rfl, hsuccess,
      overwritten hread hsource hchanged hreach hsecures⟩)⟩
  · exact ⟨u, rfl, .inr (.inr ⟨⟨e, rfl⟩, .inr ⟨hseen, hchanged,
      bytes, path, u, hread, hsecures, .inl ⟨⟨e', hrefused⟩, rfl⟩⟩⟩)⟩
  · exact ⟨_, rfl, .inr (.inr ⟨⟨_, rfl⟩, .inr ⟨hseen, hchanged,
      bytes, path, u, hread, hsecures, .inr ⟨n, e, hcut, rfl⟩⟩⟩)⟩

/-- A write to the manifest in which its backup is listed succeeds and loses the entry: what the
manifest holds then is no list of backups. If the disk has no room for the manifest, the write fails
when the backup is listed, and its file is emptied all the same; so is any other file that the disk
has no room for when it is written over. -/
theorem write_unlists :
    let p := oneBatch [0x5b, 0x5d]
    let r := replaced ".remedy/backups/1970-01-01T00-00-00/manifest.json" "first" ['[', ']'] ['y']
    let r' := replaced "a.ts" "first" ['x'] ['y']
    let manifest := p.manifest (RawText.ofString (Instant.stamp ⟨0⟩))
    ((p.write true r ⟨0⟩).1.toOption.map (·.success) = some true ∧
        (p.write true r ⟨0⟩).2.tree.bytesAt manifest = .ok [0x79] ∧
        (Manifest.ofBytes [0x79]).isOk = false) ∧
      ((p.write true r ⟨0⟩ (fullAt manifest)).1.isOk = false ∧
        (p.write true r ⟨0⟩ (fullAt manifest)).2.tree.bytesAt manifest = .ok []) ∧
      (p.write true r' ⟨0⟩ (fullAt ["a.ts"])).1.isOk = false ∧
        (p.write true r' ⟨0⟩ (fullAt ["a.ts"])).2.tree.bytesAt ["a.ts"] = .ok [] := by
  decide +kernel

/-- A write whose backup cannot be listed fails, and the file keeps its bytes. -/
example :
    let p := oneBatch [0x79]
    let q := (p.write true (replaced "a.ts" "first" ['x'] ['y']) ⟨0⟩)
    q.1.isOk = false ∧ q.2.tree.bytesAt ["a.ts"] = .ok [0x78] := by
  decide +kernel

end Project

end Mend
