import Mend.Proofs.Project.Undo

/-!
# What is done with a project

A project is worked on by turns: results of sessions are written, sessions are undone, and people
change the files in between.

* `Intact.after`, `Intact.afterAll`: whatever is done, a project stays intact, and each write that
  succeeds adds what it keeps.
* `backups_survive`: what is kept stays listed and holds its bytes, and undoing its session restores
  its file and nothing else.
* `undoLast_restores`: undoing the latest batch restores each of its files to what it held before
  the first write of the batch, and nothing else; once more changes nothing.
-/

namespace Mend

/-- What is done with a project. -/
inductive Deed
  /-- The folder for what is kept about the project is made. -/
  | prepare
  | write (r : SessionResult) (now : Instant)
  | undo (session : String)
  | undoLast
  /-- The files are changed by others. -/
  | edit (t : Tree)

namespace Project

/-- The project after a deed. -/
def after (p : Project) : Deed → Project
  | .prepare => p.prepare.toOption.getD p
  | .write r now => (p.write true r now).2
  | .undo session => (p.undo session).2
  | .undoLast => p.undoLast.2
  | .edit t => { p with tree := t }

/-- The backups that a deed has made. -/
def made (p : Project) : Deed → List Kept
  | .write r now => p.keptBy r now
  | _ => []

/-- The project after some deeds. -/
def afterAll (p : Project) (ds : List Deed) : Project := ds.foldl after p

/-- The backups that some deeds have made, in that order. -/
def madeBy (p : Project) : List Deed → List Kept
  | [] => []
  | d :: ds => p.made d ++ (p.after d).madeBy ds

/-- Something holds of each deed, in the project as it is then. -/
def AllAlong (P : Project → Deed → Prop) : Project → List Deed → Prop
  | _, [] => True
  | p, d :: ds => P p d ∧ AllAlong P (p.after d) ds

theorem AllAlong.imp {P Q : Project → Deed → Prop} (hPQ : ∀ p d, P p d → Q p d) {p : Project}
    {ds : List Deed} (h : AllAlong P p ds) : AllAlong Q p ds := by
  induction ds generalizing p with
  | nil => trivial
  | cons d ds ih => exact ⟨hPQ p d h.1, ih h.2⟩

end Project

namespace Deed

/-- A deed of others leaves what is kept about the project and the way to the project. A write is,
at a moment that has a date, to a file that is not in the folder that is kept, by a path in front of
which that of the project is not put once more when it is undone. -/
def Spares (p : Project) : Deed → Prop
  | .write r now =>
    now.HasDate ∧ ¬ p.keep <+: p.target r ∧ p.path.join (p.fileOf r) = p.fileOf r
  | .edit t => p.Spares t
  | _ => True

/-- A deed of others changes files only, and no folders. -/
def KeepsFolders (p : Project) : Deed → Prop
  | .edit t => p.KeepsFolders t
  | _ => True

end Deed

namespace Project

variable {p : Project} {ks : List Kept} {k : Kept} {d : Deed} {ds : List Deed}

/-! ## One deed -/

/-- **Whatever is done, a project stays intact**, and what a write keeps is added. -/
theorem Intact.after (h : p.Intact ks) (hd : d.Spares p) :
    (p.after d).Intact (ks ++ p.made d) := by
  cases d with
  | prepare =>
    simp only [made, List.append_nil]
    unfold Project.after
    cases hq : p.prepare with
    | error e => exact h
    | ok q => exact (h.prepare hq).1
  | write r now =>
    obtain ⟨t, ht, -, hintact, -⟩ := h.write hd.1 hd.2.1 hd.2.2
    show (p.write true r now).2.Intact (ks ++ p.keptBy r now)
    rw [ht]
    exact hintact
  | undo session =>
    simp only [made, List.append_nil]
    exact h.restored (h.undo session)
  | undoLast =>
    simp only [made, List.append_nil]
    exact h.restored h.undoLast
  | edit t =>
    simp only [made, List.append_nil]
    exact h.spared hd

/-- No deed changes folders outside of the folder that is kept, unless others do. -/
theorem Intact.keepsFolders (h : p.Intact ks) (hd : d.Spares p) (hfolders : d.KeepsFolders p) :
    ∃ t, p.after d = { p with tree := t } ∧ p.KeepsFolders t := by
  cases d with
  | prepare =>
    unfold Project.after
    cases hq : p.prepare with
    | error e => exact ⟨p.tree, rfl, .refl p⟩
    | ok q =>
      obtain ⟨-, t, rfl, hadds⟩ := h.prepare hq
      exact ⟨t, rfl, .of_adds hadds⟩
  | write r now =>
    obtain ⟨t, ht, hkeeps, -⟩ := h.write hd.1 hd.2.1 hd.2.2
    exact ⟨t, ht, hkeeps⟩
  | undo session =>
    obtain ⟨t, ht, -, hkeeps⟩ := h.undo session
    exact ⟨t, ht, hkeeps⟩
  | undoLast =>
    obtain ⟨t, ht, -, hkeeps⟩ := h.undoLast
    exact ⟨t, ht, hkeeps⟩
  | edit t => exact ⟨t, rfl, hfolders⟩

/-- A backup that is made is of a file that is reached. -/
theorem Intact.reaches_of_mem_made (h : p.Intact ks) (hd : d.Spares p) (hk : k ∈ p.made d) :
    p.Reaches k.file := by
  cases d with
  | write r now =>
    obtain ⟨-, -, -, -, hmade⟩ := h.write hd.1 hd.2.1 hd.2.2
    exact (hmade k hk).1
  | _ => cases hk

/-- A file that is reached stays so while the folders are left. -/
theorem Intact.reaches_after (h : p.Intact ks) (hd : d.Spares p) (hfolders : d.KeepsFolders p)
    (hreach : k ∈ ks → p.Reaches k.file) (hk : k ∈ ks ++ p.made d) :
    (p.after d).Reaches k.file := by
  obtain ⟨t, ht, hkeeps⟩ := h.keepsFolders hd hfolders
  have hproper : k.Proper { p with tree := t } := ht ▸ (h.after hd).kept k hk
  have hbefore : p.Reaches k.file :=
    (List.mem_append.mp hk).elim hreach (h.reaches_of_mem_made hd)
  rw [ht]
  exact hbefore.mono (hproper.withTree p.tree).source hkeeps

/-! ## Many deeds -/

/-- **Whatever is done over time, a project stays intact**, and what is written is kept. -/
theorem Intact.afterAll (h : p.Intact ks) (hds : AllAlong (fun p d => d.Spares p) p ds) :
    (p.afterAll ds).Intact (ks ++ p.madeBy ds) := by
  induction ds generalizing p ks with
  | nil =>
    simp only [madeBy, List.append_nil]
    exact h
  | cons d ds ih =>
    have hrest := ih (h.after hds.1) hds.2
    rwa [List.append_assoc] at hrest

theorem Intact.reaches_afterAll (h : p.Intact ks)
    (hds : AllAlong (fun p d => d.Spares p ∧ d.KeepsFolders p) p ds)
    (hreach : k ∈ ks → p.Reaches k.file) (hk : k ∈ ks ++ p.madeBy ds) :
    (p.afterAll ds).Reaches k.file := by
  induction ds generalizing p ks with
  | nil =>
    simp only [madeBy, List.append_nil] at hk
    exact hreach hk
  | cons d ds ih =>
    refine ih (h.after hds.1.1) hds.2 (h.reaches_after hds.1.1 hds.1.2 hreach) ?_
    rwa [List.append_assoc]

/-! ## Undoing at any time -/

/-- **What is kept stays listed and holds its bytes, and undoing its session puts them back**, after
any deeds that leave alone what is kept about the project and the folders outside of it, in any
order and at any moments, as long as no two writes that succeed are for the same session. Nothing
but the file changes then. -/
theorem backups_survive (h : p.Intact ks)
    (hds : AllAlong (fun p d => d.Spares p ∧ d.KeepsFolders p) p ds)
    (hsessions : ((ks ++ p.madeBy ds).map Kept.session).Nodup) (hk : k ∈ ks ++ p.madeBy ds)
    (hreach : k ∈ ks → p.Reaches k.file) :
    (∃ all, (p.afterAll ds).saved = .ok all ∧ k.saved ∈ all) ∧
      (p.afterAll ds).read k.backup = .ok k.bytes ∧
      (p.afterAll ds).tree.locate (p.afterAll ds).here k.file =
        .ok ((p.afterAll ds).place k.file) ∧
      ∃ w q, (p.afterAll ds).undo k.session = (.ok w, q) ∧ w.success = true ∧
        ∀ l, q.tree.get? l =
          if (p.afterAll ds).place k.file = l then some (.file k.bytes)
          else (p.afterAll ds).tree.get? l := by
  have hintact : (p.afterAll ds).Intact (ks ++ p.madeBy ds) :=
    h.afterAll (AllAlong.imp (fun _ _ hd => hd.1) hds)
  have hreached := h.reaches_afterAll hds hreach hk
  have hunique : ∀ k' ∈ ks ++ p.madeBy ds, k'.session = k.session → k' = k :=
    fun k' hk' hsession => List.inj_on_of_nodup_map hsessions hk' hk hsession
  obtain ⟨all, hall, hlisted⟩ := hintact.saved hk
  obtain ⟨w, hw, hrestore⟩ := hintact.restore_eq hk hreached
  refine ⟨⟨all, hall, hlisted k hk⟩, ?_, hreached.1, w, _,
    (hintact.undo_eq hk hunique).trans hrestore, hw, Tree.get?_set _ _ _⟩
  unfold read
  rw [(hintact.read_backup hk).2]
  rfl

/-- A project with one source. -/
def oneSource : Project where
  root := []
  tree := ⟨[([], .folder), (["a.ts"], .file [0x78])]⟩

/-- A project with one source and one batch, with the given bytes in its manifest. -/
def oneBatch (manifest : Bytes) : Project :=
  let folders := (oneSource.tree.set oneSource.keep .folder).set oneSource.backups .folder
  let batch := oneSource.batch "1970-01-01T00-00-00"
  { oneSource with tree :=
      (folders.set batch .folder).set (batch ++ [Manifest.fileName]) (.file manifest) }

/-- A project with one source that is given from the folder around it. -/
def oneBelow : Project where
  root := ["src"]
  tree := ⟨[([], .folder), (["src"], .folder), (["src", "a.ts"], .file [0x78])]⟩
  here := []
  path := { names := ["src"] }

/-- A disk that has no room for what is written to a location: writing there empties the file. -/
def fullAt (l : Location) : Disk where
  takes := fun _ k _ => if k = l then .cut 0 .unwritable else .whole

/-- A session that has found one text in a file, and left another one. -/
def replaced (file id : String) (source fixed : Text) : SessionResult where
  session := { id, file, started := ⟨0⟩ }
  source
  fixed

/-- One source is written twice within a second. -/
def twice : List Deed :=
  [.write (replaced "a.ts" "first" ['x'] ['y']) ⟨0⟩,
    .write (replaced "a.ts" "second" ['y'] ['z']) ⟨0⟩]

theorem intact_oneSource : oneSource.Intact [] := by
  have hled : oneSource.Led := .of_root rfl (by simp [oneSource]) fun l hl => by
    rw [List.prefix_nil.mp hl]
    rfl
  have hplain : oneSource.path.Plain := ⟨by decide, by simp [oneSource], by simp [oneSource]⟩
  refine Proper.intact ⟨hled, hplain, fun stamp name hstamp hname => ?_⟩ fun stamp => ?_
  · have htext : (oneSource.batchPath stamp name).text =
        [Path.slash] ++ keepName ++ [Path.slash] ++ backupsName ++ [Path.slash] ++ stamp ++
          [Path.slash] ++ name := by
      simp [Path.text, batchPath, Path.join, Path.isAbsolute, oneSource, List.intercalate]
    have hslash : Tree.byteCount [Path.slash] = 1 := by decide
    have hkeep : Tree.byteCount keepName = 7 := by decide
    have hbackups : Tree.byteCount backupsName = 7 := by decide
    rw [htext]
    simp only [Tree.byteCount_append, hslash, hkeep, hbackups]
    unfold Tree.nameLimit at hname
    unfold Tree.pathLimit
    omega
  · simp [Tree.get?, oneSource, manifest, batch, backups, keep]

theorem spares_twice :
    AllAlong (fun p d => d.Spares p ∧ d.KeepsFolders p) oneSource twice :=
  ⟨⟨⟨by decide, by decide +kernel, by decide⟩, trivial⟩,
    ⟨⟨by decide, by decide +kernel, by decide +kernel⟩, trivial⟩, trivial⟩

theorem oneSource_twice :
    (oneSource.madeBy twice).map (fun k => (k.session, oneSource.place k.file, k.bytes)) =
        [("first", [RawText.ofString "a.ts"], [0x78]),
          ("second", [RawText.ofString "a.ts"], [0x79])] ∧
      (oneSource.afterAll twice).tree.namesIn (oneSource.afterAll twice).backups =
        [RawText.ofString "1970-01-01T00-00-00"] := by
  decide +kernel

/-- Both backups of a source that is written twice within a second survive. -/
theorem backups_survive_sample :
    (oneSource.madeBy twice).map Kept.session = ["first", "second"] ∧
      ∀ k ∈ oneSource.madeBy twice,
        (∃ all, (oneSource.afterAll twice).saved = .ok all ∧ k.saved ∈ all) ∧
        (oneSource.afterAll twice).read k.backup = .ok k.bytes ∧
        (oneSource.afterAll twice).tree.locate (oneSource.afterAll twice).here k.file =
          .ok ((oneSource.afterAll twice).place k.file) ∧
        ∃ w q, (oneSource.afterAll twice).undo k.session = (.ok w, q) ∧ w.success = true ∧
          ∀ l, q.tree.get? l =
            if (oneSource.afterAll twice).place k.file = l then some (.file k.bytes)
            else (oneSource.afterAll twice).tree.get? l := by
  have hsessions : (oneSource.madeBy twice).map Kept.session = ["first", "second"] := by
    have hfirst := congrArg (List.map Prod.fst) oneSource_twice.1
    rwa [List.map_map] at hfirst
  refine ⟨hsessions, fun k hk => ?_⟩
  refine backups_survive intact_oneSource spares_twice ?_ (List.mem_append_right [] hk) (by simp)
  rw [List.nil_append, hsessions]
  decide

/-- A write that succeeds cannot be undone if its manifest lists something else than backups, if it
was to the manifest itself, if the project was given by a path from the folder that one is in, or if
the disk breaks off the manifest when another write is listed there. -/
theorem undo_needs_manifests :
    let r := replaced "a.ts" "first" ['x'] ['y']
    let p := oneBatch [0x5b, 0x31, 0x5d]
    let r' := replaced ".remedy/backups/1970-01-01T00-00-00/manifest.json" "first" ['[', ']'] ['y']
    let p' := oneBatch [0x5b, 0x5d]
    ((p.keptBy r ⟨0⟩).map Kept.session = ["first"] ∧
        ((p.write true r ⟨0⟩).2.undo "first").1.isOk = false) ∧
      ((p'.keptBy r' ⟨0⟩).map Kept.session = ["first"] ∧
        ((p'.write true r' ⟨0⟩).2.undo "first").1.isOk = false) ∧
      ((oneBelow.keptBy r ⟨0⟩).map Kept.session = ["first"] ∧
        ((oneBelow.write true r ⟨0⟩).2.undo "first").1.isOk = false) ∧
      let q := (oneSource.write true r ⟨0⟩).2
      let torn := (q.write true (replaced "a.ts" "second" ['y'] ['z']) ⟨0⟩
        (fullAt (q.manifest "1970-01-01T00-00-00"))).2
      (oneSource.keptBy r ⟨0⟩).map Kept.session = ["first"] ∧
        (torn.undo "first").1.isOk = false := by
  decide +kernel

/-! ## Undoing the latest batch -/

/-- **Undoing the latest batch restores each of its files to what it held before the first write of
the batch**, whatever was done before, as long as the files can still be reached; it changes nothing
else, and once more it changes nothing. -/
theorem undoLast_restores (h : p.Intact ks) (hds : AllAlong (fun p d => d.Spares p) p ds)
    {stamp : RawText} (hlatest : (p.afterAll ds).Latest stamp)
    (hreach : ∀ k ∈ ks ++ p.madeBy ds, k.stamp = stamp → (p.afterAll ds).Reaches k.file) :
    ∃ ws q, (p.afterAll ds).undoLast = (.ok ws, q) ∧ (∀ w ∈ ws, w.success = true) ∧
      (∀ l, q.tree.get? l =
        (p.afterAll ds).restoredAt ((ks ++ p.madeBy ds).filter (·.stamp = stamp)) l) ∧
      ∃ ws' q', q.undoLast = (.ok ws', q') ∧ ∀ l, q'.tree.get? l = q.tree.get? l := by
  have hintact := h.afterAll hds
  obtain ⟨ws, hws, hsuccess, hget⟩ := hintact.undoLast_eq hlatest hreach
  have hrestored := hintact.undoLast
  obtain ⟨ws', hws', -, hget'⟩ :=
    (hintact.restored hrestored).undoLast_eq (hlatest.restored hrestored) fun k hk hstamp =>
      (hreach k hk hstamp).restored (hintact.kept k hk).source hrestored
  refine ⟨ws, _, Prod.ext hws rfl, hsuccess, hget, ws', _, Prod.ext hws' rfl, fun l => ?_⟩
  rw [hget' l]
  unfold restoredAt
  rw [hrestored.place_eq]
  split
  · next k hk =>
    rw [hget l]
    unfold restoredAt
    rw [hk]
  · rfl

/-- Undoing a batch in which one source was written twice. -/
theorem undoLast_restores_sample :
    ∃ ws q, (oneSource.afterAll twice).undoLast = (.ok ws, q) ∧ (∀ w ∈ ws, w.success = true) ∧
      (∀ l, q.tree.get? l = (oneSource.afterAll twice).restoredAt
        ((oneSource.madeBy twice).filter (·.stamp = .ofString "1970-01-01T00-00-00")) l) ∧
      ∃ ws' q', q.undoLast = (.ok ws', q') ∧ ∀ l, q'.tree.get? l = q.tree.get? l := by
  have hspares := AllAlong.imp (fun _ _ hd => hd.1) spares_twice
  obtain ⟨k, hk⟩ : ∃ k, k ∈ oneSource.madeBy twice := by
    refine List.exists_mem_of_ne_nil _ fun hnil => ?_
    have hmade := oneSource_twice.1
    rw [hnil] at hmade
    cases hmade
  have hlatest : (oneSource.afterAll twice).Latest (.ofString "1970-01-01T00-00-00") := by
    refine ⟨?_, ?_, ?_⟩
    · exact ((intact_oneSource.afterAll hspares).hasBatch k (List.mem_append_right [] hk)).backups
    · rw [oneSource_twice.2]
      exact List.mem_singleton_self _
    · rw [oneSource_twice.2]
      decide
  have hundone := undoLast_restores intact_oneSource hspares hlatest fun k hk _ =>
    intact_oneSource.reaches_afterAll spares_twice (by simp) hk
  rwa [List.nil_append] at hundone

/-- Undoing the latest batch says that it restores a file also if someone has changed its backup, or
has put a folder in its place; but then the file does not hold what it held. Nor does it if the
project was given by a path from the folder that one is in, or if the disk has broken off the
manifest. -/
theorem undoLast_trusts_files :
    let file : Path := ⟨1, ["a.ts"]⟩
    let p := oneSource.after (.write (replaced "a.ts" "first" ['x'] ['y']) ⟨0⟩)
    let backup := p.batch "1970-01-01T00-00-00" ++ [RawText.ofString "a.ts.bak"]
    let changed := p.after (.edit (p.tree.set backup (.file [0x71])))
    let moved := p.after (.edit (p.tree.set ["a.ts"] .folder))
    let below := oneBelow.after (.write (replaced "a.ts" "first" ['x'] ['y']) ⟨0⟩)
    let torn := (p.write true (replaced "a.ts" "second" ['y'] ['z']) ⟨0⟩
      (fullAt (p.manifest "1970-01-01T00-00-00"))).2
    oneSource.read file = .ok [0x78] ∧
      (changed.undoLast.1.toOption.map (·.map (·.success)) = some [true] ∧
        changed.undoLast.2.read file = .ok [0x71]) ∧
      (moved.undoLast.1.toOption.map (·.map (·.success)) = some [true] ∧
        moved.undoLast.2.read file = .error (.tree .isAFolder)) ∧
      (below.undoLast.1.isOk = false ∧
        below.undoLast.2.read ⟨0, ["src", "a.ts"]⟩ = .ok [0x79]) ∧
      torn.undoLast.1.isOk = false ∧ torn.undoLast.2.read file = .ok [0x79] := by
  decide +kernel

end Project

end Mend
