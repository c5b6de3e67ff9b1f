import Mathlib.Data.List.Nodup
import Mend.Proofs.Project.Intact

/-!
# Writing keeps backups

* `freeName_spec`: the name that a backup is given is not taken.
* `IntactIn.backUp`: a backup that is made is kept from then on, and so are those that were.
* `IntactIn.write`: a write that succeeds keeps what its file held; one that does not keeps nothing
  more.
-/

namespace Mend.Project

open Utf8 (IsAscii)

/-! ## Names of backups -/

/-- What the name of the `n`-th backup has between that of the file and the ending. -/
def mark (n : Nat) : Text := if n = 0 then [] else '.' :: Nat.toDigits 10 n

theorem mark_of_ne_zero {n : Nat} (h : n ≠ 0) : mark n = '.' :: Nat.toDigits 10 n := if_neg h

theorem mark_injective {m n : Nat} (h : mark m = mark n) : m = n := by
  by_cases hm : m = 0 <;> by_cases hn : n = 0
  · rw [hm, hn]
  · rw [hm, mark_of_ne_zero hn] at h
    cases h
  · rw [hn, mark_of_ne_zero hm] at h
    cases h
  · rw [mark_of_ne_zero hm, mark_of_ne_zero hn] at h
    rw [← Nat.ofDigitChars_ten_toDigits (n := m), (List.cons.inj h).2,
      Nat.ofDigitChars_ten_toDigits]

theorem mem_mark {n : Nat} {c : Char} (h : c ∈ mark n) : c = '.' ∨ c.isDigit = true := by
  by_cases hn : n = 0
  · rw [hn] at h
    cases h
  · rw [mark_of_ne_zero hn] at h
    exact (List.mem_cons.mp h).imp_right (Nat.isDigit_of_mem_toDigits (by omega) (by omega))

theorem isAscii_mark (n : Nat) : IsAscii (mark n) := by
  intro c hc
  rcases mem_mark hc with rfl | hdigit
  · decide
  · exact Utf8.toNat_lt_of_isDigit hdigit

theorem backupName_eq (name : RawText) (n : Nat) :
    backupName name n = name ++ (mark n ++ ['.', 'b', 'a', 'k']).map .char := by
  unfold backupName RawText.ofString
  by_cases hn : n = 0
  · rw [hn]
    rfl
  · rw [if_neg hn, mark_of_ne_zero hn]
    simp [toString, Nat.repr]

/-- Names of backups end as those do. -/
theorem backupName_eq_append (name : RawText) (n : Nat) :
    backupName name n = name ++ (mark n).map .char ++ Kept.ending := by
  have hending : (['.', 'b', 'a', 'k'] : Text).map .char = Kept.ending := rfl
  rw [backupName_eq, List.map_append, hending, List.append_assoc]

theorem backupName_ne (name : RawText) (n : Nat) {s : RawText}
    (h : s.getLast? ≠ some (.char 'k')) : backupName name n ≠ s := by
  rw [backupName_eq_append]
  exact Kept.append_ending_ne _ h

theorem backupName_ne_around (name : RawText) (n : Nat) : backupName name n ≠ Tree.around :=
  backupName_ne name n (by decide)

theorem decode_backupName (name : RawText) (n : Nat) :
    Utf8.decode (Utf8.encodeRaw (backupName name n)) =
      Utf8.decode (Utf8.encodeRaw name) ++ (mark n).map .char ++ Kept.ending := by
  have hending : (['.', 'b', 'a', 'k'] : Text).map .char = Kept.ending := rfl
  have hascii : IsAscii (mark n ++ ['.', 'b', 'a', 'k']) := by
    unfold IsAscii
    rw [List.forall_mem_append]
    exact ⟨isAscii_mark n, by simp⟩
  rw [backupName_eq, Utf8.decode_encodeRaw_append hascii, List.map_append, hending,
    List.append_assoc]

/-- No two backups of files of the same name are in the same place. -/
theorem next_backupName_injective (batch : Location) (name : RawText) {m n : Nat}
    (h : Tree.next batch (backupName name m) = Tree.next batch (backupName name n)) : m = n := by
  rw [Tree.next_eq (backupName_ne_around _ _), Tree.next_eq (backupName_ne_around _ _),
    decode_backupName, decode_backupName, List.append_assoc, List.append_assoc] at h
  have hmarks := List.append_cancel_left (List.cons.inj (List.append_cancel_left h)).1
  have hchars := List.append_cancel_right hmarks
  exact mark_injective (List.map_injective_iff.mpr (fun _ _ => Point.char.inj) hchars)

/-- **The name that a backup is given is not taken.** There are more names than entries, so one of
them is free. -/
theorem freeName_spec (t : Tree) (batch : Location) (name : RawText) :
    (∃ n, freeName t batch name = backupName name n) ∧
      t.get? (Tree.next batch (freeName t batch name)) = none := by
  obtain ⟨found, hfound⟩ : ∃ n, (List.range (t.entries.length + 1)).find?
      (fun n => (t.get? (Tree.next batch (backupName name n))).isNone) = some n := by
    by_contra hnone
    have hall := List.find?_eq_none.mp (Option.eq_none_iff_forall_ne_some.mpr (not_exists.mp hnone))
    have hnodup : ((List.range (t.entries.length + 1)).map
        fun n => Tree.next batch (backupName name n)).Nodup :=
      List.nodup_range.map fun m n => next_backupName_injective batch name
    have htaken : ((List.range (t.entries.length + 1)).map
        fun n => Tree.next batch (backupName name n)) ⊆ t.entries.map Prod.fst := by
      intro l hl
      obtain ⟨n, hn, rfl⟩ := List.mem_map.mp hl
      exact Tree.isSome_lookup_iff.mp (by simpa [Tree.get?] using hall n hn)
    have hlength := hnodup.length_le_of_subset htaken
    rw [List.length_map, List.length_range, List.length_map] at hlength
    omega
  have hname : freeName t batch name = backupName name found := by
    unfold freeName
    dsimp only
    rw [hfound, Option.getD_some]
  refine ⟨⟨found, hname⟩, ?_⟩
  rw [hname]
  simpa using List.find?_some hfound

/-- **What listing a backup does.** It changes nothing, or it writes the manifest of the batch anew,
with one entry more, as far as the disk takes it. -/
theorem list_steps (p : Project) (stamp : RawText) (entry : Json) (disk : Disk) :
    (∃ e, p.list (p.batch stamp) entry disk = (.error e, p)) ∨
      ∃ bytes before, p.manifestBytes? (p.batch stamp) = .ok bytes ∧
        Manifest.toExtend bytes = .ok before ∧ p.tree.get? (p.manifest stamp) ≠ some .folder ∧
        let manifest := Manifest.toBytes (before ++ [entry])
        (p.list (p.batch stamp) entry disk =
            (.ok (), { p with tree := p.tree.set (p.manifest stamp) (.file manifest) }) ∨
          ∃ n e, disk.takes p.tree (p.manifest stamp) manifest = .cut n e ∧
            p.list (p.batch stamp) entry disk = (.error (.tree e),
              { p with tree := p.tree.set (p.manifest stamp) (.file (manifest.take n)) })) := by
  have hmanifest : p.batch stamp ++ [Manifest.fileName] = p.manifest stamp := rfl
  unfold Project.list
  rw [hmanifest]
  dsimp only
  split
  · exact .inl ⟨_, rfl⟩
  split
  · exact .inl ⟨_, rfl⟩
  next bytes hbytes =>
  split
  · exact .inl ⟨_, rfl⟩
  next before hbefore =>
  rcases Tree.writeOn_cases disk p.tree (p.manifest stamp) (Manifest.toBytes (before ++ [entry]))
    with ⟨e, -, he⟩ | ⟨hfile, hdone | ⟨n, e, hcut, he⟩⟩
  · exact .inl ⟨_, by rw [he]; rfl⟩
  · exact .inr ⟨bytes, before, hbytes, hbefore, hfile, .inl (by rw [hdone]; rfl)⟩
  · exact .inr ⟨bytes, before, hbytes, hbefore, hfile, .inr ⟨n, e, hcut, by rw [he]; rfl⟩⟩

/-- **What a backup does.** It makes the folder of its batch, then saves the bytes where nothing is,
and then lists what it has saved; if one of that fails, it goes no further. -/
theorem backUp_steps (p : Project) (session : String) (file : Path) (bytes : Bytes) {now : Instant}
    {stamp : RawText} (hstamp : stamp = RawText.ofString now.stamp) (disk : Disk) :
    ∃ done t, p.tree.makeOn disk p.root [keepName, backupsName, stamp] = (done, t) ∧
      ((∃ e, p.backUp session file bytes now disk = (.error e, { p with tree := t })) ∨
        ∃ name n, done = .ok () ∧ name = backupName file.name n ∧
          Tree.byteCount name ≤ Tree.nameLimit ∧
          t.get? (Tree.next (p.batch stamp) name) = none ∧
          ((∃ m e, p.backUp session file bytes now disk = (.error e, { p with
              tree := t.set (Tree.next (p.batch stamp) name) (.file (bytes.take m)) })) ∨
            let saved := { p with tree := t.set (Tree.next (p.batch stamp) name) (.file bytes) }
            let backup := p.batchPath stamp name
            let listed := saved.list (p.batch stamp) (Manifest.entry session file backup stamp) disk
            p.backUp session file bytes now disk = (listed.1.map fun _ => backup, listed.2))) := by
  unfold Project.backUp
  rw [← hstamp]
  dsimp only
  split
  · next e t ht => exact ⟨_, t, ht, .inl ⟨_, rfl⟩⟩
  next t ht =>
  refine ⟨_, t, ht, ?_⟩
  have hbatch : p.backups ++ [stamp] = p.batch stamp := rfl
  rw [hbatch]
  obtain ⟨⟨n, hn⟩, hfree⟩ := freeName_spec t (p.batch stamp) file.name
  split
  · exact .inl ⟨_, rfl⟩
  next hshort =>
  rcases Tree.writeOn_cases disk t (Tree.next (p.batch stamp) (freeName t (p.batch stamp) file.name))
    bytes with ⟨e, -, he⟩ | ⟨-, hdone | ⟨m, e, -, he⟩⟩
  · rw [he]
    exact .inl ⟨_, rfl⟩
  · rw [hdone]
    exact .inr ⟨_, n, rfl, hn, Nat.not_lt.mp hshort, hfree, .inr rfl⟩
  · rw [he]
    exact .inr ⟨_, n, rfl, hn, Nat.not_lt.mp hshort, hfree, .inl ⟨m, _, rfl⟩⟩

/-- The name of a backup is a proper name if it is not too long. -/
theorem IsSource.proper_backupName {p : Project} {file : Path} (h : p.IsSource file) (n : Nat)
    (hshort : Tree.byteCount (backupName file.name n) ≤ Tree.nameLimit) :
    Name.Proper (backupName file.name n) := by
  obtain ⟨hwritable, hnul, -⟩ := Tree.refusal?_eq_none_iff.mp h.refusal
  have hname : file.name.all Tree.isWritable = true ∧ Path.slash ∉ file.name ∧
      file.name.contains (.char '\x00') = false := by
    unfold Path.name
    cases hlast : file.names.getLast? with
    | none => exact ⟨rfl, List.not_mem_nil, rfl⟩
    | some name =>
      have hmem : name ∈ file.names := List.mem_of_getLast? hlast
      exact ⟨hwritable name hmem, h.plain.slash_not_mem name hmem, hnul name hmem⟩
  obtain ⟨hwritable, hslash, hnul⟩ := hname
  -- none of what stands behind the name of the file is a slash or a zero
  have hbehind : ∀ c ∈ mark n ++ ['.', 'b', 'a', 'k'], c ≠ '/' ∧ c ≠ '\x00' := by
    rw [List.forall_mem_append]
    refine ⟨fun c hc => ?_, by simp⟩
    rcases mem_mark hc with rfl | hdigit
    · decide
    · constructor <;> rintro rfl <;> cases hdigit
  have habsent : ∀ {x : Char}, (∀ c ∈ mark n ++ ['.', 'b', 'a', 'k'], c ≠ x) →
      Point.char x ∉ (mark n ++ ['.', 'b', 'a', 'k']).map .char := by
    intro x hx hmem
    obtain ⟨c, hc, hcx⟩ := List.mem_map.mp hmem
    exact hx c hc (Point.char.inj hcx)
  refine ⟨?_, ?_, ?_, ?_, backupName_ne_around _ _, hshort⟩
  · unfold Path.isName
    rw [Bool.and_eq_true, bne_iff_ne, bne_iff_ne]
    exact ⟨backupName_ne _ _ (by decide), backupName_ne _ _ (by decide)⟩
  · rw [backupName_eq, List.mem_append, not_or]
    exact ⟨hslash, habsent fun c hc => (hbehind c hc).1⟩
  · rw [backupName_eq, List.all_append, hwritable, Tree.all_isWritable_map_char]
    rfl
  · rw [← Bool.not_eq_true, List.contains_iff_mem] at hnul ⊢
    rw [backupName_eq, List.mem_append, not_or]
    exact ⟨hnul, habsent fun c hc => (hbehind c hc).2⟩

/-! ## Making a backup -/

variable {p : Project} {S : RawText → Prop} {ks : List Kept} {stamp : RawText}

/-- The folders of a batch are in the folder that is kept, and none of them is in the place of a
manifest. -/
theorem made_batch {l : Location} (h : Tree.Made p.root [keepName, backupsName, stamp] l) :
    p.keep <+: l ∧ ∀ stamp', l ≠ p.manifest stamp' := by
  obtain ⟨made, hne, hprefix, rfl⟩ := h
  refine ⟨?_, fun stamp' heq => ?_⟩
  · cases made with
    | nil => exact absurd rfl hne
    | cons n made =>
      obtain rfl := (List.cons_prefix_cons.mp hprefix).1
      exact ⟨made, by simp [keep]⟩
  · have hlength := congrArg List.length heq
    have hshort := hprefix.length_le
    simp [manifest, batch, backups, keep] at hlength hshort
    omega

namespace IntactIn

/-- Making the folders for a batch leaves a project intact, also if that fails. -/
theorem makeBatch (h : p.IntactIn S ks) {disk : Disk} {done : Except TreeError Unit} {t : Tree}
    (ht : p.tree.makeOn disk p.root [keepName, backupsName, stamp] = (done, t)) :
    { p with tree := t }.IntactIn S ks ∧ p.Adds t ∧
      (done = .ok () → { p with tree := t }.HasBatch stamp) := by
  obtain ⟨hothers, hmade⟩ := Tree.makeOn_spec ht
  have hold : ∀ l e, p.tree.get? l = some e → t.get? l = some e := by
    intro l e hl
    rcases hothers l with heq | ⟨-, hnone, -⟩
    · rw [heq, hl]
    · rw [hl] at hnone
      cases hnone
  have hadds : p.Adds t := by
    refine ⟨fun l hl => (hothers l).resolve_right fun h => hl (made_batch h.1).1, ?_⟩
    exact fun l hl => hold l _ hl
  refine ⟨?_, hadds, fun hdone => ⟨?_, ?_, ?_⟩⟩
  · refine h.congr (hadds.way h.proper.toLed) (fun l _ => hadds.folders l) (fun k hk => ?_) ?_
    · rw [h.held k hk]
      exact hold _ _ (h.held k hk)
    · intro stamp' hstamp'
      refine (h.listed stamp' hstamp').congr ((hothers _).resolve_right fun hl => ?_)
      exact (made_batch hl.1).2 stamp' rfl
  · exact hmade hdone _ ⟨[keepName], by simp, by simp, rfl⟩
  · exact hmade hdone _ ⟨[keepName, backupsName], by simp, by simp, by simp [backups, keep]⟩
  · exact hmade hdone _ ⟨_, by simp, List.prefix_refl _, by simp [batch, backups, keep]⟩

/-- An entry that is put where nothing is, and no manifest would be, leaves a project intact. -/
theorem set_of_none (h : p.IntactIn S ks) {l : Location} (hkeep : p.keep <+: l)
    (hnone : p.tree.get? l = none) (hmanifest : ∀ stamp, l ≠ p.manifest stamp) (e : Entry) :
    { p with tree := p.tree.set l e }.IntactIn S ks := by
  have hadds : p.Adds (p.tree.set l e) := .set hkeep (by simp [hnone]) e
  refine h.congr (hadds.way h.proper.toLed) (fun l _ => hadds.folders l) (fun k hk => ?_)
    fun stamp hstamp => ?_
  · refine Tree.get?_set_of_ne (fun heq => ?_) _
    rw [heq, h.held k hk] at hnone
    cases hnone
  · exact (h.listed stamp hstamp).congr (Tree.get?_set_of_ne (hmanifest stamp) _)

/-- Making sure that there is the folder for what is kept leaves a project intact. -/
theorem prepare (h : p.IntactIn S ks) {q : Project} (hq : p.prepare = .ok q) :
    q.IntactIn S ks ∧ ∃ t, q = { p with tree := t } ∧ p.Adds t := by
  unfold Project.prepare at hq
  split at hq
  · next hnone =>
    obtain rfl := Except.ok.inj hq
    have hmanifest : ∀ stamp, p.keep ≠ p.manifest stamp := by
      intro stamp heq
      have hlength := congrArg List.length heq
      simp [manifest, batch, backups] at hlength
    exact ⟨h.set_of_none (List.prefix_refl _) hnone hmanifest .folder,
      _, rfl, .set (List.prefix_refl _) (by simp [hnone]) _⟩
  · obtain rfl := Except.ok.inj hq
    exact ⟨h, p.tree, rfl, .refl p⟩
  · cases hq

/-- Listing a backup writes the manifest of its batch anew. -/
theorem list_eq (h : p.IntactIn S ks) (hstamp : S stamp) (entry : Json) :
    p.tree.get? (p.manifest stamp) ≠ some .folder ∧
      p.list (p.batch stamp) entry = (.ok (), { p with tree := p.tree.set (p.manifest stamp) (.file
        (Manifest.toBytes ((ks.filter (·.stamp = stamp)).map Kept.entry ++ [entry]))) }) := by
  obtain ⟨bytes, hbytes, hentries⟩ : ∃ bytes, p.manifestBytes? (p.batch stamp) = .ok bytes ∧
      Manifest.toExtend bytes = .ok ((ks.filter (·.stamp = stamp)).map Kept.entry) := by
    rcases h.manifestBytes?_batch hstamp with ⟨hnone, hnil⟩ | ⟨bytes, hbytes, hjson⟩
    · exact ⟨none, hnone, by rw [hnil]; rfl⟩
    · refine ⟨some bytes, hbytes, ?_⟩
      unfold Manifest.toExtend
      dsimp only
      rw [hjson]
  have hfile : p.tree.get? (p.manifest stamp) ≠ some .folder := by
    rcases h.listed stamp hstamp with ⟨hnone, -⟩ | ⟨bytes, hbytes, -⟩
    · simp [hnone]
    · simp [hbytes]
  have hmanifest : p.batch stamp ++ [Manifest.fileName] = p.manifest stamp := rfl
  refine ⟨hfile, ?_⟩
  unfold Project.list
  rw [hbytes]
  dsimp only [Disk.sound]
  rw [hentries]
  dsimp only
  rw [hmanifest, show ({} : Disk) = .sound from rfl, Tree.writeOn_sound hfile]
  rfl

/-- **A backup that holds its bytes is kept once it is listed.** -/
theorem list (h : p.IntactIn S ks) {k : Kept} (hk : k.Proper p) (hstamp : S k.stamp)
    (hbatch : p.HasBatch k.stamp) (hheld : p.tree.get? (p.place k.backup) = some (.file k.bytes)) :
    ∃ t, p.list (p.batch k.stamp) k.entry = (.ok (), { p with tree := t }) ∧ p.Adds t ∧
      { p with tree := t }.IntactIn S (ks ++ [k]) := by
  obtain ⟨hfile, hlist⟩ := h.list_eq hstamp k.entry
  obtain ⟨t, ht⟩ : ∃ t, t = p.tree.set (p.manifest k.stamp) (.file (Manifest.toBytes
    ((ks.filter (·.stamp = k.stamp)).map Kept.entry ++ [k.entry]))) := ⟨_, rfl⟩
  rw [← ht] at hlist
  have hadds : p.Adds t := ht ▸ .set (p.keep_prefix_manifest k.stamp) hfile _
  have hothers : ∀ l, l ≠ p.manifest k.stamp → t.get? l = p.tree.get? l :=
    fun l hl => ht ▸ Tree.get?_set_of_ne hl.symm _
  refine ⟨t, hlist, hadds, ⟨h.proper.withTree (hadds.way h.proper.toLed), ?_, ?_, ?_,
    fun stamp hlisted => ?_⟩⟩
  · rw [List.forall_mem_append]
    exact ⟨fun k' hk' => (h.kept k' hk').withTree t, by simpa using hk.withTree t⟩
  · rw [List.forall_mem_append]
    have hfolders : ∀ l, p.keep <+: l → p.tree.get? l = some .folder → t.get? l = some .folder :=
      fun l _ => hadds.folders l
    exact ⟨fun k' hk' => (h.hasBatch k' hk').mono hfolders, by simpa using hbatch.mono hfolders⟩
  · rw [List.forall_mem_append]
    refine ⟨fun k' hk' => ?_, ?_⟩
    · exact (hothers _ ((h.kept k' hk').place_ne_manifest h.proper _)).trans (h.held k' hk')
    · rw [List.forall_mem_singleton]
      exact (hothers _ (hk.place_ne_manifest h.proper _)).trans hheld
  · rw [List.filter_append]
    by_cases heq : k.stamp = stamp
    · obtain rfl := heq
      refine .inr ⟨_, by rw [ht]; exact Tree.get?_set_self _ _ _, ?_⟩
      rw [List.filter_singleton, decide_eq_true rfl, cond_true, List.map_append]
      refine Manifest.jsonOf_toBytes ?_
      rw [List.forall_mem_append]
      refine ⟨fun entry hentry => ?_, by simpa using hk.readable_entry h.proper 1⟩
      obtain ⟨k', hk', rfl⟩ := List.mem_map.mp hentry
      exact (h.kept k' (List.mem_of_mem_filter hk')).readable_entry h.proper 1
    · rw [List.filter_singleton, decide_eq_false heq, cond_false, List.append_nil]
      refine (h.listed stamp hlisted).congr (hothers _ fun hmanifest => heq ?_)
      exact manifest_injective hmanifest.symm

/-- Bytes that are saved where nothing is are kept once they are listed. -/
theorem save (h : p.IntactIn S ks) {k : Kept} (hk : k.Proper p) (hstamp : S k.stamp)
    (hbatch : p.HasBatch k.stamp) (hfree : p.tree.get? (p.place k.backup) = none) :
    ∃ t, { p with tree := p.tree.set (p.place k.backup) (.file k.bytes) }.list (p.batch k.stamp)
        k.entry = (.ok (), { p with tree := t }) ∧
      p.Adds t ∧ { p with tree := t }.IntactIn S (ks ++ [k]) := by
  have hkeep := hk.keep_prefix_place h.proper
  have hset := h.set_of_none hkeep hfree (hk.place_ne_manifest h.proper) (.file k.bytes)
  have hadds : p.Adds (p.tree.set (p.place k.backup) (.file k.bytes)) :=
    .set hkeep (by simp [hfree]) _
  obtain ⟨t, hlist, hadds', hintact⟩ := hset.list (hk.withTree _) hstamp
    (hbatch.mono fun l _ => hadds.folders l) (Tree.get?_set_self _ _ _)
  exact ⟨t, hlist, hadds.trans hadds', hintact⟩

/-- **A backup that is made is kept from then on, and so are those that were.** If it cannot be
made, it is not kept, and the others still are. -/
theorem backUp (h : p.IntactIn S ks) {file : Path} (hfile : p.IsSource file) {now : Instant}
    (hnow : now.HasDate) (hin : S now.stamp) (session : String) (bytes : Bytes) :
    ∃ t, p.Adds t ∧
      ((∃ e, p.backUp session file bytes now = (.error e, { p with tree := t })) ∧
          { p with tree := t }.IntactIn S ks ∨
        ∃ backup, p.backUp session file bytes now = (.ok backup, { p with tree := t }) ∧
          { p with tree := t }.IntactIn S
            (ks ++ [Kept.mk session file backup now.stamp bytes])) := by
  obtain ⟨stamp, hstamp⟩ : ∃ stamp, stamp = RawText.ofString now.stamp := ⟨_, rfl⟩
  have hisStamp : Name.IsStamp stamp := hstamp ▸ hnow.isStamp
  obtain ⟨done, t, ht, ⟨e, he⟩ | ⟨name, n, hdone, hn, hshort, hfree, hsaves⟩⟩ :=
    p.backUp_steps session file bytes hstamp .sound
  all_goals obtain ⟨hmade, hadds, hbatch⟩ := h.makeBatch ht
  · exact ⟨t, hadds, .inl ⟨⟨e, he⟩, hmade⟩⟩
  rw [← hstamp] at hin ⊢
  have hproper : Name.Proper name := by
    rw [hn] at hshort ⊢
    exact hfile.proper_backupName n hshort
  have hending : ∃ base, Utf8.decode (Utf8.encodeRaw name) = base ++ Kept.ending := by
    rw [hn, decode_backupName]
    exact ⟨_, rfl⟩
  obtain ⟨backup, hbackup⟩ : ∃ backup, backup = p.batchPath stamp name := ⟨_, rfl⟩
  have hplace : Tree.next (p.batch stamp) name = p.place backup := by
    rw [hbackup, h.proper.place_batchPath hisStamp]
  have hk : Kept.Proper p ⟨session, file, backup, stamp, bytes⟩ :=
    ⟨hisStamp, ⟨name, hproper, hbackup, hending⟩, hfile⟩
  rw [hplace] at hfree hsaves
  rcases hsaves with ⟨m, e, he⟩ | hlists
  · have hkeep := (hk.withTree t).keep_prefix_place hmade.proper
    have hfolder : t.get? (p.place backup) ≠ some .folder := by simp [hfree]
    have hcut := Adds.set hkeep hfolder (.file (bytes.take m))
    refine ⟨_, hadds.trans hcut, .inl ⟨⟨e, he⟩, ?_⟩⟩
    exact hmade.set_of_none hkeep hfree ((hk.withTree t).place_ne_manifest hmade.proper) _
  · obtain ⟨t', hlist, hadds', hintact⟩ := hmade.save (hk.withTree t) hin (hbatch hdone) hfree
    have hok : { p with tree := t.set (p.place backup) (.file bytes) }.list (p.batch stamp)
        (Manifest.entry session file backup stamp) = (.ok (), { p with tree := t' }) := hlist
    refine ⟨t', hadds.trans hadds', .inr ⟨backup, ?_, hintact⟩⟩
    rw [hlists, ← hbackup, hok]
    rfl

end IntactIn

/-! ## Writing -/

/-- The path of the file of a session. -/
def fileOf (p : Project) (r : SessionResult) : Path := p.path.join (.ofText r.session.file)

/-- The place of the file of a session. -/
def target (p : Project) (r : SessionResult) : Location := p.place (p.fileOf r)

@[simp] theorem target_withTree (p : Project) (t : Tree) :
    { p with tree := t }.target = p.target := rfl

/-- Files of sessions have plain paths. -/
theorem Proper.plain_fileOf (h : p.Proper) (r : SessionResult) : (p.fileOf r).Plain :=
  h.plain.join (Path.plain_ofText _)

/-- The path of a file leads to its place, and what is there is no folder. -/
def Reaches (p : Project) (file : Path) : Prop :=
  p.tree.locate p.here file = .ok (p.place file) ∧ p.tree.get? (p.place file) ≠ some .folder

/-- A file that is read is reached. -/
theorem reaches_of_read {file : Path} {bytes : Bytes} (h : p.read file = .ok bytes) :
    p.Reaches file ∧ Tree.refusal? file = none := by
  obtain ⟨l, hl, hbytes⟩ := Tree.read_eq_ok_iff.mp (read_eq_ok_iff.mp h)
  obtain ⟨hrefusal, -, rfl⟩ := locate_eq_ok_iff.mp hl
  exact ⟨⟨hl, Tree.ne_folder_of_bytesAt hbytes⟩, hrefusal⟩

/-- A file is reached as long as no folder is gone, and none has taken its place. -/
theorem Reaches.mono {file : Path} (h : p.Reaches file) (hfile : p.IsSource file) {t : Tree}
    (ht : p.KeepsFolders t) : { p with tree := t }.Reaches file :=
  ⟨Tree.locate_mono h.1 ht.keeps, fun hfolder => h.2 (ht.outside _ hfile.outside hfolder)⟩

/-- An attempt to write is refused, or it comes to writing over the file. -/
theorem write_cases (p : Project) (backup : Bool) (r : SessionResult) (now : Instant)
    (disk : Disk) :
    (p.write backup r now disk).2 = p ∧
        (∀ w, (p.write backup r now disk).1 = .ok w → w.success = false) ∨
      ∃ bytes, p.read (p.fileOf r) = .ok bytes ∧ r.changed = true ∧ readText bytes = r.source ∧
        p.write backup r now disk = p.writeOver backup r (p.fileOf r) bytes now disk := by
  have hrefused : ∀ message w, (.ok (refused r.session.id (p.fileOf r) message) :
      Except ProjectError WriteResult) = .ok w → w.success = false := by
    intro message w hw
    rw [← Except.ok.inj hw]
    rfl
  have hfile : p.path.join (.ofText r.session.file) = p.fileOf r := rfl
  unfold write
  dsimp only
  rw [hfile]
  split
  · exact .inl ⟨rfl, hrefused _⟩
  next hchanged =>
  split
  · exact .inl ⟨rfl, fun w hw => by cases hw⟩
  · exact .inl ⟨rfl, hrefused _⟩
  split
  · exact .inl ⟨rfl, fun w hw => by cases hw⟩
  next bytes hbytes =>
  split
  · exact .inl ⟨rfl, hrefused _⟩
  next hsource =>
  exact .inr ⟨bytes, read_of_disk hbytes, by simpa using hchanged, by simpa using hsource, rfl⟩

/-- **What writing over a file does.** It goes no further than the backup if one is wanted and cannot
be made; else the file is written, as far as the disk takes it. -/
theorem writeOver_steps (p : Project) (backup : Bool) (r : SessionResult) (file : Path)
    (bytes : Bytes) (now : Instant) (disk : Disk) :
    (∃ e q, backup = true ∧ p.backUp r.session.id file bytes now disk = (.error e, q) ∧
        p.writeOver backup r file bytes now disk = (.error e, q)) ∨
      ∃ path q, (backup = false ∧ path = none ∧ q = p ∨ backup = true ∧ ∃ b, path = some b ∧
          p.backUp r.session.id file bytes now disk = (.ok b, q)) ∧
        ((∃ e, p.writeOver backup r file bytes now disk = (.error e, q) ∧ ∀ l,
            q.tree.locate q.here file = .ok l → q.tree.get? l ≠ some .folder →
              ∃ e, disk.takes q.tree l (Utf8.encode r.fixed) = .refused e) ∨
          ∃ l, q.tree.locate q.here file = .ok l ∧ q.tree.get? l ≠ some .folder ∧
            ((∃ w, w.success = true ∧ w.backup = path ∧
                p.writeOver backup r file bytes now disk =
                  (.ok w, { q with tree := q.tree.set l (.file (Utf8.encode r.fixed)) })) ∨
              ∃ n e, disk.takes q.tree l (Utf8.encode r.fixed) = .cut n e ∧
                p.writeOver backup r file bytes now disk = (.error (.tree e), { q with
                  tree := q.tree.set l (.file ((Utf8.encode r.fixed).take n)) }))) := by
  unfold Project.writeOver
  dsimp only
  split
  · next e q hsaved =>
    split at hsaved
    · next hbackup =>
      split at hsaved
      · cases hsaved
      · next hfailed =>
        obtain ⟨he, rfl⟩ := Prod.mk.inj hsaved
        obtain rfl := Except.error.inj he
        exact .inl ⟨_, _, hbackup, hfailed, rfl⟩
    · cases hsaved
  next path q hsaved =>
  refine .inr ⟨path, q, ?_, ?_⟩
  · split at hsaved
    · next hbackup =>
      split at hsaved
      · next b q' hmade =>
        obtain ⟨hpath, rfl⟩ := Prod.mk.inj hsaved
        exact .inr ⟨hbackup, b, (Except.ok.inj hpath).symm, hmade⟩
      · cases hsaved
    · next hbackup =>
      obtain ⟨hpath, rfl⟩ := Prod.mk.inj hsaved
      exact .inl ⟨by simpa using hbackup, (Except.ok.inj hpath).symm, rfl⟩
  · split
    · next e he => exact .inl ⟨_, rfl, fun l hl => by rw [he] at hl; cases hl⟩
    next l hl =>
    rcases Tree.writeOn_cases disk q.tree l (Utf8.encode r.fixed) with
      ⟨e, hrefused, he⟩ | ⟨hfile, hdone | ⟨n, e, hcut, he⟩⟩
    · rw [he]
      refine .inl ⟨_, rfl, fun l' hl' hfile => ⟨e, ?_⟩⟩
      obtain rfl := Except.ok.inj (hl.symm.trans hl')
      exact hrefused hfile
    · rw [hdone]
      exact .inr ⟨l, hl, hfile, .inl ⟨_, rfl, rfl, rfl⟩⟩
    · rw [he]
      exact .inr ⟨l, hl, hfile, .inr ⟨n, e, hcut, rfl⟩⟩

/-- Writing over a file that is reached keeps what it held, and changes nothing else but what is
kept about the project. If no backup can be made, the file is left. -/
theorem IntactIn.writeOver (h : p.IntactIn S ks) {r : SessionResult} {file : Path}
    (hfile : p.IsSource file) (hreach : p.Reaches file) {now : Instant} (hnow : now.HasDate)
    (hin : S now.stamp) (bytes : Bytes) :
    ∃ t, p.KeepsFolders t ∧
      ((∃ e, p.writeOver true r file bytes now = (.error e, { p with tree := t })) ∧
          { p with tree := t }.IntactIn S ks ∨
        ∃ backup w, p.writeOver true r file bytes now = (.ok w, { p with tree := t }) ∧
          w.success = true ∧ w.backup = some backup ∧
          { p with tree := t }.IntactIn S
            (ks ++ [Kept.mk r.session.id file backup now.stamp bytes])) := by
  obtain ⟨t, hadds, hmade⟩ := h.backUp hfile hnow hin r.session.id bytes
  have hreach' : { p with tree := t }.Reaches file := hreach.mono hfile (.of_adds hadds)
  obtain ⟨e, q, -, hbackUp, he⟩ | ⟨path, q, hsaved, hwrite⟩ :=
    p.writeOver_steps true r file bytes now .sound
  · rcases hmade with ⟨⟨e', he'⟩, hintact⟩ | ⟨backup, hok, -⟩
    · obtain ⟨-, rfl⟩ := Prod.mk.inj (he'.symm.trans hbackUp)
      exact ⟨t, .of_adds hadds, .inl ⟨⟨e, he⟩, hintact⟩⟩
    · cases hok.symm.trans hbackUp
  obtain ⟨hnot, -⟩ | ⟨-, b, rfl, hbackUp⟩ := hsaved
  · cases hnot
  rcases hmade with ⟨⟨e', he'⟩, -⟩ | ⟨backup, hok, hintact⟩
  · cases he'.symm.trans hbackUp
  obtain ⟨hb, rfl⟩ := Prod.mk.inj (hok.symm.trans hbackUp)
  obtain rfl := Except.ok.inj hb
  obtain ⟨e, -, hrefused⟩ | ⟨l, hl, hfolder, ⟨w, hsuccess, hw, hdone⟩ | ⟨n, e, hcut, -⟩⟩ := hwrite
  · obtain ⟨e, he⟩ := hrefused _ hreach'.1 hreach'.2
    cases he
  · obtain rfl := Except.ok.inj (hreach'.1.symm.trans hl)
    exact ⟨_, (KeepsFolders.of_adds hadds).trans (.set hfolder _), .inr ⟨backup, w, hdone,
      hsuccess, hw, hintact.spared (.set hintact.proper hfile.outside hfolder _)⟩⟩
  · cases hcut

/-- The backup that a write has made, according to its answer: one if it has succeeded, of what the
file held before. -/
def keptBy (p : Project) (r : SessionResult) (now : Instant) : List Kept :=
  match (p.write true r now).1 with
  | .ok w =>
    if w.success then [{
      session := r.session.id
      file := p.fileOf r
      backup := w.backup.getD p.path
      stamp := now.stamp
      bytes := (p.read (p.fileOf r)).toOption.getD [] }]
    else []
  | .error _ => []

/-- **A write that succeeds keeps what its file held**, and so is what was kept before; a write that
does not succeed keeps nothing more. -/
theorem IntactIn.write (h : p.IntactIn S ks) {r : SessionResult} {now : Instant}
    (hnow : now.HasDate) (hin : S now.stamp) (houtside : ¬ p.keep <+: p.target r)
    (hsettled : p.path.join (p.fileOf r) = p.fileOf r) :
    ∃ t, (p.write true r now).2 = { p with tree := t } ∧ p.KeepsFolders t ∧
      { p with tree := t }.IntactIn S (ks ++ p.keptBy r now) ∧
      ∀ k ∈ p.keptBy r now, p.Reaches k.file ∧ p.read k.file = .ok k.bytes := by
  unfold keptBy
  rcases p.write_cases true r now .sound with ⟨hsame, hfailed⟩ | ⟨bytes, hbytes, -, -, hover⟩
  · refine ⟨p.tree, hsame, .refl p, ?_⟩
    cases hwrite : (p.write true r now).1 with
    | error e => simpa using h
    | ok w => simpa [hfailed w hwrite] using h
  obtain ⟨hreach, hrefusal⟩ := reaches_of_read hbytes
  have hfile : p.IsSource (p.fileOf r) := ⟨h.proper.plain_fileOf r, hsettled, hrefusal, houtside⟩
  obtain ⟨t, hfolders, ⟨⟨e, he⟩, hintact⟩ | ⟨backup, w, hw, hsuccess, hbackup, hintact⟩⟩ :=
    h.writeOver hfile hreach hnow hin bytes (r := r)
  · rw [hover, he]
    exact ⟨t, rfl, hfolders, by simpa using hintact, by simp⟩
  · rw [hover, hw]
    refine ⟨t, rfl, hfolders, ?_⟩
    dsimp only
    rw [if_pos hsuccess, hbackup, hbytes]
    refine ⟨hintact, fun k hk => ?_⟩
    rw [List.mem_singleton.mp hk]
    exact ⟨hreach, hbytes⟩

theorem Intact.prepare (h : p.Intact ks) {q : Project} (hq : p.prepare = .ok q) :
    q.Intact ks ∧ ∃ t, q = { p with tree := t } ∧ p.Adds t :=
  (h.intactIn.prepare hq).imp_left IntactIn.intact

theorem Intact.write (h : p.Intact ks) {r : SessionResult} {now : Instant} (hnow : now.HasDate)
    (houtside : ¬ p.keep <+: p.target r) (hsettled : p.path.join (p.fileOf r) = p.fileOf r) :
    ∃ t, (p.write true r now).2 = { p with tree := t } ∧ p.KeepsFolders t ∧
      { p with tree := t }.Intact (ks ++ p.keptBy r now) ∧
      ∀ k ∈ p.keptBy r now, p.Reaches k.file ∧ p.read k.file = .ok k.bytes := by
  obtain ⟨t, ht, hfolders, hintact, hkept⟩ := h.intactIn.write hnow trivial houtside hsettled
  exact ⟨t, ht, hfolders, hintact.intact, hkept⟩

end Mend.Project
