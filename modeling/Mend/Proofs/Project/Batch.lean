import Mend.Proofs.Project.Seen
import Mend.Proofs.Project.Undo

/-!
# A batch of its own

Writes of one moment go to one batch. If that batch was not there before, undoing it takes back
those writes and no others.

* `Fresh`: a name for a batch that comes after those of all batches, and where nothing is yet.
* `Fresh.grows`: it stays fresh while batches with smaller names are made.
* `Backed`: what some writes of one moment have come to, with the backups that they have made.
* `Backed.write`: **one more write keeps that state**.
* `Backed.undoLast`: **undoing the latest batch then takes back all of these writes**.
-/

namespace Mend.Project

variable {p q : Project} {S : RawText → Prop} {stamp : RawText} {ks : List Kept} {t t' : Tree}

/-! ## The name of a batch -/

/-- A name for a batch that comes after those of all batches, and where nothing is yet. -/
structure Fresh (p : Project) (stamp : RawText) : Prop where
  free : ∀ l, p.batch stamp <+: l → p.tree.get? l = none
  greatest : ∀ name ∈ p.tree.namesIn p.backups, name.atMost stamp = true

/-- Something that is founded in a batch is founded by the name of that batch. -/
theorem Founded.of_batch {l : Location} (h : p.Founded S l) (hl : p.batch stamp <+: l) :
    S stamp := by
  have hlength := hl.length_le
  rcases h with rfl | rfl | rfl | ⟨stamp', hstamp', hl'⟩
  · simp [batch, backups] at hlength
  · simp [batch, backups, database] at hlength
  · simp [batch] at hlength
  · have hsame : p.batch stamp = p.batch stamp' :=
      (List.prefix_of_prefix_length_le hl hl' (by simp [batch])).eq_of_length (by simp [batch])
    have hname : [stamp] = [stamp'] := List.append_cancel_left hsame
    rw [(List.cons.inj hname).1]
    exact hstamp'

/-- A name that was no batch is one only if it is founded as one. -/
theorem Grows.of_mem_namesIn (h : p.Grows S t) {name : RawText}
    (hname : name ∈ t.namesIn p.backups) :
    name ∈ p.tree.namesIn p.backups ∨ S name := by
  rw [Tree.mem_namesIn] at hname ⊢
  cases hold : p.tree.get? (p.backups ++ [name]) with
  | some e => exact .inl rfl
  | none =>
    refine .inr ((h.founded _ hold ?_).of_batch (List.prefix_refl _))
    exact Option.isSome_iff_ne_none.mp hname

/-- **A name stays fresh while batches with smaller names are made.** -/
theorem Fresh.grows (h : p.Fresh stamp) (ht : p.Grows S t)
    (hS : ∀ s, S s → s.atMost stamp = true ∧ s ≠ stamp) : { p with tree := t }.Fresh stamp where
  free := fun l hl => by
    by_contra hsome
    exact (hS stamp ((ht.founded l (h.free l hl) hsome).of_batch hl)).2 rfl
  greatest := fun name hname =>
    (ht.of_mem_namesIn hname).elim (h.greatest name) fun hfounded => (hS name hfounded).1

/-- A fresh name of a batch that is made is that of the latest batch. -/
theorem Fresh.latest (h : p.Fresh stamp) (ht : p.Grows (· = stamp) t)
    (hbatch : { p with tree := t }.HasBatch stamp) : { p with tree := t }.Latest stamp where
  folder := hbatch.backups
  mem := Tree.mem_namesIn.mpr (Option.isSome_of_mem hbatch.batch)
  greatest := fun name hname => by
    rcases ht.of_mem_namesIn hname with hold | rfl
    · exact h.greatest name hold
    · simpa using RawText.atMost_total name name

/-! ## The writes of one moment -/

/-- What some writes of one moment have come to, with the backups that they have made: each of their
files has a backup of what it held at first, and nothing else has changed. -/
structure Backed (p : Project) (stamp : RawText) (ks : List Kept) (t : Tree) : Prop where
  intact : { p with tree := t }.IntactIn (· = stamp) ks
  stamps : ∀ k ∈ ks, k.stamp = stamp
  reaches : ∀ k ∈ ks, { p with tree := t }.Reaches k.file
  firsts : ∀ l k, ks.find? (p.place ·.file = l) = some k → p.tree.bytesAt l = .ok k.bytes
  others : ∀ l, ¬ p.keep <+: l → ks.find? (p.place ·.file = l) = none → t.get? l = p.tree.get? l

theorem keptBy_of_failed {r : SessionResult} {now : Instant}
    (h : ∀ w, (p.write true r now).1 = .ok w → w.success = false) : p.keptBy r now = [] := by
  unfold keptBy
  split
  · next w hw => rw [h w hw]; rfl
  · rfl

theorem keptBy_of_success {r : SessionResult} {now : Instant}
    (h : ∃ w, (p.write true r now).1 = .ok w ∧ w.success = true) {bytes : Bytes}
    (hread : p.read (p.fileOf r) = .ok bytes) :
    ∃ k, p.keptBy r now = [k] ∧ k.stamp = RawText.ofString now.stamp ∧
      p.place k.file = p.target r ∧ k.bytes = bytes := by
  obtain ⟨w, hw, hsuccess⟩ := h
  unfold keptBy
  rw [hw, hread]
  dsimp only
  rw [if_pos hsuccess]
  exact ⟨_, rfl, by dsimp only, rfl, by dsimp only [Except.toOption]; rfl⟩

namespace Backed

theorem of_brings (hp : p.Proper) (h : p.Fresh stamp) (ht : p.Brings (fun _ => False) t) :
    p.Backed stamp [] t where
  intact := by
    have hproper : { p with tree := t }.Proper := hp.withTree (ht.adds.way hp.toLed)
    have hfresh : { p with tree := t }.Fresh stamp := h.grows ht.toGrows fun _ hs => hs.elim
    have hprefix : p.batch stamp <+: p.manifest stamp := List.prefix_append _ _
    exact hproper.intactIn fun s hs => hs ▸ hfresh.free _ hprefix
  stamps := by simp
  reaches := by simp
  firsts := by simp
  others := fun l hl _ => ht.outside l hl

/-- **One more write at that moment keeps the state**, and the backup that it makes is one of them.
-/
theorem write (h : p.Backed stamp ks t) {now : Instant} (hnow : now.HasDate)
    (hstamp : stamp = RawText.ofString now.stamp) (r : SessionResult)
    (houtside : ¬ p.keep <+: p.target r) (hsettled : p.path.join (p.fileOf r) = p.fileOf r) :
    ∃ ks' t', ({ p with tree := t }.write true r now).2 = { p with tree := t' } ∧
      { p with tree := t }.Grows (· = stamp) t' ∧ p.Backed stamp (ks ++ ks') t' := by
  obtain ⟨t', ht', hfolders, hintact, hkept⟩ := h.intact.write hnow hstamp.symm houtside hsettled
  obtain ⟨t'', ht'', hcases⟩ := { p with tree := t }.write_alters true r now
  obtain rfl : t' = t'' := congrArg Project.tree (ht'.symm.trans ht'')
  have hreaches : ∀ k ∈ ks ++ { p with tree := t }.keptBy r now,
      { p with tree := t' }.Reaches k.file := by
    intro k hk
    have hbefore : { p with tree := t }.Reaches k.file :=
      (List.mem_append.mp hk).elim (h.reaches k) fun hk => (hkept k hk).1
    exact hbefore.mono ((hintact.kept k hk).withTree t).source hfolders
  rw [← hstamp] at hcases
  rcases hcases with ⟨hfailed, hbrings⟩ | ⟨hsuccess, ⟨bytes, hbytes, -⟩, halters, -⟩
  · rw [keptBy_of_failed hfailed, List.append_nil] at hintact hreaches
    refine ⟨[], t', ht', hbrings.toGrows, ?_⟩
    rw [List.append_nil]
    refine ⟨hintact, h.stamps, hreaches, h.firsts, fun l hl hnone => ?_⟩
    exact (hbrings.outside l hl).trans (h.others l hl hnone)
  · obtain ⟨k, hk, hkstamp, htarget, hkbytes⟩ := keptBy_of_success hsuccess hbytes
    rw [place_withTree, target_withTree] at htarget
    rw [hk] at hintact hreaches
    refine ⟨[k], t', ht', halters.toGrows, hintact, ?_, hreaches, fun l k' hfind => ?_,
      fun l hl hnone => ?_⟩
    · rw [List.forall_mem_append, List.forall_mem_singleton]
      exact ⟨h.stamps, hkstamp.trans hstamp.symm⟩
    -- the first backup of a file is of what it held at first
    · rw [List.find?_append] at hfind
      cases hold : ks.find? (p.place ·.file = l) with
      | some k'' =>
        rw [hold] at hfind
        exact h.firsts l k' (hold.trans hfind)
      | none =>
        rw [hold] at hfind
        obtain ⟨hl, rfl⟩ : p.place k.file = l ∧ k = k' := by simpa using hfind
        have hread : t.bytesAt (p.target r) = .ok bytes := bytesAt_of_read hbytes
        rw [← htarget, hl, ← hkbytes] at hread
        rwa [← Tree.bytesAt_congr (h.others l ?_ hold)]
        rw [← hl, htarget]
        exact houtside
    · rw [List.find?_append, Option.or_eq_none_iff] at hnone
      have hne : l ≠ p.place k.file := fun heq => by simp [heq] at hnone
      rw [htarget] at hne
      exact (halters.outside l hl hne).trans (h.others l hl hnone.1)

/-- **Undoing the latest batch takes back all of these writes**: every file outside of the folder
that is kept holds what it held at first. -/
theorem undoLast (h : p.Backed stamp ks t) (hlatest : { p with tree := t }.Latest stamp) :
    ∃ ws, { p with tree := t }.undoLast.1 = .ok ws ∧ (∀ w ∈ ws, w.success = true) ∧
      ∀ l, ¬ p.keep <+: l →
        { p with tree := t }.undoLast.2.tree.bytesAt l = p.tree.bytesAt l := by
  obtain ⟨ws, hws, hsuccess, hget⟩ :=
    h.intact.undoLast_eq rfl hlatest fun k hk _ => h.reaches k hk
  have hall : ks.filter (·.stamp = stamp) = ks :=
    List.filter_eq_self.mpr fun k hk => by simpa using h.stamps k hk
  refine ⟨ws, hws, hsuccess, fun l hl => ?_⟩
  have hplace := hget l
  rw [hall] at hplace
  unfold restoredAt at hplace
  rw [place_withTree] at hplace
  cases hfind : ks.find? (p.place ·.file = l) with
  | some k =>
    rw [hfind] at hplace
    rw [Tree.bytesAt_of_file hplace, h.firsts l k hfind]
  | none =>
    rw [hfind] at hplace
    exact Tree.bytesAt_congr (hplace.trans (h.others l hl hfind))

/-- If anything has changed, there is a backup. -/
theorem ne_nil (h : p.Backed stamp ks t) {l : Location} (hl : ¬ p.keep <+: l)
    (hchanged : t.bytesAt l ≠ p.tree.bytesAt l) : ks ≠ [] := by
  rintro rfl
  exact hchanged (Tree.bytesAt_congr (h.others l hl rfl))

end Backed

end Mend.Project
