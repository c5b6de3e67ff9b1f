import Mend.Command.Undo
import Mend.Proofs.Command.Fix
import Mend.Proofs.Project.Batch
import Mend.Proofs.Project.Deeds

/-!
# Undoing the last fix

* `runFix_preserves`: what every write keeps true, a fix keeps true.
* `runFix_grows`: a fix makes no batches but those of the moments at which it writes.
* `runFix_backed`: if backups are wanted and a fix writes within one second, all that it writes is
  backed up in one batch.
* `runUndo_takes_back_runFix`: **undoing the latest batch takes back the last fix**, if it has
  written within one second, and that comes after the seconds of all others.
* `undoLast_spans_fixes`: of two fixes within one second, both are taken back.
-/

namespace Mend

namespace Project

variable {p q : Project} {stamp : RawText} {ks : List Kept} {t : Tree}

/-- Making sure that there is the folder for what is kept changes nothing about the backups. -/
theorem Backed.prepare (h : p.Backed stamp ks t) (hq : { p with tree := t }.prepare = .ok q) :
    ∃ t', q = { p with tree := t' } ∧ p.Backed stamp ks t' := by
  obtain ⟨hintact, t', rfl, hadds⟩ := h.intact.prepare hq
  refine ⟨t', rfl, hintact, h.stamps, fun k hk => ?_, h.firsts, fun l hl hnone => ?_⟩
  · exact (h.reaches k hk).mono (h.intact.kept k hk).source (.of_adds hadds)
  · exact (hadds.outside l hl).trans (h.others l hl hnone)

theorem Proper.grounded (h : p.Proper) (hhere : p.here = p.root) : p.Grounded :=
  ⟨h.toLed, hhere⟩

end Project

namespace Command

section Preserving

variable {options : FixOptions} {p : Project} {backup : Bool} {moments : Nat → Instant}
  {rs : List SessionResult} {P : Tree → Prop} {t : Tree}

/-! ## What every write keeps true -/

theorem writeResults_preserves (hwrite : ∀ r ∈ rs, ∀ n < rs.length, ∀ t, P t → ∃ t',
      ({ p with tree := t }.write backup r (moments n)).2 = { p with tree := t' } ∧ P t')
    (h : P t) (answers : List Bool) :
    ∃ t', (writeResults options backup moments rs answers { p with tree := t }).2 =
      { p with tree := t' } ∧ P t' := by
  induction rs generalizing moments t answers with
  | nil => exact ⟨t, rfl, h⟩
  | cons r rs ih =>
    rw [List.forall_mem_cons] at hwrite
    obtain ⟨hfirst, hrest⟩ := hwrite
    -- what is not written takes no moment, so that the next result is for the same one
    have hskip := @ih moments t (fun r hr n hn => hrest r hr n (Nat.lt_succ_of_lt hn)) h
    unfold writeResults
    dsimp only
    split
    · exact hskip answers
    split
    · exact hskip _
    obtain ⟨t', ht', hP⟩ := hfirst 0 (Nat.zero_lt_succ _) t h
    split
    · next hanswer =>
      rw [hanswer] at ht'
      exact ⟨t', ht', hP⟩
    · next hanswer =>
      rw [hanswer] at ht'
      obtain rfl := ht'
      exact ih (fun r hr n hn => hrest r hr (n + 1) (Nat.succ_lt_succ hn)) hP _

theorem andThen_project (first : Transcript) (p : Project)
    (second : Project → Transcript × Project) :
    (andThen first p second).2 = p ∨ (andThen first p second).2 = (second p).2 := by
  unfold andThen
  split
  · exact .inr rfl
  · exact .inl rfl

theorem conclude_preserves
    (hprepare : ∀ t q, P t → { p with tree := t }.prepare = .ok q →
      ∃ t', q = { p with tree := t' } ∧ P t')
    (hwrite : ∀ r ∈ rs, ∀ n < rs.length, ∀ t, P t → ∃ t',
      ({ p with tree := t }.write backup r (moments n)).2 = { p with tree := t' } ∧ P t')
    (h : P t) (answers : List Bool) :
    ∃ t', (conclude options backup moments answers rs { p with tree := t }).2 =
      { p with tree := t' } ∧ P t' := by
  have hall : ∃ t', (writeAll options backup moments rs answers { p with tree := t }).2 =
      { p with tree := t' } ∧ P t' := by
    unfold writeAll
    split
    · exact ⟨t, rfl, h⟩
    next q hq =>
    obtain ⟨t', rfl, hP⟩ := hprepare t q h hq
    exact writeResults_preserves hwrite hP answers
  unfold conclude
  rcases andThen_project (report options.json rs) { p with tree := t } _ with heq | heq
  · rw [heq]
    exact ⟨t, rfl, h⟩
  rw [heq]
  dsimp only
  rcases andThen_project
    (if options.write then writeAll options backup moments rs answers { p with tree := t }
      else ({}, { p with tree := t })).1 _ _ with heq | heq
  all_goals
    rw [heq]
    split
    · exact hall
    · exact ⟨t, rfl, h⟩

/-- **What opening and every write keep true, a fix keeps true.** -/
theorem runFix_preserves {files : List String} {answers : List Bool} {w : Workspace}
    (hstart : ∀ t, w.project.Brings (fun _ => False) t → P t)
    (hprepare : ∀ t q, P t → { w.project with tree := t }.prepare = .ok q →
      ∃ t', q = { w.project with tree := t' } ∧ P t')
    (hwrite : ∀ rs, sessions options files w = .ok rs → ∀ r ∈ rs, ∀ n < files.length, ∀ t, P t →
      ∃ t', ({ w.project with tree := t }.write w.project.backsUp r (w.moments n)).2 =
        { w.project with tree := t' } ∧ P t') :
    ∃ t, (runFix options files answers w).2.project = { w.project with tree := t } ∧ P t := by
  obtain ⟨t₀, hopen, huntouched, -⟩ := w.project.openWithSettings_untouched
  obtain ⟨t, hbrings, hrun⟩ := runFix_eq options files answers w
  rw [hopen] at hbrings hrun
  have hP : P t := hstart t (huntouched.toBrings.trans hbrings)
  cases hsessions : sessions options files w with
  | error e =>
    rw [hsessions] at hrun
    exact ⟨t, congrArg Prod.snd hrun, hP⟩
  | ok rs =>
    rw [hsessions] at hrun
    have hlength : rs.length = files.length := (sessions_saw hsessions).length_eq.symm
    obtain ⟨t', ht', hP'⟩ :=
      conclude_preserves hprepare (by rw [hlength]; exact hwrite rs hsessions) hP answers
    exact ⟨t', (congrArg Prod.snd hrun).trans ht', hP'⟩

end Preserving

/-! ## One fix -/

/-- The names of the batches for what a fix writes: one for each of its moments. -/
def IsStampOf (moments : Nat → Instant) (files : List String) (stamp : RawText) : Prop :=
  ∃ n < files.length, stamp = RawText.ofString (moments n).stamp

/-- A fix makes no batches but those of the moments at which it writes. -/
theorem runFix_grows (options : FixOptions) (files : List String) (answers : List Bool)
    (w : Workspace) :
    ∃ t, (runFix options files answers w).2.project = { w.project with tree := t } ∧
      w.project.Grows (IsStampOf w.moments files) t := by
  refine runFix_preserves (fun t ht => ht.toGrows.mono (by simp)) (fun t q ht hq => ?_)
    fun rs _ r _ n hn t ht => ?_
  · obtain ⟨t', rfl, huntouched⟩ := Project.prepare_untouched hq
    exact ⟨t', rfl, ht.trans (huntouched.toGrows.mono (by simp))⟩
  · obtain ⟨t', ht', hcases⟩ :=
      { w.project with tree := t }.write_alters w.project.backsUp r (w.moments n)
    have hgrows := hcases.elim (fun h => h.2.toGrows) fun h => h.2.2.1.toGrows
    exact ⟨t', ht', ht.trans (hgrows.mono fun s hs => ⟨n, hn, hs⟩)⟩

/-- **All that a fix writes is backed up in one batch**, if backups are wanted, all of it is written
within one second, and there is no later batch. -/
theorem runFix_backed (options : FixOptions) {files : List String} (answers : List Bool)
    {w : Workspace} (hproper : w.project.Proper) (hhere : w.project.here = w.project.root)
    (habsolute : w.project.path.isAbsolute = true) {stamp : RawText}
    (hdate : ∀ n < files.length, (w.moments n).HasDate)
    (hsecond : ∀ n < files.length, stamp = RawText.ofString (w.moments n).stamp)
    (hfresh : w.project.Fresh stamp) (hbacksUp : w.project.backsUp = true)
    (hfiles : ∀ file ∈ files, ¬ w.project.keep <+: w.project.placeOf file) :
    ∃ t, (runFix options files answers w).2.project = { w.project with tree := t } ∧
      ∃ ks, w.project.Backed stamp ks t := by
  obtain ⟨t₀, hopen, huntouched, -⟩ := w.project.openWithSettings_untouched
  have hgrounded := huntouched.adds.grounded (hproper.grounded hhere)
  refine runFix_preserves (fun t ht => ⟨[], .of_brings hproper hfresh ht⟩)
    (fun t q ⟨ks, hks⟩ hq => ?_) fun rs hrs r hr n hn t ⟨ks, hks⟩ => ?_
  · obtain ⟨t', rfl, hks'⟩ := hks.prepare hq
    exact ⟨t', rfl, ks, hks'⟩
  · have hsaw := sessions_saw hrs
    rw [hopen] at hsaw
    obtain ⟨file, hfile, htarget⟩ : ∃ file ∈ files,
        w.project.target r = w.project.placeOf file := by
      obtain ⟨i, hi, rfl⟩ := List.getElem_of_mem hr
      have hfile := (List.forall₂_iff_get.mp hsaw).2 i (hsaw.length_eq ▸ hi) hi
      exact ⟨_, List.get_mem _ _, hfile.target_eq hgrounded⟩
    have hsettled : w.project.path.join (w.project.fileOf r) = w.project.fileOf r :=
      Path.join_join_of_isAbsolute habsolute _
    obtain ⟨ks', t', ht', -, hks'⟩ :=
      hks.write (hdate n hn) (hsecond n hn) r (htarget ▸ hfiles file hfile) hsettled
    rw [hbacksUp]
    exact ⟨t', ht', _, hks'⟩

/-! ## One fix after the other -/

/-- A fix that is run at some moment. -/
structure Fixing where
  options : FixOptions := {}
  files : List String
  answers : List Bool := []
  now : Instant
  delays : Nat → Span := fun _ => 0

namespace Fixing

/-- The moments at which a fix writes. -/
def moments (x : Fixing) (n : Nat) : Instant := x.now.later (x.delays n)

/-- The workspace after a fix. -/
def after (x : Fixing) (w : Workspace) : Workspace :=
  (runFix x.options x.files x.answers { w with now := x.now, delays := x.delays }).2

/-- The workspace after some fixes. -/
def afterAll (xs : List Fixing) (w : Workspace) : Workspace := xs.foldl (fun w x => x.after w) w

end Fixing

theorem Fixing.after_grows (x : Fixing) (w : Workspace) :
    ∃ t, (x.after w).project = { w.project with tree := t } ∧
      w.project.Grows (IsStampOf x.moments x.files) t :=
  runFix_grows x.options x.files x.answers { w with now := x.now, delays := x.delays }

/-- Fixes make no batches but those of the moments at which they write. -/
theorem afterAll_grows (xs : List Fixing) (w : Workspace) :
    ∃ t, (Fixing.afterAll xs w).project = { w.project with tree := t } ∧
      w.project.Grows (fun s => ∃ x ∈ xs, IsStampOf x.moments x.files s) t := by
  induction xs generalizing w with
  | nil => exact ⟨w.project.tree, rfl, .refl _ _⟩
  | cons x xs ih =>
    obtain ⟨t, ht, hgrows⟩ := x.after_grows w
    obtain ⟨t', ht', hgrows'⟩ := ih (x.after w)
    rw [ht] at ht' hgrows'
    refine ⟨t', ht', (hgrows.mono fun s hs => ?_).trans (hgrows'.mono fun s hs => ?_)⟩
    · exact ⟨x, List.mem_cons_self, hs⟩
    · obtain ⟨y, hy, hys⟩ := hs
      exact ⟨y, List.mem_cons_of_mem _ hy, hys⟩

/-- A fix that writes within one second, at moments that have a date. -/
structure Fixing.InSecond (x : Fixing) (stamp : RawText) : Prop where
  date : ∀ n < x.files.length, (x.moments n).HasDate
  stamp : ∀ n < x.files.length, stamp = RawText.ofString (x.moments n).stamp

section InSecond

variable {x : Fixing} {w : Workspace} {stamp : RawText}

/-- A fix for which the clock stands still writes within one second. -/
theorem Fixing.InSecond.of_delays (hdelays : x.delays = fun _ => 0) (hdate : x.now.HasDate) :
    x.InSecond (RawText.ofString x.now.stamp) := by
  have hmoments : x.moments = fun _ => x.now := by
    funext n
    unfold Fixing.moments
    rw [hdelays, Instant.later_zero]
  constructor <;> rw [hmoments]
  · exact fun _ _ => hdate
  · exact fun _ _ => rfl

theorem Fixing.InSecond.eq_of_isStampOf (hsecond : x.InSecond stamp) {s : RawText}
    (hs : IsStampOf x.moments x.files s) : s = stamp := by
  obtain ⟨n, hn, heq⟩ := hs
  rw [heq, hsecond.stamp n hn]

theorem Fixing.InSecond.after_backed (hsecond : x.InSecond stamp) (hproper : w.project.Proper)
    (hhere : w.project.here = w.project.root) (habsolute : w.project.path.isAbsolute = true)
    (hfresh : w.project.Fresh stamp) (hbacksUp : w.project.backsUp = true)
    (hfiles : ∀ file ∈ x.files, ¬ w.project.keep <+: w.project.placeOf file) :
    ∃ t, (x.after w).project = { w.project with tree := t } ∧
      w.project.Grows (· = stamp) t ∧ ∃ ks, w.project.Backed stamp ks t := by
  have hmoments : { w with now := x.now, delays := x.delays }.moments = x.moments := rfl
  obtain ⟨t, ht, hgrows⟩ := x.after_grows w
  obtain ⟨t', ht', ks, hks⟩ := runFix_backed x.options x.answers
    (w := { w with now := x.now, delays := x.delays }) hproper hhere habsolute
    (by rw [hmoments]; exact hsecond.date) (by rw [hmoments]; exact hsecond.stamp) hfresh hbacksUp
    hfiles
  have hafter : (x.after w).project = { w.project with tree := t' } := ht'
  obtain rfl : t' = t := congrArg Project.tree (hafter.symm.trans ht)
  exact ⟨t', ht, hgrows.mono fun s hs => hsecond.eq_of_isStampOf hs, ks, hks⟩

/-- Undoing the latest batch takes back a fix whose second comes after all batches. -/
theorem Fixing.InSecond.runUndo_after (hsecond : x.InSecond stamp) (hproper : w.project.Proper)
    (hhere : w.project.here = w.project.root) (habsolute : w.project.path.isAbsolute = true)
    (hfresh : w.project.Fresh stamp) (hbacksUp : w.project.backsUp = true)
    (hfiles : ∀ file ∈ x.files, ¬ w.project.keep <+: w.project.placeOf file)
    (hwrites : ∃ l, ¬ w.project.keep <+: l ∧
      (x.after w).project.tree.bytesAt l ≠ w.project.tree.bytesAt l) :
    ∃ ws, (runUndo { last := true } (x.after w)).1 = .ofEvents (undone ws) ∧
      (∀ r ∈ ws, r.success = true) ∧ ∀ l, ¬ w.project.keep <+: l →
        (runUndo { last := true } (x.after w)).2.project.tree.bytesAt l =
          w.project.tree.bytesAt l := by
  obtain ⟨t, ht, hgrows, ks, hks⟩ :=
    hsecond.after_backed hproper hhere habsolute hfresh hbacksUp hfiles
  obtain ⟨l, hl, hchanged⟩ := hwrites
  rw [ht] at hchanged
  obtain ⟨k, hk⟩ := List.exists_mem_of_ne_nil ks (hks.ne_nil hl hchanged)
  have hbatch := hks.intact.hasBatch k hk
  rw [hks.stamps k hk] at hbatch
  obtain ⟨ws, hws, hsuccess, hget⟩ := hks.undoLast (hfresh.latest hgrows hbatch)
  have hprepare : { w.project with tree := t }.prepare = .ok { w.project with tree := t } := by
    unfold Project.prepare
    rw [hbatch.keep]
  refine ⟨ws, ?_, hsuccess, ?_⟩
  all_goals
    unfold runUndo undoIn
    rw [ht, hprepare]
    dsimp only
  · rw [hws]
    rfl
  · exact hget

end InSecond

/-- **Undoing the latest batch takes back the last fix, and nothing else**, if that fix has changed
anything, all that it writes is written within one second, and this second comes after the names of
all batches that were there and after the seconds in which the fixes before have written. -/
theorem runUndo_takes_back_runFix {w : Workspace} (hproper : w.project.Proper)
    (hhere : w.project.here = w.project.root) (habsolute : w.project.path.isAbsolute = true)
    (earlier : List Fixing) (last : Fixing) {stamp : RawText} (hsecond : last.InSecond stamp)
    (hfresh : w.project.Fresh stamp)
    (hlater : ∀ x ∈ earlier, ∀ s, IsStampOf x.moments x.files s →
      s.atMost stamp = true ∧ s ≠ stamp)
    (hfiles : ∀ file ∈ last.files, ¬ w.project.keep <+: w.project.placeOf file)
    (hbacksUp : (Fixing.afterAll earlier w).project.backsUp = true) :
    (∀ l, ¬ w.project.keep <+: l →
        (last.after (Fixing.afterAll earlier w)).project.tree.bytesAt l =
          (Fixing.afterAll earlier w).project.tree.bytesAt l) ∨
      ∃ ws, (runUndo { last := true } (last.after (Fixing.afterAll earlier w))).1 =
          .ofEvents (undone ws) ∧ (∀ r ∈ ws, r.success = true) ∧
        ∀ l, ¬ w.project.keep <+: l →
          (runUndo { last := true }
              (last.after (Fixing.afterAll earlier w))).2.project.tree.bytesAt l =
            (Fixing.afterAll earlier w).project.tree.bytesAt l := by
  obtain ⟨t, ht, hgrows⟩ := afterAll_grows earlier w
  generalize Fixing.afterAll earlier w = before at ht hbacksUp ⊢
  have hkeep : w.project.keep = before.project.keep := by rw [ht]; rfl
  have hplaceOf : w.project.placeOf = before.project.placeOf := by rw [ht]; rfl
  rw [hkeep, hplaceOf] at hfiles
  rw [hkeep]
  refine or_iff_not_imp_left.mpr fun hchanged => ?_
  push Not at hchanged
  refine hsecond.runUndo_after ?_ ?_ ?_ ?_ hbacksUp hfiles hchanged
  · rw [ht]
    exact hproper.withTree (hproper.way.mono hgrows.folders)
  · rw [ht]
    exact hhere
  · rw [ht]
    exact habsolute
  · rw [ht]
    refine hfresh.grows hgrows fun s hs => ?_
    obtain ⟨x, hx, hxs⟩ := hs
    exact hlater x hx s hxs

/-- Two sources in which something is logged. -/
def twoLogs : Workspace where
  project := {
    root := []
    tree := ⟨[([], .folder), (["a.ts"], .file (Utf8.encode "console.log(a)".toList)),
      (["b.ts"], .file (Utf8.encode "console.log(b)".toList))]⟩ }
  now := ⟨0⟩

/-- A fix of one of two sources. -/
def fixing (file : String) (now : Instant) : Fixing :=
  { options := { write := true, yes := true }, files := [file], now }

/-- Of two fixes in different seconds, the last one is taken back. -/
theorem runUndo_takes_back_runFix_sample :
    let before := (fixing "a.ts" ⟨0⟩).after twoLogs
    let after := (fixing "b.ts" ⟨1000⟩).after before
    let b := [RawText.ofString "b.ts"]
    after.project.tree.bytesAt b ≠ before.project.tree.bytesAt b ∧
      ∃ ws, (runUndo { last := true } after).1 = .ofEvents (undone ws) ∧
        (∀ r ∈ ws, r.success = true) ∧
        ∀ l, ¬ twoLogs.project.keep <+: l →
          (runUndo { last := true } after).2.project.tree.bytesAt l =
            before.project.tree.bytesAt l := by
  intro before after b
  have hproper : twoLogs.project.Proper := by
    have hproper := Project.intact_oneSource.proper
    refine ⟨.of_root rfl (by simp [twoLogs]) fun l hl => ?_, hproper.plain, hproper.roomy⟩
    rw [List.prefix_nil.mp hl]
    rfl
  have hfirst := Fixing.InSecond.of_delays (x := fixing "a.ts" ⟨0⟩) rfl (by decide)
  have hsecond := Fixing.InSecond.of_delays (x := fixing "b.ts" ⟨1000⟩) rfl (by decide)
  have hfresh : twoLogs.project.Fresh (RawText.ofString (Instant.stamp ⟨1000⟩)) := by
    refine ⟨fun l hl => ?_, by decide +kernel⟩
    obtain ⟨rest, rfl⟩ := hl
    simp [Tree.get?, twoLogs, Project.batch, Project.backups, Project.keep]
  have hbacksUp : before.project.backsUp = true := by decide +kernel
  have hwrites : after.project.tree.bytesAt b ≠ before.project.tree.bytesAt b := by
    decide +kernel
  refine ⟨hwrites, ?_⟩
  have hlater : ∀ x ∈ [fixing "a.ts" ⟨0⟩], ∀ s, IsStampOf x.moments x.files s →
      s.atMost (RawText.ofString (Instant.stamp ⟨1000⟩)) = true ∧
        s ≠ RawText.ofString (Instant.stamp ⟨1000⟩) := by
    intro x hx s hs
    rw [List.mem_singleton.mp hx] at hs
    rw [hfirst.eq_of_isStampOf hs]
    decide +kernel
  rcases runUndo_takes_back_runFix hproper rfl rfl [fixing "a.ts" ⟨0⟩] (fixing "b.ts" ⟨1000⟩)
    hsecond hfresh hlater (by decide +kernel) hbacksUp with hsame | hundone
  · exact absurd (hsame b (by decide)) hwrites
  · exact hundone

/-- Of two fixes within one second, both are taken back: the last of them has written the second
file only, and the first file does not keep what the other one has made of it. -/
theorem undoLast_spans_fixes :
    let before := (fixing "a.ts" ⟨0⟩).after twoLogs
    let after := (fixing "b.ts" ⟨999⟩).after before
    let undone := (runUndo { last := true } after).2
    let a := [RawText.ofString "a.ts"]
    let b := [RawText.ofString "b.ts"]
    before.project.backsUp = true ∧
      after.project.tree.bytesAt a = before.project.tree.bytesAt a ∧
      after.project.tree.bytesAt b ≠ before.project.tree.bytesAt b ∧
      undone.project.tree.bytesAt a = twoLogs.project.tree.bytesAt a ∧
      undone.project.tree.bytesAt a ≠ before.project.tree.bytesAt a := by
  decide +kernel

/-- A fix that goes on into the next second makes two batches, and only the latest is undone. -/
example :
    let both := { fixing "a.ts" ⟨0⟩ with
      files := ["a.ts", "b.ts"], delays := fun n => if n = 0 then 0 else 1000 }
    let after := (both.after twoLogs).project
    after.tree.namesIn after.backups =
      [RawText.ofString "1970-01-01T00-00-00", RawText.ofString "1970-01-01T00-00-01"] := by
  decide +kernel

end Command

end Mend
