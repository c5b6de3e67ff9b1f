import Mend.Proofs.Command.Sessions
import Mend.Proofs.Engine.Foreign
import Mend.Proofs.Project.Seen

/-!
# Fixing writes every file once

* `sessions_saw`: the sessions of a fix have seen what their files hold when the project has been
  opened.
* `writeResults_run`: the first result for each file is written, and the others are refused.
* `runFix_writes_firsts`: **no result is written to anything but what its session has seen**.
-/

namespace Mend.Command

variable {options : FixOptions} {p : Project}

/-! ## What the sessions have seen -/

theorem not_mem_of_readSource {file : Path} {t : Text} (h : p.readSource file = .ok t) :
    '\r' ∉ t := by
  obtain ⟨bytes, -, rfl⟩ := Project.readSource_eq_ok_iff.mp h
  exact not_mem_readText bytes

/-- The sessions of a command have seen what their files hold. -/
theorem runSessions_saw (d : Detector Unit) {files : List String} {s : Sessions}
    (hbuiltin : s.engine.registry.Builtin) {rs : List SessionResult}
    (hrs : (runSessions d p files s).1 = .ok rs) : List.Forall₂ p.Saw files rs := by
  induction files generalizing s rs with
  | nil =>
    obtain rfl := Except.ok.inj hrs
    exact .nil
  | cons file files ih =>
    unfold runSessions at hrs
    dsimp only at hrs
    split at hrs
    · cases hrs
    next t ht =>
    obtain ⟨hnamed, hsource, hregistry, -⟩ :=
      s.engine.run_cases d s.outside (Path.ofText file).text.string t
    have hfixed : '\r' ∉ (s.engine.run d s.outside (Path.ofText file).text.string t).1.fixed :=
      fun hc => not_mem_of_readSource ht (Engine.return_mem_of_run hbuiltin hc)
    generalize s.engine.run d s.outside (Path.ofText file).text.string t = ran
      at hrs hnamed hsource hregistry hfixed
    obtain ⟨r, engine, outside⟩ := ran
    dsimp only at hrs hnamed hsource hregistry hfixed
    generalize hrest : runSessions d p files { engine, outside } = rest at hrs
    obtain ⟨e | rs', s'⟩ := rest
    · cases hrs
    · obtain rfl := Except.ok.inj hrs
      have hbuiltin' : engine.registry.Builtin := by
        rw [hregistry]
        exact hbuiltin
      exact .cons ⟨hnamed, by rw [ht, hsource], hfixed⟩ (ih hbuiltin' (by rw [hrest]))

theorem sessions_saw {files : List String} {w : Workspace} {rs : List SessionResult}
    (hrs : sessions options files w = .ok rs) :
    List.Forall₂ w.project.openWithSettings.2.Saw files rs := by
  unfold sessions at hrs
  generalize w.project.openWithSettings = opened at hrs ⊢
  obtain ⟨e | o, p⟩ := opened
  · cases hrs
  · have hregistry : (sessionsStart options o w).engine.registry = .standard := rfl
    refine runSessions_saw _ ?_ hrs
    rw [hregistry]
    exact Registry.builtin_standard

/-! ## Writing the results -/

/-- **The first result for each file is written, and the others are refused**, up to the first try
that fails. -/
theorem writeResults_run (hyes : options.yes = true) (backup : Bool) (moments : Nat → Instant)
    (hp : p.Grounded) {rs : List SessionResult} (hrs : ∀ r ∈ rs, ∃ file, p.Saw file r)
    {log : List (SessionResult × WriteResult)} {t : Tree} (h : p.Written log t)
    (answers : List Bool) :
    ∃ more t', (writeResults options backup moments rs answers { p with tree := t }).2 =
        { p with tree := t' } ∧
      p.Written (log ++ more) t' ∧
      (writeResults options backup moments rs answers { p with tree := t }).1.events =
        (if options.json then [] else more.flatMap fun x => written x.2) ∧
      more.map Prod.fst <+: rs.filter (·.changed) ∧
      ((writeResults options backup moments rs answers { p with tree := t }).1.ending = .done →
        more.map Prod.fst = rs.filter (·.changed)) := by
  induction rs generalizing log t moments with
  | nil =>
    refine ⟨[], t, rfl, by simpa using h, ?_, by simp, by simp⟩
    split <;> rfl
  | cons r rs ih =>
    rw [List.forall_mem_cons] at hrs
    unfold writeResults
    rw [hyes]
    cases hchanged : r.changed with
    | false =>
      obtain ⟨more, t', hmore⟩ := ih moments hrs.2 h
      rw [List.filter_cons_of_neg (by simp [hchanged])]
      exact ⟨more, t', hmore⟩
    | true =>
      obtain ⟨file, hr⟩ := hrs.1
      rw [List.filter_cons_of_pos hchanged]
      obtain ⟨t', ht', ⟨⟨e, he⟩, hsame⟩ | ⟨a, ha, hwritten⟩⟩ :=
        h.write hp hr hchanged backup (moments 0)
      · have hanswer :
            { p with tree := t }.write backup r (moments 0) = (.error e, { p with tree := t' }) :=
          Prod.ext he ht'
        dsimp only
        rw [hanswer]
        refine ⟨[], t', rfl, by simpa using hsame, ?_, by simp, ?_⟩
        · simp [Transcript.failedWith, Transcript.after]
        · simp [Transcript.failedWith, Transcript.after]
      · have hanswer :
            { p with tree := t }.write backup r (moments 0) = (.ok a, { p with tree := t' }) :=
          Prod.ext ha ht'
        dsimp only
        rw [hanswer]
        obtain ⟨more, t'', hproject, hstate, hevents, hbegins, hdone⟩ := ih _ hrs.2 hwritten
        refine ⟨(r, a) :: more, t'', hproject, by simpa using hstate, ?_, ?_, ?_⟩
        · cases hjson : options.json <;> simp [Transcript.after, hevents, hjson]
        · simpa using hbegins
        · intro h
          rw [List.map_cons, hdone h]

/-! ## The whole command -/

theorem showResults_ending (rs : List SessionResult) :
    (showResults rs).ending = .done ∨ ∃ e, (showResults rs).ending = .failed e := by
  induction rs with
  | nil => exact .inl rfl
  | cons r rs ih =>
    unfold showResults
    split
    · exact .inr ⟨_, rfl⟩
    · exact ih

/-- Showing results is done or fails. -/
theorem report_ending (json : Bool) (rs : List SessionResult) :
    (report json rs).ending = .done ∨ ∃ e, (report json rs).ending = .failed e := by
  unfold report
  split
  · exact .inl rfl
  · exact showResults_ending rs

/-- Writing results is done or fails. -/
theorem writeResults_ending (options : FixOptions) (backup : Bool) (moments : Nat → Instant)
    (rs : List SessionResult) (answers : List Bool) (p : Project) :
    (writeResults options backup moments rs answers p).1.ending = .done ∨
      ∃ e, (writeResults options backup moments rs answers p).1.ending = .failed e := by
  induction rs generalizing moments answers p with
  | nil => exact .inl rfl
  | cons r rs ih =>
    unfold writeResults
    split
    · exact ih _ answers p
    dsimp only
    split
    · exact ih _ _ p
    split
    · exact .inr ⟨_, rfl⟩
    · exact ih _ _ _

/-- Writing all results: what is tried, what is shown of it, and what is left. -/
theorem writeAll_run (hyes : options.yes = true) (backup : Bool) (moments : Nat → Instant)
    (hp : p.Grounded) {rs : List SessionResult} (hrs : ∀ r ∈ rs, ∃ file, p.Saw file r) {t : Tree}
    (h : p.Adds t) (answers : List Bool) :
    ∃ log t', (writeAll options backup moments rs answers { p with tree := t }).2 =
        { p with tree := t' } ∧
      p.Written log t' ∧
      (writeAll options backup moments rs answers { p with tree := t }).1.events =
        (if options.json then [] else log.flatMap fun x => written x.2) ∧
      log.map Prod.fst <+: rs.filter (·.changed) ∧
      ((writeAll options backup moments rs answers { p with tree := t }).1.ending = .done ∧
          log.map Prod.fst = rs.filter (·.changed) ∨
        ∃ e, (writeAll options backup moments rs answers { p with tree := t }).1.ending =
          .failed e) := by
  unfold writeAll
  split
  · refine ⟨[], t, rfl, .of_adds h, ?_, by simp, .inr ⟨_, rfl⟩⟩
    simp [Transcript.failedWith]
  next q hq =>
  obtain ⟨t', rfl, huntouched⟩ := Project.prepare_untouched hq
  have hstart : p.Written [] t' := .of_adds (h.trans huntouched.adds)
  obtain ⟨log, t'', hproject, hstate, hevents, hbegins, hdone⟩ :=
    writeResults_run hyes backup moments hp hrs hstart answers
  refine ⟨log, t'', hproject, by simpa using hstate, hevents, hbegins, ?_⟩
  rcases writeResults_ending options backup moments rs answers { p with tree := t' } with hend | hend
  · exact .inl ⟨hend, hdone hend⟩
  · exact .inr hend

theorem andThen_done {first : Transcript} (h : first.ending = .done) (p : Project)
    (second : Project → Transcript × Project) :
    andThen first p second = ((second p).1.after first.events, (second p).2) := by
  unfold andThen
  rw [h]

theorem andThen_failed {first : Transcript} {e : CommandError} (h : first.ending = .failed e)
    (p : Project) (second : Project → Transcript × Project) :
    andThen first p second = (first, p) := by
  unfold andThen
  rw [h]

/-- Concluding a fix that writes: what is tried, what is shown of it, and what is left. -/
theorem conclude_run (hwrite : options.write = true) (hyes : options.yes = true) (backup : Bool)
    (moments : Nat → Instant) (hp : p.Grounded) {rs : List SessionResult}
    (hrs : ∀ r ∈ rs, ∃ file, p.Saw file r) {t : Tree} (h : p.Adds t) (answers : List Bool) :
    ∃ shown log t', (conclude options backup moments answers rs { p with tree := t }).2 =
        { p with tree := t' } ∧
      p.Written log t' ∧
      (conclude options backup moments answers rs { p with tree := t }).1.events =
        shown ++ (if options.json then [] else log.flatMap fun x => written x.2) ∧
      log.map Prod.fst <+: rs.filter (·.changed) ∧
      ((∀ e, (conclude options backup moments answers rs { p with tree := t }).1.ending ≠ .failed e) →
        log.map Prod.fst = rs.filter (·.changed)) := by
  unfold conclude
  rcases report_ending options.json rs with hreport | ⟨e, hreport⟩
  · rw [andThen_done hreport]
    obtain ⟨log, t', hproject, hstate, hevents, hbegins, hend⟩ :=
      writeAll_run hyes backup moments hp hrs h answers
    simp only [hwrite, if_true]
    rcases hend with ⟨hdone, hall⟩ | ⟨e, hfailed⟩
    · rw [andThen_done hdone]
      refine ⟨(report options.json rs).events, log, t', hproject, hstate, ?_, hbegins,
        fun _ => hall⟩
      simp [Transcript.after, hevents]
    · rw [andThen_failed hfailed]
      refine ⟨(report options.json rs).events, log, t', hproject, hstate, ?_, hbegins,
        fun hne => absurd hfailed (hne e)⟩
      simp [Transcript.after, hevents]
  · rw [andThen_failed hreport]
    refine ⟨(report options.json rs).events, [], t, rfl, .of_adds h, ?_, by simp,
      fun hne => absurd hreport (hne e)⟩
    simp

/-- What is at a location after some results have been tried is what was there, or what the first of
all results for it that have changed something has made of it. -/
theorem writtenAt_cases {log : List (SessionResult × WriteResult)} {rs : List SessionResult}
    (hbegins : log.map Prod.fst <+: rs.filter (·.changed)) (l : Location) :
    p.writtenAt log l = p.tree.get? l ∨
      ∃ r, rs.find? (fun r => r.changed && p.target r = l) = some r ∧
        p.writtenAt log l = some (.file (Utf8.encode r.fixed)) := by
  unfold Project.writtenAt
  cases hfind : log.find? (p.target ·.1 = l) with
  | none => exact .inl rfl
  | some x =>
    refine .inr ⟨x.1, ?_, rfl⟩
    have hfirst : (log.map Prod.fst).find? (p.target · = l) = some x.1 := by
      rw [List.find?_map]
      exact congrArg (Option.map Prod.fst) hfind
    have hall := hbegins.find?_eq_some hfirst
    rw [List.find?_filter] at hall
    simpa using hall

theorem writtenAt_of_adds {t : Tree} (h : p.Adds t) (log : List (SessionResult × WriteResult))
    {l : Location} (hl : ¬ p.keep <+: l) :
    { p with tree := t }.writtenAt log l = p.writtenAt log l := by
  have htarget : { p with tree := t }.target = p.target := rfl
  unfold Project.writtenAt
  rw [htarget, h.outside l hl]

/-- A fix that writes: what its sessions have seen, what is tried, what is shown of it, and what is
left. -/
theorem runFix_run (hwrite : options.write = true) (hyes : options.yes = true) (files : List String)
    (answers : List Bool) {w : Workspace} (hopen : w.project.openWithSettings.2 = p)
    (hp : p.Grounded) {rs : List SessionResult} (hrs : sessions options files w = .ok rs) :
    ∃ shown log t, (runFix options files answers w).2.project = { p with tree := t } ∧
      p.Written log t ∧
      (runFix options files answers w).1.events =
        shown ++ (if options.json then [] else log.flatMap fun x => written x.2) ∧
      log.map Prod.fst <+: rs.filter (·.changed) ∧
      ((∀ e, (runFix options files answers w).1.ending ≠ .failed e) →
        log.map Prod.fst = rs.filter (·.changed)) := by
  obtain ⟨t, hbrings, hrun⟩ := runFix_eq options files answers w
  have hsaw := sessions_saw hrs
  rw [hopen] at hbrings hrun hsaw
  rw [hrs] at hrun
  have hall : ∀ r ∈ rs, ∃ file, p.Saw file r := by
    intro r hr
    obtain ⟨i, hi, rfl⟩ := List.getElem_of_mem hr
    exact ⟨_, (List.forall₂_iff_get.mp hsaw).2 i (hsaw.length_eq ▸ hi) hi⟩
  obtain ⟨shown, log, t', hrest⟩ :=
    conclude_run hwrite hyes w.project.backsUp w.moments hp hall hbrings.adds answers
  have htranscript : (runFix options files answers w).1 =
      (conclude options w.project.backsUp w.moments answers rs { p with tree := t }).1 :=
    congrArg Prod.fst hrun
  have hproject : (runFix options files answers w).2.project =
      (conclude options w.project.backsUp w.moments answers rs { p with tree := t }).2 :=
    congrArg Prod.snd hrun
  rw [htranscript, hproject]
  exact ⟨shown, log, t', hrest⟩

/-- **No result is written to anything but what its session has seen.** After fixes with `write` and
`yes`, each of their files outside of the folder that is kept about the project holds what it held,
or else what the first session for it that has changed something has made of it. The results that
have changed something are tried in the order of the files, up to the first try that fails, and one
is refused exactly if another one for its file was tried before. -/
theorem runFix_writes_firsts (hwrite : options.write = true) (hyes : options.yes = true)
    (files : List String) (answers : List Bool) {w : Workspace} (hw : w.project.Grounded) :
    (∀ file ∈ files, ¬ w.project.keep <+: w.project.placeOf file →
      (runFix options files answers w).2.project.tree.get? (w.project.placeOf file) =
          w.project.tree.get? (w.project.placeOf file) ∨
        ∃ rs r, sessions options files w = .ok rs ∧
          rs.find? (fun r => r.changed && w.project.target r = w.project.placeOf file) = some r ∧
          (runFix options files answers w).2.project.tree.get? (w.project.placeOf file) =
            some (.file (Utf8.encode r.fixed))) ∧
    (∀ e, sessions options files w = .error e → ∀ l, ¬ w.project.keep <+: l →
      (runFix options files answers w).2.project.tree.get? l = w.project.tree.get? l) ∧
    ∀ rs, sessions options files w = .ok rs →
      List.Forall₂ (fun file r => w.project.target r = w.project.placeOf file) files rs ∧
      ∃ shown log,
        (runFix options files answers w).1.events =
          shown ++ (if options.json then [] else log.flatMap fun x => written x.2) ∧
        log.map Prod.fst <+: rs.filter (·.changed) ∧
        ((∀ e, (runFix options files answers w).1.ending ≠ .failed e) →
          log.map Prod.fst = rs.filter (·.changed)) ∧
        (∀ before r a, before ++ [(r, a)] <+: log → ¬ w.project.keep <+: w.project.target r →
          (a.success = true ↔ ∀ b ∈ before, w.project.target b.1 ≠ w.project.target r)) ∧
        ∀ l, ¬ w.project.keep <+: l →
          (runFix options files answers w).2.project.tree.get? l = w.project.writtenAt log l := by
  obtain ⟨t₀, hopen, huntouched, -⟩ := w.project.openWithSettings_untouched
  have hgrounded := huntouched.adds.grounded hw
  have hgiven : ∀ e, sessions options files w = .error e → ∀ l, ¬ w.project.keep <+: l →
      (runFix options files answers w).2.project.tree.get? l = w.project.tree.get? l := by
    intro e he l hl
    obtain ⟨t, hbrings, hrun⟩ := runFix_eq options files answers w
    rw [hopen] at hbrings hrun
    rw [he] at hrun
    have hproject : (runFix options files answers w).2.project = { w.project with tree := t } :=
      congrArg Prod.snd hrun
    rw [hproject]
    exact (huntouched.adds.trans hbrings.adds).outside l hl
  refine ⟨fun file _ houtside => ?_, hgiven, fun rs hrs => ⟨?_, ?_⟩⟩
  · cases hsessions : sessions options files w with
    | error e => exact .inl (hgiven e hsessions _ houtside)
    | ok rs =>
      obtain ⟨-, log, t, hproject, hwritten, -, hbegins, -⟩ :=
        runFix_run hwrite hyes files answers hopen hgrounded hsessions
      rw [hproject, hwritten.places _ houtside, writtenAt_of_adds huntouched.adds log houtside]
      rcases writtenAt_cases hbegins (w.project.placeOf file) with hsame | ⟨r, hr, hfixed⟩
      · exact .inl hsame
      · exact .inr ⟨rs, r, rfl, hr, hfixed⟩
  · have hsaw := sessions_saw hrs
    rw [hopen] at hsaw
    exact hsaw.imp fun file r h => h.target_eq hgrounded
  · obtain ⟨shown, log, t, hproject, hwritten, hevents, hbegins, hwhole⟩ :=
      runFix_run hwrite hyes files answers hopen hgrounded hrs
    refine ⟨shown, log, hevents, hbegins, hwhole, hwritten.firsts, fun l hl => ?_⟩
    rw [hproject, hwritten.places l hl, writtenAt_of_adds huntouched.adds log hl]

/-- A project with a source in which something is logged. -/
def oneLog : Workspace where
  project := {
    root := []
    tree := ⟨[([], .folder), (["a.ts"], .file (Utf8.encode "console.log(a)".toList))]⟩ }
  now := ⟨0⟩

/-- A source is given to one fix under two names. -/
theorem runFix_writes_firsts_sample :
    let p := oneLog.project
    let after := (runFix { write := true, yes := true } ["a.ts", "./a.ts"] [] oneLog).2.project
    p.placeOf "a.ts" = [RawText.ofString "a.ts"] ∧ p.placeOf "./a.ts" = p.placeOf "a.ts" ∧
      ∀ file ∈ ["a.ts", "./a.ts"],
        after.tree.get? (p.placeOf file) = p.tree.get? (p.placeOf file) ∨
          ∃ rs r, sessions { write := true, yes := true } ["a.ts", "./a.ts"] oneLog = .ok rs ∧
            rs.find? (fun r => r.changed && p.target r = p.placeOf file) = some r ∧
            after.tree.get? (p.placeOf file) = some (.file (Utf8.encode r.fixed)) := by
  have hgrounded : oneLog.project.Grounded := by
    refine ⟨.of_root rfl (by simp [oneLog]) fun l hl => ?_, rfl⟩
    rw [List.prefix_nil.mp hl]
    rfl
  have houtside : ∀ file ∈ ["a.ts", "./a.ts"],
      ¬ oneLog.project.keep <+: oneLog.project.placeOf file := by decide
  refine ⟨by decide, by decide, fun file hfile => ?_⟩
  exact (runFix_writes_firsts rfl rfl _ [] hgrounded).1 file hfile (houtside file hfile)

end Mend.Command
