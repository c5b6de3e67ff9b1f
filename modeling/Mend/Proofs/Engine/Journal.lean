import Mathlib.Data.List.Basic
import Mend.Proofs.Engine.History
import Mend.Proofs.Experience
import Mend.Proofs.Registry

/-!
# The journal of an engine

Every attempt of a history is an entry of its journal. What the engine has learned, what it
remembers and what its sessions have counted are three views of the journal.

* `steps_keep`, `forall_mem_journal`: what every move keeps, a history keeps, and what holds of the
  entries of every move holds of its journal.
* `experience_steps`: the experience is what the recorded entries teach, one after the other.
* `get?_step_of_forall_ne`: a move changes no record of a strategy and a rule that it makes no
  attempt with.
* `lookup_history_steps`: the history of a strategy are the fixes in its entries.
* `sum_total_sessions`, `sum_successful_sessions`: the counts of the sessions are those of the
  entries.
* `run_learning`: the learning mode changes nothing in a session but what is learned.
* `journal_accounts`: all of it, for an engine that begins with nothing.
-/

namespace Mend

/-- The strategy and the rule of an attempt. -/
def Attempt.key {κ : Type} (a : Attempt κ) : String × String := (a.strategy.id, a.issue.rule)

/-- An attempt as it is written down: with the engine as it was when the session began, and the
moment. -/
structure Engine.Entry (κ : Type) where
  engine : Engine κ
  now : Instant
  attempt : Attempt κ

/-- The experience after an entry is recorded. Learning starts from the confidence that the strategy
is registered with, and a strategy that gave up counts as one that failed. -/
def Registry.record {κ : Type} [Confidence κ] (r : Registry κ) (x : Experience κ)
    (n : Engine.Entry κ) : Experience κ :=
  match r.get? n.attempt.strategy.id with
  | none => x
  | some s => x.add s.id n.attempt.issue.rule n.attempt.succeeded s.confidence n.now

namespace Engine

variable {κ : Type}

/-! ## Histories by strategy -/

theorem lookup_remember (name : String) (fix : Fix) (s : String)
    (history : List (String × List Fix)) :
    (remember name fix history).lookup s =
      if s = name then some ((history.lookup s).getD [] ++ [fix]) else history.lookup s := by
  induction history with
  | nil =>
    by_cases hs : s = name
    · simp [remember, hs]
    · simp [remember, List.lookup_cons, beq_false_of_ne hs, hs]
  | cons row rest ih =>
    obtain ⟨first, fixes⟩ := row
    by_cases hs : s = first
    · by_cases hname : first = name
      · simp [remember, hs, hname]
      · simp [remember, hs, hname]
    · by_cases hname : first = name
      · subst hname
        simp [remember, List.lookup_cons, beq_false_of_ne hs, hs]
      · simp [remember, List.lookup_cons, beq_false_of_ne hs, hname, ih]

/-- The fixes that a strategy returned, in the order of the attempts. -/
def fixesOf (s : String) (as : List (Attempt κ)) : List Fix :=
  (as.filter (·.strategy.id = s)).filterMap (·.fix?)

/-- Attempts put the fixes of a strategy behind those that are remembered of it. -/
theorem lookup_foldl_chronicle (s : String) (as : List (Attempt κ)) :
    ∀ history : List (String × List Fix), (as.foldl chronicle history).lookup s =
      if fixesOf s as = [] then history.lookup s
      else some ((history.lookup s).getD [] ++ fixesOf s as) := by
  induction as with
  | nil => exact fun _ => rfl
  | cons a as ih =>
    intro history
    rw [List.foldl_cons, ih]
    by_cases hs : a.strategy.id = s
    · cases hfix : a.fix? with
      | none =>
        have hfixes : fixesOf s (a :: as) = fixesOf s as := by simp [fixesOf, hs, hfix]
        rw [hfixes, chronicle, hfix]
      | some fix =>
        have hfixes : fixesOf s (a :: as) = fix :: fixesOf s as := by simp [fixesOf, hs, hfix]
        rw [hfixes, chronicle, hfix, lookup_remember, if_pos hs.symm]
        by_cases hnone : fixesOf s as = []
        · simp [hnone]
        · simp [hnone]
    · have hfixes : fixesOf s (a :: as) = fixesOf s as := by simp [fixesOf, hs]
      have hother : (chronicle history a).lookup s = history.lookup s := by
        unfold chronicle
        split
        · rfl
        · rw [lookup_remember, if_neg fun h => hs h.symm]
      rw [hfixes, hother]

variable [Confidence κ]

/-! ## Entries -/

/-- The engine after several moves. -/
def steps (e : Engine κ) (moves : List Move) : Engine κ := moves.foldl step e

/-- The attempts of a move as they are written down. -/
def entries (e : Engine κ) (m : Move) : List (Entry κ) :=
  match m with
  | .session d w file t =>
    (e.made m).map (⟨e, (w.countSession.observe d file t).2.now, ·⟩)
  | .setSafetyMode _ => []
  | .setLearning _ => []

/-- All attempts of a history as they are written down. -/
def journal (e : Engine κ) : List Move → List (Entry κ)
  | [] => []
  | m :: moves => e.entries m ++ (e.step m).journal moves

/-- The entries that were made while outcomes were recorded. -/
def recorded (e : Engine κ) (moves : List Move) : List (Entry κ) :=
  (e.journal moves).filter (·.engine.learning)

/-- What a move comes to, if it is a session. -/
def result? (e : Engine κ) (m : Move) : Option SessionResult :=
  match m with
  | .session d w file t => some (e.run d w file t).1
  | .setSafetyMode _ => none
  | .setLearning _ => none

/-- What the sessions of a history come to. -/
def sessions (e : Engine κ) : List Move → List SessionResult
  | [] => []
  | m :: moves => (e.result? m).toList ++ (e.step m).sessions moves

@[simp] theorem steps_cons (e : Engine κ) (m : Move) (moves : List Move) :
    e.steps (m :: moves) = (e.step m).steps moves := rfl

theorem steps_append (e : Engine κ) (moves later : List Move) :
    e.steps (moves ++ later) = (e.steps moves).steps later := List.foldl_append

/-- **What every move keeps, a history keeps**, as long as `P` holds of the engine and the moves
still to come. -/
theorem steps_keep {α : Type} {P : Engine κ → List Move → Prop} {f : Engine κ → α}
    (next : ∀ {e m moves}, P e (m :: moves) → P (e.step m) moves)
    (keep : ∀ {e m moves}, P e (m :: moves) → f (e.step m) = f e) (moves : List Move)
    {e : Engine κ} (h : P e moves) : f (e.steps moves) = f e := by
  induction moves generalizing e with
  | nil => rfl
  | cons m moves ih => rw [steps_cons, ih (next h), keep h]

/-- **What holds of the entries of every move holds of those of a history**, as long as `P` holds of
the engine and the moves still to come. -/
theorem forall_mem_journal {P : Engine κ → List Move → Prop} {Q : Entry κ → Prop}
    (next : ∀ {e m moves}, P e (m :: moves) → P (e.step m) moves)
    (now : ∀ {e m moves}, P e (m :: moves) → ∀ n ∈ e.entries m, Q n) (moves : List Move)
    {e : Engine κ} (h : P e moves) : ∀ n ∈ e.journal moves, Q n := by
  induction moves generalizing e with
  | nil => exact fun n hn => absurd hn List.not_mem_nil
  | cons m moves ih =>
    intro n hn
    rcases List.mem_append.mp hn with hnow | hlater
    · exact now h n hnow
    · exact ih (next h) n hlater

@[simp] theorem steps_registry (e : Engine κ) (moves : List Move) :
    (e.steps moves).registry = e.registry :=
  steps_keep (P := fun _ _ => True) (f := (·.registry)) (fun _ => trivial)
    (fun _ => step_registry _ _) moves trivial

@[simp] theorem steps_thresholds (e : Engine κ) (moves : List Move) :
    (e.steps moves).thresholds = e.thresholds :=
  steps_keep (P := fun _ _ => True) (f := (·.thresholds)) (fun _ => trivial)
    (fun _ => step_thresholds _ _) moves trivial

theorem map_attempt_entries (e : Engine κ) (m : Move) :
    (e.entries m).map (·.attempt) = e.made m := by
  cases m with
  | session d w file t =>
    rw [entries, List.map_map]
    exact List.map_id _
  | setSafetyMode on => rfl
  | setLearning on => rfl

theorem attempt_mem_made {e : Engine κ} {m : Move} {n : Entry κ} (h : n ∈ e.entries m) :
    n.attempt ∈ e.made m := by
  rw [← map_attempt_entries]
  exact List.mem_map_of_mem h

theorem engine_of_mem_entries {e : Engine κ} {m : Move} {n : Entry κ} (h : n ∈ e.entries m) :
    n.engine = e := by
  cases m with
  | session d w file t =>
    obtain ⟨a, -, rfl⟩ := List.mem_map.mp h
    rfl
  | setSafetyMode on => exact absurd h List.not_mem_nil
  | setLearning on => exact absurd h List.not_mem_nil

/-- The journal is the log, with the moments. -/
theorem map_journal (e : Engine κ) (moves : List Move) :
    (e.journal moves).map (fun n => (n.engine, n.attempt)) = e.log moves := by
  induction moves generalizing e with
  | nil => rfl
  | cons m moves ih =>
    rw [journal, log, List.map_append, ih, ← map_attempt_entries, List.map_map]
    congr 1
    exact List.map_congr_left fun n hn => by rw [engine_of_mem_entries hn]; rfl

/-! ## What is learned -/

/-- The strategy of an attempt is registered. -/
theorem get?_of_mem_made {e : Engine κ} (hr : e.registry.Sound) {m : Move} {a : Attempt κ}
    (h : a ∈ e.made m) : ∃ s, e.registry.get? a.strategy.id = some s ∧ s.id = a.strategy.id := by
  obtain ⟨x, hx, hadjust⟩ := select_eq_some (selected_of_mem_made h).1
  have hid : a.strategy.id = x.id := by rw [hadjust, Snapshot.adjust_id]
  rw [hid]
  exact ⟨x, hr.get?_id (hr.mem_of_listed hx), rfl⟩

/-- **What a move teaches**: its entries are recorded one after the other if outcomes are. -/
theorem experience_step {e : Engine κ} (hr : e.registry.Sound) (m : Move) :
    (e.step m).experience =
      ((e.entries m).filter (·.engine.learning)).foldl e.registry.record e.experience := by
  cases m with
  | setSafetyMode on => rfl
  | setLearning on => rfl
  | session d w file t =>
    rw [step_session]
    dsimp only
    cases hlearning : e.learning with
    | false =>
      have hnone : (e.entries (.session d w file t)).filter (·.engine.learning) = [] := by
        rw [List.filter_eq_nil_iff]
        intro n hn
        rw [engine_of_mem_entries hn, hlearning]
        exact Bool.false_ne_true
      rw [hnone, List.foldl_nil]
      refine List.foldl_fixed' (fun a => ?_) _
      rw [teach, learn, hlearning]
      rfl
    | true =>
      have hall : (e.entries (.session d w file t)).filter (·.engine.learning) =
          e.entries (.session d w file t) := by
        rw [List.filter_eq_self]
        intro n hn
        rw [engine_of_mem_entries hn, hlearning]
      rw [hall, entries, List.foldl_map]
      refine List.foldl_ext _ _ _ fun x a ha => ?_
      obtain ⟨s, hs, hid⟩ := get?_of_mem_made hr ha
      rw [teach, learn, hlearning, Registry.record]
      simp only [hs, hid, Option.map_some, Option.getD_some, if_true]

/-- **The experience is what the recorded entries of the journal teach.** -/
theorem experience_steps (moves : List Move) {e : Engine κ} (hr : e.registry.Sound) :
    (e.steps moves).experience = (e.recorded moves).foldl e.registry.record e.experience := by
  induction moves generalizing e with
  | nil => rfl
  | cons m moves ih =>
    have hr' : (e.step m).registry.Sound := by rwa [step_registry]
    rw [steps_cons, ih hr', step_registry, experience_step hr, recorded, recorded, journal,
      List.filter_append, List.foldl_append]

theorem get?_teach_of_ne {e : Engine κ} {now : Instant} {x : Experience κ} {a : Attempt κ}
    {s rule : String} (h : a.key ≠ (s, rule)) :
    (e.teach now x a).get? s rule = x.get? s rule := by
  unfold teach learn
  dsimp only
  split
  · rw [Experience.get?_add]
    exact if_neg h
  · rfl

/-- **A move changes no record of a strategy and a rule that it makes no attempt with.** -/
theorem get?_step_of_forall_ne {e : Engine κ} {m : Move} {s rule : String}
    (h : ∀ a ∈ e.made m, a.key ≠ (s, rule)) :
    (e.step m).experience.get? s rule = e.experience.get? s rule := by
  cases m with
  | session d w file t =>
    rw [step_session]
    refine List.foldlRecOn (e.made _) _
      (motive := fun x : Experience κ => x.get? s rule = e.experience.get? s rule) rfl ?_
    intro x hx a ha
    rw [get?_teach_of_ne (h a ha), hx]
  | setSafetyMode on => rfl
  | setLearning on => rfl

/-- Every strategy in the journal is registered. -/
theorem get?_of_mem_journal {moves : List Move} {e : Engine κ} (hr : e.registry.Sound) :
    ∀ n ∈ e.journal moves,
      ∃ s, e.registry.get? n.attempt.strategy.id = some s ∧ s.id = n.attempt.strategy.id := by
  refine forall_mem_journal (P := fun e' _ => e'.registry = e.registry) ?_ ?_ moves rfl
  · intro e' m moves h
    rw [step_registry, h]
  · intro e' m moves h n hn
    rw [← h] at hr ⊢
    exact get?_of_mem_made hr (attempt_mem_made hn)

/-! ## What is remembered -/

theorem history_step (e : Engine κ) (m : Move) :
    (e.step m).history = ((e.entries m).map (·.attempt)).foldl chronicle e.history := by
  rw [map_attempt_entries]
  cases m with
  | session d w file t => rw [step_session]
  | setSafetyMode on => rfl
  | setLearning on => rfl

theorem history_steps (moves : List Move) (e : Engine κ) :
    (e.steps moves).history = ((e.journal moves).map (·.attempt)).foldl chronicle e.history := by
  induction moves generalizing e with
  | nil => rfl
  | cons m moves ih =>
    rw [steps_cons, ih, history_step, journal, List.map_append, List.foldl_append]

/-- **What is remembered of a strategy are the fixes in its entries**, in order. -/
theorem lookup_history_steps (moves : List Move) {e : Engine κ} (h : e.history = []) (s : String) :
    (e.steps moves).history.lookup s =
      if fixesOf s ((e.journal moves).map (·.attempt)) = [] then none
      else some (fixesOf s ((e.journal moves).map (·.attempt))) := by
  rw [history_steps, lookup_foldl_chronicle, h]
  rfl

/-! ## What is counted -/

/-- A session counts its attempts and its successes, whether it is completed or given up. -/
theorem run_counts {σ : Type} (e : Engine κ) (d : Detector σ) (w : Surroundings σ) (file : String)
    (t : Text) :
    (e.run d w file t).1.session.total = (e.made (.session d w file t)).length ∧
      (e.run d w file t).1.session.successful =
        (e.made (.session d w file t)).countP (·.succeeded) := by
  cases first : w.countSession.observe d file t with
  | mk outcome w₁ =>
    cases outcome with
    | error cause =>
      obtain ⟨s, htotal, hsuccessful, -, -, hrun⟩ := e.run_of_first_error first
      rw [hrun, e.made_of_first_error first]
      exact ⟨htotal, hsuccessful⟩
    | ok before =>
      have hprogress := e.attempts_eq w₁.now before t
      have htotal : (e.attempts w₁.now (e.plan before.issues) t).total =
          (e.sessionCourse w₁.now before t).length := by rw [hprogress]
      have hsuccessful : (e.attempts w₁.now (e.plan before.issues) t).successful =
          (e.sessionCourse w₁.now before t).countP (·.succeeded) := by
        rw [hprogress]
        exact List.length_filterMap_eq_countP
      obtain ⟨-, hran, hsucceeded, -⟩ := e.run_of_first_ok first
      rw [e.made_of_first_ok first, hran, hsucceeded, htotal, hsuccessful]
      exact ⟨rfl, rfl⟩

/-- What a session counts of its attempts, a history of sessions counts of its entries. -/
theorem sum_sessions {f : SessionResult → Int} {p : Attempt κ → Bool}
    (hcount : ∀ {σ : Type} (e : Engine κ) (d : Detector σ) (w : Surroundings σ) (file : String)
      (t : Text), f (e.run d w file t).1 = (e.made (.session d w file t)).countP p)
    (moves : List Move) (e : Engine κ) :
    ((e.sessions moves).map f).sum = (e.journal moves).countP (p ·.attempt) := by
  induction moves generalizing e with
  | nil => rfl
  | cons m moves ih =>
    have hentries : (e.entries m).countP (p ·.attempt) = (e.made m).countP p := by
      rw [← map_attempt_entries, List.countP_map]
      rfl
    rw [sessions, journal, List.map_append, List.sum_append, ih, List.countP_append, hentries]
    cases m with
    | session d w file t =>
      rw [result?, Option.toList_some, List.map_singleton, List.sum_singleton, hcount]
      exact (Int.natCast_add _ _).symm
    | setSafetyMode on => simp [made, result?]
    | setLearning on => simp [made, result?]

/-- **The attempts that sessions count are the entries of the journal.** -/
theorem sum_total_sessions (moves : List Move) (e : Engine κ) :
    ((e.sessions moves).map (·.session.total)).sum = (e.journal moves).length := by
  rw [← List.countP_true]
  refine sum_sessions (p := fun _ => true) (fun e d w file t => ?_) moves e
  rw [(e.run_counts d w file t).1, List.countP_true]

/-- **The successes that sessions count are those in the journal.** -/
theorem sum_successful_sessions (moves : List Move) (e : Engine κ) :
    ((e.sessions moves).map (·.session.successful)).sum =
      (e.journal moves).countP (·.attempt.succeeded) :=
  sum_sessions (fun e d w file t => (e.run_counts d w file t).2) moves e

/-- Every recorded entry counts once in the experience. -/
theorem counts_foldl_record {r : Registry κ} (ns : List (Entry κ))
    (h : ∀ n ∈ ns, ∃ s, r.get? n.attempt.strategy.id = some s) (x : Experience κ) :
    (ns.foldl r.record x).attempts = x.attempts + ns.length ∧
      (ns.foldl r.record x).successes = x.successes + ns.countP (·.attempt.succeeded) := by
  induction ns generalizing x with
  | nil => exact ⟨rfl, rfl⟩
  | cons n ns ih =>
    obtain ⟨s, hs⟩ := h n List.mem_cons_self
    obtain ⟨hattempts, hsuccesses⟩ :=
      ih (fun n' hn' => h n' (List.mem_cons_of_mem n hn')) (r.record x n)
    have hrecord : r.record x n =
        x.add s.id n.attempt.issue.rule n.attempt.succeeded s.confidence n.now := by
      rw [Registry.record, hs]
    rw [List.foldl_cons, hattempts, hsuccesses, hrecord, Experience.attempts_add,
      Experience.successes_add, List.length_cons, List.countP_cons]
    refine ⟨by omega, ?_⟩
    cases n.attempt.succeeded with
    | false => simp
    | true => simp; omega

/-- Everything is recorded while outcomes are recorded throughout. -/
theorem learning_of_mem_journal {moves : List Move} {e : Engine κ} (he : e.learning = true)
    (hmoves : ∀ on, .setLearning on ∈ moves → on = true) :
    ∀ n ∈ e.journal moves, n.engine.learning = true := by
  refine forall_mem_journal
    (P := fun e moves => e.learning = true ∧ ∀ on, .setLearning on ∈ moves → on = true)
    ?_ ?_ moves ⟨he, hmoves⟩
  · rintro e m moves ⟨he, hmoves⟩
    refine ⟨?_, fun on hon => hmoves on (List.mem_cons_of_mem m hon)⟩
    cases m with
    | session d w file t =>
      rw [step_session]
      exact he
    | setSafetyMode on => exact he
    | setLearning on => exact hmoves on List.mem_cons_self
  · rintro e m moves ⟨he, -⟩ n hn
    rw [engine_of_mem_entries hn, he]

/-! ## The learning mode -/

/-- The attempts of a session are the same in either learning mode, and so is what is left of them
but for the experience. -/
theorem attempts_learning (e : Engine κ) (on : Bool) (now : Instant) (before : Detection)
    (t : Text) :
    ∃ x, { e with learning := on }.attempts now (e.plan before.issues) t =
      { e.attempts now (e.plan before.issues) t with experience := x } := by
  have hcourse : { e with learning := on }.sessionCourse now before t =
      e.sessionCourse now before t :=
    (({ e with learning := on }.sessionCourse_spec now before t).1.unique
      (e.sessionCourse_spec now before t).1).1
  have hprogress := { e with learning := on }.attempts_eq now before t
  rw [hcourse] at hprogress
  exact ⟨_, hprogress.trans (by rw [e.attempts_eq now before t])⟩

/-- **The learning mode changes nothing in a session but what is learned.** -/
theorem run_learning {σ : Type} (e : Engine κ) (on : Bool) (d : Detector σ) (w : Surroundings σ)
    (file : String) (t : Text) :
    ({ e with learning := on }.run d w file t).1 = (e.run d w file t).1 ∧
      ({ e with learning := on }.run d w file t).2.1.history = (e.run d w file t).2.1.history ∧
      ({ e with learning := on }.run d w file t).2.2 = (e.run d w file t).2.2 := by
  have hplan (issues : List Issue) :
      { e with learning := on }.plan issues = e.plan issues := rfl
  unfold run
  dsimp only
  cases first : w.countSession.observe d file t with
  | mk outcome w₁ =>
    cases outcome with
    | error cause => exact ⟨rfl, rfl, rfl⟩
    | ok before =>
      obtain ⟨x, hprogress⟩ := e.attempts_learning on w₁.now before t
      simp only [hplan, hprogress]
      cases w₁.observe d file (e.attempts w₁.now (e.plan before.issues) t).buffer with
      | mk outcome w₂ => cases outcome with
        | error cause => exact ⟨rfl, rfl, rfl⟩
        | ok after => exact ⟨rfl, rfl, rfl⟩

/-! ## The accounts -/

/-- What the journal of an engine that begins with nothing accounts for. -/
structure Accounted (e : Engine κ) (moves : List Move) : Prop where
  log : (e.journal moves).map (fun n => (n.engine, n.attempt)) = e.log moves
  registered : ∀ n ∈ e.journal moves,
    ∃ s, e.registry.get? n.attempt.strategy.id = some s ∧ s.id = n.attempt.strategy.id
  /-- What was learned is what the entries teach that were made while outcomes were recorded. -/
  experience : (e.steps moves).experience = (e.recorded moves).foldl e.registry.record .empty
  /-- What is remembered of a strategy are the fixes in its entries. -/
  history : ∀ s, (e.steps moves).history.lookup s =
    if fixesOf s ((e.journal moves).map (·.attempt)) = [] then none
    else some (fixesOf s ((e.journal moves).map (·.attempt)))
  total : ((e.sessions moves).map (·.session.total)).sum = (e.journal moves).length
  successful : ((e.sessions moves).map (·.session.successful)).sum =
    (e.journal moves).countP (·.attempt.succeeded)

theorem accounted {e : Engine κ} (hr : e.registry.Built) (hx : e.experience = .empty)
    (hh : e.history = []) (moves : List Move) : Accounted e moves where
  log := map_journal e moves
  registered := get?_of_mem_journal hr.sound
  experience := by rw [experience_steps moves hr.sound, hx]
  history := lookup_history_steps moves hh
  total := sum_total_sessions moves e
  successful := sum_successful_sessions moves e

/-- **The journal accounts for everything.** What an engine that began with nothing has learned,
what it remembers and what its sessions have counted all come from the one list of its attempts.
While outcomes are recorded throughout, everything in the list is learned; and whether they are
makes no difference to what a session comes to and what is remembered of it. -/
theorem journal_accounts {e : Engine κ} (hr : e.registry.Built) (hx : e.experience = .empty)
    (hh : e.history = []) (moves : List Move) :
    Accounted e moves ∧
      (e.learning = true → (∀ on, .setLearning on ∈ moves → on = true) →
        (e.steps moves).experience = (e.journal moves).foldl e.registry.record .empty ∧
        ((e.steps moves).experience.attempts : Int) =
          ((e.sessions moves).map (·.session.total)).sum ∧
        ((e.steps moves).experience.successes : Int) =
          ((e.sessions moves).map (·.session.successful)).sum) ∧
      ∀ {σ : Type} (on : Bool) (d : Detector σ) (w : Surroundings σ) (file : String) (t : Text),
        ({ e.steps moves with learning := on }.run d w file t).1 =
            ((e.steps moves).run d w file t).1 ∧
          ({ e.steps moves with learning := on }.run d w file t).2.1.history =
            ((e.steps moves).run d w file t).2.1.history := by
  have haccounts := accounted hr hx hh moves
  refine ⟨haccounts, fun hlearning hmoves => ?_, fun on d w file t => ?_⟩
  · have hall : e.recorded moves = e.journal moves :=
      List.filter_eq_self.mpr (learning_of_mem_journal hlearning hmoves)
    have hexperience := haccounts.experience
    rw [hall] at hexperience
    have hknown : ∀ n ∈ e.journal moves, ∃ s, e.registry.get? n.attempt.strategy.id = some s := by
      intro n hn
      obtain ⟨s, hs, -⟩ := haccounts.registered n hn
      exact ⟨s, hs⟩
    obtain ⟨hattempts, hsuccesses⟩ := counts_foldl_record (e.journal moves) hknown .empty
    have hnone : (Experience.empty : Experience κ).attempts = 0 ∧
        (Experience.empty : Experience κ).successes = 0 := ⟨rfl, rfl⟩
    rw [hnone.1, Nat.zero_add] at hattempts
    rw [hnone.2, Nat.zero_add] at hsuccesses
    rw [haccounts.total, haccounts.successful, hexperience, hattempts, hsuccesses]
    exact ⟨rfl, rfl, rfl⟩
  · obtain ⟨hresult, hhistory, -⟩ := (e.steps moves).run_learning on d w file t
    exact ⟨hresult, hhistory⟩

theorem journal_accounts_sample :
    let moves : List Move :=
      [.session (sampleDetector (.error "gone")) sampleStart "a.ts" sampleText,
        .setSafetyMode true,
        .session (.scripted [{ outcome := .error "gone" }]) sampleStart "a.ts" sampleText]
    (sampleEngine.journal moves).map (·.attempt.issue.rule) =
        ["unused_imports", "hardcoded_private_keys"] ∧
      Accounted sampleEngine moves ∧
      ((sampleEngine.steps moves).experience.attempts : Int) =
        ((sampleEngine.sessions moves).map (·.session.total)).sum := by
  intro moves
  have hr : sampleEngine.registry.Built := by
    rw [sampleEngine]
    exact Registry.built_standard
  have hrules : (sampleEngine.journal moves).map (·.attempt.issue.rule) =
      ["unused_imports", "hardcoded_private_keys"] := by decide +kernel
  have hon : ∀ on, .setLearning on ∈ moves → on = true := by simp [moves]
  have h := journal_accounts hr rfl rfl moves
  exact ⟨hrules, h.1, (h.2.1 rfl hon).2.1⟩

end Engine

end Mend
