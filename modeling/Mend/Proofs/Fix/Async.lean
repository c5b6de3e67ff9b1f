import Mend.Fix.Control
import Mend.Proofs.Fix.Meant
import Mend.Proofs.Idiom
import Mend.Proofs.Idiom.Functions

/-!
# Functions that are made synchronous

The rule looks into a function up to the first closing brace, and the fix goes by the line: it takes
the first asynchronous function on the line of the issue.

* `fixed_removeRedundantAsync`: the function that is meant loses its `async`.
* `meant_of_leads`, `leads_of_meant`: it is the reported function exactly if that is the first one
  on its line.
* `removeRedundantAsync_awaits_iff`: the reported function awaits behind the first closing brace or
  not at all.
-/

namespace Mend

open Text Reader

namespace Fix

open Idiom

/-! ## The function that is made synchronous -/

variable {t : Text} {i : Issue} {m : Match}

theorem success_removeRedundantAsync_iff :
    (removeRedundantAsync t i).success ↔ ∃ m, meant? asyncFunction t i = some m := by
  rw [exists_meant?_iff, removeRedundantAsync]
  dsimp only
  split
  · next hnone =>
    refine iff_of_false Bool.false_ne_true ?_
    rintro ⟨k, hk⟩
    rw [hnone] at hk
    cases hk
  · next k hk => exact iff_of_true rfl ⟨k, hk⟩

theorem covered_of_meant (h : meant? asyncFunction t i = some m) :
    ∃ gap, m.covered = "async".toList ++ (gap ++ "function".toList) ∧ ∀ c ∈ gap, isBlank c := by
  obtain ⟨k, m', -, hm', rfl⟩ := meant?_eq_some_iff.mp h
  obtain ⟨gap, hcovered, hgap⟩ := asyncFunction_parts (firstMatch?_reads hm').2
  exact ⟨gap, by rw [hcovered, List.append_assoc], hgap⟩

/-- The word `async` is taken away in front of the function, with the white space behind it. -/
theorem fixed_removeRedundantAsync (h : meant? asyncFunction t i = some m) :
    t = m.before ++ (m.covered ++ m.after) ∧
    (removeRedundantAsync t i).fixed = m.before ++ ("function".toList ++ m.after) := by
  obtain ⟨k, hk⟩ := exists_meant?_iff.mp ⟨m, h⟩
  obtain ⟨ht, hnew⟩ := text_of_meant h hk
  refine ⟨ht, ?_⟩
  rw [← hnew, removeRedundantAsync]
  dsimp only
  rw [hk]

/-! ## The function that was reported -/

/-- The first asynchronous function on the line of a place, with `rest` behind it, starts there. -/
def Leads (a rest : Text) : Prop :=
  (firstMatch? asyncFunction ((lines (a ++ rest)).getD (a.count '\n') [])).map Match.before =
    some ((lines a).getLast (lines_ne_nil a))

variable {a u v : Text}

/-- The function at a place is made synchronous only if it is the first one on its line. -/
theorem leads_of_meant {rest : Text} (h : meant? asyncFunction (a ++ rest) i = some m)
    (hbefore : m.before = a) : Leads a rest := by
  obtain ⟨k, m', hk, hm', rfl⟩ := meant?_eq_some_iff.mp h
  dsimp only at hbefore
  have honeLine : ∀ line ∈ (lines (a ++ rest)).take k ++ [m'.before], '\n' ∉ line := by
    intro line hmem
    obtain hmem | hmem := List.mem_append.mp hmem
    · exact newline_not_mem_of_mem_lines (List.mem_of_mem_take hmem)
    · obtain rfl := List.mem_singleton.mp hmem
      have hfree := newline_not_mem_getD (a ++ rest) k
      rw [← firstMatch?_eq_some hm', List.append_assoc] at hfree
      exact fun hc => hfree (List.mem_append_left _ hc)
  have ha : lines a = (lines (a ++ rest)).take k ++ [m'.before] := by
    rw [← lines_unlines (by simp) honeLine, hbefore]
  have hcount := length_of_lines_eq ha
  rw [List.length_take, min_eq_left (place?_lt hk).le] at hcount
  rw [Leads, ← hcount, hm']
  simp [ha]

/-- A reported function is made synchronous if it is the first one on its line. -/
theorem meant_of_leads (h : Rule.asyncWithoutAwait.ReportsAt idleAsync i a u v)
    (hleads : Leads a (u ++ v)) :
    ∃ m, meant? asyncFunction (a ++ (u ++ v)) i = some m ∧ m.before = a := by
  have starts : ¬ u.head?.any isBlank := by
    obtain ⟨gap, header, blk, rfl, -⟩ := idleAsync_parts h.reads
    exact (by decide : ¬ isBlank 'a')
  obtain ⟨init, last, head, tail, ha, -, ht, hmeant⟩ :=
    exists_line_of_reportsAt h starts
  have hline : (lines (a ++ (u ++ v))).getD (a.count '\n') [] = last ++ head := by
    rw [ht, ← length_of_lines_eq ha]
    simp
  have hlast : (lines a).getLast (lines_ne_nil a) = last := by simp [ha]
  obtain ⟨m, hm, hbefore⟩ := Option.map_eq_some_iff.mp hleads
  rw [hline] at hm
  refine ⟨_, (hmeant (occurs_iff.mpr ⟨m, hm⟩)).trans (by rw [hm, Option.map_some]), ?_⟩
  dsimp only
  rw [hbefore, hlast, ← ha, unlines_lines]

/-- Behind a reported function that is made synchronous stands its header, with its block. -/
theorem exists_after_of_meant (h : Rule.asyncWithoutAwait.ReportsAt idleAsync i a u v)
    (hm : meant? asyncFunction (a ++ (u ++ v)) i = some m) (hbefore : m.before = a) :
    ∃ header blk, m.after = header ++ '{' :: (blk ++ '}' :: v) ∧
      '{' ∉ header ∧ '}' ∉ blk ∧ ¬ OccursWord "await".toList blk := by
  obtain ⟨gap, header, blk, hu, hgap, hheader, hblk, hidle⟩ := idleAsync_parts h.reads
  obtain ⟨gap', hcovered, hgap'⟩ := covered_of_meant hm
  have e := (fixed_removeRedundantAsync hm).1
  rw [hbefore, hu, hcovered] at e
  simp only [List.append_assoc] at e
  -- the white space between the two words ends where `function` begins
  have hfunction : "function".toList = 'f' :: "unction".toList := by decide
  have e := List.append_cancel_left (List.append_cancel_left e)
  rw [hfunction, List.cons_append, List.cons_append] at e
  obtain ⟨-, e⟩ := append_cons_unique (q := fun c => !isBlank c) (fun c hc => by simp [hgap c hc])
    (fun c hc => by simp [hgap' c hc]) (by decide) (by decide) e
  refine ⟨header, blk, ?_, hheader, hblk, hidle⟩
  rw [← List.append_cancel_left (List.cons.inj e).2]
  simp

/-- **Whether a function that is made synchronous awaits.** If the first asynchronous function on
its line is the one that was reported, and only then, it is this function that is made synchronous;
it awaits exactly if it does so behind the first closing brace in its body, so never if there is no
block in it. -/
theorem removeRedundantAsync_awaits_iff (t : Text) (i : Issue) :
    ((removeRedundantAsync t i).success ↔ ∃ m, meant? asyncFunction t i = some m) ∧
    (∀ m, meant? asyncFunction t i = some m →
      (∃ gap, m.covered = "async".toList ++ (gap ++ "function".toList) ∧ ∀ c ∈ gap, isBlank c) ∧
      t = m.before ++ (m.covered ++ m.after) ∧
      (removeRedundantAsync t i).fixed = m.before ++ ("function".toList ++ m.after)) ∧
    (i ∈ Rule.asyncWithoutAwait.reported t →
      ∃ a u v, t = a ++ (u ++ v) ∧ Rule.asyncWithoutAwait.ReportsAt idleAsync i a u v) ∧
    ∀ a u v, t = a ++ (u ++ v) → Rule.asyncWithoutAwait.ReportsAt idleAsync i a u v →
      (Leads a (u ++ v) ↔ ∃ m, meant? asyncFunction t i = some m ∧ m.before = a) ∧
      ∀ m, meant? asyncFunction t i = some m → m.before = a → ∀ body, body? m.after = some body →
        (OccursWord "await".toList body ↔
          OccursWord "await".toList (body.dropWhile (· != '}'))) ∧
        ('{' ∉ body → ¬ OccursWord "await".toList body) := by
  refine ⟨success_removeRedundantAsync_iff,
    fun m hm => ⟨covered_of_meant hm, fixed_removeRedundantAsync hm⟩,
    Rule.exists_reportsAt rfl, ?_⟩
  rintro a u v rfl h
  refine ⟨⟨meant_of_leads h, fun ⟨m, hm, hbefore⟩ => leads_of_meant hm hbefore⟩,
    fun m hm hbefore body hbody => ?_⟩
  obtain ⟨header, blk, hafter, hheader, hblk, hidle⟩ := exists_after_of_meant h hm hbefore
  rw [hafter, body?_append hheader] at hbody
  exact awaits_iff_of_idle hblk hidle hbody

/-- A function without a block in it, behind another one, never awaits. -/
theorem removeRedundantAsync_awaits_iff_sample :
    let a := "await f()\n  ".toList
    let u := "async function g(x) \x7b return x \x7d".toList
    let i := Rule.asyncWithoutAwait.issue { line := some 2, evidence := u }
    let m : Match := ⟨a, "async function".toList, " g(x) \x7b return x \x7d".toList⟩
    let body := " return x ".toList
    Rule.asyncWithoutAwait.ReportsAt idleAsync i a u [] ∧ Leads a u ∧
    meant? asyncFunction (a ++ u) i = some m ∧
    body? m.after = some body ∧ '{' ∉ body ∧ ¬ OccursWord "await".toList body := by
  intro a u i m body
  have hreported : Rule.asyncWithoutAwait.ReportsAt idleAsync i a u [] := ⟨rfl, rfl⟩
  have hm : meant? asyncFunction (a ++ u) i = some m := rfl
  have hbody : body? m.after = some body := rfl
  obtain ⟨hleads, hawaits⟩ :=
    (removeRedundantAsync_awaits_iff (a ++ u) i).2.2.2 a u [] (by simp) hreported
  rw [List.append_nil] at hleads
  have hopen : '{' ∉ body := by decide
  exact ⟨hreported, hleads.mpr ⟨m, hm, rfl⟩, hm, hbody, hopen,
    (hawaits m hm rfl body hbody).2 hopen⟩

/-- For an issue that the rule reports, a function that awaits in its body is made synchronous. -/
def Breaks (t : Text) (i : Issue) (body : Text) : Prop :=
  i ∈ Rule.asyncWithoutAwait.reported t ∧ (removeRedundantAsync t i).success ∧
    ∃ m, meant? asyncFunction t i = some m ∧ body? m.after = some body ∧
      OccursWord "await".toList body

/-- **A function is made synchronous though it awaits**: behind a block in its body, or because it
stands in front of the reported function on its line. -/
theorem removeRedundantAsync_breaks_await :
    (Breaks "async function f() \x7b\n  if (x) \x7b y(); \x7d\n  await z();\n\x7d".toList
      (Rule.asyncWithoutAwait.issue
        { line := some 1, evidence := "async function f() \x7b\n  if (x) \x7b y(); \x7d".toList })
      "\n  if (x) \x7b y(); \x7d\n  await z();\n".toList) ∧
    Breaks "async function g() \x7b await x \x7d async function f() \x7b \x7d".toList
      (Rule.asyncWithoutAwait.issue
        { line := some 1, evidence := "async function f() \x7b \x7d".toList })
      " await x ".toList := by
  have hword : ∀ {body : Text}, occurs (.word ["await".toList]) body →
      OccursWord "await".toList body := (occurs_word_iff (by decide)).mp
  constructor
  · refine ⟨List.mem_singleton_self _, rfl, ?_⟩
    exact ⟨⟨[], "async function".toList,
      " f() \x7b\n  if (x) \x7b y(); \x7d\n  await z();\n\x7d".toList⟩,
      rfl, rfl, hword rfl⟩
  · refine ⟨List.mem_singleton_self _, rfl, ?_⟩
    exact ⟨⟨[], "async function".toList,
      " g() \x7b await x \x7d async function f() \x7b \x7d".toList⟩,
      rfl, rfl, hword rfl⟩

end Fix

end Mend
