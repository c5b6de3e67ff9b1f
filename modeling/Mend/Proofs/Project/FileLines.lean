import Mend.Proofs.Engine.Following
import Mend.Proofs.Project.Writing
import Mend.Proofs.Text.FileLines

/-!
# Lines that a write leaves alone

A session sees a file with newlines only, and what it makes of it is written with newlines only. So
a line that no fix has changed is written with its characters, but with a newline behind it,
whatever has ended it in the file.

* `write_keeps_lines`: **a line that no applied fix has changed keeps its characters**, and it keeps
  what ends it if that is a newline and the line does not become the last one, or if it is the last.
* `write_drops_returns`: a carriage return that ends such a line is not kept.
-/

namespace Mend.Project

open Text

/-- Of the lines of a file that are kept, those that end in a newline and do not become the last one
keep that, and so does the last one. -/
theorem exists_fileLine_of_keeps {move : Nat → Option Nat} {t u : Text}
    (h : KeepsLines move (withNewlines t) u) (hu : '\r' ∉ u) {k k' : Nat} {line : FileLine}
    (hline : (fileLines t)[k]? = some line) (hmove : move k = some k') :
    ∃ line', (fileLines u)[k']? = some line' ∧ line'.content = line.content ∧
      (line' = line ↔
        line.ending = [] ∨ line.ending = ['\n'] ∧ k' + 1 < (fileLines u).length) := by
  have hcontent : (lines (withNewlines t))[k]? = some line.content := by
    rw [← map_content_fileLines, List.getElem?_map, hline, Option.map_some]
  obtain ⟨hkept, hlast⟩ := h k k' line.content hcontent hmove
  have hlength : (fileLines u).length = (lines u).length := by
    rw [length_fileLines, withNewlines_of_not_mem hu]
  have hlt : k' < (lines u).length := (List.getElem?_eq_some_iff.mp hkept).1
  have hending := ending_of_getElem? hline
  rw [length_fileLines] at hending
  rw [fileLines_of_not_mem hu, hkept, hlength]
  refine ⟨_, rfl, rfl, ?_⟩
  obtain ⟨content, ending⟩ := line
  rw [FileLine.mk.injEq]
  dsimp only at hending ⊢
  by_cases hbehind : k' + 1 < (lines u).length
  · -- a line that nothing ends is the last one, and stays it
    have hsome : ending ≠ [] := by
      rintro rfl
      split at hending
      · obtain hending | ⟨-, hending | hending⟩ := hending <;> cases hending
      · have hk := (List.getElem?_eq_some_iff.mp hcontent).1
        omega
    rw [if_pos hbehind]
    simp [hbehind, hsome, eq_comm]
  · rw [if_neg hbehind]
    simp [hbehind, eq_comm]

/-- **What is written of a session keeps every line that no applied fix has changed**, apart from
what ends it. A line keeps that, too, exactly if nothing ends it, or if a newline does and it does
not become the last one. -/
theorem write_keeps_lines {κ σ : Type} [Confidence κ] {e : Engine κ}
    (registry : e.registry.Labelled) {d : Detector σ} {w : Surroundings σ} {file : String}
    {source : Text} {r : SessionResult} (run : (e.run d w file source).1 = r) {p : Project}
    {t : Text} (held : p.read (p.fileOf r) = .ok (Utf8.encode t)) {backup : Bool} {now : Instant}
    {result : WriteResult} (written : (p.write backup r now).1 = .ok result)
    (success : result.success = true) :
    (p.write backup r now).2.read (p.fileOf r) = .ok (Utf8.encode r.fixed) ∧
      ∀ (k k' : Nat) (line : FileLine), (fileLines t)[k]? = some line → r.follow k = some k' →
        ∃ line', (fileLines r.fixed)[k']? = some line' ∧ line'.content = line.content ∧
          (line' = line ↔
            line.ending = [] ∨ line.ending = ['\n'] ∧ k' + 1 < (fileLines r.fixed).length) := by
  obtain ⟨-, hsource, -⟩ := e.run_cases d w file source
  have hkeeps := e.run_keeps registry d w file source
  have hreturn : '\r' ∈ (e.run d w file source).1.fixed → '\r' ∈ source :=
    Engine.return_mem_of_run registry.builtin
  rw [run] at hsource hkeeps hreturn
  obtain ⟨tree, htree, ⟨hfailed, -⟩ | ⟨-, ⟨bytes, hbytes, hseen⟩, halters, hfile⟩⟩ :=
    p.write_alters backup r now
  · rw [hfailed _ written] at success
    cases success
  obtain rfl := Except.ok.inj (hbytes.symm.trans held)
  rw [hsource, readText_encode] at hseen
  obtain rfl := hseen
  constructor
  · rw [htree]
    exact halters.toGrows.read held hfile
  · intro k k' line
    exact exists_fileLine_of_keeps hkeeps fun hc => not_mem_withNewlines t (hreturn hc)

/-- Of a file with endings of two kinds, the line above the one that is fixed keeps its newline. -/
theorem write_keeps_lines_sample :
    let e : Engine Rat := { registry := .standard, thresholds := .standard }
    let t := "import a\nconsole.log(a)\nb\r\nc".toList
    let r :=
      (e.run (.patterns {}) { now := ⟨0⟩, memory := () } "a.ts" (readText (Utf8.encode t))).1
    let p : Project :=
      { root := [], tree := ⟨[([], .folder), (["a.ts"], .file (Utf8.encode t))]⟩ }
    (p.write false r ⟨0⟩).2.read (p.fileOf r) = .ok (Utf8.encode r.fixed) ∧
      (fileLines t)[0]? = some ⟨"import a".toList, ['\n']⟩ ∧ r.follow 0 = some 0 ∧
      (fileLines r.fixed)[0]? = some ⟨"import a".toList, ['\n']⟩ := by
  intro e t r p
  obtain ⟨result, hwritten, hsuccess⟩ : ∃ result, (p.write false r ⟨0⟩).1 = .ok result ∧
      result.success = true := by
    have hany : (p.write false r ⟨0⟩).1.toOption.any (·.success) = true := by decide +kernel
    cases h : (p.write false r ⟨0⟩).1 with
    | error e =>
      rw [h] at hany
      cases hany
    | ok result =>
      rw [h] at hany
      exact ⟨result, rfl, hany⟩
  have hline : (fileLines t)[0]? = some ⟨"import a".toList, ['\n']⟩ := by decide +kernel
  have hfollow : r.follow 0 = some 0 := by decide +kernel
  obtain ⟨hread, hkept⟩ := write_keeps_lines (Registry.labelled_standard (κ := Rat)) (e := e)
    (r := r) rfl (p := p) (t := t) (by decide +kernel) hwritten hsuccess
  obtain ⟨line', hline', -, hsame⟩ := hkept 0 0 _ hline hfollow
  refine ⟨hread, hline, hfollow, ?_⟩
  rw [hline', hsame.mpr (.inr ⟨rfl, by decide +kernel⟩)]

/-- A line that ends in a carriage return and a newline does not keep the carriage return, though no
fix has changed it. -/
theorem write_drops_returns :
    let e : Engine Rat := { registry := .standard, thresholds := .standard }
    let t := "import a\r\nconsole.log(a)".toList
    let r :=
      (e.run (.patterns {}) { now := ⟨0⟩, memory := () } "a.ts" (readText (Utf8.encode t))).1
    let p : Project :=
      { root := [], tree := ⟨[([], .folder), (["a.ts"], .file (Utf8.encode t))]⟩ }
    (fileLines t)[0]? = some ⟨"import a".toList, ['\r', '\n']⟩ ∧ r.follow 0 = some 0 ∧
      (p.write false r ⟨0⟩).1.toOption.map (·.success) = some true ∧
      (p.write false r ⟨0⟩).2.read (p.fileOf r) =
        .ok (Utf8.encode "import a\nlogger.debug(a)".toList) := by
  decide +kernel

/-- A line that becomes the last one, since the import below it is removed, does not keep its
newline. -/
example :
    let e : Engine Rat := { registry := .standard, thresholds := .standard }
    let t := "go()\nimport \x7b run \x7d from './run'".toList
    let r :=
      (e.run (.patterns {}) { now := ⟨0⟩, memory := () } "a.ts" (readText (Utf8.encode t))).1
    (fileLines t)[0]? = some ⟨"go()".toList, ['\n']⟩ ∧ r.follow 0 = some 0 ∧
      fileLines r.fixed = [⟨"go()".toList, []⟩] := by
  decide +kernel

end Mend.Project
