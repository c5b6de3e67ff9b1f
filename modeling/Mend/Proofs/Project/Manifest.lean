import Mend.Project.Manifest
import Mend.Project.Tree
import Mend.Proofs.Json
import Mend.Proofs.Project.Path
import Mend.Proofs.Text.Utf8

/-!
# Manifests that are read back

* `savedOf_entry`: the entry for a backup says which file it was made of, and where it is.
* `jsonOf_toBytes`: a manifest is read back entry by entry.
-/

namespace Mend

/-- What can be written in the name of a file is no first half. -/
theorem Point.legible_of_isWritable {p : Point} (h : Tree.isWritable p = true) : p.Legible := by
  cases p with
  | char c => exact legible_char c
  | half n =>
    have hbyte : ((half n).byte?).isSome = true := h
    have hlow : 0x80 ≤ 0xd800 + (n : Nat) - 0xdc00 := by
      unfold byte? at hbyte
      dsimp only at hbyte
      split at hbyte
      · next hb =>
        rw [Bool.and_eq_true, decide_eq_true_iff] at hb
        exact hb.1
      · cases hbyte
    rw [Legible, ← Bool.not_eq_true, isHigh_iff]
    show ¬ (0xd800 ≤ 0xd800 + (n : Nat) ∧ 0xd800 + (n : Nat) < 0xdc00)
    omega

theorem RawText.legible_ofString (s : String) : ∀ p ∈ RawText.ofString s, p.Legible := by
  intro p hp
  obtain ⟨c, -, rfl⟩ := List.mem_map.mp hp
  exact Point.legible_char c

/-- The text of a path is legible if its names can be written. -/
theorem Path.legible_text {p : Path} (h : ∀ n ∈ p.names, n.all Tree.isWritable = true) :
    ∀ x ∈ p.text, x.Legible := by
  have hslash : slash.Legible := Point.legible_char '/'
  have hnames : ∀ x ∈ List.intercalate [slash] p.names, x.Legible := by
    intro x hx
    rcases Text.mem_of_mem_intercalate hx with hx | ⟨n, hn, hx⟩
    · rw [List.mem_singleton.mp hx]
      exact hslash
    · exact Point.legible_of_isWritable (List.all_eq_true.mp (h n hn) x hx)
  unfold text
  dsimp only
  split
  · exact RawText.legible_ofString "."
  · rw [List.forall_mem_append]
    refine ⟨fun x hx => ?_, hnames⟩
    rw [List.eq_of_mem_replicate hx]
    exact hslash

namespace Manifest

/-- **The entry for a backup is read back.** -/
theorem savedOf_entry (session : String) {file backup : Path} (hfile : file.Plain)
    (hbackup : backup.Plain) (stamp : RawText) :
    savedOf (entry session file backup stamp) =
      .ok { session := .text session, file, backup, stamp := .text stamp } := by
  have hsession : fieldOf "session_id" (entry session file backup stamp) =
      .ok (.text session) := rfl
  have hpath : pathOf "file" (entry session file backup stamp) = .ok (.ofText file.text) := rfl
  have hpath' : pathOf "backup" (entry session file backup stamp) = .ok (.ofText backup.text) := rfl
  have hstamp : fieldOf "timestamp" (entry session file backup stamp) = .ok (.text stamp) := rfl
  unfold savedOf
  rw [hsession, hpath, hpath', hstamp, hfile.ofText_text, hbackup.ofText_text]
  rfl

theorem readable_entry (session : String) {file backup : Path} {stamp : RawText}
    (hfile : ∀ x ∈ file.text, x.Legible) (hbackup : ∀ x ∈ backup.text, x.Legible)
    (hstamp : ∀ x ∈ stamp, x.Legible) (level : Nat) :
    Json.Readable 1 level (entry session file backup stamp) := by
  have hnames : (["session_id", "file", "backup", "timestamp"].map RawText.ofString).Nodup := by
    decide
  refine Json.readable_record (fun f hf => ?_) hnames
  simp only [List.mem_cons, List.not_mem_nil, or_false] at hf
  rcases hf with rfl | rfl | rfl | rfl
  · exact ⟨RawText.legible_ofString _, Json.readable_text (RawText.legible_ofString _) _⟩
  · exact ⟨RawText.legible_ofString _, Json.readable_text hfile _⟩
  · exact ⟨RawText.legible_ofString _, Json.readable_text hbackup _⟩
  · exact ⟨RawText.legible_ofString _, Json.readable_text hstamp _⟩

/-- **A manifest is read back entry by entry.** -/
theorem jsonOf_toBytes {entries : List Json} (h : ∀ e ∈ entries, Json.Readable 1 1 e) :
    jsonOf (toBytes entries) = .ok (.list entries) := by
  have hlist : Json.Readable 2 0 (.list entries) := Json.readable_list h
  have hread : readText? (toBytes entries) = some (Json.indented (.list entries)).toList := by
    refine readText?_encode (fun c hc => (hlist.written c hc).1) fun hc => ?_
    exact (hlist.written _ hc).2 rfl
  unfold jsonOf
  rw [hread]
  dsimp only
  rw [hlist.ofChars_indented (by decide)]

end Manifest

end Mend
