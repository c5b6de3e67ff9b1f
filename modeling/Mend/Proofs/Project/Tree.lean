import Mathlib.Data.List.Basic
import Mend.Project.Tree

/-!
# Trees and the places that paths lead to

Where a path leads is settled by its names alone; the tree only says whether it leads there.

* `get?_set`: an entry that is put at a location changes what is at that location and nothing else.
* `mem_namesIn`: the names in a folder are those with something under them.
* `follow_eq_ok_iff`, `locate_eq_ok_iff`: a path leads to its place if all that it passes through
  are folders.
* `Passes.mono`, `locate_mono`: what can be passed through stays so while folders are only added,
  and paths lead where they led.
* `read_eq_ok_iff`, `read_mono`: what can be read, and when it reads the same.
* `writeOn_cases`: what becomes of a file that is written.
* `makeOn_spec`: making folders adds folders where nothing was, and nothing else.
-/

namespace Mend.Tree

variable {t t' : Tree} {l k start : Location} {e : Entry} {names : List RawText}

/-! ## Entries -/

theorem lookup_cons_eq_if (entries : List (Location × Entry)) :
    ((l, e) :: entries).lookup k = if l = k then some e else entries.lookup k := by
  rw [List.lookup_cons]
  by_cases h : l = k
  · simp [h]
  · rw [if_neg h, beq_false_of_ne (Ne.symm h)]

theorem lookup_setIn (entries : List (Location × Entry)) :
    (setIn l e entries).lookup k = if l = k then some e else entries.lookup k := by
  induction entries with
  | nil => exact lookup_cons_eq_if []
  | cons x entries ih =>
    obtain ⟨m, x⟩ := x
    unfold setIn
    by_cases hm : m = l
    · obtain rfl := hm
      rw [if_pos rfl, lookup_cons_eq_if, lookup_cons_eq_if]
      split <;> rfl
    · rw [if_neg hm, lookup_cons_eq_if, lookup_cons_eq_if, ih]
      by_cases h : l = k
      · rw [if_neg fun hk => hm (hk.trans h.symm), if_pos h, if_pos h]
      · rw [if_neg h, if_neg h]

theorem isSome_lookup_iff {entries : List (Location × Entry)} :
    (entries.lookup k).isSome = true ↔ k ∈ entries.map Prod.fst := by
  induction entries with
  | nil => simp
  | cons x entries ih =>
    obtain ⟨m, x⟩ := x
    rw [lookup_cons_eq_if, List.map_cons, List.mem_cons]
    by_cases h : m = k
    · simp [h]
    · simp [h, Ne.symm h, ih]

/-- **An entry that is put at a location changes what is there and nothing else.** -/
theorem get?_set (t : Tree) (l : Location) (e : Entry) (k : Location) :
    (t.set l e).get? k = if l = k then some e else t.get? k := lookup_setIn t.entries

@[simp] theorem get?_set_self (t : Tree) (l : Location) (e : Entry) :
    (t.set l e).get? l = some e := by rw [get?_set, if_pos rfl]

theorem get?_set_of_ne (h : l ≠ k) (e : Entry) : (t.set l e).get? k = t.get? k := by
  rw [get?_set, if_neg h]

/-- The names in a folder are those with something under them. -/
theorem mem_namesIn {folder : Location} {name : RawText} :
    name ∈ t.namesIn folder ↔ (t.get? (folder ++ [name])).isSome = true := by
  have hname : ∀ l, nameIn? folder l = some name ↔ l = folder ++ [name] := by
    intro l
    unfold nameIn?
    rcases List.eq_nil_or_concat l with rfl | ⟨init, last, rfl⟩
    · simp
    · rw [List.concat_eq_append, List.getLast?_concat, List.dropLast_concat]
      by_cases h : init = folder
      · simp [h]
      · simp [h]
  unfold get? namesIn
  rw [isSome_lookup_iff, List.mem_filterMap, List.mem_map]
  refine exists_congr fun x => and_congr_right fun _ => ?_
  exact hname x.1

/-! ## Places -/

/-- The place that names lead to, from a location on. -/
def place (start : Location) (names : List RawText) : Location := names.foldl next start

@[simp] theorem place_nil (start : Location) : place start [] = start := rfl

@[simp] theorem place_cons (start : Location) (name : RawText) (names : List RawText) :
    place start (name :: names) = place (next start name) names := rfl

theorem place_append (start : Location) (names names' : List RawText) :
    place start (names ++ names') = place (place start names) names' := List.foldl_append

/-- All that names lead through, from a location on, are folders, and no name is too long. -/
def Passes (t : Tree) (start : Location) : List RawText → Prop
  | [] => True
  | name :: rest =>
    t.get? start = some .folder ∧ byteCount name ≤ nameLimit ∧ t.Passes (next start name) rest

theorem passes_append {names' : List RawText} :
    t.Passes start (names ++ names') ↔
      t.Passes start names ∧ t.Passes (place start names) names' := by
  induction names generalizing start with
  | nil => simp [Passes]
  | cons name names ih => simp [Passes, ih, and_assoc]

/-- What can be passed through stays so while folders are only added. -/
theorem Passes.mono (h : t.Passes start names)
    (hfolders : ∀ l, t.get? l = some .folder → t'.get? l = some .folder) :
    t'.Passes start names := by
  induction names generalizing start with
  | nil => trivial
  | cons name names ih => exact ⟨hfolders _ h.1, h.2.1, ih h.2.2⟩

/-- **Names lead to their place if all that they lead through are folders.** -/
theorem follow_eq_ok_iff :
    t.follow start names = .ok l ↔ t.Passes start names ∧ l = place start names := by
  induction names generalizing start with
  | nil => simp [follow, Passes, eq_comm]
  | cons name names ih =>
    unfold follow Passes
    rw [place_cons]
    split
    · next hfolder =>
      split
      · next hlong => simp [hfolder]; omega
      · next hlong => simp [hfolder, ih, Nat.not_lt.mp hlong]
    · next e hfile he =>
      have hne : e ≠ .folder := fun h => hfile h
      simp [he, hne]
    · next hnone => simp [hnone]

/-- A path is not refused if its names can be written and its text is not too long. -/
theorem refusal?_eq_none_iff {p : Path} : refusal? p = none ↔
    (∀ n ∈ p.names, n.all isWritable = true) ∧ (∀ n ∈ p.names, n.contains (.char '\x00') = false) ∧
      byteCount p.text < pathLimit := by
  unfold refusal?
  split
  · next h =>
    obtain ⟨n, hn, hwritable⟩ := List.any_eq_true.mp h
    simp only [reduceCtorEq, false_iff, not_and]
    intro hall
    rw [hall n hn] at hwritable
    cases hwritable
  next hwritable =>
  have hall : ∀ n ∈ p.names, n.all isWritable = true := by
    intro n hn
    by_contra hne
    exact hwritable (List.any_eq_true.mpr ⟨n, hn, by simp [hne]⟩)
  split
  · next h =>
    obtain ⟨n, hn, hnul⟩ := List.any_eq_true.mp h
    simp only [reduceCtorEq, false_iff, not_and]
    intro _ hnone
    rw [hnone n hn] at hnul
    cases hnul
  next hnul =>
  have hnone : ∀ n ∈ p.names, n.contains (.char '\x00') = false := by
    intro n hn
    by_contra hne
    exact hnul (List.any_eq_true.mpr ⟨n, hn, by simpa using hne⟩)
  split
  · next h => simp [Nat.not_lt.mpr h]
  · next h => simpa using ⟨by simpa using hall, by simpa using hnone, Nat.not_le.mp h⟩

theorem locate_eq_ok_iff {here : Location} {p : Path} :
    t.locate here p = .ok l ↔
      refusal? p = none ∧ t.Passes (origin here p) p.names ∧ l = place (origin here p) p.names := by
  unfold locate
  cases refusal? p with
  | none => simp [follow_eq_ok_iff]
  | some e => simp

/-- Where a path leads, it leads while folders are only added. -/
theorem locate_mono {here : Location} {p : Path} (h : t.locate here p = .ok l)
    (hfolders : ∀ l, t.get? l = some .folder → t'.get? l = some .folder) :
    t'.locate here p = .ok l := by
  obtain ⟨hrefusal, hpasses, hplace⟩ := locate_eq_ok_iff.mp h
  exact locate_eq_ok_iff.mpr ⟨hrefusal, hpasses.mono hfolders, hplace⟩

/-! ## Writing -/

section Writing

variable {bytes : Bytes}

/-- **Bytes are written, or the file is left, or it is left with the first of them.** -/
theorem writeOn_cases (disk : Disk) (t : Tree) (l : Location) (bytes : Bytes) :
    (∃ e, (t.get? l ≠ some .folder → disk.takes t l bytes = .refused e) ∧
        t.writeOn disk l bytes = (.error e, t)) ∨
      t.get? l ≠ some .folder ∧
        (t.writeOn disk l bytes = (.ok (), t.set l (.file bytes)) ∨
          ∃ n e, disk.takes t l bytes = .cut n e ∧
            t.writeOn disk l bytes = (.error e, t.set l (.file (bytes.take n)))) := by
  unfold writeOn
  split
  · next hfolder => exact .inl ⟨_, fun h => absurd hfolder h, rfl⟩
  next hfile =>
  cases htaken : disk.takes t l bytes with
  | whole => exact .inr ⟨hfile, .inl rfl⟩
  | refused e => exact .inl ⟨e, fun _ => rfl, rfl⟩
  | cut n e => exact .inr ⟨hfile, .inr ⟨n, e, rfl, rfl⟩⟩

theorem writeOn_sound (h : t.get? l ≠ some .folder) (bytes : Bytes) :
    t.writeOn .sound l bytes = (.ok (), t.set l (.file bytes)) := by
  unfold writeOn
  split
  · next hfolder => exact absurd hfolder h
  · rfl

theorem writeAt_eq_ok_iff :
    t.writeAt l bytes = .ok t' ↔ t.get? l ≠ some .folder ∧ t' = t.set l (.file bytes) := by
  unfold writeAt
  by_cases hfolder : t.get? l = some .folder
  · simp [writeOn, hfolder, unlessFailed]
  · rw [writeOn_sound hfolder]
    simp [unlessFailed, hfolder, eq_comm]

end Writing

/-! ## Bytes -/

section Bytes

variable {bytes : Bytes} {here : Location} {p : Path}

theorem bytesAt_congr (h : t'.get? k = t.get? l) : t'.bytesAt k = t.bytesAt l := by
  unfold bytesAt
  rw [h]

theorem bytesAt_of_file (h : t.get? l = some (.file bytes)) : t.bytesAt l = .ok bytes := by
  unfold bytesAt
  rw [h]

theorem ne_none_of_bytesAt (h : t.bytesAt l = .ok bytes) : t.get? l ≠ none := by
  intro hnone
  unfold bytesAt at h
  rw [hnone] at h
  cases h

theorem ne_folder_of_bytesAt (h : t.bytesAt l = .ok bytes) : t.get? l ≠ some .folder := by
  intro hfolder
  unfold bytesAt at h
  rw [hfolder] at h
  cases h

/-- What a path leads to is what is in its place. -/
theorem read_eq_ok_iff :
    t.read here p = .ok bytes ↔ ∃ l, t.locate here p = .ok l ∧ t.bytesAt l = .ok bytes := by
  unfold read Disk.sound
  cases t.locate here p <;> simp

/-- What a disk lets be looked at is read as it is. -/
theorem read_of_disk {disk : Disk} (h : t.read here p disk = .ok bytes) :
    t.read here p = .ok bytes := by
  unfold read at h
  split at h
  · next l hl =>
    split at h
    · cases h
    · exact read_eq_ok_iff.mpr ⟨l, hl, h⟩
  · cases h

/-- What can be read reads the same while folders are only added and bytes stay. -/
theorem read_mono (h : t.read here p = .ok bytes)
    (hfolders : ∀ l, t.get? l = some .folder → t'.get? l = some .folder)
    (hbytes : ∀ l, t.bytesAt l = .ok bytes → t'.bytesAt l = .ok bytes) :
    t'.read here p = .ok bytes := by
  obtain ⟨l, hl, hat⟩ := read_eq_ok_iff.mp h
  exact read_eq_ok_iff.mpr ⟨l, locate_mono hl hfolders, hbytes l hat⟩

end Bytes

/-! ## Folders -/

/-- The folders that names lead through, from a folder on. -/
def Made (start : Location) (names : List RawText) (l : Location) : Prop :=
  ∃ made, made ≠ [] ∧ made <+: names ∧ l = start ++ made

theorem made_cons_iff {name : RawText} :
    Made start (name :: names) l ↔ l = start ++ [name] ∨ Made (start ++ [name]) names l := by
  constructor
  · rintro ⟨made, hne, hprefix, rfl⟩
    obtain ⟨rest, rfl, hrest⟩ : ∃ rest, made = name :: rest ∧ rest <+: names := by
      cases made with
      | nil => exact absurd rfl hne
      | cons x rest =>
        obtain ⟨rfl, hrest⟩ := List.cons_prefix_cons.mp hprefix
        exact ⟨rest, rfl, hrest⟩
    cases rest with
    | nil => exact .inl rfl
    | cons x rest => exact .inr ⟨x :: rest, by simp, hrest, by simp⟩
  · rintro (rfl | ⟨made, -, hprefix, rfl⟩)
    · exact ⟨[name], by simp, by simp, rfl⟩
    · exact ⟨name :: made, by simp, by simpa using hprefix, by simp⟩

/-- **Making folders changes nothing but that there are folders where nothing was**, on the way that
the names lead; all of them are there if it succeeds. -/
theorem makeOn_spec {disk : Disk} {done : Except TreeError Unit}
    (h : t.makeOn disk start names = (done, t')) :
    (∀ l, t'.get? l = t.get? l ∨
      Made start names l ∧ t.get? l = none ∧ t'.get? l = some .folder) ∧
    (done = .ok () → ∀ l, Made start names l → t'.get? l = some .folder) := by
  induction names generalizing t start with
  | nil =>
    obtain ⟨-, rfl⟩ := Prod.mk.inj h
    refine ⟨fun l => .inl rfl, ?_⟩
    rintro - l ⟨made, hne, hprefix, -⟩
    exact absurd (List.prefix_nil.mp hprefix) hne
  | cons name names ih =>
    unfold makeOn at h
    dsimp only at h
    split at h
    · next hfolder =>
      obtain ⟨hothers, hmade⟩ := ih h
      refine ⟨fun l => ?_, fun hdone l hl => ?_⟩
      · exact (hothers l).imp_right fun ⟨hl, heq⟩ => ⟨made_cons_iff.mpr (.inr hl), heq⟩
      · rcases made_cons_iff.mp hl with rfl | hl
        · rcases hothers (start ++ [name]) with heq | ⟨-, -, heq⟩
          · rw [heq, hfolder]
          · exact heq
        · exact hmade hdone l hl
    · obtain ⟨rfl, rfl⟩ := Prod.mk.inj h
      exact ⟨fun l => .inl rfl, by simp⟩
    · next hnone =>
      split at h
      · obtain ⟨rfl, rfl⟩ := Prod.mk.inj h
        exact ⟨fun l => .inl rfl, by simp⟩
      obtain ⟨hothers, hmade⟩ := ih h
      have hnew : t'.get? (start ++ [name]) = some .folder := by
        rcases hothers (start ++ [name]) with heq | ⟨-, -, heq⟩
        · rw [heq, get?_set_self]
        · exact heq
      refine ⟨fun l => ?_, fun hdone l hl => ?_⟩
      · by_cases hl : start ++ [name] = l
        · obtain rfl := hl
          exact .inr ⟨made_cons_iff.mpr (.inl rfl), hnone, hnew⟩
        · rcases hothers l with heq | ⟨hmade, hbefore, heq⟩
          · exact .inl (heq.trans (get?_set_of_ne hl _))
          · rw [get?_set_of_ne hl] at hbefore
            exact .inr ⟨made_cons_iff.mpr (.inr hmade), hbefore, heq⟩
      · rcases made_cons_iff.mp hl with rfl | hl
        · exact hnew
        · exact hmade hdone l hl

end Mend.Tree
