import Mend.Proofs.Project.Writing
import Mend.Proofs.Text.Encoding

/-!
# Results are written to what they have seen

All sessions of a command see the project as it is before the first of their results is written. So
a result is out of date as soon as another one for the same file has been written.

* `Saw`: a result of a session that has seen what a file of a project held.
* `Saw.locate`: what a session has seen is found again, as long as no folder is gone.
* `Written`: the state after some results have been tried one after the other.
* `Written.write`, `Written.fail`: **one more try keeps that state**: the first result for a file is
  written, and all others for that file are refused.
-/

namespace Mend

theorem Tree.refusal?_cases {file : Path} (hwritable : ∀ n ∈ file.names, n.all isWritable = true)
    (hnul : ∀ n ∈ file.names, n.contains (.char '\x00') = false) :
    refusal? file = none ∨ refusal? file = some .nameTooLong := by
  by_cases hlong : byteCount file.text < pathLimit
  · exact .inl (refusal?_eq_none_iff.mpr ⟨hwritable, hnul, hlong⟩)
  · right
    have hall : (file.names.any fun n => !n.all isWritable) = false := by
      simpa [List.any_eq_false] using hwritable
    have hnone : file.names.any (·.contains (.char '\x00')) = false := by
      simpa [List.any_eq_false] using hnul
    unfold refusal?
    rw [hall, hnone, if_pos (Nat.not_lt.mp hlong)]
    rfl

namespace Project

variable {p : Project} {t t' : Tree} {file : String} {r : SessionResult}

/-- A project in a folder that its path leads to, and that one is in. -/
structure Grounded (p : Project) : Prop extends p.Led where
  here : p.here = p.root

theorem Adds.grounded (h : p.Adds t) (hp : p.Grounded) : { p with tree := t }.Grounded :=
  ⟨hp.toLed.withTree (h.way hp.toLed), hp.here⟩

/-- For someone who is in the folder of a project, it makes no difference whether a path goes on from
that of the project. -/
theorem Grounded.place_join (hp : p.Grounded) (file : Path) :
    p.place (p.path.join file) = p.place file := by
  unfold Path.join
  split
  · rfl
  · next hrelative =>
    have hplace : p.place { p.path with names := p.path.names ++ file.names } =
        Tree.place (p.place p.path) file.names := p.place_join_names file.names
    rw [hplace, hp.place_path, ← hp.here]
    unfold Project.place Tree.origin
    rw [if_neg hrelative]

/-- The place of the file that an argument means. -/
def placeOf (p : Project) (file : String) : Location := p.place (.ofText file)

/-! ## What a session has seen -/

/-- A result of a session that has seen what a file held. -/
structure Saw (p : Project) (file : String) (r : SessionResult) : Prop where
  named : r.session.file = (Path.ofText file).text.string
  source : p.readSource (.ofText file) = .ok r.source
  fixed : '\r' ∉ r.fixed

namespace Saw

theorem fileOf_eq (h : p.Saw file r) : p.fileOf r = p.path.join (.ofText file) := by
  unfold fileOf
  rw [h.named, Path.ofText_string_text]

theorem target_eq (h : p.Saw file r) (hp : p.Grounded) : p.target r = p.placeOf file := by
  unfold target placeOf
  rw [h.fileOf_eq, hp.place_join]

/-- The way to what a session has seen, and the bytes that were there. -/
theorem exists_bytes (h : p.Saw file r) (hp : p.Grounded) :
    Tree.refusal? (.ofText file) = none ∧
      p.tree.Passes (Tree.origin p.here (.ofText file)) (Path.ofText file).names ∧
      ∃ bytes, p.tree.bytesAt (p.target r) = .ok bytes ∧ readText bytes = r.source := by
  obtain ⟨bytes, hread, hsource⟩ := readSource_eq_ok_iff.mp h.source
  obtain ⟨l, hl, hbytes⟩ := Tree.read_eq_ok_iff.mp (read_eq_ok_iff.mp hread)
  obtain ⟨hrefusal, hpasses, rfl⟩ := locate_eq_ok_iff.mp hl
  exact ⟨hrefusal, hpasses, bytes, by rw [h.target_eq hp]; exact hbytes, hsource⟩

/-- **What a session has seen is found again as long as no folder is gone**, unless its path from
that of the project is too long. -/
theorem locate (h : p.Saw file r) (hp : p.Grounded)
    (hfolders : ∀ k, p.tree.get? k = some .folder → t.get? k = some .folder) :
    t.locate p.here (p.fileOf r) = .ok (p.target r) ∨
      t.locate p.here (p.fileOf r) = .error .nameTooLong := by
  obtain ⟨hrefusal, hpasses, -⟩ := h.exists_bytes hp
  rw [Tree.locate_eq_ok_iff]
  have hfile := h.fileOf_eq
  unfold Path.join at hfile
  split at hfile
  · rw [hfile]
    exact .inl ⟨hrefusal, hpasses.mono hfolders, by rw [target, hfile]; rfl⟩
  · next hrelative =>
    have hnames : (p.fileOf r).names = p.path.names ++ (Path.ofText file).names := by rw [hfile]
    have horigin : Tree.origin p.here (p.fileOf r) = Tree.origin p.here p.path := by
      rw [hfile]
      rfl
    obtain ⟨hwritable, hnul, -⟩ := Tree.refusal?_eq_none_iff.mp hrefusal
    have hroot : Tree.place (Tree.origin p.here p.path) p.path.names = p.here :=
      hp.place_path.trans hp.here.symm
    have hall : p.tree.Passes (Tree.origin p.here (p.fileOf r)) (p.fileOf r).names := by
      unfold Tree.origin at hpasses
      rw [if_neg hrelative] at hpasses
      rw [horigin, hnames, Tree.passes_append, hroot]
      exact ⟨hp.way.1, hpasses⟩
    have hcases : Tree.refusal? (p.fileOf r) = none ∨
        Tree.refusal? (p.fileOf r) = some .nameTooLong := by
      refine Tree.refusal?_cases ?_ ?_
      · rw [hnames, List.forall_mem_append]
        exact ⟨hp.writable, hwritable⟩
      · rw [hnames, List.forall_mem_append]
        exact ⟨hp.nul_not_mem, hnul⟩
    rcases hcases with hnone | hlong
    · exact .inl ⟨hnone, hall.mono hfolders, rfl⟩
    · right
      unfold Tree.locate
      rw [hlong]

/-- What is in the place of the file of a session is read from it, unless its path is too long. -/
theorem leads_cases (h : p.Saw file r) (hp : p.Grounded)
    (hfolders : ∀ k, p.tree.get? k = some .folder → t.get? k = some .folder) {bytes : Bytes}
    (hbytes : t.bytesAt (p.target r) = .ok bytes) :
    (∃ e, { p with tree := t }.leads (p.fileOf r) = .error e) ∨
      { p with tree := t }.leads (p.fileOf r) = .ok true ∧
        { p with tree := t }.read (p.fileOf r) = .ok bytes := by
  rcases h.locate hp hfolders with hl | hl
  · refine .inr ⟨?_, read_eq_ok_iff.mpr (Tree.read_eq_ok_iff.mpr ⟨_, hl, hbytes⟩)⟩
    unfold Project.leads Tree.leads
    dsimp only
    rw [hl]
    dsimp only
    rw [Option.isSome_iff_ne_none.mpr (Tree.ne_none_of_bytesAt hbytes)]
    rfl
  · left
    unfold Project.leads Tree.leads
    dsimp only
    rw [hl]
    exact ⟨_, rfl⟩

/-- A result that has changed a text is written if its file holds what the session has seen, and
refused if not, unless the attempt fails. -/
theorem write (h : p.Saw file r) (hp : p.Grounded)
    (hfolders : ∀ k, p.tree.get? k = some .folder → t.get? k = some .folder)
    (hchanged : r.changed = true) (backup : Bool) (now : Instant) :
    ∃ t', ({ p with tree := t }.write backup r now).2 = { p with tree := t' } ∧
      ((∃ e, ({ p with tree := t }.write backup r now).1 = .error e) ∧
          { p with tree := t }.Adds t' ∨
        (∃ a, ({ p with tree := t }.write backup r now).1 = .ok a ∧ a.success = true) ∧
          (∃ bytes, t.bytesAt (p.target r) = .ok bytes ∧ readText bytes = r.source) ∧
          { p with tree := t }.Alters (· = RawText.ofString now.stamp) (p.target r) t' ∧
          t'.get? (p.target r) = some (.file (Utf8.encode r.fixed)) ∨
        (∃ a, ({ p with tree := t }.write backup r now).1 = .ok a ∧ a.success = false) ∧
          (∀ bytes, t.bytesAt (p.target r) = .ok bytes → readText bytes ≠ r.source) ∧
          { p with tree := t }.Adds t') := by
  obtain ⟨q, hq⟩ : ∃ q, q = { p with tree := t } := ⟨_, rfl⟩
  have hfile : p.fileOf r = q.fileOf r := by rw [hq]; rfl
  have htarget : q.target r = p.target r := by rw [hq]; rfl
  rw [← hq]
  obtain ⟨t', ht', ⟨hfailed, hbrings⟩ | ⟨hsuccess, ⟨bytes, hbytes, hsource⟩, halters, hwritten⟩⟩ :=
    q.write_alters backup r now
  · refine ⟨t', by rw [ht', hq], ?_⟩
    cases hanswer : (q.write backup r now).1 with
    | error e => exact .inl ⟨⟨e, rfl⟩, hbrings.adds⟩
    | ok a =>
      refine .inr (.inr ⟨⟨a, rfl, hfailed a hanswer⟩, fun bytes hbytes hsource => ?_, hbrings.adds⟩)
      rcases h.leads_cases hp hfolders hbytes with ⟨e, he⟩ | ⟨hleads, hread⟩
      · rw [← hq, hfile] at he
        rw [write_error hchanged he] at hanswer
        cases hanswer
      · rw [← hq, hfile] at hleads hread
        rw [write_eq_writeOver hchanged hleads hread hsource] at hanswer hfailed
        obtain ⟨-, -, ⟨⟨e, he⟩, -⟩ | ⟨⟨b, hb, hsuccess⟩, -⟩⟩ :=
          q.writeOver_alters backup r (get?_ne_none_of_read hread) bytes now
        · rw [he] at hanswer
          cases hanswer
        · exact absurd (hfailed b hb) (by simp [hsuccess])
  · refine ⟨t', by rw [ht', hq], .inr (.inl ⟨hsuccess, ⟨bytes, ?_, hsource⟩, ?_⟩)⟩
    · rw [← hfile, hq] at hbytes
      exact bytesAt_of_read hbytes
    · rw [htarget] at halters hwritten
      exact ⟨halters, hwritten⟩

end Saw

/-! ## One result after the other -/

/-- What is at a location after some results have been tried: what the first of them for that place
has made of it. -/
def writtenAt (p : Project) (log : List (SessionResult × WriteResult)) (l : Location) :
    Option Entry :=
  match log.find? (p.target ·.1 = l) with
  | some x => some (.file (Utf8.encode x.1.fixed))
  | none => p.tree.get? l

theorem writtenAt_concat (p : Project) (log : List (SessionResult × WriteResult))
    (x : SessionResult × WriteResult) (l : Location) :
    p.writtenAt (log ++ [x]) l =
      if p.target x.1 = l ∧ ∀ b ∈ log, p.target b.1 ≠ l then some (.file (Utf8.encode x.1.fixed))
      else p.writtenAt log l := by
  unfold writtenAt
  rw [List.find?_append]
  cases hfind : log.find? (p.target ·.1 = l) with
  | some y =>
    have hy : p.target y.1 = l := by simpa using List.find?_some hfind
    rw [if_neg fun h => h.2 y (List.mem_of_find?_eq_some hfind) hy]
    rfl
  | none =>
    have hnone : ∀ b ∈ log, p.target b.1 ≠ l := by simpa using List.find?_eq_none.mp hfind
    by_cases hx : p.target x.1 = l
    · rw [if_pos ⟨hx, hnone⟩]
      simp [hx]
    · rw [if_neg fun h => hx h.1]
      simp [hx]

/-- The state after some results have been tried one after the other, with what came of each: every
place outside of the folder that is kept holds what the first result for it has made of it, and a
result was written if no other one for its file was tried before. -/
structure Written (p : Project) (log : List (SessionResult × WriteResult)) (t : Tree) : Prop where
  folders : ∀ k, p.tree.get? k = some .folder → t.get? k = some .folder
  saw : ∀ x ∈ log, x.1.changed = true ∧ ∃ file, p.Saw file x.1
  places : ∀ l, ¬ p.keep <+: l → t.get? l = p.writtenAt log l
  firsts : ∀ before r a, before ++ [(r, a)] <+: log → ¬ p.keep <+: p.target r →
    (a.success = true ↔ ∀ b ∈ before, p.target b.1 ≠ p.target r)

namespace Written

variable {log : List (SessionResult × WriteResult)}

theorem of_adds (h : p.Adds t) : p.Written [] t where
  folders := h.folders
  saw := by simp
  places := h.outside
  firsts := by simp

/-- Before a result for a file is tried, the file holds what the session has seen. -/
theorem exists_bytes (h : p.Written log t) (hp : p.Grounded) (hr : p.Saw file r)
    (houtside : ¬ p.keep <+: p.target r) (hnone : ∀ b ∈ log, p.target b.1 ≠ p.target r) :
    ∃ bytes, t.bytesAt (p.target r) = .ok bytes ∧ readText bytes = r.source := by
  obtain ⟨-, -, bytes, hbytes, hsource⟩ := hr.exists_bytes hp
  refine ⟨bytes, ?_, hsource⟩
  have hplace := h.places _ houtside
  unfold writtenAt at hplace
  rw [List.find?_eq_none.mpr (by simpa using hnone)] at hplace
  rwa [Tree.bytesAt_congr hplace]

/-- **After a result for a file has been tried, the file does not hold any more what sessions have
seen.** -/
theorem readText_ne (h : p.Written log t) (hp : p.Grounded) (hr : p.Saw file r)
    (houtside : ¬ p.keep <+: p.target r) {b : SessionResult × WriteResult} (hb : b ∈ log)
    (htarget : p.target b.1 = p.target r) {bytes : Bytes}
    (hbytes : t.bytesAt (p.target r) = .ok bytes) : readText bytes ≠ r.source := by
  have hplace := h.places _ houtside
  unfold writtenAt at hplace
  cases hfind : log.find? (p.target ·.1 = p.target r) with
  | none => exact absurd htarget (by simpa using List.find?_eq_none.mp hfind b hb)
  | some x =>
    obtain ⟨hchanged, file', hx⟩ := h.saw x (List.mem_of_find?_eq_some hfind)
    have hsame : p.target x.1 = p.target r := by simpa using List.find?_some hfind
    rw [hfind] at hplace
    rw [Tree.bytesAt_of_file hplace] at hbytes
    obtain rfl := Except.ok.inj hbytes
    rw [readText_encode_of_not_mem hx.fixed]
    -- both sessions have seen the same bytes
    obtain ⟨-, -, c, hc, hcsource⟩ := hx.exists_bytes hp
    obtain ⟨-, -, d, hd, hdsource⟩ := hr.exists_bytes hp
    rw [hsame, hd] at hc
    rw [← hdsource, Except.ok.inj hc, hcsource]
    simpa [SessionResult.changed] using hchanged

/-- A try that fails leaves the state as it is. -/
theorem adds (h : p.Written log t) (ht' : { p with tree := t }.Adds t') : p.Written log t' where
  folders := fun k hk => ht'.folders k (h.folders k hk)
  saw := h.saw
  places := fun l hl => (ht'.outside l hl).trans (h.places l hl)
  firsts := h.firsts

/-- **One more try keeps the state**: the result is written if it is the first for its file, and
refused otherwise. -/
theorem write (h : p.Written log t) (hp : p.Grounded) (hr : p.Saw file r)
    (hchanged : r.changed = true) (backup : Bool) (now : Instant) :
    ∃ t', ({ p with tree := t }.write backup r now).2 = { p with tree := t' } ∧
      ((∃ e, ({ p with tree := t }.write backup r now).1 = .error e) ∧ p.Written log t' ∨
        ∃ a, ({ p with tree := t }.write backup r now).1 = .ok a ∧
          p.Written (log ++ [(r, a)]) t') := by
  have hsaw : ∀ a, ∀ x ∈ log ++ [(r, a)], x.1.changed = true ∧ ∃ file, p.Saw file x.1 := by
    intro a
    rw [List.forall_mem_append, List.forall_mem_singleton]
    exact ⟨h.saw, hchanged, file, hr⟩
  -- what is to be said about the answer follows from what is said about the place
  have hfirsts : ∀ a : WriteResult, (¬ p.keep <+: p.target r →
      (a.success = true ↔ ∀ b ∈ log, p.target b.1 ≠ p.target r)) →
      ∀ before r' a', before ++ [(r', a')] <+: log ++ [(r, a)] → ¬ p.keep <+: p.target r' →
        (a'.success = true ↔ ∀ b ∈ before, p.target b.1 ≠ p.target r') := by
    intro a ha before r' a' hbefore
    rw [List.prefix_concat_iff] at hbefore
    rcases hbefore with heq | hbefore
    · obtain ⟨rfl, hlast⟩ := List.append_inj' heq rfl
      obtain ⟨rfl, rfl⟩ := Prod.mk.inj (List.singleton_injective hlast)
      exact ha
    · exact h.firsts before r' a' hbefore
  obtain ⟨t', ht', ⟨herror, hadds⟩ |
    ⟨⟨a, ha, hsuccess⟩, ⟨bytes, hbytes, hsource⟩, halters, hwritten⟩ |
    ⟨⟨a, ha, hrefused⟩, hstale, hadds⟩⟩ := hr.write hp h.folders hchanged backup now
  · exact ⟨t', ht', .inl ⟨herror, h.adds hadds⟩⟩
  · have hnone : ¬ p.keep <+: p.target r → ∀ b ∈ log, p.target b.1 ≠ p.target r :=
      fun houtside b hb htarget => h.readText_ne hp hr houtside hb htarget hbytes hsource
    refine ⟨t', ht', .inr ⟨a, ha, ⟨fun k hk => halters.folders k (h.folders k hk), hsaw a,
      fun l hl => ?_, hfirsts a fun houtside => ⟨fun _ => hnone houtside, fun _ => hsuccess⟩⟩⟩⟩
    rw [writtenAt_concat]
    by_cases hplace : p.target r = l
    · obtain rfl := hplace
      rw [if_pos ⟨rfl, hnone hl⟩, hwritten]
    · rw [if_neg fun h => hplace h.1]
      exact (halters.outside l hl (Ne.symm hplace)).trans (h.places l hl)
  · have hsome : ¬ p.keep <+: p.target r → ¬ ∀ b ∈ log, p.target b.1 ≠ p.target r := by
      intro houtside hnone
      obtain ⟨bytes, hbytes, hsource⟩ := h.exists_bytes hp hr houtside hnone
      exact hstale bytes hbytes hsource
    refine ⟨t', ht', .inr ⟨a, ha, ⟨fun k hk => hadds.folders k (h.folders k hk), hsaw a,
      fun l hl => ?_, hfirsts a fun houtside => ?_⟩⟩⟩
    · rw [writtenAt_concat, if_neg]
      · exact (hadds.outside l hl).trans (h.places l hl)
      · rintro ⟨rfl, hnone⟩
        exact hsome hl hnone
    · exact iff_of_false (by simp [hrefused]) (hsome houtside)

end Written

end Project

end Mend
