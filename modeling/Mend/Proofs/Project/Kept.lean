import Mathlib.Data.List.Basic
import Mend.Project.Backup
import Mend.Proofs.Calendar
import Mend.Proofs.Project.Manifest
import Mend.Proofs.Project.Tree

/-!
# Backups that are kept

* `Name.Proper`: names that a path can have, and that lead one folder further.
* `Project.Led`: a project in a folder that its path leads to, such as one that is given by the path
  from the top.
* `Project.Proper`: one with room for the paths of backups.
* `Kept`: a backup: whose session it was, which file, where the backup is, and the bytes in it.
* `Kept.Proper.locate_backup`: the path of a backup leads to its place, in its batch.
-/

namespace Mend

open Utf8 (IsAscii)

/-! ## Names -/

/-- A name that a path can have, and that leads one folder further. -/
structure Name.Proper (n : RawText) : Prop where
  isName : Path.isName n = true
  slash_not_mem : Path.slash ∉ n
  writable : n.all Tree.isWritable = true
  nul_not_mem : n.contains (.char '\x00') = false
  ne_around : n ≠ Tree.around
  short : Tree.byteCount n ≤ Tree.nameLimit

/-- A name that is the same when it is read back from its bytes. -/
def Name.Canonical (n : RawText) : Prop := Utf8.decode (Utf8.encodeRaw n) = n

instance (n : RawText) : Decidable (Name.Canonical n) := inferInstanceAs (Decidable (_ = _))

theorem Tree.next_eq {n : RawText} (h : n ≠ around) (place : Location) :
    next place n = place ++ [Utf8.decode (Utf8.encodeRaw n)] := by
  unfold next
  rw [if_neg h]

theorem Tree.next_eq_of_canonical {n : RawText} (h : n ≠ around) (hn : Name.Canonical n)
    (place : Location) : next place n = place ++ [n] := by
  rw [next_eq h, hn]

/-- Names that lead one folder further each lead to the location that is made of them. -/
theorem Tree.place_eq_append {start : Location} {names : List RawText}
    (h : ∀ n ∈ names, Name.Proper n ∧ Name.Canonical n) : place start names = start ++ names := by
  induction names generalizing start with
  | nil => simp
  | cons n names ih =>
    obtain ⟨hproper, hcanonical⟩ := h n (by simp)
    rw [place_cons, next_eq_of_canonical hproper.ne_around hcanonical,
      ih fun m hm => h m (by simp [hm])]
    simp

theorem Tree.passes_of_forall_prefix {t : Tree} {start : Location} {names : List RawText}
    (h : ∀ n ∈ names, Name.Proper n ∧ Name.Canonical n)
    (hfolders : ∀ made, made <+: names → t.get? (start ++ made) = some .folder) :
    t.Passes start names := by
  induction names generalizing start with
  | nil => trivial
  | cons n names ih =>
    obtain ⟨hproper, hcanonical⟩ := h n (by simp)
    refine ⟨?_, hproper.short, ?_⟩
    · have hstart := hfolders [] List.nil_prefix
      rwa [List.append_nil] at hstart
    · rw [next_eq_of_canonical hproper.ne_around hcanonical]
      refine ih (fun m hm => h m (by simp [hm])) fun made hmade => ?_
      have hnext := hfolders (n :: made) (by simpa using hmade)
      rwa [List.append_cons] at hnext

theorem Name.canonical_of_isAscii {t : Text} (h : IsAscii t) : Canonical (t.map .char) :=
  Utf8.decode_encodeRaw h

theorem Tree.byteCount_append (s t : RawText) : byteCount (s ++ t) = byteCount s + byteCount t := by
  unfold byteCount Utf8.encodeRaw
  rw [List.flatMap_append, List.length_append]

theorem Tree.byteCount_of_isAscii {t : Text} (h : IsAscii t) :
    byteCount (t.map .char) = t.length := by
  unfold byteCount
  rw [Utf8.encodeRaw_map_char]
  induction t with
  | nil => rfl
  | cons c t ih =>
    rw [Utf8.encode_cons (h c (by simp)), List.length_cons, ih fun x hx => h x (by simp [hx])]
    rfl

theorem Tree.all_isWritable_map_char (t : Text) :
    (t.map Point.char).all isWritable = true := by
  rw [List.all_map]
  exact List.all_eq_true.mpr fun _ _ => rfl

/-- The name of a batch. -/
structure Name.IsStamp (n : RawText) : Prop where
  proper : Proper n
  canonical : Canonical n
  short : Tree.byteCount n ≤ 19
  legible : ∀ x ∈ n, x.Legible

/-- **The name of a folder for a moment is the name of a batch.** -/
theorem Instant.HasDate.isStamp {i : Instant} (h : i.HasDate) :
    Name.IsStamp (RawText.ofString i.stamp) := by
  obtain ⟨hchars, hpos, hshort⟩ := h.stamp_spec
  obtain ⟨t, ht⟩ : ∃ t, t = i.stamp.toList := ⟨_, rfl⟩
  rw [← ht] at hchars hpos hshort
  have hascii : IsAscii t := by
    intro c hc
    rcases hchars c hc with h | rfl | rfl
    · exact Utf8.toNat_lt_of_isDigit h
    · decide
    · decide
  have habsent : ∀ c : Char, ¬ (c.isDigit = true ∨ c = '-' ∨ c = 'T') →
      Point.char c ∉ t.map .char := by
    intro c hc hmem
    obtain ⟨x, hx, hxc⟩ := List.mem_map.mp hmem
    exact hc (Point.char.inj hxc ▸ hchars x hx)
  have hne : t.map Point.char ≠ [] := by simpa using List.ne_nil_of_length_pos hpos
  have hdot : Point.char '.' ∉ t.map .char := habsent '.' (by decide)
  have hbytes := Tree.byteCount_of_isAscii hascii
  unfold RawText.ofString
  rw [← ht]
  refine ⟨⟨?_, habsent '/' (by decide), Tree.all_isWritable_map_char t, ?_, ?_, ?_⟩,
    Name.canonical_of_isAscii hascii, by omega, ?_⟩
  · have hname : t.map Point.char ≠ [.char '.'] := fun h => hdot (by simp [h])
    simp [Path.isName, hne, hname]
  · simpa using habsent '\x00' (by decide)
  · exact fun h => hdot (by rw [h]; decide)
  · unfold Tree.nameLimit
    omega
  · intro x hx
    obtain ⟨c, -, rfl⟩ := List.mem_map.mp hx
    exact Point.legible_char c

theorem Project.proper_keepName : Name.Proper keepName ∧ Name.Canonical keepName :=
  ⟨⟨by decide, by decide, by decide, by decide, by decide, by decide⟩, by decide⟩

theorem Project.proper_backupsName : Name.Proper backupsName ∧ Name.Canonical backupsName :=
  ⟨⟨by decide, by decide, by decide, by decide, by decide, by decide⟩, by decide⟩

/-! ## Projects -/

namespace Project

/-- The place that a path leads to. -/
def place (p : Project) (file : Path) : Location :=
  Tree.place (Tree.origin p.here file) file.names

@[simp] theorem place_withTree (p : Project) (t : Tree) : { p with tree := t }.place = p.place := rfl

theorem locate_eq_ok_iff {p : Project} {file : Path} {l : Location} :
    p.tree.locate p.here file = .ok l ↔
      Tree.refusal? file = none ∧ p.tree.Passes (Tree.origin p.here file) file.names ∧
        l = p.place file :=
  Tree.locate_eq_ok_iff

/-- A path that goes on from that of a project leads on from where that one leads. -/
theorem place_join_names (p : Project) (names : List RawText) :
    p.place (p.path.join { names }) = Tree.place (p.place p.path) names :=
  Tree.place_append _ p.path.names names

/-- All that the path of a project leads through is there, and so is its folder. -/
def Way (p : Project) (t : Tree) : Prop :=
  t.Passes (Tree.origin p.here p.path) p.path.names ∧ t.get? p.root = some .folder

theorem Way.mono {p : Project} {t t' : Tree} (h : p.Way t)
    (hfolders : ∀ l, t.get? l = some .folder → t'.get? l = some .folder) : p.Way t' :=
  ⟨h.1.mono hfolders, hfolders _ h.2⟩

/-- A project in a folder that its path leads to. -/
structure Led (p : Project) : Prop where
  writable : ∀ n ∈ p.path.names, n.all Tree.isWritable = true
  nul_not_mem : ∀ n ∈ p.path.names, n.contains (.char '\x00') = false
  place_path : p.place p.path = p.root
  way : p.Way p.tree

/-- **A project that is given by the path of its folder from the top** is one that its path leads
to. -/
theorem Led.of_root {p : Project} (hpath : p.path = { slashes := 1, names := p.root })
    (hnames : ∀ n ∈ p.root, Name.Proper n ∧ Name.Canonical n)
    (hfolders : ∀ l, l <+: p.root → p.tree.get? l = some .folder) : p.Led := by
  have hplace : p.place p.path = p.root := by
    rw [hpath]
    exact Tree.place_eq_append hnames
  refine ⟨?_, ?_, hplace, ?_, hfolders _ (List.prefix_refl _)⟩
  all_goals rw [hpath]
  · exact fun n hn => (hnames n hn).1.writable
  · exact fun n hn => (hnames n hn).1.nul_not_mem
  · exact Tree.passes_of_forall_prefix hnames fun made hmade => hfolders made hmade

/-- A project in a folder that its path leads to, with room for the paths of backups. -/
structure Proper (p : Project) : Prop extends p.Led where
  plain : p.path.Plain
  /-- The path of a backup is not too long. -/
  roomy : ∀ stamp name, Tree.byteCount stamp ≤ 19 → Tree.byteCount name ≤ Tree.nameLimit →
    Tree.byteCount (p.batchPath stamp name).text < Tree.pathLimit

theorem Led.withTree {p : Project} (h : p.Led) {t : Tree} (ht : p.Way t) :
    { p with tree := t }.Led :=
  ⟨h.writable, h.nul_not_mem, h.place_path, ht⟩

theorem Proper.withTree {p : Project} (h : p.Proper) {t : Tree} (ht : p.Way t) :
    { p with tree := t }.Proper :=
  ⟨h.toLed.withTree ht, h.plain, h.roomy⟩

/-- The location of a batch. -/
def batch (p : Project) (stamp : RawText) : Location := p.backups ++ [stamp]

theorem keep_prefix_batch (p : Project) (stamp : RawText) : p.keep <+: p.batch stamp := by
  unfold batch backups
  rw [List.append_assoc]
  exact List.prefix_append _ _

/-- All of the folders that a batch is in, and the batch itself. -/
structure HasBatch (p : Project) (stamp : RawText) : Prop where
  keep : p.tree.get? p.keep = some .folder
  backups : p.tree.get? p.backups = some .folder
  batch : p.tree.get? (p.batch stamp) = some .folder

variable {p : Project} {stamp name : RawText}

/-- A project has a batch as long as no folder is gone. -/
theorem HasBatch.mono (h : p.HasBatch stamp) {t : Tree}
    (hfolders : ∀ l, p.keep <+: l → p.tree.get? l = some .folder → t.get? l = some .folder) :
    { p with tree := t }.HasBatch stamp where
  keep := hfolders _ (List.prefix_refl _) h.keep
  backups := hfolders _ (List.prefix_append _ _) h.backups
  batch := hfolders _ (p.keep_prefix_batch stamp) h.batch

theorem names_batchPath (p : Project) (stamp name : RawText) :
    (p.batchPath stamp name).names = p.path.names ++ [keepName, backupsName, stamp, name] := rfl

/-- What holds of the names of the path of a project holds of those of the path of a backup. -/
theorem forall_names_batchPath {P : RawText → Prop} (hpath : ∀ n ∈ p.path.names, P n)
    (hproper : ∀ n, Name.Proper n → P n) (hstamp : Name.IsStamp stamp) (hname : Name.Proper name) :
    ∀ n ∈ (p.batchPath stamp name).names, P n := by
  rw [names_batchPath, List.forall_mem_append]
  refine ⟨hpath, ?_⟩
  simp only [List.forall_mem_cons]
  exact ⟨hproper _ proper_keepName.1, hproper _ proper_backupsName.1, hproper _ hstamp.proper,
    hproper _ hname, by simp⟩

/-- The path of a backup can be written. -/
theorem Led.writable_batchPath (h : p.Led) (hstamp : Name.IsStamp stamp)
    (hname : Name.Proper name) :
    ∀ n ∈ (p.batchPath stamp name).names, n.all Tree.isWritable = true :=
  forall_names_batchPath h.writable (fun _ hn => hn.writable) hstamp hname

theorem Proper.plain_batchPath (h : p.Proper) (hstamp : Name.IsStamp stamp)
    (hname : Name.Proper name) : (p.batchPath stamp name).Plain where
  slashes := h.plain.slashes
  isName := forall_names_batchPath h.plain.isName (fun _ hn => hn.isName) hstamp hname
  slash_not_mem :=
    forall_names_batchPath h.plain.slash_not_mem (fun _ hn => hn.slash_not_mem) hstamp hname

/-- The place of a backup is in its batch. -/
theorem Led.place_batchPath (h : p.Led) (hstamp : Name.IsStamp stamp) (name : RawText) :
    p.place (p.batchPath stamp name) = Tree.next (p.batch stamp) name := by
  unfold batchPath
  rw [place_join_names, h.place_path]
  simp only [Tree.place_cons, Tree.place_nil]
  rw [Tree.next_eq_of_canonical proper_keepName.1.ne_around proper_keepName.2,
    Tree.next_eq_of_canonical proper_backupsName.1.ne_around proper_backupsName.2,
    Tree.next_eq_of_canonical hstamp.proper.ne_around hstamp.canonical]
  rfl

/-- **The path of a backup leads to its place.** -/
theorem Proper.locate_batchPath (h : p.Proper) (hstamp : Name.IsStamp stamp)
    (hname : Name.Proper name) (hbatch : p.HasBatch stamp) :
    p.tree.locate p.here (p.batchPath stamp name) = .ok (Tree.next (p.batch stamp) name) := by
  have hrefusal : Tree.refusal? (p.batchPath stamp name) = none :=
    Tree.refusal?_eq_none_iff.mpr ⟨h.writable_batchPath hstamp hname,
      forall_names_batchPath h.nul_not_mem (fun _ hn => hn.nul_not_mem) hstamp hname,
      h.roomy stamp name hstamp.short hname.short⟩
  have hroot : Tree.place (Tree.origin p.here p.path) p.path.names = p.root := h.place_path
  have hpasses : p.tree.Passes (Tree.origin p.here p.path) (p.batchPath stamp name).names := by
    rw [Project.names_batchPath, Tree.passes_append, hroot]
    refine ⟨h.way.1, h.way.2, proper_keepName.1.short, ?_⟩
    rw [Tree.next_eq_of_canonical proper_keepName.1.ne_around proper_keepName.2]
    refine ⟨hbatch.keep, proper_backupsName.1.short, ?_⟩
    rw [Tree.next_eq_of_canonical proper_backupsName.1.ne_around proper_backupsName.2]
    refine ⟨hbatch.backups, hstamp.proper.short, ?_⟩
    rw [Tree.next_eq_of_canonical hstamp.proper.ne_around hstamp.canonical]
    exact ⟨hbatch.batch, hname.short, trivial⟩
  exact locate_eq_ok_iff.mpr ⟨hrefusal, hpasses, (h.place_batchPath hstamp name).symm⟩

end Project

/-- The path of a source of a project, as it is written down: it leads to the same place when a
session is undone, and that is not in the folder that is kept about the project. -/
structure Project.IsSource (p : Project) (file : Path) : Prop where
  plain : file.Plain
  /-- The path of the project is not put in front of it once more. -/
  settled : p.path.join file = file
  refusal : Tree.refusal? file = none
  outside : ¬ p.keep <+: p.place file

/-! ## Backups -/

/-- A backup that was made when the result of a session was written. -/
structure Kept where
  session : String
  file : Path
  backup : Path
  stamp : RawText
  /-- What the file held before it was written. -/
  bytes : Bytes

namespace Kept

/-- How a backup is listed. -/
def entry (k : Kept) : Json := Manifest.entry k.session k.file k.backup k.stamp

/-- A backup as it is read from its list. -/
def saved (k : Kept) : Saved where
  session := .text k.session
  file := k.file
  backup := k.backup
  stamp := .text k.stamp

/-- How the names of backups end. -/
def ending : RawText := ".bak"

theorem append_ending_ne (base : RawText) {s : RawText} (h : s.getLast? ≠ some (.char 'k')) :
    base ++ ending ≠ s := by
  rintro rfl
  rw [List.getLast?_append_of_ne_nil _ (by decide)] at h
  exact h rfl

/-- The backup is in a batch of the project, and the file is one of its sources. -/
structure Proper (p : Project) (k : Kept) : Prop where
  stamp : Name.IsStamp k.stamp
  backup : ∃ name, Name.Proper name ∧ k.backup = p.batchPath k.stamp name ∧
    ∃ base, Utf8.decode (Utf8.encodeRaw name) = base ++ ending
  source : p.IsSource k.file

namespace Proper

variable {p : Project} {k : Kept}

/-- That a backup is proper does not depend on what there is. -/
theorem withTree (h : k.Proper p) (t : Tree) : k.Proper { p with tree := t } := by
  obtain ⟨hstamp, hbackup, hplain, hsettled, hrefusal, houtside⟩ := h
  exact ⟨hstamp, hbackup, hplain, hsettled, hrefusal, houtside⟩

theorem readable_entry (h : k.Proper p) (hp : p.Proper) (level : Nat) :
    Json.Readable 1 level k.entry := by
  obtain ⟨name, hname, hbackup, -⟩ := h.backup
  refine Manifest.readable_entry k.session ?_ ?_ h.stamp.legible level
  · exact Path.legible_text (Tree.refusal?_eq_none_iff.mp h.source.refusal).1
  · rw [hbackup]
    exact Path.legible_text (hp.writable_batchPath h.stamp hname)

theorem savedOf_entry (h : k.Proper p) (hp : p.Proper) :
    Manifest.savedOf k.entry = .ok k.saved := by
  obtain ⟨name, hname, hbackup, -⟩ := h.backup
  refine Manifest.savedOf_entry k.session h.source.plain ?_ k.stamp
  rw [hbackup]
  exact hp.plain_batchPath h.stamp hname

/-- A backup is in its batch, under a name that ends as those of backups do. -/
theorem exists_place (h : k.Proper p) (hp : p.Proper) :
    ∃ base, p.place k.backup = p.batch k.stamp ++ [base ++ ending] := by
  obtain ⟨name, hname, hbackup, base, hbase⟩ := h.backup
  refine ⟨base, ?_⟩
  rw [hbackup, hp.place_batchPath h.stamp, Tree.next_eq hname.ne_around, hbase]

/-- **The path of a backup leads to its place.** -/
theorem locate_backup (h : k.Proper p) (hp : p.Proper) (hbatch : p.HasBatch k.stamp) :
    p.tree.locate p.here k.backup = .ok (p.place k.backup) := by
  obtain ⟨name, hname, hbackup, -⟩ := h.backup
  rw [hbackup, hp.locate_batchPath h.stamp hname hbatch, hp.place_batchPath h.stamp]

end Proper

end Kept

end Mend
