import Mathlib.Data.List.TakeWhile
import Mend.Text.Pattern

/-!
# What readers read

`Reads r u v` says that a reader that stands in front of `u ++ v` reads `u`. A reader answers with a
length only, so that the piece it reads is there only if it never reads past the end of the text:
`Within`. All readers are within, and the instances find it for those put together from others.

* `exists_reads`: an answer of a reader is a piece that it reads.
* `reads_exactly`, `reads_many`, `reads_seq_cons`, …: what each reader reads, and in front of what.
-/

namespace Mend.Text.Reader

/-- `r` reads `u` in front of `v`. -/
def Reads (r : Reader) (u v : Text) : Prop := r (u ++ v) = some u.length

/-- `r` never reads past the end of a text. -/
class Within (r : Reader) : Prop where
  le_length : ∀ {t : Text} {n : Nat}, r t = some n → n ≤ t.length

theorem exists_reads {r : Reader} [Within r] {t : Text} {n : Nat} (h : r t = some n) :
    ∃ u v, t = u ++ v ∧ u.length = n ∧ Reads r u v := by
  have hn := Within.le_length h
  refine ⟨t.take n, t.drop n, (List.take_append_drop n t).symm, by simp [hn], ?_⟩
  rw [Reads, List.take_append_drop, h, List.length_take, min_eq_left hn]

/-- What is read is determined by what stands there. -/
theorem Reads.unique {r : Reader} {u v u' v' : Text} (h : Reads r u v) (h' : Reads r u' v')
    (e : u ++ v = u' ++ v') : u = u' := by
  rw [Reads] at h h'
  rw [e, h', Option.some.injEq] at h
  exact (List.append_inj e h.symm).1

/-- What is read and not empty has a length to show for it. -/
theorem Reads.exists_succ {r : Reader} {u v : Text} (h : Reads r u v) (nonempty : u ≠ []) :
    ∃ m, r (u ++ v) = some (m + 1) := by
  obtain ⟨m, hm⟩ := Nat.exists_eq_add_one.mpr (List.length_pos_iff.mpr nonempty)
  exact ⟨m, h.trans (congrArg some hm)⟩

/-! ## Runs of characters -/

theorem bne_of_not_mem {c : Char} {u : Text} (h : c ∉ u) : ∀ d ∈ u, (d != c) = true :=
  fun _ hd => bne_iff_ne.mpr fun e => h (e ▸ hd)

theorem takeWhile_append_stop {p : Char → Bool} {u v : Text} (hu : ∀ c ∈ u, p c)
    (hv : ¬ v.head?.any p) : (u ++ v).takeWhile p = u := by
  rw [List.takeWhile_append_of_pos hu]
  cases v with
  | nil => simp
  | cons c v => simp_all

theorem dropWhile_append_stop {p : Char → Bool} {u v : Text} (hu : ∀ c ∈ u, p c)
    (hv : ¬ v.head?.any p) : (u ++ v).dropWhile p = v := by
  rw [List.dropWhile_append_of_pos hu]
  cases v with
  | nil => simp
  | cons c v => simp_all

theorem run_append {p : Char → Bool} {u v : Text} (hu : ∀ c ∈ u, p c) (hv : ¬ v.head?.any p) :
    run p (u ++ v) = u.length := by
  rw [run_eq, takeWhile_append_stop hu hv]

theorem run_eq_length {p : Char → Bool} {u v : Text} :
    run p (u ++ v) = u.length ↔ (∀ c ∈ u, p c) ∧ ¬ v.head?.any p := by
  refine ⟨fun h => ?_, fun h => run_append h.1 h.2⟩
  rw [run_eq] at h
  have htake : (u ++ v).takeWhile p = u := by
    have hpre := (List.prefix_iff_eq_take.mp (List.takeWhile_prefix (l := u ++ v) p))
    rw [hpre, h, List.take_left]
  have hall : ∀ c ∈ u, p c := fun c hc => List.mem_takeWhile_imp (htake ▸ hc)
  refine ⟨hall, fun hv => ?_⟩
  cases v with
  | nil => simp at hv
  | cons c v =>
    rw [List.takeWhile_append_of_pos hall] at htake
    simp_all

/-- A text is cut where its run ends. -/
theorem exists_run (p : Char → Bool) (t : Text) :
    ∃ u v, t = u ++ v ∧ (∀ c ∈ u, p c) ∧ ¬ v.head?.any p := by
  refine ⟨t.takeWhile p, t.dropWhile p, List.takeWhile_append_dropWhile.symm,
    fun c hc => List.mem_takeWhile_imp hc, ?_⟩
  cases h : t.dropWhile p with
  | nil => simp
  | cons c v =>
    have hc := List.head?_dropWhile_not p t
    simpa [h] using hc

section Cut

variable {q : Char → Bool} {a b a' b' : Text} {c c' : Char}

/-- A text is cut at its first character of a kind in one way. -/
theorem append_cons_unique (ha : ∀ x ∈ a, ¬ q x) (ha' : ∀ x ∈ a', ¬ q x) (hc : q c) (hc' : q c')
    (e : a ++ c :: b = a' ++ c' :: b') : a = a' ∧ c :: b = c' :: b' := by
  have htake : ∀ {a b : Text} {c : Char}, (∀ x ∈ a, ¬ q x) → q c →
      (a ++ c :: b).takeWhile (fun x => !q x) = a := by
    intro a b c ha hc
    exact takeWhile_append_stop (fun x hx => by simpa using ha x hx) (by simpa using hc)
  have hfront : a = a' := by
    rw [← htake (b := b) ha hc, e, htake ha' hc']
  rw [hfront] at e
  exact ⟨hfront, List.append_cancel_left e⟩

/-- A text is cut at the first place of a character in one way. -/
theorem append_cons_eq_iff (ha : c ∉ a) (ha' : c ∉ a') :
    a ++ c :: b = a' ++ c :: b' ↔ a = a' ∧ b = b' := by
  have hfree : ∀ {a : Text}, c ∉ a → ∀ x ∈ a, ¬ (x == c) = true := fun ha x hx e =>
    ha (beq_iff_eq.mp e ▸ hx)
  constructor
  · intro e
    obtain ⟨hfront, hrest⟩ := append_cons_unique (hfree ha) (hfree ha') (beq_self_eq_true c)
      (beq_self_eq_true c) e
    exact ⟨hfront, (List.cons.inj hrest).2⟩
  · rintro ⟨rfl, rfl⟩
    rfl

/-- What holds no character of a kind ends before the first one. -/
theorem prefix_of_append_cons (ha : ∀ x ∈ a, ¬ q x) (hc : q c) (e : a ++ b = a' ++ c :: b') :
    a <+: a' := by
  obtain ⟨z, hz, -⟩ | ⟨z, hz, hrest⟩ := List.append_eq_append_iff.mp e
  · exact ⟨z, hz.symm⟩
  · cases z with
    | nil => simp [hz]
    | cons d z =>
      obtain ⟨rfl, -⟩ := List.cons.inj hrest
      exact absurd hc (ha c (by simp [hz]))

end Cut

/-! ## Single readers -/

section Single

variable {p : Char → Bool} {u v : Text}

@[simp] theorem reads_exactly {w : Text} : Reads (exactly w) u v ↔ u = w := by
  rw [Reads, exactly]
  split
  · next h =>
    rw [List.isPrefixOf_iff_prefix] at h
    constructor
    · intro e
      have hw : w.length = u.length := by simpa using e
      have hpre := List.prefix_of_prefix_length_le h (List.prefix_append u v) hw.le
      exact (hpre.eq_of_length hw).symm
    · rintro rfl
      rfl
  · next h =>
    constructor
    · simp
    · rintro rfl
      exact absurd (List.isPrefixOf_iff_prefix.mpr (List.prefix_append u v)) h

/-- What is read of a word in any case has its letters. -/
theorem reads_inAnyCase {w : Text} : Reads (inAnyCase w) u v ↔
    u.length = w.length ∧ ∀ p ∈ w.zip u, sameLetter p.1 p.2 := by
  rw [Reads, inAnyCase, ← List.all_eq_true]
  constructor
  · intro h
    split at h
    · next hcond =>
      have hlen : w.length = u.length := Option.some.inj h
      rw [hlen, List.take_left, Bool.and_eq_true] at hcond
      exact ⟨hlen.symm, hcond.2⟩
    · cases h
  · rintro ⟨hlen, hall⟩
    rw [← hlen, List.take_left, hall, if_pos (by simp)]

@[simp] theorem reads_many : Reads (many p) u v ↔ (∀ c ∈ u, p c) ∧ ¬ v.head?.any p := by
  rw [Reads, many, Option.some.injEq, run_eq_length]

@[simp] theorem reads_blanks :
    Reads blanks u v ↔ (∀ c ∈ u, isBlank c) ∧ ¬ v.head?.any isBlank := reads_many

@[simp] theorem reads_atLeast {n : Nat} :
    Reads (atLeast n p) u v ↔ n ≤ u.length ∧ (∀ c ∈ u, p c) ∧ ¬ v.head?.any p := by
  rw [← run_eq_length, Reads, atLeast]
  split
  · next h =>
    rw [Option.some.injEq]
    exact ⟨fun e => ⟨e ▸ h, e⟩, fun e => e.2⟩
  · next h =>
    refine ⟨by simp, fun e => absurd (e.2 ▸ e.1) h⟩

@[simp] theorem reads_someBlanks :
    Reads someBlanks u v ↔ 1 ≤ u.length ∧ (∀ c ∈ u, isBlank c) ∧ ¬ v.head?.any isBlank :=
  reads_atLeast

@[simp] theorem reads_one : Reads (one p) u v ↔ ∃ c, u = [c] ∧ p c := by
  cases u with
  | nil => cases v <;> simp [Reads, one]
  | cons c u =>
    simp only [Reads, one, List.cons_append, List.length_cons, List.cons.injEq]
    split
    · next h =>
      simp only [Option.some.injEq, Nat.right_eq_add, List.length_eq_zero_iff]
      exact ⟨fun e => ⟨c, ⟨rfl, e⟩, h⟩, fun ⟨_, e, _⟩ => e.2⟩
    · next h =>
      refine ⟨by simp, ?_⟩
      rintro ⟨d, ⟨rfl, -⟩, hd⟩
      exact absurd hd h

@[simp] theorem reads_through {c : Char} :
    Reads (through c) u v ↔ ∃ a, u = a ++ [c] ∧ c ∉ a := by
  have hall : ∀ a : Text, (∀ d ∈ a, (d != c) = true) ↔ c ∉ a := by
    intro a
    simp only [bne_iff_ne, ne_eq]
    exact ⟨fun h hc => h c hc rfl, fun h d hd e => h (e ▸ hd)⟩
  constructor
  · intro h
    obtain ⟨a, s, e, ha, hs⟩ := exists_run (· != c) (u ++ v)
    rw [Reads, through, e, run_append ha hs, List.drop_left] at h
    cases s with
    | nil => simp at h
    | cons d s =>
      obtain rfl : d = c := by simpa using hs
      have hlen : u.length = (a ++ [d]).length := by simpa using h.symm
      have hu : u ++ v = (a ++ [d]) ++ s := by simp [e]
      exact ⟨a, (List.append_inj hu hlen).1, (hall a).mp ha⟩
  · rintro ⟨a, rfl, ha⟩
    rw [Reads, through, List.append_assoc, run_append ((hall a).mpr ha) (by simp)]
    simp

@[simp] theorem reads_wordEnd : Reads wordEnd u v ↔ u = [] ∧ ¬ v.head?.any isWord := by
  cases u with
  | nil => cases v <;> simp [Reads, wordEnd]
  | cons c u => simp [Reads, wordEnd]

@[simp] theorem reads_ahead {q : Text → Bool} : Reads (ahead q) u v ↔ u = [] ∧ q v := by
  rw [Reads, ahead]
  split
  · next h =>
    simp only [Option.some.injEq, eq_comm (a := 0), List.length_eq_zero_iff]
    exact ⟨fun e => ⟨e, by simpa [e] using h⟩, fun e => e.1⟩
  · next h =>
    refine ⟨by simp, ?_⟩
    rintro ⟨rfl, hq⟩
    exact absurd hq h

end Single

/-! ## Readers put together -/

section Together

variable {r : Reader} {rs : List Reader} {u v : Text}

@[simp] theorem reads_seq_nil : Reads (seq []) u v ↔ u = [] := by
  simp [Reads, seq, eq_comm]

@[simp] theorem reads_seq_cons [Within r] [Within (seq rs)] :
    Reads (seq (r :: rs)) u v ↔ ∃ a b, u = a ++ b ∧ Reads r a (b ++ v) ∧ Reads (seq rs) b v := by
  constructor
  · intro h
    rw [Reads, seq] at h
    split at h
    · simp at h
    · next n hr =>
      obtain ⟨a, s, e, rfl, ha⟩ := exists_reads hr
      rw [e, List.drop_left, Option.map_eq_some_iff] at h
      obtain ⟨m, hm, hlen⟩ := h
      obtain ⟨b, s', rfl, rfl, hb⟩ := exists_reads hm
      have hu : u ++ v = (a ++ b) ++ s' := by simp [e]
      obtain ⟨rfl, rfl⟩ := List.append_inj hu (by simp [hlen])
      exact ⟨a, b, rfl, ha, hb⟩
  · rintro ⟨a, b, rfl, ha, hb⟩
    rw [Reads] at ha hb
    rw [Reads, seq, List.append_assoc, ha]
    simp [hb]

@[simp] theorem reads_oneOf_nil : ¬ Reads (oneOf []) u v := by
  simp [Reads, oneOf]

@[simp] theorem reads_oneOf_cons :
    Reads (oneOf (r :: rs)) u v ↔
      Reads r u v ∨ r (u ++ v) = none ∧ Reads (oneOf rs) u v := by
  rw [Reads, Reads, Reads, oneOf]
  cases r (u ++ v) <;> simp

@[simp] theorem reads_optional :
    Reads (optional r) u v ↔ Reads r u v ∨ r (u ++ v) = none ∧ u = [] := by
  rw [Reads, Reads, optional, Option.some.injEq]
  cases r (u ++ v) <;> simp [eq_comm]

/-- One of several readers reads something where any of them does. -/
theorem isSome_oneOf {t : Text} : (oneOf rs t).isSome ↔ ∃ r ∈ rs, (r t).isSome := by
  induction rs with
  | nil => simp [oneOf]
  | cons r rs ih => simp [oneOf, Option.isSome_or, ih]

theorem isSome_exactly {w t : Text} : (exactly w t).isSome ↔ w <+: t := by
  rw [exactly, ← List.isPrefixOf_iff_prefix]
  split <;> simp_all

end Together

/-! ## All readers stay within the text -/

instance {w : Text} : Within (exactly w) where
  le_length {t n} h := by
    rw [exactly] at h
    split at h
    · next hw =>
      obtain rfl : w.length = n := by simpa using h
      exact (List.isPrefixOf_iff_prefix.mp hw).length_le
    · simp at h

theorem run_le_length (p : Char → Bool) (t : Text) : run p t ≤ t.length := by
  rw [run_eq]
  exact (List.takeWhile_prefix p).length_le

instance {w : Text} : Within (inAnyCase w) where
  le_length {t n} h := by
    rw [inAnyCase] at h
    split at h
    · next hw =>
      obtain rfl : w.length = n := by simpa using h
      simp only [List.length_take, Bool.and_eq_true, decide_eq_true_eq] at hw
      omega
    · simp at h

instance {p : Char → Bool} : Within (many p) where
  le_length {t n} h := by
    obtain rfl : run p t = n := by simpa [many] using h
    exact run_le_length p t

instance : Within blanks := inferInstanceAs (Within (many isBlank))

instance {k : Nat} {p : Char → Bool} : Within (atLeast k p) where
  le_length {t n} h := by
    rw [atLeast] at h
    split at h
    · obtain rfl : run p t = n := by simpa using h
      exact run_le_length p t
    · simp at h

instance : Within someBlanks := inferInstanceAs (Within (atLeast 1 isBlank))

instance {p : Char → Bool} : Within (one p) where
  le_length {t n} h := by
    cases t with
    | nil => simp [one] at h
    | cons c t =>
      rw [one] at h
      split at h
      · obtain rfl : 1 = n := by simpa using h
        simp
      · simp at h

instance {c : Char} : Within (through c) where
  le_length {t n} h := by
    rw [through] at h
    split at h
    · simp at h
    · next hne =>
      obtain rfl : run (· != c) t + 1 = n := by simpa using h
      simpa [Nat.succ_le_iff] using hne

instance : Within wordEnd where
  le_length {t n} h := by
    cases t with
    | nil => simp_all [wordEnd]
    | cons c t =>
      rw [wordEnd] at h
      split at h
      · simp at h
      · obtain rfl : 0 = n := by simpa using h
        simp

instance {q : Text → Bool} : Within (ahead q) where
  le_length {t n} h := by
    rw [ahead] at h
    split at h
    · obtain rfl : 0 = n := by simpa using h
      simp
    · simp at h

instance : Within (seq []) where
  le_length {t n} h := by
    obtain rfl : 0 = n := by simpa [seq] using h
    simp

instance {r : Reader} {rs : List Reader} [Within r] [Within (seq rs)] : Within (seq (r :: rs)) where
  le_length {t n} h := by
    rw [seq] at h
    split at h
    · simp at h
    · next m hr =>
      rw [Option.map_eq_some_iff] at h
      obtain ⟨k, hk, rfl⟩ := h
      have hm := Within.le_length hr
      have hk := Within.le_length hk
      rw [List.length_drop] at hk
      omega

instance : Within (oneOf []) where
  le_length h := by simp [oneOf] at h

instance {r : Reader} {rs : List Reader} [Within r] [Within (oneOf rs)] :
    Within (oneOf (r :: rs)) where
  le_length {t n} h := by
    rw [oneOf, Option.or_eq_some_iff] at h
    obtain h | ⟨-, h⟩ := h
    · exact Within.le_length h
    · exact Within.le_length h

instance {r : Reader} [Within r] : Within (optional r) where
  le_length {t n} h := by
    rw [optional, Option.some.injEq] at h
    subst h
    cases hr : r t with
    | none => simp
    | some n => simpa using Within.le_length hr

theorem upTo_le_length {r : Reader} [Within r] :
    ∀ (fuel : Nat) {t : Text} {n : Nat}, upTo r fuel t = some n → n ≤ t.length
  | 0, t, n, h => by
    obtain rfl : 0 = n := by simpa [upTo] using h
    simp
  | fuel + 1, t, n, h => by
    rw [upTo] at h
    split at h
    · next m hr =>
      rw [Option.map_eq_some_iff] at h
      obtain ⟨k, hk, rfl⟩ := h
      have hm := Within.le_length hr
      have hk := upTo_le_length fuel hk
      rw [List.length_drop] at hk
      omega
    · obtain rfl : 0 = n := by simpa using h
      simp

instance {r : Reader} [Within r] : Within (repeated r) where
  le_length {t _} h := upTo_le_length t.length h

theorem exists_of_upTo {r : Reader} [Within r] :
    ∀ (fuel : Nat) {t : Text} {n : Nat}, upTo r fuel t = some n →
      ∃ us : List Text, (∃ v, t = us.flatten ++ v) ∧ us.flatten.length = n ∧
        ∀ u ∈ us, ∃ v, Reads r u v
  | 0, t, n, h => by
    obtain rfl : 0 = n := by simpa [upTo] using h
    exact ⟨[], ⟨t, rfl⟩, rfl, by simp⟩
  | fuel + 1, t, n, h => by
    rw [upTo] at h
    split at h
    · next m hr =>
      rw [Option.map_eq_some_iff] at h
      obtain ⟨k, hk, rfl⟩ := h
      obtain ⟨u, v, rfl, hu, hread⟩ := exists_reads hr
      rw [List.drop_left' hu] at hk
      obtain ⟨us, ⟨v', rfl⟩, rfl, hus⟩ := exists_of_upTo fuel hk
      refine ⟨u :: us, ⟨v', by simp⟩, by simp [hu], fun w hw => ?_⟩
      obtain rfl | hw := List.mem_cons.mp hw
      · exact ⟨_, hread⟩
      · exact hus w hw
    · obtain rfl : 0 = n := by simpa using h
      exact ⟨[], ⟨t, rfl⟩, rfl, by simp⟩

/-- What is read again and again is made of pieces that are read once. -/
theorem exists_of_reads_repeated {r : Reader} [Within r] {u v : Text} (h : Reads (repeated r) u v) :
    ∃ us : List Text, u = us.flatten ∧ ∀ w ∈ us, ∃ v, Reads r w v := by
  obtain ⟨us, ⟨v', e⟩, hlen, hus⟩ := exists_of_upTo _ h
  exact ⟨us, (List.append_inj e hlen.symm).1, hus⟩

/-- To read something again and again never fails. -/
theorem isSome_upTo (r : Reader) : ∀ (fuel : Nat) (t : Text), (upTo r fuel t).isSome
  | 0, _ => rfl
  | fuel + 1, t => by
    rw [upTo]
    split
    · rw [Option.isSome_map]
      exact isSome_upTo r fuel _
    · rfl

/-- Whatever is read again and again, it is read as often as it stands there. -/
theorem unread_of_upTo {r : Reader} [Within r] :
    ∀ (fuel : Nat) {t : Text} {n : Nat}, upTo r fuel t = some n → t.length ≤ fuel →
      ∀ m, r (t.drop n) ≠ some (m + 1)
  | 0, t, n, h, hlen, m => by
    intro hr
    have hm := Within.le_length hr
    rw [List.length_drop] at hm
    omega
  | fuel + 1, t, n, h, hlen, m => by
    rw [upTo] at h
    split at h
    · next k hk =>
      obtain ⟨n', hn', rfl⟩ := Option.map_eq_some_iff.mp h
      have hrest : (t.drop (k + 1)).length ≤ fuel := by
        rw [List.length_drop]
        omega
      rw [← List.drop_drop]
      exact unread_of_upTo fuel hn' hrest m
    · next hnone =>
      obtain rfl := Option.some.inj h
      exact hnone m

/-- What is read again and again does not stand there once more. -/
theorem unread_of_reads_repeated {r : Reader} [Within r] {u v : Text}
    (h : Reads (repeated r) u v) (m : Nat) : r v ≠ some (m + 1) := by
  have hrest := unread_of_upTo _ h (le_refl _) m
  rwa [List.drop_left] at hrest

end Mend.Text.Reader
