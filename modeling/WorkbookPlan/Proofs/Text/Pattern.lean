import WorkbookPlan.Text.Pattern

/-! What a pattern reads. The ways of a pattern at a place are the runs of characters that it reads
there, so a search finds such a run, and it finds one whenever there is one. -/
namespace WorkbookPlan.Text

/-- The character just passed behind a run, if there was one before. -/
def lastOf (before : Option Char) (run : List Char) : Option Char :=
  run.getLast?.or before

@[simp] theorem lastOf_nil (before : Option Char) : lastOf before [] = before := by
  simp [lastOf]

@[simp] theorem lastOf_none (run : List Char) : lastOf none run = run.getLast? := by
  simp [lastOf]

theorem lastOf_append (before : Option Char) (run run' : List Char) :
    lastOf before (run ++ run') = lastOf (lastOf before run) run' := by
  unfold lastOf
  rw [List.getLast?_append, Option.or_assoc]

@[simp] theorem lastOf_cons (before : Option Char) (c : Char) (run : List Char) :
    lastOf before (c :: run) = lastOf (some c) run := by
  rw [← List.singleton_append, lastOf_append]
  rfl

/-- The places that are reached by passing characters of a class, by their number. -/
theorem Place.getElem?_steps {p : Char → Bool} {before : Option Char} {cs : List Char} {i : Nat}
    {pl : Place} : (steps p before cs)[i]? = some pl ↔
      ∃ run rest, cs = run ++ rest ∧ run.length = i ∧ (∀ c ∈ run, p c = true) ∧
        pl = ⟨lastOf before run, rest⟩ := by
  constructor
  · intro h
    induction cs generalizing before i with
    | nil =>
      cases i with
      | zero => exact ⟨[], [], rfl, rfl, by simp, by simpa [steps] using h.symm⟩
      | succ i => simp [steps] at h
    | cons c cs ih =>
      cases i with
      | zero => exact ⟨[], c :: cs, rfl, rfl, by simp, by simpa [steps] using h.symm⟩
      | succ i =>
        simp only [steps, List.getElem?_cons_succ] at h
        split at h
        · next hc =>
          obtain ⟨run, rest, rfl, rfl, hrun, rfl⟩ := ih h
          exact ⟨c :: run, rest, rfl, rfl, by simpa [hc] using hrun, by simp⟩
        · cases h
  · rintro ⟨run, rest, rfl, rfl, hrun, rfl⟩
    induction run generalizing before with
    | nil => cases rest <;> simp [steps]
    | cons c run ih =>
      have hc : p c = true := hrun c List.mem_cons_self
      have hlater : (steps p (some c) (run ++ rest))[run.length]? = some ⟨lastOf (some c) run, rest⟩ :=
        ih fun x hx => hrun x (List.mem_cons_of_mem _ hx)
      simpa [steps, hc] using hlater

/-- A text that goes on with no word character has a word edge in the same places. -/
theorem Place.atWordEdge_append {before : Option Char} {rest behind : List Char}
    (h : behind.head?.any isWordChar = false) :
    atWordEdge ⟨before, rest ++ behind⟩ = atWordEdge ⟨before, rest⟩ := by
  cases rest with
  | nil => simp [atWordEdge, h]
  | cons c rest => rfl

/-- The parts that are kept, as texts. -/
def Match.texts (m : Match) : List (Nat × List Char) :=
  m.kept.map fun k => (k.1, k.2.1.take (k.2.1.length - k.2.2.length))

theorem Match.kept?_eq (m : Match) (n : Nat) : m.kept? n = m.texts.lookup n := by
  unfold Match.kept? Match.texts
  induction m.kept with
  | nil => rfl
  | cons k rest ih =>
    rw [List.map_cons, List.lookup_cons, List.lookup_cons]
    cases n == k.1 with
    | true => rfl
    | false => exact ih

namespace Pattern

/-- The pattern reads a run of characters that stands between the character before it, if there is
one, and the rest of the text. The parts to keep are those that it keeps of the run. -/
inductive Reads : Pattern → Option Char → List Char → List Char → List (Nat × List Char) → Prop where
  | empty {before rest} : Reads empty before [] rest []
  | one {p c before rest} : p c = true → Reads (one p) before [c] rest []
  | many {p least most before run rest} : (∀ c ∈ run, p c = true) → least ≤ run.length →
      (∀ n ∈ most, run.length ≤ n) → Reads (many p least most) before run rest []
  | few {p least before run rest} : (∀ c ∈ run, p c = true) → least ≤ run.length →
      Reads (few p least) before run rest []
  | wordEdge {before rest} : Place.atWordEdge ⟨before, rest⟩ = true →
      Reads wordEdge before [] rest []
  | seq {a b before run run' rest kept kept'} : Reads a before run (run' ++ rest) kept →
      Reads b (lastOf before run) run' rest kept' →
      Reads (seq a b) before (run ++ run') rest (kept ++ kept')
  | first {a b before run rest kept} : Reads a before run rest kept →
      Reads (alt a b) before run rest kept
  | second {a b before run rest kept} : Reads b before run rest kept →
      Reads (alt a b) before run rest kept
  | keep {n a before run rest kept} : Reads a before run rest kept →
      Reads (keep n a) before run rest ((n, run) :: kept)

variable {a b p : Pattern} {before : Option Char} {run rest : List Char}
  {kept : List (Nat × List Char)} {m : Match}

theorem mem_ways_many_iff {p : Char → Bool} {least : Nat} {most : Option Nat} {pl : Place} :
    m ∈ (many p least most).ways pl ↔ ∃ run rest, pl.ahead = run ++ rest ∧
      (∀ c ∈ run, p c = true) ∧ least ≤ run.length ∧ (∀ n ∈ most, run.length ≤ n) ∧
      m = ⟨⟨lastOf pl.before run, rest⟩, []⟩ := by
  let places := Place.steps p pl.before pl.ahead
  let ends := most.elim (places.drop least) fun n => (places.drop least).take (n + 1 - least)
  have hends : ∀ place, place ∈ ends ↔
      ∃ i, least ≤ i ∧ (∀ n ∈ most, i ≤ n) ∧ places[i]? = some place := by
    intro place
    cases most with
    | none =>
      simp only [ends, Option.elim_none, List.mem_iff_getElem?, List.getElem?_drop]
      constructor
      · rintro ⟨i, hi⟩
        exact ⟨least + i, Nat.le_add_right .., by simp, hi⟩
      · rintro ⟨i, hleast, -, hi⟩
        exact ⟨i - least, by rwa [Nat.add_sub_cancel' hleast]⟩
    | some n =>
      simp only [ends, Option.elim_some, List.mem_iff_getElem?, List.getElem?_take,
        List.getElem?_drop]
      constructor
      · rintro ⟨i, hi⟩
        split at hi
        · exact ⟨least + i, by omega, by simpa using by omega, hi⟩
        · cases hi
      · rintro ⟨i, hleast, hmost, hi⟩
        have hle : i ≤ n := hmost n rfl
        refine ⟨i - least, ?_⟩
        rw [if_pos (by omega), Nat.add_sub_cancel' hleast, hi]
  have hways : (many p least most).ways pl = ends.reverse.map (⟨·, []⟩) := by
    cases most <;> rfl
  rw [hways, List.mem_map]
  constructor
  · rintro ⟨place, hplace, rfl⟩
    obtain ⟨i, hleast, hmost, hi⟩ := (hends place).1 (List.mem_reverse.1 hplace)
    obtain ⟨run, rest, hahead, rfl, hrun, rfl⟩ := Place.getElem?_steps.1 hi
    exact ⟨run, rest, hahead, hrun, hleast, hmost, rfl⟩
  · rintro ⟨run, rest, hahead, hrun, hleast, hmost, rfl⟩
    have hi : places[run.length]? = some ⟨lastOf pl.before run, rest⟩ :=
      Place.getElem?_steps.2 ⟨run, rest, hahead, rfl, hrun, rfl⟩
    exact ⟨_, List.mem_reverse.2 ((hends _).2 ⟨run.length, hleast, hmost, hi⟩), rfl⟩

theorem mem_ways_few_iff {p : Char → Bool} {least : Nat} {pl : Place} :
    m ∈ (few p least).ways pl ↔ ∃ run rest, pl.ahead = run ++ rest ∧
      (∀ c ∈ run, p c = true) ∧ least ≤ run.length ∧ m = ⟨⟨lastOf pl.before run, rest⟩, []⟩ := by
  have hsame : m ∈ (few p least).ways pl ↔ m ∈ (many p least none).ways pl := by
    simp [ways]
  rw [hsame, mem_ways_many_iff]
  simp

theorem reads_of_mem_ways {pl : Place} (h : m ∈ p.ways pl) :
    ∃ run, pl.ahead = run ++ m.place.ahead ∧ m.place.before = lastOf pl.before run ∧
      Reads p pl.before run m.place.ahead m.texts := by
  induction p generalizing pl m with
  | empty =>
    obtain rfl := List.mem_singleton.1 h
    exact ⟨[], rfl, by simp, .empty⟩
  | one p =>
    unfold ways at h
    split at h
    · cases h
    · next c cs hahead =>
      split at h
      · next hc =>
        obtain rfl := List.mem_singleton.1 h
        exact ⟨[c], hahead, by simp, .one hc⟩
      · cases h
  | many p least most =>
    obtain ⟨run, rest, hahead, hrun, hleast, hmost, rfl⟩ := mem_ways_many_iff.1 h
    exact ⟨run, hahead, rfl, .many hrun hleast hmost⟩
  | few p least =>
    obtain ⟨run, rest, hahead, hrun, hleast, rfl⟩ := mem_ways_few_iff.1 h
    exact ⟨run, hahead, rfl, .few hrun hleast⟩
  | wordEdge =>
    unfold ways at h
    split at h
    · next hedge =>
      obtain rfl := List.mem_singleton.1 h
      exact ⟨[], rfl, by simp, .wordEdge hedge⟩
    · cases h
  | seq a b iha ihb =>
    obtain ⟨x, hx, hm⟩ := List.mem_flatMap.1 h
    obtain ⟨y, hy, rfl⟩ := List.mem_map.1 hm
    obtain ⟨run, hahead, hbefore, hreads⟩ := iha hx
    obtain ⟨run', hahead', hbefore', hreads'⟩ := ihb hy
    rw [hbefore] at hbefore' hreads'
    rw [hahead'] at hahead hreads
    refine ⟨run ++ run', by rw [hahead, List.append_assoc], by rw [hbefore', lastOf_append], ?_⟩
    have htexts : Match.texts ⟨y.place, x.kept ++ y.kept⟩ = x.texts ++ y.texts := List.map_append
    rw [htexts]
    exact .seq hreads hreads'
  | alt a b iha ihb =>
    rcases List.mem_append.1 h with h | h
    · obtain ⟨run, hahead, hbefore, hreads⟩ := iha h
      exact ⟨run, hahead, hbefore, .first hreads⟩
    · obtain ⟨run, hahead, hbefore, hreads⟩ := ihb h
      exact ⟨run, hahead, hbefore, .second hreads⟩
  | keep n a iha =>
    obtain ⟨x, hx, rfl⟩ := List.mem_map.1 h
    obtain ⟨run, hahead, hbefore, hreads⟩ := iha hx
    have hrun : pl.ahead.take (pl.ahead.length - x.place.ahead.length) = run := by
      rw [hahead, List.length_append, Nat.add_sub_cancel, List.take_left]
    have htexts : Match.texts ⟨x.place, (n, pl.ahead, x.place.ahead) :: x.kept⟩ =
        (n, run) :: x.texts := by rw [← hrun]; rfl
    refine ⟨run, hahead, hbefore, ?_⟩
    rw [htexts]
    exact .keep hreads

theorem mem_ways_of_reads (h : Reads p before run rest kept) :
    ∃ m ∈ p.ways ⟨before, run ++ rest⟩, m.place = ⟨lastOf before run, rest⟩ ∧ m.texts = kept := by
  induction h with
  | empty => exact ⟨_, List.mem_singleton_self _, by simp, rfl⟩
  | @one p c before rest hc => exact ⟨⟨⟨some c, rest⟩, []⟩, by simp [ways, hc], by simp, rfl⟩
  | many hrun hleast hmost =>
    exact ⟨_, mem_ways_many_iff.2 ⟨_, _, rfl, hrun, hleast, hmost, rfl⟩, rfl, rfl⟩
  | few hrun hleast => exact ⟨_, mem_ways_few_iff.2 ⟨_, _, rfl, hrun, hleast, rfl⟩, rfl, rfl⟩
  | @wordEdge before rest hedge =>
    exact ⟨⟨⟨before, rest⟩, []⟩, by simp [ways, hedge], by simp, rfl⟩
  | seq _ _ iha ihb =>
    obtain ⟨x, hx, hplace, hkept⟩ := iha
    obtain ⟨y, hy, hplace', hkept'⟩ := ihb
    refine ⟨⟨y.place, x.kept ++ y.kept⟩, ?_, by rw [hplace', lastOf_append], ?_⟩
    · rw [List.append_assoc]
      simp only [ways]
      refine List.mem_flatMap.2 ⟨x, hx, ?_⟩
      rw [hplace]
      exact List.mem_map_of_mem hy
    · rw [← hkept, ← hkept']
      exact List.map_append
  | first _ ih =>
    obtain ⟨m, hm, hplace, hkept⟩ := ih
    exact ⟨m, List.mem_append_left _ hm, hplace, hkept⟩
  | second _ ih =>
    obtain ⟨m, hm, hplace, hkept⟩ := ih
    exact ⟨m, List.mem_append_right _ hm, hplace, hkept⟩
  | @keep n a before run rest kept _ ih =>
    obtain ⟨m, hm, hplace, hkept⟩ := ih
    refine ⟨⟨m.place, (n, run ++ rest, m.place.ahead) :: m.kept⟩, ?_, hplace, ?_⟩
    · exact List.mem_map.2 ⟨m, hm, rfl⟩
    · rw [← hkept, hplace]
      simp [Match.texts]

section Search

variable {text : List Char}

theorem mem_ways_of_searchFrom (h : p.searchFrom before text = some m) :
    ∃ front rest, text = front ++ rest ∧ m ∈ p.ways ⟨lastOf before front, rest⟩ := by
  induction text generalizing before with
  | nil => exact ⟨[], [], rfl, by simpa using List.mem_of_mem_head? h⟩
  | cons c cs ih =>
    unfold searchFrom at h
    split at h
    · next x hx =>
      cases h
      exact ⟨[], c :: cs, rfl, by simpa using List.mem_of_mem_head? hx⟩
    · obtain ⟨front, rest, rfl, hm⟩ := ih h
      exact ⟨c :: front, rest, rfl, by simpa using hm⟩

theorem isSome_searchFrom (front : List Char) {pl : Place} (hm : m ∈ p.ways pl)
    (hbefore : pl.before = lastOf before front) :
    (p.searchFrom before (front ++ pl.ahead)).isSome := by
  have hhead : ((p.ways pl).head?).isSome := by
    rw [List.isSome_head?]
    exact List.ne_nil_of_mem hm
  induction front generalizing before with
  | nil =>
    rw [lastOf_nil] at hbefore
    subst hbefore
    obtain ⟨x, hx⟩ := Option.isSome_iff_exists.1 hhead
    rcases pl with ⟨b, _ | ⟨c, cs⟩⟩ <;> simp [searchFrom, hx]
  | cons c front ih =>
    rw [lastOf_cons] at hbefore
    rw [List.cons_append]
    unfold searchFrom
    split
    · rfl
    · exact ih hbefore

/-- What a search finds is read there. -/
theorem reads_of_search (h : p.search text = some m) :
    ∃ front run back, text = front ++ run ++ back ∧ Reads p front.getLast? run back m.texts := by
  obtain ⟨front, rest, rfl, hm⟩ := mem_ways_of_searchFrom h
  obtain ⟨run, hahead, -, hreads⟩ := reads_of_mem_ways hm
  rw [lastOf_none] at hreads
  exact ⟨front, run, m.place.ahead, by rw [List.append_assoc, ← hahead], hreads⟩

/-- Where a run can be read, a search finds one. -/
theorem isSome_search {front back : List Char} (h : Reads p front.getLast? run back kept) :
    (p.search (front ++ run ++ back)).isSome := by
  obtain ⟨m, hm, -⟩ := mem_ways_of_reads h
  rw [List.append_assoc]
  exact isSome_searchFrom front hm (by simp)

/-- A pattern occurs in a text if it reads a run of it. -/
theorem occursIn_iff : p.occursIn text = true ↔
    ∃ front run back kept, text = front ++ run ++ back ∧ Reads p front.getLast? run back kept := by
  constructor
  · intro h
    obtain ⟨m, hm⟩ := Option.isSome_iff_exists.1 h
    obtain ⟨front, run, back, htext, hreads⟩ := reads_of_search hm
    exact ⟨front, run, back, m.texts, htext, hreads⟩
  · rintro ⟨front, run, back, kept, rfl, hreads⟩
    exact isSome_search hreads

end Search

section Behind

variable {text behind : List Char}

/-- What is read stays so when a text goes on behind with no word character. -/
theorem Reads.append (h : Reads p before run rest kept)
    (hbehind : behind.head?.any isWordChar = false) : Reads p before run (rest ++ behind) kept := by
  induction h with
  | empty => exact .empty
  | one hc => exact .one hc
  | many hrun hleast hmost => exact .many hrun hleast hmost
  | few hrun hleast => exact .few hrun hleast
  | wordEdge hedge => exact .wordEdge ((Place.atWordEdge_append hbehind).trans hedge)
  | seq _ _ iha ihb => exact .seq (List.append_assoc .. ▸ iha) ihb
  | first _ ih => exact .first ih
  | second _ ih => exact .second ih
  | keep _ ih => exact .keep ih

theorem occursIn_append (h : p.occursIn text = true)
    (hbehind : behind.head?.any isWordChar = false) : p.occursIn (text ++ behind) = true := by
  obtain ⟨front, run, back, kept, rfl, hreads⟩ := occursIn_iff.1 h
  exact occursIn_iff.2 ⟨front, run, back ++ behind, kept, by simp, hreads.append hbehind⟩

end Behind

section Shorthands

@[simp] theorem reads_empty_iff : Reads empty before run rest kept ↔ run = [] ∧ kept = [] := by
  constructor
  · rintro ⟨⟩
    exact ⟨rfl, rfl⟩
  · rintro ⟨rfl, rfl⟩
    exact .empty

@[simp] theorem reads_one_iff {p : Char → Bool} : Reads (one p) before run rest kept ↔
    ∃ c, p c = true ∧ run = [c] ∧ kept = [] := by
  constructor
  · rintro ⟨⟩
    exact ⟨_, ‹_›, rfl, rfl⟩
  · rintro ⟨c, hc, rfl, rfl⟩
    exact .one hc

@[simp] theorem reads_many_iff {p : Char → Bool} {least : Nat} :
    Reads (many p least none) before run rest kept ↔
      (∀ c ∈ run, p c = true) ∧ least ≤ run.length ∧ kept = [] := by
  constructor
  · rintro ⟨⟩
    exact ⟨‹_›, ‹_›, rfl⟩
  · rintro ⟨hrun, hleast, rfl⟩
    exact .many hrun hleast (by simp)

@[simp] theorem reads_few_iff {p : Char → Bool} {least : Nat} :
    Reads (few p least) before run rest kept ↔
      (∀ c ∈ run, p c = true) ∧ least ≤ run.length ∧ kept = [] := by
  constructor
  · rintro ⟨⟩
    exact ⟨‹_›, ‹_›, rfl⟩
  · rintro ⟨hrun, hleast, rfl⟩
    exact .few hrun hleast

theorem reads_seq_iff : Reads (seq a b) before run rest kept ↔
    ∃ run₁ run₂ kept₁ kept₂, run = run₁ ++ run₂ ∧ kept = kept₁ ++ kept₂ ∧
      Reads a before run₁ (run₂ ++ rest) kept₁ ∧ Reads b (lastOf before run₁) run₂ rest kept₂ := by
  constructor
  · rintro ⟨⟩
    exact ⟨_, _, _, _, rfl, rfl, ‹_›, ‹_›⟩
  · rintro ⟨_, _, _, _, rfl, rfl, ha, hb⟩
    exact .seq ha hb

theorem reads_seq_assoc {c : Pattern} : Reads (seq (seq a b) c) before run rest kept ↔
    Reads (seq a (seq b c)) before run rest kept := by
  constructor
  · intro h
    obtain ⟨_, third, _, _, rfl, rfl, hab, hc⟩ := reads_seq_iff.1 h
    obtain ⟨first, second, _, _, rfl, rfl, ha, hb⟩ := reads_seq_iff.1 hab
    rw [lastOf_append] at hc
    rw [← List.append_assoc] at ha
    rw [List.append_assoc, List.append_assoc]
    exact .seq ha (.seq hb hc)
  · intro h
    obtain ⟨first, _, _, _, rfl, rfl, ha, hbc⟩ := reads_seq_iff.1 h
    obtain ⟨second, third, _, _, rfl, rfl, hb, hc⟩ := reads_seq_iff.1 hbc
    rw [← lastOf_append] at hc
    rw [List.append_assoc] at ha
    rw [← List.append_assoc, ← List.append_assoc]
    exact .seq (.seq ha hb) hc

theorem reads_orEmpty_iff : Reads (orEmpty a) before run rest kept ↔
    Reads a before run rest kept ∨ run = [] ∧ kept = [] := by
  constructor
  · rintro (_ | _)
    · exact .inl ‹_›
    · exact .inr (reads_empty_iff.1 ‹_›)
  · rintro (h | h)
    · exact .first h
    · exact .second (reads_empty_iff.2 h)

theorem reads_orEmpty_seq_iff : Reads (seq (orEmpty a) b) before run rest kept ↔
    Reads (seq a b) before run rest kept ∨ Reads b before run rest kept := by
  constructor
  · intro h
    obtain ⟨_, _, _, _, rfl, rfl, ha, hb⟩ := reads_seq_iff.1 h
    rcases reads_orEmpty_iff.1 ha with ha | ⟨rfl, rfl⟩
    · exact .inl (.seq ha hb)
    · exact .inr hb
  · rintro (h | h)
    · obtain ⟨_, _, _, _, rfl, rfl, ha, hb⟩ := reads_seq_iff.1 h
      exact .seq (.first ha) hb
    · have hnone : Reads (orEmpty a) before [] (run ++ rest) [] := .second .empty
      exact reads_seq_iff.2 ⟨[], run, [], kept, rfl, rfl, hnone, by rwa [lastOf_nil]⟩

theorem reads_keep_iff {n : Nat} : Reads (keep n a) before run rest kept ↔
    ∃ kept', kept = (n, run) :: kept' ∧ Reads a before run rest kept' := by
  constructor
  · rintro ⟨⟩
    exact ⟨_, rfl, ‹_›⟩
  · rintro ⟨_, rfl, h⟩
    exact .keep h

/-- A row of single characters, each told by its image. -/
theorem reads_row_iff {image : Char → Char} {cs : List Char} :
    Reads (inOrder (cs.map fun c => one (image · == c))) before run rest kept ↔
      run.map image = cs ∧ kept = [] := by
  induction cs generalizing before run kept with
  | nil => simp [inOrder]
  | cons c cs ih =>
    have hrow : inOrder ((c :: cs).map fun c => one (image · == c)) =
        seq (one (image · == c)) (inOrder (cs.map fun c => one (image · == c))) := rfl
    rw [hrow, reads_seq_iff]
    constructor
    · rintro ⟨_, run, _, _, rfl, rfl, hc, hcs⟩
      obtain ⟨x, hx, rfl, rfl⟩ := reads_one_iff.1 hc
      obtain ⟨rfl, rfl⟩ := ih.1 hcs
      exact ⟨by simpa using hx, rfl⟩
    · rintro ⟨himage, rfl⟩
      obtain ⟨x, run, rfl, hx, hrun⟩ := List.map_eq_cons_iff.1 himage
      exact ⟨[x], run, [], [], rfl, rfl, .one (by simpa using hx), ih.2 ⟨hrun, rfl⟩⟩

end Shorthands

section Plain

variable {kind : List Char → Prop}

/-- The pattern reads the runs of a kind, wherever they stand, and keeps nothing of them. -/
def IsPlain (p : Pattern) (kind : List Char → Prop) : Prop :=
  ∀ before run rest kept, Reads p before run rest kept ↔ kind run ∧ kept = []

theorem IsPlain.congr {kind' : List Char → Prop} (h : p.IsPlain kind)
    (hkind : ∀ run, kind run ↔ kind' run) : p.IsPlain kind' := by
  intro before run rest kept
  rw [h, hkind]

theorem IsPlain.seq_iff (h : a.IsPlain kind) : Reads (seq a b) before run rest kept ↔
    ∃ first second, run = first ++ second ∧ kind first ∧
      Reads b (lastOf before first) second rest kept := by
  rw [reads_seq_iff]
  constructor
  · rintro ⟨first, second, _, _, rfl, rfl, ha, hb⟩
    obtain ⟨hfirst, rfl⟩ := (h _ _ _ _).1 ha
    exact ⟨first, second, rfl, hfirst, hb⟩
  · rintro ⟨first, second, rfl, hfirst, hb⟩
    exact ⟨first, second, [], kept, rfl, rfl, (h _ _ _ _).2 ⟨hfirst, rfl⟩, hb⟩

theorem isPlain_one (p : Char → Bool) : (one p).IsPlain fun run => ∃ c, p c = true ∧ run = [c] := by
  intro before run rest kept
  rw [reads_one_iff]
  constructor
  · rintro ⟨c, hc, rfl, rfl⟩
    exact ⟨⟨c, hc, rfl⟩, rfl⟩
  · rintro ⟨⟨c, hc, rfl⟩, rfl⟩
    exact ⟨c, hc, rfl, rfl⟩

theorem isPlain_many (p : Char → Bool) (least : Nat) :
    (many p least none).IsPlain fun run => (∀ c ∈ run, p c = true) ∧ least ≤ run.length := by
  intro before run rest kept
  rw [reads_many_iff, and_assoc]

theorem IsPlain.orEmpty (h : a.IsPlain kind) : (orEmpty a).IsPlain fun run => kind run ∨ run = [] := by
  intro before run rest kept
  rw [reads_orEmpty_iff, h, or_and_right]

theorem isPlain_anyCase (word : String) :
    (anyCase word).IsPlain fun run => run.map latinFold = word.toList :=
  fun _ _ _ _ => reads_row_iff

theorem isPlain_literal (word : String) : (literal word).IsPlain fun run => run = word.toList := by
  have hrow : (literal word).IsPlain fun run => run.map id = word.toList := fun _ _ _ _ =>
    reads_row_iff
  exact hrow.congr fun run => by rw [List.map_id]

end Plain

end Pattern

end WorkbookPlan.Text
