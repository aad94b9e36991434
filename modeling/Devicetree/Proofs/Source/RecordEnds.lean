-- SUMMARY: Where records end; joining lines loses nothing, and joining records changes none.
import Mathlib.Data.List.Chain
import Mathlib.Data.List.Nodup
import Mathlib.Data.List.SplitBy
import Devicetree.Proofs.Source.Records

/-!
# Ends of records

The lines of a source that are not blank are divided into parts, each up to a line at which a
record ends, and a record is the trimmed lines of its part with a space between each two. Where
records end can be told from the lines alone: at a semicolon, at a comma that the next line does
not go on from, and at the last line. Records are lines too. Read as such each of them ends where
it ends: its last character is that of its last line, and the record behind it starts like the
line behind that.
-/

namespace Devicetree

namespace Record

/-! ## Reading from the front -/

/-- Put a piece at the start of the first record, or on its own if there is no record. -/
def startWith (piece : Text) : List Text → List Text
  | [] => [piece]
  | r :: rs => (piece ++ ' ' :: r) :: rs

/-- What has been read of a record stands at the start of it. -/
theorem joinFrom_eq_startWith {current : Text} (h : current ≠ []) (ls : List Line) :
    joinFrom current ls = startWith current (join ls) := by
  induction ls generalizing current with
  | nil => simp [joinFrom, join, startWith, h]
  | cons l ls ih =>
    rw [join, joinFrom, joinFrom]
    by_cases hl : Text.trim l = []
    · simp only [hl, List.isEmpty_nil, if_true]
      exact ih h
    · have hextend : extend current (Text.trim l) = current ++ ' ' :: Text.trim l := by
        simp [extend, h]
      have hfirst : extend [] (Text.trim l) = Text.trim l := rfl
      simp only [List.isEmpty_iff, hl, if_false]
      rw [hextend, hfirst]
      split
      · rfl
      · rw [ih (by simp), ih hl]
        cases join ls <;> simp [startWith]

theorem join_cons_of_blank {l : Line} (h : Text.trim l = []) (ls : List Line) :
    join (l :: ls) = join ls := by
  rw [join, joinFrom]
  simp [h, join]

/-- A line at which a record ends is a record. -/
theorem join_cons_of_endsAt {l : Line} {ls : List Line} (hl : Text.trim l ≠ [])
    (h : endsAt (Text.trim l) ls.head? = true) : join (l :: ls) = Text.trim l :: join ls := by
  rw [join, joinFrom]
  simp only [List.isEmpty_iff, hl, if_false, h, if_true]
  rfl

/-- Any other line starts the first record behind it. -/
theorem join_cons_of_not_endsAt {l : Line} {ls : List Line} (hl : Text.trim l ≠ [])
    (h : ¬ endsAt (Text.trim l) ls.head? = true) :
    join (l :: ls) = startWith (Text.trim l) (join ls) := by
  rw [join, joinFrom]
  simp only [List.isEmpty_iff, hl, if_false, h]
  exact joinFrom_eq_startWith hl ls

/-- Induction along the lines of records: a line is blank, ends its record or starts one. -/
theorem line_induction {motive : List Line → Prop}
    (nil : motive [])
    (blank : ∀ l ls, Text.trim l = [] → motive ls → motive (l :: ls))
    (last : ∀ l ls, Text.trim l ≠ [] → endsAt (Text.trim l) ls.head? = true → motive ls →
      motive (l :: ls))
    (more : ∀ l ls, Text.trim l ≠ [] → ¬ endsAt (Text.trim l) ls.head? = true → motive ls →
      motive (l :: ls))
    (ls : List Line) : motive ls := by
  induction ls with
  | nil => exact nil
  | cons l ls ih =>
    by_cases hl : Text.trim l = []
    · exact blank l ls hl ih
    · by_cases hends : endsAt (Text.trim l) ls.head? = true
      · exact last l ls hl hends ih
      · exact more l ls hl hends ih

/-! ## Terminators -/

theorem goesOnInto_eq_false_iff {next : Line} :
    goesOnInto next = false ↔ '=' ∈ Text.trim next ∧ (Text.trim next).head? ≠ some '"' := by
  simp [goesOnInto, and_comm]

theorem endsAt_iff {text : Text} {next : Option Line} :
    endsAt text next = true ↔
      text.getLast? = some ';' ∨
        text.getLast? = some ',' ∧ ∀ l ∈ next, goesOnInto l = false := by
  unfold endsAt
  split
  case h_1 h => simp [h]
  case h_2 h => cases next <;> simp [h]
  case h_3 hsemi hcomma =>
    have hnone : ¬ text.getLast? = some ';' ∧ ¬ text.getLast? = some ',' := ⟨hsemi, hcomma⟩
    simp [hnone]

/-- Whether a record ends at a text shows in its last character. -/
theorem endsAt_congr {text text' : Text} (h : text.getLast? = text'.getLast?)
    (next : Option Line) : endsAt text next = endsAt text' next := by
  rw [Bool.eq_iff_iff, endsAt_iff, endsAt_iff, h]

/-! ## Records as lines -/

/-- A text that is all there is to it once trimmed, and not empty. -/
def IsTrimmed (t : Text) : Prop :=
  t ≠ [] ∧ Text.trim t = t

theorem isTrimmed_trim {l : Line} (h : Text.trim l ≠ []) : IsTrimmed (Text.trim l) :=
  ⟨h, Text.trim_trim l⟩

theorem IsTrimmed.append {u r : Text} (hu : IsTrimmed u) (hr : IsTrimmed r) :
    IsTrimmed (u ++ ' ' :: r) :=
  ⟨by simp, Text.trim_append_cons hu.1 hu.2 hr.1 hr.2 ' '⟩

theorem isTrimmed_of_mem_join {ls : List Line} : ∀ r ∈ join ls, IsTrimmed r := by
  induction ls using line_induction with
  | nil => simp [join, joinFrom]
  | blank l ls hl ih => rwa [join_cons_of_blank hl]
  | last l ls hl hends ih =>
    rw [join_cons_of_endsAt hl hends]
    simpa [isTrimmed_trim hl] using ih
  | more l ls hl hends ih =>
    rw [join_cons_of_not_endsAt hl hends]
    cases hrecords : join ls with
    | nil => simpa [startWith] using isTrimmed_trim hl
    | cons r rs =>
      rw [hrecords] at ih
      have hr := (isTrimmed_trim hl).append (ih r (by simp))
      simpa [startWith, hr] using fun r' hr' => ih r' (by simp [hr'])

/-- The first record starts with the first line that is not blank. -/
theorem head?_join {l : Line} (hl : Text.trim l ≠ []) (ls : List Line) :
    ∃ w, (join (l :: ls)).head? = some (Text.trim l ++ w) := by
  by_cases hends : endsAt (Text.trim l) ls.head? = true
  · exact ⟨[], by simp [join_cons_of_endsAt hl hends]⟩
  · rw [join_cons_of_not_endsAt hl hends]
    cases join ls with
    | nil => exact ⟨[], by simp [startWith]⟩
    | cons r rs => exact ⟨' ' :: r, rfl⟩

/-- A record with another one behind it ends in front of that, if both are read as lines. -/
def EndsBefore (r s : Text) : Prop :=
  endsAt r (some s) = true

/-- Where a line ends its record in front of the next line, it does so in front of the record
that starts there. -/
theorem endsBefore_of_endsAt {text : Text} {ls : List Line} (h : endsAt text ls.head? = true)
    {s : Text} (hs : (join ls).head? = some s) : EndsBefore text s := by
  rw [EndsBefore, endsAt_iff]
  obtain hsemi | ⟨hcomma, hnext⟩ := endsAt_iff.1 h
  · exact .inl hsemi
  · refine .inr ⟨hcomma, ?_⟩
    rintro _ ⟨rfl⟩
    cases ls with
    | nil => simp [join, joinFrom] at hs
    | cons l ls =>
      -- The next line holds an assignment, so it is not blank and the next record starts with it.
      obtain ⟨hequals, hquote⟩ := goesOnInto_eq_false_iff.1 (hnext l rfl)
      obtain ⟨w, hw⟩ := head?_join (List.ne_nil_of_mem hequals) ls
      have htrimmed := (isTrimmed_of_mem_join s (List.mem_of_mem_head? hs)).2
      rw [goesOnInto_eq_false_iff, htrimmed]
      obtain rfl : Text.trim l ++ w = s := Option.some.inj (hw.symm.trans hs)
      refine ⟨List.mem_append_left w hequals, ?_⟩
      rwa [List.head?_append_of_ne_nil _ (List.ne_nil_of_mem hequals)]

theorem isChain_join (ls : List Line) : (join ls).IsChain EndsBefore := by
  induction ls using line_induction with
  | nil => exact .nil
  | blank l ls hl ih => rwa [join_cons_of_blank hl]
  | last l ls hl hends ih =>
    rw [join_cons_of_endsAt hl hends, List.isChain_cons]
    exact ⟨fun s hs => endsBefore_of_endsAt hends hs, ih⟩
  | more l ls hl hends ih =>
    rw [join_cons_of_not_endsAt hl hends]
    cases hrecords : join ls with
    | nil => exact .singleton _
    | cons r rs =>
      rw [hrecords] at ih
      have hmem : r ∈ join ls := by simp [hrecords]
      have hr : r ≠ [] := (isTrimmed_of_mem_join r hmem).1
      -- A line put in front of a record leaves its end alone, and with it where it may end.
      have hlast : (Text.trim l ++ ' ' :: r).getLast? = r.getLast? := by
        rw [List.getLast?_append_of_ne_nil _ (List.cons_ne_nil _ _),
          List.getLast?_cons_of_ne_nil hr]
      rw [List.isChain_cons] at ih
      rw [startWith, List.isChain_cons]
      refine ⟨fun s hs => ?_, ih.2⟩
      rw [EndsBefore, endsAt_congr hlast]
      exact ih.1 s hs

/-- Trimmed texts that end before each other are records already. -/
theorem join_eq_self {rs : List Text} (htrimmed : ∀ r ∈ rs, IsTrimmed r)
    (hchain : rs.IsChain EndsBefore) : join rs = rs := by
  induction rs with
  | nil => rfl
  | cons r rs ih =>
    obtain ⟨hne, htrim⟩ := htrimmed r (by simp)
    have hr : Text.trim r ≠ [] := htrim.symm ▸ hne
    have hrest := ih (fun s hs => htrimmed s (by simp [hs])) hchain.tail
    cases rs with
    | nil =>
      by_cases hends : endsAt (Text.trim r) ([] : List Line).head? = true
      · rw [join_cons_of_endsAt hr hends, htrim]
        rfl
      · rw [join_cons_of_not_endsAt hr hends, htrim]
        rfl
    | cons s rs =>
      have hends : endsAt (Text.trim r) (s :: rs).head? = true := by
        rw [htrim]
        exact (List.isChain_cons_cons.1 hchain).1
      rw [join_cons_of_endsAt hr hends, hrest, htrim]

/-- Joining records changes none. -/
theorem join_join (ls : List Line) : join (join ls) = join ls :=
  join_eq_self isTrimmed_of_mem_join (isChain_join ls)

/-! ## Divisions -/

/-- The trimmed line with a number; there is none behind the last line. -/
def textAt (ls : List Line) (i : Nat) : Text :=
  Text.trim (ls.getD i [])

/-- A record ends at the line with number `i`: the line is not blank, and it ends in a semicolon,
or in a comma with no line behind it or one that holds an assignment and starts with no quote, or
all lines behind it are blank. -/
def IsEnd (ls : List Line) (i : Nat) : Prop :=
  textAt ls i ≠ [] ∧
    ((textAt ls i).getLast? = some ';' ∨
      (textAt ls i).getLast? = some ',' ∧
        (ls.length ≤ i + 1 ∨ '=' ∈ textAt ls (i + 1) ∧ (textAt ls (i + 1)).head? ≠ some '"') ∨
      ∀ j, i < j → textAt ls j = [])

/-- The numbers of the lines that are not blank, in order. -/
def inked (ls : List Line) : List Nat :=
  (List.range ls.length).filter fun i => textAt ls i ≠ []

/-- The lines that are not blank, divided into parts: each part holds something, and the lines at
which records end are those that come last in a part. -/
structure IsDivision (ls : List Line) (parts : List (List Nat)) : Prop where
  nonempty : ∀ part ∈ parts, part ≠ []
  lines : parts.flatten = inked ls
  ends : ∀ i, (∃ part ∈ parts, part.getLast? = some i) ↔ IsEnd ls i

/-- The trimmed lines of a part with a space between each two. -/
def ofPart (ls : List Line) (part : List Nat) : Text :=
  [' '].intercalate (part.map (textAt ls))

theorem textAt_cons_zero (l : Line) (ls : List Line) : textAt (l :: ls) 0 = Text.trim l := rfl

theorem textAt_cons_succ (l : Line) (ls : List Line) (i : Nat) :
    textAt (l :: ls) (i + 1) = textAt ls i := rfl

theorem textAt_of_length_le {ls : List Line} {i : Nat} (h : ls.length ≤ i) : textAt ls i = [] := by
  rw [textAt, List.getD_eq_getElem?_getD, List.getElem?_eq_none h]
  rfl

theorem mem_inked_iff {ls : List Line} {i : Nat} : i ∈ inked ls ↔ textAt ls i ≠ [] := by
  rw [inked, List.mem_filter, List.mem_range]
  refine ⟨fun h => by simpa using h.2, fun h => ⟨?_, by simpa using h⟩⟩
  by_contra hlength
  exact h (textAt_of_length_le (by omega))

theorem inked_cons (l : Line) (ls : List Line) :
    inked (l :: ls) =
      (if Text.trim l = [] then [] else [0]) ++ (inked ls).map (· + 1) := by
  have htail : ((List.range ls.length).map Nat.succ).filter
      (fun i => textAt (l :: ls) i ≠ []) = (inked ls).map (· + 1) := by
    rw [List.filter_map]
    rfl
  rw [inked, List.length_cons, List.range_succ_eq_map]
  by_cases hl : Text.trim l = []
  · rw [List.filter_cons_of_neg (by simp [textAt_cons_zero, hl]), htail, if_pos hl,
      List.nil_append]
  · rw [List.filter_cons_of_pos (by simp [textAt_cons_zero, hl]), htail, if_neg hl,
      List.singleton_append]

theorem nodup_inked (ls : List Line) : (inked ls).Nodup :=
  List.nodup_range.filter _

/-- The lines that are not blank, in order. -/
theorem map_textAt_inked (ls : List Line) :
    (inked ls).map (textAt ls) = (ls.map Text.trim).filter (· ≠ []) := by
  induction ls with
  | nil => rfl
  | cons l ls ih =>
    have htail : ((inked ls).map (· + 1)).map (textAt (l :: ls)) = (inked ls).map (textAt ls) := by
      rw [List.map_map]
      rfl
    rw [inked_cons, List.map_append, htail, ih, List.map_cons]
    by_cases hl : Text.trim l = []
    · rw [if_pos hl, List.filter_cons_of_neg (by simpa using hl)]
      rfl
    · rw [if_neg hl, List.filter_cons_of_pos (by simpa using hl)]
      rfl

theorem forall_textAt_cons (l : Line) (ls : List Line) (i : Nat) :
    (∀ j, i < j → textAt (l :: ls) j = []) ↔ ∀ j, i ≤ j → textAt ls j = [] := by
  constructor
  · intro h j hj
    exact h (j + 1) (by omega)
  · intro h j hj
    obtain ⟨k, rfl⟩ : ∃ k, j = k + 1 := ⟨j - 1, by omega⟩
    exact h k (by omega)

theorem inked_eq_nil_iff {ls : List Line} : inked ls = [] ↔ ∀ j, 0 ≤ j → textAt ls j = [] := by
  rw [List.eq_nil_iff_forall_not_mem]
  refine forall_congr' fun j => ?_
  rw [mem_inked_iff, not_not, forall_prop_of_true (Nat.zero_le j)]

theorem isEnd_cons_succ (l : Line) (ls : List Line) (i : Nat) :
    IsEnd (l :: ls) (i + 1) ↔ IsEnd ls i := by
  rw [IsEnd, IsEnd, forall_textAt_cons, textAt_cons_succ, textAt_cons_succ, List.length_cons,
    Nat.add_le_add_iff_right]
  rfl

theorem isEnd_cons_zero (l : Line) (ls : List Line) :
    IsEnd (l :: ls) 0 ↔
      Text.trim l ≠ [] ∧ (endsAt (Text.trim l) ls.head? = true ∨ inked ls = []) := by
  have hcomma : (ls.length ≤ 0 ∨ '=' ∈ textAt ls 0 ∧ (textAt ls 0).head? ≠ some '"') ↔
      ∀ next ∈ ls.head?, goesOnInto next = false := by
    cases ls with
    | nil => simp
    | cons next ls => simp [goesOnInto_eq_false_iff, textAt_cons_zero]
  rw [IsEnd, forall_textAt_cons, ← inked_eq_nil_iff, textAt_cons_zero, textAt_cons_succ,
    List.length_cons, Nat.add_le_add_iff_right, hcomma, endsAt_iff, or_assoc]

/-! ## Divisions and records -/

theorem IsDivision.eq_nil_iff {ls : List Line} {parts : List (List Nat)}
    (h : IsDivision ls parts) : parts = [] ↔ inked ls = [] := by
  rw [← h.lines, List.flatten_eq_nil_iff]
  constructor
  · rintro rfl
    simp
  · intro hall
    rw [List.eq_nil_iff_forall_not_mem]
    exact fun part hpart => h.nonempty part hpart (hall part hpart)

/-- Part numbers with a line put in front of them all. -/
def behindLine (parts : List (List Nat)) : List (List Nat) :=
  parts.map (·.map (· + 1))

theorem ne_nil_of_mem_behindLine {parts : List (List Nat)} (h : ∀ part ∈ parts, part ≠ []) :
    ∀ part ∈ behindLine parts, part ≠ [] := by
  intro part hpart
  obtain ⟨part', hpart', rfl⟩ := List.mem_map.1 hpart
  simpa using h part' hpart'

theorem flatten_behindLine (parts : List (List Nat)) :
    (behindLine parts).flatten = parts.flatten.map (· + 1) := by
  rw [behindLine, List.map_flatten]

theorem exists_getLast?_behindLine {parts : List (List Nat)} {i : Nat} :
    (∃ part ∈ behindLine parts, part.getLast? = some i) ↔
      ∃ j, i = j + 1 ∧ ∃ part ∈ parts, part.getLast? = some j := by
  simp only [behindLine, List.mem_map, exists_exists_and_eq_and, List.getLast?_map,
    Option.map_eq_some_iff]
  constructor
  · rintro ⟨part, hpart, j, hj, rfl⟩
    exact ⟨j, rfl, part, hpart, hj⟩
  · rintro ⟨j, rfl, part, hpart, hj⟩
    exact ⟨part, hpart, j, hj, rfl⟩

theorem IsDivision.blank {l : Line} {ls : List Line} {parts : List (List Nat)}
    (hl : Text.trim l = []) (h : IsDivision ls parts) :
    IsDivision (l :: ls) (behindLine parts) where
  nonempty := ne_nil_of_mem_behindLine h.nonempty
  lines := by rw [flatten_behindLine, h.lines, inked_cons, if_pos hl, List.nil_append]
  ends i := by
    rw [exists_getLast?_behindLine]
    cases i with
    | zero => simp [isEnd_cons_zero, hl]
    | succ i => simp [isEnd_cons_succ, ← h.ends]

theorem IsDivision.last {l : Line} {ls : List Line} {parts : List (List Nat)}
    (hl : Text.trim l ≠ []) (hends : endsAt (Text.trim l) ls.head? = true)
    (h : IsDivision ls parts) : IsDivision (l :: ls) ([0] :: behindLine parts) where
  nonempty := by simpa using ne_nil_of_mem_behindLine h.nonempty
  lines := by
    rw [List.flatten_cons, flatten_behindLine, h.lines, inked_cons, if_neg hl]
  ends i := by
    rw [List.exists_mem_cons_iff, exists_getLast?_behindLine]
    cases i with
    | zero => simp [isEnd_cons_zero, hl, hends]
    | succ i => simp [isEnd_cons_succ, ← h.ends]

/-- Put the first line into the first part, or into one of its own if there is no part. -/
def intoFirst : List (List Nat) → List (List Nat)
  | [] => [[0]]
  | part :: parts => (0 :: part) :: parts

theorem flatten_intoFirst (parts : List (List Nat)) :
    (intoFirst parts).flatten = 0 :: parts.flatten := by
  cases parts <;> rfl

theorem ne_nil_of_mem_intoFirst {parts : List (List Nat)} (h : ∀ part ∈ parts, part ≠ []) :
    ∀ part ∈ intoFirst parts, part ≠ [] := by
  cases parts with
  | nil => simp [intoFirst]
  | cons part parts => simpa [intoFirst] using fun p hp => h p (by simp [hp])

/-- The first line comes last in a part only if it is alone. -/
theorem exists_getLast?_intoFirst {parts : List (List Nat)} (h : ∀ part ∈ parts, part ≠ [])
    {i : Nat} :
    (∃ part ∈ intoFirst parts, part.getLast? = some i) ↔
      (∃ part ∈ parts, part.getLast? = some i) ∨ parts = [] ∧ i = 0 := by
  cases parts with
  | nil => simp [intoFirst, eq_comm]
  | cons part parts =>
    have hlast : (0 :: part).getLast? = part.getLast? :=
      List.getLast?_cons_of_ne_nil (h part (by simp))
    simp [intoFirst, hlast]

theorem IsDivision.more {l : Line} {ls : List Line} {parts : List (List Nat)}
    (hl : Text.trim l ≠ []) (hends : ¬ endsAt (Text.trim l) ls.head? = true)
    (h : IsDivision ls parts) : IsDivision (l :: ls) (intoFirst (behindLine parts)) where
  nonempty := ne_nil_of_mem_intoFirst (ne_nil_of_mem_behindLine h.nonempty)
  lines := by
    rw [flatten_intoFirst, flatten_behindLine, h.lines, inked_cons, if_neg hl,
      List.singleton_append]
  ends i := by
    have hnone : behindLine parts = [] ↔ inked ls = [] := by
      rw [← h.eq_nil_iff, behindLine, List.map_eq_nil_iff]
    rw [exists_getLast?_intoFirst (ne_nil_of_mem_behindLine h.nonempty),
      exists_getLast?_behindLine, hnone]
    cases i with
    | zero => simp [isEnd_cons_zero, hl, hends]
    | succ i => simp [isEnd_cons_succ, ← h.ends]

/-! ## Joining by parts -/

theorem ofPart_singleton (ls : List Line) (i : Nat) : ofPart ls [i] = textAt ls i :=
  List.intercalate_singleton

theorem ofPart_behindLine (l : Line) (ls : List Line) (parts : List (List Nat)) :
    (behindLine parts).map (ofPart (l :: ls)) = parts.map (ofPart ls) := by
  have hpart : ∀ part : List Nat,
      ofPart (l :: ls) (part.map (· + 1)) = ofPart ls part := by
    intro part
    rw [ofPart, List.map_map]
    rfl
  rw [behindLine, List.map_map]
  exact List.map_congr_left fun part _ => hpart part

theorem ofPart_intoFirst (l : Line) (ls : List Line) {parts : List (List Nat)}
    (h : ∀ part ∈ parts, part ≠ []) :
    (intoFirst parts).map (ofPart (l :: ls)) =
      startWith (Text.trim l) (parts.map (ofPart (l :: ls))) := by
  cases parts with
  | nil => exact congrArg (fun r => [r]) (ofPart_singleton (l :: ls) 0)
  | cons part parts =>
    have hfirst : ofPart (l :: ls) (0 :: part) = Text.trim l ++ ' ' :: ofPart (l :: ls) part := by
      rw [ofPart, List.map_cons, List.intercalate_cons_of_ne_nil (by simp [h part]),
        textAt_cons_zero, List.append_assoc]
      rfl
    rw [intoFirst, List.map_cons, hfirst]
    rfl

/-- Lines have a division, and each part of it is joined into a record. -/
theorem exists_isDivision (ls : List Line) :
    ∃ parts, IsDivision ls parts ∧ join ls = parts.map (ofPart ls) := by
  induction ls using line_induction with
  | nil =>
    have hblank : ∀ i, textAt [] i = [] := fun i => textAt_of_length_le (Nat.zero_le i)
    exact ⟨[], ⟨by simp, rfl, fun i => by simp [IsEnd, hblank]⟩, rfl⟩
  | blank l ls hl ih =>
    obtain ⟨parts, hparts, hjoin⟩ := ih
    refine ⟨behindLine parts, hparts.blank hl, ?_⟩
    rw [join_cons_of_blank hl, hjoin, ofPart_behindLine]
  | last l ls hl hends ih =>
    obtain ⟨parts, hparts, hjoin⟩ := ih
    refine ⟨[0] :: behindLine parts, hparts.last hl hends, ?_⟩
    rw [join_cons_of_endsAt hl hends, hjoin, List.map_cons, ofPart_behindLine, ofPart_singleton,
      textAt_cons_zero]
  | more l ls hl hends ih =>
    obtain ⟨parts, hparts, hjoin⟩ := ih
    refine ⟨intoFirst (behindLine parts), hparts.more hl hends, ?_⟩
    rw [join_cons_of_not_endsAt hl hends, hjoin,
      ofPart_intoFirst l ls (ne_nil_of_mem_behindLine hparts.nonempty), ofPart_behindLine]

/-- In a part no line but the last one ends a record: each line stands in one place only. -/
theorem IsDivision.not_isEnd {ls : List Line} {parts : List (List Nat)} (h : IsDivision ls parts)
    {i j : Nat} {front back : List Nat} (hpart : front ++ i :: j :: back ∈ parts) :
    ¬ IsEnd ls i := by
  intro hend
  obtain ⟨part, hmem, hlast⟩ := (h.ends i).2 hend
  have hnodup : parts.flatten.Nodup := h.lines ▸ nodup_inked ls
  obtain ⟨hparts, hdisjoint⟩ := List.nodup_flatten.1 hnodup
  have hsymm : Std.Symm (List.Disjoint (α := Nat)) := ⟨fun _ _ hd _ hi hj => hd hj hi⟩
  have hsame : part = front ++ i :: j :: back := by
    by_contra hne
    exact hdisjoint.forall hmem hpart hne (List.mem_of_mem_getLast? hlast) (by simp)
  rw [hsame, List.getLast?_append_of_ne_nil _ (by simp), List.getLast?_cons_of_ne_nil (by simp)]
    at hlast
  have hi : i ∈ j :: back := List.mem_of_mem_getLast? hlast
  have hback := (List.nodup_append.1 (hparts _ hpart)).2.1
  exact (List.nodup_cons.1 hback).1 hi

open Classical in
/-- The lines of a division are split right behind those at which records end. -/
theorem IsDivision.eq_splitBy {ls : List Line} {parts : List (List Nat)}
    (h : IsDivision ls parts) : (inked ls).splitBy (fun i _ => decide (¬ IsEnd ls i)) = parts := by
  rw [List.splitBy_eq_iff]
  refine ⟨h.lines.symm, fun hnil => h.nonempty [] hnil rfl, fun part hpart => ?_, ?_⟩
  · rw [List.isChain_iff_forall_rel_of_append_cons_cons]
    rintro i j front back rfl
    simpa using h.not_isEnd hpart
  · refine (List.pairwise_of_forall_mem_list fun part hpart next hnext => ?_).isChain
    have hne := h.nonempty part hpart
    refine ⟨hne, h.nonempty next hnext, ?_⟩
    simpa using (h.ends _).1 ⟨part, hpart, List.getLast?_eq_some_getLast hne⟩

/-- Lines have one division only. -/
theorem IsDivision.unique {ls : List Line} {parts others : List (List Nat)}
    (h : IsDivision ls parts) (hothers : IsDivision ls others) : others = parts := by
  rw [← h.eq_splitBy, ← hothers.eq_splitBy]

/-! ## What records hold -/

theorem intercalate_append (sep : Text) {ts us : List Text} (hts : ts ≠ []) (hus : us ≠ []) :
    sep.intercalate (ts ++ us) = sep.intercalate ts ++ sep ++ sep.intercalate us := by
  induction ts with
  | nil => exact absurd rfl hts
  | cons t ts ih =>
    cases ts with
    | nil =>
      rw [List.singleton_append, List.intercalate_cons_of_ne_nil hus, List.intercalate_singleton]
    | cons t' ts =>
      have hrest := ih (List.cons_ne_nil _ _)
      rw [List.cons_append] at hrest
      rw [List.cons_append, List.cons_append, List.intercalate_cons_cons, hrest,
        List.intercalate_cons_cons]
      simp only [List.append_assoc]

/-- Texts put together part by part are put together. -/
theorem intercalate_flatten (sep : Text) {groups : List (List Text)} (h : ∀ g ∈ groups, g ≠ []) :
    sep.intercalate (groups.map sep.intercalate) = sep.intercalate groups.flatten := by
  induction groups with
  | nil => rfl
  | cons g groups ih =>
    have hrest := ih fun g' hg' => h g' (by simp [hg'])
    cases groups with
    | nil => simp
    | cons g' groups =>
      have hne : (g' :: groups).flatten ≠ [] := by simp [h g' (by simp)]
      have hsplit : (g :: g' :: groups).flatten = g ++ (g' :: groups).flatten := rfl
      rw [List.map_cons, List.intercalate_cons_of_ne_nil (by simp), hrest, hsplit,
        intercalate_append sep (h g (by simp)) hne]

/-- Records put together are the lines put together that are not blank. -/
theorem intercalate_join (ls : List Line) :
    [' '].intercalate (join ls) = [' '].intercalate ((ls.map Text.trim).filter (· ≠ [])) := by
  obtain ⟨parts, hparts, hjoin⟩ := exists_isDivision ls
  have hmap : parts.map (ofPart ls) =
      (parts.map (·.map (textAt ls))).map [' '].intercalate := by
    rw [List.map_map]
    rfl
  have hne : ∀ g ∈ parts.map (·.map (textAt ls)), g ≠ [] := by
    intro g hg
    obtain ⟨part, hpart, rfl⟩ := List.mem_map.1 hg
    simpa using hparts.nonempty part hpart
  rw [hjoin, hmap, intercalate_flatten _ hne, ← List.map_flatten, hparts.lines, map_textAt_inked]

/-- In a chain each element but the last one has one behind it. -/
theorem exists_of_mem_dropLast {α : Type} {R : α → α → Prop} {xs : List α} (h : xs.IsChain R)
    {x : α} (hx : x ∈ xs.dropLast) : ∃ y, R x y := by
  induction h with
  | nil => cases hx
  | singleton => cases hx
  | @cons_cons a b xs hab _ ih =>
    rw [List.dropLast_cons_of_ne_nil (List.cons_ne_nil _ _)] at hx
    obtain rfl | hx := List.mem_cons.1 hx
    · exact ⟨b, hab⟩
    · exact ih hx

/-- A record with another one behind it ends in a semicolon or a comma. -/
theorem getLast?_of_mem_dropLast {ls : List Line} {r : Text} (h : r ∈ (join ls).dropLast) :
    r.getLast? = some ';' ∨ r.getLast? = some ',' := by
  obtain ⟨s, hs⟩ := exists_of_mem_dropLast (isChain_join ls) h
  exact (endsAt_iff.1 hs).imp_right And.left

/-- Joining lines into records loses nothing and cuts at terminators only: put together with
spaces, the records are the lines that are not blank; each record but the last ends in a semicolon
or a comma; the lines have one division into parts that end where records end, and a record is
the lines of its part. Joining again changes nothing. -/
theorem join_faithful (ls : List Line) :
    [' '].intercalate (join ls) = [' '].intercalate ((ls.map Text.trim).filter (· ≠ [])) ∧
      (∀ r ∈ (join ls).dropLast, r.getLast? = some ';' ∨ r.getLast? = some ',') ∧
      (∃ parts, (∀ others, IsDivision ls others ↔ others = parts) ∧
        join ls = parts.map (ofPart ls)) ∧
      join (join ls) = join ls := by
  obtain ⟨parts, hparts, hjoin⟩ := exists_isDivision ls
  refine ⟨intercalate_join ls, fun r hr => getLast?_of_mem_dropLast hr, ⟨parts, ?_, hjoin⟩,
    join_join ls⟩
  exact fun others => ⟨fun hothers => hparts.unique hothers, fun heq => heq ▸ hparts⟩

/-- A record goes on from a comma over a blank line, for that holds no assignment. -/
example : (join (["a = <1>,", "", "b = <2>,", "c = \"d\",", "\"e\""].map String.toList)).map
    String.ofList = ["a = <1>, b = <2>,", "c = \"d\", \"e\""] := by
  decide

end Record

end Devicetree
