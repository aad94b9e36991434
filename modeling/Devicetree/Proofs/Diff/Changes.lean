-- SUMMARY: The context of a diff leaves its changes alone; which of them are counted.
import Devicetree.Proofs.Diff.Patches

/-!
# Changes

Spans are cut down to a context and put into groups. Whatever the context is, a negative one
included, the spans where both sides differ come through whole and in order, for only equal spans
are ever cut, doubled or left out. The lines of a diff that stand behind a plus or a minus are
therefore those of the alignment, which knows of no context.

Changes are counted by their signs, and a line with three signs of one kind counts as a label. A
line that starts with two minuses of its own is such a line once it is removed, and one with two
pluses once it is added, so these are the changes that go uncounted.
-/

namespace Devicetree

namespace Span

/-! ## Spans that differ -/

/-- The spans where both sides differ. -/
def differing (spans : List Span) : List Span :=
  spans.filter (!·.same)

theorem differing_append (spans more : List Span) :
    differing (spans ++ more) = differing spans ++ differing more :=
  List.filter_append ..

theorem differing_cons_of_same {s : Span} (h : s.same = true) (rest : List Span) :
    differing (s :: rest) = differing rest :=
  List.filter_cons_of_neg (by simp [h])

theorem differing_cons_of_not_same {s : Span} (h : s.same = false) (rest : List Span) :
    differing (s :: rest) = s :: differing rest :=
  List.filter_cons_of_pos (by simp [h])

/-- Cutting the first span leaves those that differ as they are. -/
theorem differing_cutFirst (context : Int) (spans : List Span) :
    differing (cutFirst context spans) = differing spans := by
  cases spans with
  | nil => rfl
  | cons s rest =>
    cases hs : s.same with
    | false => simp [cutFirst, hs]
    | true =>
      have hkept : (s.keepEnd context).same = true := hs
      rw [cutFirst, if_pos hs, differing_cons_of_same hkept, differing_cons_of_same hs]

/-- Cutting the last span leaves those that differ as they are. -/
theorem differing_cutLast (context : Int) (spans : List Span) :
    differing (cutLast context spans) = differing spans := by
  induction spans with
  | nil => rfl
  | cons s rest ih =>
    cases rest with
    | nil =>
      cases hs : s.same with
      | false => simp [cutLast, hs]
      | true =>
        have hkept : (s.keepStart context).same = true := hs
        rw [cutLast, if_pos hs, differing_cons_of_same hkept, differing_cons_of_same hs]
    | cons next rest =>
      have hcons : ∀ spans, differing (s :: spans) = differing [s] ++ differing spans :=
        differing_append [s]
      rw [cutLast, hcons, ih, ← hcons]
      simp

/-- A group that shows nothing has no span that differs. -/
theorem differing_of_showsNothing {group : List Span} (h : showsNothing group = true) :
    differing group = [] := by
  match group with
  | [] => rfl
  | [s] => exact differing_cons_of_same h []
  | _ :: _ :: _ => cases h

/-- Putting spans into groups passes on those that differ, with those of the group in front of
them. -/
theorem differing_groupFrom (context : Int) (group spans : List Span) :
    differing (groupFrom context group spans).flatten = differing group ++ differing spans := by
  induction spans generalizing group with
  | nil =>
    rw [groupFrom]
    split
    case isTrue hnothing => rw [differing_of_showsNothing hnothing]; rfl
    case isFalse => simp [differing]
  | cons s rest ih =>
    rw [groupFrom]
    split
    case isTrue hlong =>
      -- A span that is cut in two is equal, and so is each half.
      have hs : s.same = true := by
        simp only [Bool.and_eq_true] at hlong
        exact hlong.1
      have hstart : (s.keepStart context).same = true := hs
      have hend : (s.keepEnd context).same = true := hs
      rw [List.flatten_cons, differing_append, differing_append, ih, differing_cons_of_same hstart,
        differing_cons_of_same hend, differing_cons_of_same hs]
      simp [differing]
    case isFalse =>
      rw [ih, differing_append, List.append_assoc, ← differing_append, List.singleton_append]

/-- No context adds, drops or changes a span that differs. -/
theorem differing_groups (context : Int) (spans : List Span) :
    differing (groups context spans).flatten = differing spans := by
  rw [groups, differing_groupFrom, differing_cutLast, differing_cutFirst]
  cases spans <;> rfl

end Span

namespace Unified

open Devicetree.Span (differing)

/-! ## Signs -/

/-- A line behind a plus or a minus. -/
def isSigned (l : Line) : Bool :=
  l.head? == some '+' || l.head? == some '-'

/-- The texts of the lines behind a sign. -/
def behind (sign : Char) (ls : List Line) : List Line :=
  ls.filterMap fun l => match l with
    | c :: text => if c = sign then some text else none
    | [] => none

theorem behind_cons (sign c : Char) (text : Text) (ls : List Line) :
    behind sign ((c :: text) :: ls) =
      if c = sign then text :: behind sign ls else behind sign ls := by
  rw [behind, List.filterMap_cons]
  split <;> simp_all [behind]

theorem behind_append (sign : Char) (ls more : List Line) :
    behind sign (ls ++ more) = behind sign ls ++ behind sign more :=
  List.filterMap_append

theorem behind_map (sign : Char) (ls : List Line) : behind sign (ls.map (sign :: ·)) = ls := by
  rw [behind, List.filterMap_map]
  simp

theorem behind_map_of_ne {sign c : Char} (h : c ≠ sign) (ls : List Line) :
    behind sign (ls.map (c :: ·)) = [] := by
  rw [behind, List.filterMap_map]
  simp [h]

/-- Lines without a sign have no say in what stands behind one. -/
theorem behind_filter {sign : Char} (h : sign = '+' ∨ sign = '-') (ls : List Line) :
    behind sign (ls.filter isSigned) = behind sign ls := by
  induction ls with
  | nil => rfl
  | cons l ls ih =>
    cases hl : isSigned l with
    | true => rw [List.filter_cons_of_pos hl, behind, behind, List.filterMap_cons,
        List.filterMap_cons, ← behind, ← behind, ih]
    | false =>
      rw [List.filter_cons_of_neg (by simp [hl]), ih]
      cases l with
      | nil => rfl
      | cons c text =>
        have hc : c ≠ sign := by
          rintro rfl
          rcases h with rfl | rfl <;> simp [isSigned] at hl
        simp [behind, hc]

/-- What counts as a change has a sign. -/
theorem isSigned_of_isChange {l : Line} (h : isChange l = true) : isSigned l = true := by
  unfold isChange at h
  split at h
  · rfl
  · rfl
  · cases h

theorem changeCount_filter (ls : List Line) :
    changeCount (ls.filter isSigned) = changeCount ls := by
  rw [changeCount, List.countP_filter, changeCount]
  refine List.countP_congr fun l _ => ?_
  rw [Bool.and_eq_true, and_iff_left_of_imp isSigned_of_isChange]

/-! ## Changes of an alignment -/

variable (left right : List Line)

/-- The lines of both sides where these differ, behind their signs. -/
def changes : List Line :=
  (differing (Span.ofLists left right)).flatMap (Hunk.spanLines left right)

/-- The lines of the left side where it differs from the right one. -/
def removed : List Line :=
  (differing (Span.ofLists left right)).flatMap fun s => Hunk.slice left s.leftStart s.leftStop

/-- The lines of the right side where it differs from the left one. -/
def added : List Line :=
  (differing (Span.ofLists left right)).flatMap fun s => Hunk.slice right s.rightStart s.rightStop

/-- Of the lines of a span those of one side alone have a sign. -/
theorem filter_spanLines (s : Span) :
    (Hunk.spanLines left right s).filter isSigned =
      if s.same then [] else Hunk.spanLines left right s := by
  have hspace : isSigned ∘ (' ' :: ·) = fun _ : Text => false := rfl
  have hminus : isSigned ∘ ('-' :: ·) = fun _ : Text => true := rfl
  have hplus : isSigned ∘ ('+' :: ·) = fun _ : Text => true := rfl
  rw [Hunk.spanLines]
  split
  · simp [List.filter_map, hspace]
  · simp [List.filter_map, hminus, hplus]

theorem filter_flatMap_spanLines (spans : List Span) :
    (spans.flatMap (Hunk.spanLines left right)).filter isSigned =
      (differing spans).flatMap (Hunk.spanLines left right) := by
  induction spans with
  | nil => rfl
  | cons s rest ih =>
    rw [List.flatMap_cons, List.filter_append, ih, filter_spanLines]
    cases hs : s.same with
    | true => rw [Span.differing_cons_of_same hs, if_pos rfl, List.nil_append]
    | false => rw [Span.differing_cons_of_not_same hs, if_neg (by simp), List.flatMap_cons]

/-- The header of a hunk has no sign, and of its lines those of one side alone have. -/
theorem filter_ofGroup (group : List Span) :
    ((Hunk.ofGroup left right group).header :: (Hunk.ofGroup left right group).lines).filter
        isSigned =
      (differing group).flatMap (Hunk.spanLines left right) := by
  have hheader : isSigned (Hunk.ofGroup left right group).header = false := by
    cases group <;> rfl
  have hlines : (Hunk.ofGroup left right group).lines =
      group.flatMap (Hunk.spanLines left right) := by
    cases group <;> rfl
  rw [List.filter_cons_of_neg (by simp [hheader]), hlines, filter_flatMap_spanLines]

/-- Hunks of any context show the changes of the alignment, and these alone behind a sign. -/
theorem filter_hunks (context : Int) :
    ((hunks context left right).flatMap fun h => h.header :: h.lines).filter isSigned =
      changes left right := by
  have hgroups : ∀ groups : List (List Span),
      (groups.flatMap fun group => (differing group).flatMap (Hunk.spanLines left right)) =
        (differing groups.flatten).flatMap (Hunk.spanLines left right) := by
    intro groups
    induction groups with
    | nil => rfl
    | cons group groups ih =>
      rw [List.flatMap_cons, ih, List.flatten_cons, Span.differing_append, List.flatMap_append]
  rw [hunks, List.flatMap_map, List.filter_flatMap,
    List.flatMap_congr fun group _ => filter_ofGroup left right group, hgroups,
    Span.differing_groups, changes]

/-- Equal sides have no changes. -/
theorem changes_self (ls : List Line) : changes ls ls = [] := by
  have hnone : hunks 0 ls ls = [] := (hunks_eq_nil_iff 0 ls ls).2 rfl
  rw [← filter_hunks ls ls 0, hnone]
  rfl

/-- Behind the signs of differing spans stand the lines of the two sides. -/
theorem behind_spanLines {spans : List Span} (hdiffer : ∀ s ∈ spans, s.same = false) :
    behind '-' (spans.flatMap (Hunk.spanLines left right)) =
        spans.flatMap (fun s => Hunk.slice left s.leftStart s.leftStop) ∧
      behind '+' (spans.flatMap (Hunk.spanLines left right)) =
        spans.flatMap (fun s => Hunk.slice right s.rightStart s.rightStop) := by
  induction spans with
  | nil => exact ⟨rfl, rfl⟩
  | cons s rest ih =>
    obtain ⟨hold, hnew⟩ := ih fun t ht => hdiffer t (by simp [ht])
    have hs : s.same = false := hdiffer s (by simp)
    simp only [List.flatMap_cons, behind_append, hold, hnew, Hunk.spanLines, hs,
      Bool.false_eq_true, if_false, behind_map, behind_map_of_ne (show '-' ≠ '+' by decide),
      behind_map_of_ne (show '+' ≠ '-' by decide), List.append_nil, List.nil_append, and_self]

theorem behind_changes :
    behind '-' (changes left right) = removed left right ∧
      behind '+' (changes left right) = added left right :=
  behind_spanLines left right fun _ hs => by simpa using (List.mem_filter.1 hs).2

/-! ## Counting changes -/

/-- A line starts with a sign twice. -/
def isDoubled (sign : Char) (l : Line) : Bool :=
  l.take 2 == [sign, sign]

/-- Of the lines behind a sign all are counted but those that start with it twice. -/
theorem changeCount_add (ls : List Line) :
    changeCount ls
        + ((behind '-' ls).countP (isDoubled '-') + (behind '+' ls).countP (isDoubled '+')) =
      (behind '-' ls).length + (behind '+' ls).length := by
  induction ls with
  | nil => rfl
  | cons l ls ih =>
    have hcount : changeCount (l :: ls) = changeCount ls + if isChange l then 1 else 0 :=
      List.countP_cons ..
    rw [hcount]
    cases l with
    | nil => exact ih
    | cons c text =>
      rw [behind_cons, behind_cons]
      by_cases hminus : c = '-'
      · subst hminus
        have hchange : isChange ('-' :: text) = !isDoubled '-' text := rfl
        rw [hchange, if_pos rfl, if_neg (show '-' ≠ '+' by decide), List.countP_cons,
          List.length_cons]
        cases isDoubled '-' text <;> simp <;> omega
      · by_cases hplus : c = '+'
        · subst hplus
          have hchange : isChange ('+' :: text) = !isDoubled '+' text := rfl
          rw [hchange, if_neg (show '+' ≠ '-' by decide), if_pos rfl, List.countP_cons,
            List.length_cons]
          cases isDoubled '+' text <;> simp <;> omega
        · have hchange : isChange (c :: text) = false := by
            simp [isChange, hminus, hplus]
          rw [hchange, if_neg hminus, if_neg hplus]
          exact ih

/-- All of them are counted if and only if none is such a line. -/
theorem changeCount_eq_iff (ls : List Line) :
    changeCount ls = (behind '-' ls).length + (behind '+' ls).length ↔
      (∀ l ∈ behind '-' ls, ¬ isDoubled '-' l) ∧ ∀ l ∈ behind '+' ls, ¬ isDoubled '+' l := by
  rw [← List.countP_eq_zero, ← List.countP_eq_zero, ← changeCount_add]
  omega

end Unified

namespace Comparison

/-! ## Changes of a comparison -/

variable (filter : Filter) (context : Int) (left right : Text) (leftLabel rightLabel : String)

/-- A diff without changes may be empty; any other is the labels of both sides and the hunks. -/
theorem diff_cases :
    let c := ofTexts filter context left right leftLabel rightLabel
    let old := Text.rows c.leftText
    let new := Text.rows c.rightText
    c.diff = [] ∧ Unified.changes old new = [] ∨
      c.diff = ("--- ".toList ++ filteredLabel leftLabel)
        :: ("+++ ".toList ++ filteredLabel rightLabel)
        :: (Unified.hunks context old new).flatMap fun h => h.header :: h.lines := by
  intro c old new
  have hdiff : c.diff = if c.leftText = c.rightText then [] else
      Unified.lines (filteredLabel leftLabel) (filteredLabel rightLabel) context old new := rfl
  rw [hdiff, Unified.lines]
  split
  case isTrue heq =>
    have hrows : old = new := congrArg Text.rows heq
    exact .inl ⟨rfl, by rw [hrows, Unified.changes_self]⟩
  case isFalse =>
    cases hhunks : Unified.hunks context old new with
    | nil =>
      -- The sides may differ in what ends their lines alone, and then there is no hunk either.
      refine .inl ⟨rfl, ?_⟩
      rw [← Unified.filter_hunks old new context, hhunks]
      rfl
    | cons h hs => exact .inr rfl

/-- Behind its labels a diff shows the changes of the alignment, and these alone behind a sign. -/
theorem filter_diff :
    let c := ofTexts filter context left right leftLabel rightLabel
    (c.diff.drop 2).filter Unified.isSigned =
      Unified.changes (Text.rows c.leftText) (Text.rows c.rightText) := by
  intro c
  obtain ⟨hdiff, hnone⟩ | hdiff := diff_cases filter context left right leftLabel rightLabel
  · rw [hdiff, hnone]
    rfl
  · rw [hdiff]
    exact Unified.filter_hunks ..

/-- No label of a side is counted. -/
theorem changedLines_ofTexts :
    let c := ofTexts filter context left right leftLabel rightLabel
    c.changedLines =
      Unified.changeCount (Unified.changes (Text.rows c.leftText) (Text.rows c.rightText)) := by
  intro c
  rw [← filter_diff, Unified.changeCount_filter, changedLines]
  obtain ⟨hdiff, -⟩ | hdiff := diff_cases filter context left right leftLabel rightLabel
  · rw [hdiff]
    rfl
  · rw [hdiff]
    rfl

/-- The context decides which common lines a diff shows, and nothing else: whatever two contexts
are, the lines behind a sign are the same behind the labels of both diffs, namely those of the
alignment, and as many of them are counted. -/
theorem changes_of_contexts (filter : Filter) (n m : Int) (left right : Text)
    (leftLabel rightLabel : String) :
    let c := ofTexts filter n left right leftLabel rightLabel
    let d := ofTexts filter m left right leftLabel rightLabel
    (c.diff.drop 2).filter Unified.isSigned = (d.diff.drop 2).filter Unified.isSigned ∧
      (c.diff.drop 2).filter Unified.isSigned =
        Unified.changes (Text.rows c.leftText) (Text.rows c.rightText) ∧
      c.changedLines = d.changedLines := by
  intro c d
  have hc := filter_diff filter n left right leftLabel rightLabel
  have hd := filter_diff filter m left right leftLabel rightLabel
  refine ⟨hc.trans hd.symm, hc, ?_⟩
  rw [changedLines_ofTexts, changedLines_ofTexts]
  rfl

/-- Below zero the spans that are equal end before they start, and a group may show nothing. -/
example :
    (ofTexts {} (-1) "a\nb".toList "a\nc".toList "l" "r").diff.map String.ofList =
      ["--- l (filtered)", "+++ r (filtered)", "@@ -3,-1 +3,-1 @@", "@@ -2,0 +2,0 @@", "-b",
        "+c"] := by
  decide

/-- Behind its signs a diff shows the lines that the alignment removes from the left side and adds
to the right one. Each is counted but for a removed line that starts with two minuses and an added
one that starts with two pluses, which look like labels; the count is right if and only if there
is no such line. -/
theorem changedLines_eq_iff (filter : Filter) (context : Int) (left right : Text)
    (leftLabel rightLabel : String) :
    let c := ofTexts filter context left right leftLabel rightLabel
    let removed := Unified.removed (Text.rows c.leftText) (Text.rows c.rightText)
    let added := Unified.added (Text.rows c.leftText) (Text.rows c.rightText)
    (Unified.behind '-' (c.diff.drop 2) = removed ∧ Unified.behind '+' (c.diff.drop 2) = added) ∧
      c.changedLines
          + (removed.countP (Unified.isDoubled '-') + added.countP (Unified.isDoubled '+')) =
        removed.length + added.length ∧
      (c.changedLines = removed.length + added.length ↔
        (∀ l ∈ removed, ¬ Unified.isDoubled '-' l) ∧ ∀ l ∈ added, ¬ Unified.isDoubled '+' l) := by
  intro c removed added
  let changes := Unified.changes (Text.rows c.leftText) (Text.rows c.rightText)
  obtain ⟨hold, hnew⟩ : Unified.behind '-' changes = removed ∧ Unified.behind '+' changes = added :=
    Unified.behind_changes ..
  have hshown : (c.diff.drop 2).filter Unified.isSigned = changes := filter_diff ..
  have hcount : c.changedLines = Unified.changeCount changes := changedLines_ofTexts ..
  refine ⟨⟨?_, ?_⟩, ?_, ?_⟩
  · rw [← Unified.behind_filter (.inr rfl), hshown, hold]
  · rw [← Unified.behind_filter (.inl rfl), hshown, hnew]
  · rw [hcount, ← hold, ← hnew, Unified.changeCount_add]
  · rw [hcount, ← hold, ← hnew, Unified.changeCount_eq_iff]

/-- A line that starts with two minuses is removed and goes uncounted. -/
theorem changedLines_ne_of_minuses :
    let c := ofTexts {} 3 "--x;".toList "x;".toList "left" "right"
    c.diff.map String.ofList =
        ["--- left (filtered)", "+++ right (filtered)", "@@ -1 +1 @@", "---x;", "+x;"] ∧
      (Unified.removed (Text.rows c.leftText) (Text.rows c.rightText)).length
          + (Unified.added (Text.rows c.leftText) (Text.rows c.rightText)).length = 2 ∧
      c.changedLines = 1 := by
  decide

end Comparison

end Devicetree
