-- SUMMARY: A unified diff is a patch: it turns the lines of one side into those of the other.
import Devicetree.Comparison
import Devicetree.Decimal.Reading
import Devicetree.Proofs.Diff.Hunks
import Mathlib.Data.List.Forall2

/-!
# Patches

A reader who knows nothing of alignments applies a diff line by line: the header of a hunk says
where it starts, up to which lines are copied; the lines of the hunk are then copied, passed over
or put in by their signs. Applied to the lines of the left side, the diff of two texts gives the
lines of the right side. It is empty for equal lines only, and its hunks stand in order, apart
from each other, with equal lines around them.
-/

namespace Devicetree

/-- Where a hunk stands on both sides. -/
structure Site where
  leftStart : Nat
  leftStop : Nat
  rightStart : Nat
  rightStop : Nat

namespace Hunk

/-! ## Sites -/

/-- The lines of one side in a hunk: the common ones, and those behind the sign of the side. -/
def sideLines (sign : Char) (ls : List Line) : List Line :=
  ls.filterMap fun l => match l with
    | c :: text => if c = ' ' ∨ c = sign then some text else none
    | [] => none

/-- A hunk stands at a site: the header states both ranges, every line has a sign, and the lines
    of either side are those in its range. -/
structure StandsAt (left right : List Line) (h : Hunk) (p : Site) : Prop where
  header : h.header = "@@ -".toList ++ range p.leftStart p.leftStop
    ++ " +".toList ++ range p.rightStart p.rightStop ++ " @@".toList
  left_le : p.leftStart ≤ p.leftStop ∧ p.leftStop ≤ left.length
  right_le : p.rightStart ≤ p.rightStop ∧ p.rightStop ≤ right.length
  signed : ∀ l ∈ h.lines, ∃ text, l = ' ' :: text ∨ l = '-' :: text ∨ l = '+' :: text
  old : sideLines '-' h.lines = slice left p.leftStart p.leftStop
  new : sideLines '+' h.lines = slice right p.rightStart p.rightStop

theorem sideLines_append (sign : Char) (ls more : List Line) :
    sideLines sign (ls ++ more) = sideLines sign ls ++ sideLines sign more :=
  List.filterMap_append

/-- Lines behind a sign of the side. -/
theorem sideLines_map {sign c : Char} (h : c = ' ' ∨ c = sign) (ls : List Line) :
    sideLines sign (ls.map (c :: ·)) = ls := by
  rw [sideLines, List.filterMap_map]
  simp [h]

/-- Lines behind another sign. -/
theorem sideLines_map_of_ne {sign c : Char} (h : ¬ (c = ' ' ∨ c = sign)) (ls : List Line) :
    sideLines sign (ls.map (c :: ·)) = [] := by
  rw [sideLines, List.filterMap_map]
  simp [h]

variable {left right : List Line}

/-- The lines of spans that cover both sides are the lines of both sides. -/
theorem sideLines_spans {i j k l : Nat} {spans : List Span}
    (h : Span.Covers left right i j spans k l) :
    sideLines '-' (spans.flatMap (spanLines left right)) = slice left (i : Int) (k : Int) ∧
      sideLines '+' (spans.flatMap (spanLines left right)) = slice right (j : Int) (l : Int) ∧
      ∀ line ∈ spans.flatMap (spanLines left right),
        ∃ text, line = ' ' :: text ∨ line = '-' :: text ∨ line = '+' :: text := by
  induction h with
  | nil => simp [sideLines]
  | @same i j size k l rest heq hrest ih =>
    obtain ⟨hold, hnew, hsigned⟩ := ih
    obtain ⟨hik, hjl, -, -⟩ := hrest.le
    have hspan : spanLines left right
        ⟨true, (i : Int), ((i + size : Nat) : Int), (j : Int), ((j + size : Nat) : Int)⟩ =
        (slice left (i : Int) ((i + size : Nat) : Int)).map (' ' :: ·) := rfl
    rw [List.flatMap_cons, hspan, sideLines_append, sideLines_append, hold, hnew,
      sideLines_map (.inl rfl), sideLines_map (.inl rfl), slice_append left (by omega) hik]
    refine ⟨rfl, ?_, ?_⟩
    · rw [heq, slice_append right (by omega) hjl]
    · intro line hline
      obtain hline | hline := List.mem_append.1 hline
      · obtain ⟨text, -, rfl⟩ := List.mem_map.1 hline
        exact ⟨text, .inl rfl⟩
      · exact hsigned line hline
  | @differ i j i' j' k l rest hi hj hrest ih =>
    obtain ⟨hold, hnew, hsigned⟩ := ih
    obtain ⟨hik, hjl, -, -⟩ := hrest.le
    have hspan : spanLines left right ⟨false, (i : Int), (i' : Int), (j : Int), (j' : Int)⟩ =
        (slice left (i : Int) (i' : Int)).map ('-' :: ·)
          ++ (slice right (j : Int) (j' : Int)).map ('+' :: ·) := rfl
    rw [List.flatMap_cons, hspan]
    simp only [sideLines_append, hold, hnew]
    rw [sideLines_map (.inr rfl), sideLines_map_of_ne (by decide), sideLines_map (.inr rfl),
      sideLines_map_of_ne (by decide), List.append_nil, List.nil_append, slice_append left hi hik,
      slice_append right hj hjl]
    refine ⟨rfl, rfl, ?_⟩
    intro line hline
    rw [List.append_assoc] at hline
    obtain hline | hline := List.mem_append.1 hline
    · obtain ⟨text, -, rfl⟩ := List.mem_map.1 hline
      exact ⟨text, .inr (.inl rfl)⟩
    · obtain hline | hline := List.mem_append.1 hline
      · obtain ⟨text, -, rfl⟩ := List.mem_map.1 hline
        exact ⟨text, .inr (.inr rfl)⟩
      · exact hsigned line hline

/-- The header of a group states what the group covers. -/
theorem headerOf_eq {i j k l : Nat} {first : Span} {rest : List Span}
    (h : Span.Covers left right i j (first :: rest) k l) :
    headerOf first ((first :: rest).getLast (by simp)) =
      "@@ -".toList ++ range i k ++ " +".toList ++ range j l ++ " @@".toList := by
  obtain ⟨hleft, hright⟩ := h.start
  obtain ⟨hleft', hright'⟩ := h.stop (List.cons_ne_nil _ _)
  have hheader : ∀ last : Span, headerOf first last = "@@ -".toList
      ++ range first.leftStart last.leftStop ++ " +".toList
      ++ range first.rightStart last.rightStop ++ " @@".toList := fun _ => rfl
  rw [hheader, hleft, hright, hleft', hright']

/-- The hunk of a group stands where the group covers both sides. -/
theorem standsAt_ofGroup {i j k l : Nat} {group : List Span} (hne : group ≠ [])
    (h : Span.Covers left right i j group k l) :
    (ofGroup left right group).StandsAt left right ⟨i, k, j, l⟩ := by
  cases group with
  | nil => exact absurd rfl hne
  | cons first rest =>
    obtain ⟨hik, hjl, hk, hl⟩ := h.le
    obtain ⟨hold, hnew, hsigned⟩ := sideLines_spans h
    exact ⟨headerOf_eq h, ⟨hik, hk⟩, ⟨hjl, hl⟩, hsigned, hold, hnew⟩

end Hunk

namespace Unified

/-! ## Applying a diff -/

/-- Where a range starts; an empty one is behind the line that it names. -/
def rangeStart (shown : Text) : Nat :=
  let first := Decimal.natural (shown.takeWhile Char.isDigit)
  match shown.dropWhile Char.isDigit with
  | ',' :: size =>
    if Decimal.natural (size.takeWhile Char.isDigit) = 0 then first else first - 1
  | _ => first - 1

/-- Where a header says that its hunk starts on the left. -/
def statedStart (header : Line) : Nat :=
  rangeStart (header.drop 4)

/-- Apply hunks to the lines from line `i` on: copy the lines in front of a hunk and those that
    it has in common, pass over those that it removes, and put in those that it adds. -/
def patch : (i : Nat) → (old diff : List Line) → Option (List Line)
  | _, old, [] => some old
  | i, old, line :: diff =>
    match line with
    | '@' :: _ =>
      let copied := statedStart line - i
      (patch (i + copied) (old.drop copied) diff).map (old.take copied ++ ·)
    | ' ' :: text =>
      match old with
      | [] => none
      | l :: old => if l = text then (patch (i + 1) old diff).map (l :: ·) else none
    | '-' :: text =>
      match old with
      | [] => none
      | l :: old => if l = text then patch (i + 1) old diff else none
    | '+' :: text => (patch i old diff).map (text :: ·)
    | _ => none

/-- Lines in common are copied. -/
theorem patch_common (i : Nat) (ls old diff : List Line) :
    patch i (ls ++ old) (ls.map (' ' :: ·) ++ diff) =
      (patch (i + ls.length) old diff).map (ls ++ ·) := by
  induction ls generalizing i with
  | nil => simp
  | cons l ls ih =>
    rw [List.map_cons, List.cons_append, List.cons_append, patch]
    rw [if_pos rfl, ih, Option.map_map, List.length_cons, Nat.add_assoc, Nat.add_comm 1]
    rfl

/-- Lines that are removed are passed over. -/
theorem patch_removed (i : Nat) (ls old diff : List Line) :
    patch i (ls ++ old) (ls.map ('-' :: ·) ++ diff) = patch (i + ls.length) old diff := by
  induction ls generalizing i with
  | nil => rfl
  | cons l ls ih =>
    rw [List.map_cons, List.cons_append, List.cons_append, patch]
    rw [if_pos rfl, ih, List.length_cons, Nat.add_assoc, Nat.add_comm 1]

/-- Lines that are added are put in. -/
theorem patch_added (i : Nat) (ls old diff : List Line) :
    patch i old (ls.map ('+' :: ·) ++ diff) = (patch i old diff).map (ls ++ ·) := by
  induction ls with
  | nil => simp
  | cons l ls ih =>
    rw [List.map_cons, List.cons_append, patch]
    rw [ih, Option.map_map]
    rfl

/-! ## Reading headers -/

theorem natural_toDigits (n : Nat) : Decimal.natural (Nat.toDigits 10 n) = n := by
  have hread : Nat.ofDigitChars 10 (Nat.toDigits 10 n) 0 = n := Nat.ofDigitChars_ten_toDigits
  rwa [Nat.ofDigitChars_eq_foldl] at hread

theorem toList_toString (n : Nat) : (toString (n : Int)).toList = Nat.toDigits 10 n := by
  have hrepr : toString (n : Int) = n.repr := rfl
  rw [hrepr, Nat.repr_eq_ofList_toDigits, String.toList_ofList]

/-- A number ends in front of a character that is no digit. -/
theorem takeWhile_toDigits (n : Nat) {c : Char} (hc : c.isDigit = false) (rest : Text) :
    (Nat.toDigits 10 n ++ c :: rest).takeWhile Char.isDigit = Nat.toDigits 10 n ∧
      (Nat.toDigits 10 n ++ c :: rest).dropWhile Char.isDigit = c :: rest := by
  have hdigits : ∀ d ∈ Nat.toDigits 10 n, d.isDigit = true :=
    fun d hd => Nat.isDigit_of_mem_toDigits (by decide) (by decide) hd
  rw [List.takeWhile_append_of_pos hdigits, List.dropWhile_append_of_pos hdigits]
  simp [hc]

theorem rangeStart_number (n : Nat) (rest : Text) :
    rangeStart (Nat.toDigits 10 n ++ ' ' :: rest) = n - 1 := by
  obtain ⟨hnumber, hbehind⟩ := takeWhile_toDigits n (c := ' ') (by decide) rest
  rw [rangeStart, hnumber, hbehind, natural_toDigits]
  rfl

theorem rangeStart_pair (n size : Nat) (rest : Text) :
    rangeStart (Nat.toDigits 10 n ++ ',' :: (Nat.toDigits 10 size ++ ' ' :: rest)) =
      if size = 0 then n else n - 1 := by
  obtain ⟨hnumber, hbehind⟩ := takeWhile_toDigits n (c := ',') (by decide)
    (Nat.toDigits 10 size ++ ' ' :: rest)
  obtain ⟨hsize, -⟩ := takeWhile_toDigits size (c := ' ') (by decide) rest
  rw [rangeStart, hnumber, hbehind, natural_toDigits]
  simp only [hsize, natural_toDigits]

/-- The start of a range is read as it is written. -/
theorem rangeStart_range {i k : Nat} (hik : i ≤ k) (rest : Text) :
    rangeStart (Hunk.range i k ++ ' ' :: rest) = i := by
  have hlength : (k : Int) - i = ((k - i : Nat) : Int) := by omega
  have hfirst : (i : Int) + 1 = ((i + 1 : Nat) : Int) := by omega
  rw [Hunk.range, hlength, hfirst]
  split
  case isTrue hone => rw [toList_toString, rangeStart_number, Nat.add_sub_cancel]
  case isFalse hone =>
    split
    case isTrue hempty =>
      rw [List.append_assoc, List.cons_append, toList_toString, toList_toString, rangeStart_pair,
        if_pos (by omega)]
    case isFalse hempty =>
      rw [List.append_assoc, List.cons_append, toList_toString, toList_toString, rangeStart_pair,
        if_neg (by omega), Nat.add_sub_cancel]

/-! ## Diffs are patches -/

variable {left right : List Line}

/-- The lines of spans turn what they cover on the left into what they cover on the right. -/
theorem patch_spans {i j k l : Nat} {spans : List Span} (h : Span.Covers left right i j spans k l)
    {diff new : List Line} (hdiff : patch k (left.drop k) diff = some new) :
    patch i (left.drop i) (spans.flatMap (Hunk.spanLines left right) ++ diff) =
      some (Hunk.slice right (j : Int) (l : Int) ++ new) := by
  induction h with
  | nil => simpa using hdiff
  | @same i j size k l rest heq hrest ih =>
    obtain ⟨hik, hjl, hk, hl⟩ := hrest.le
    have hspan : Hunk.spanLines left right
        ⟨true, (i : Int), ((i + size : Nat) : Int), (j : Int), ((j + size : Nat) : Int)⟩ =
        (Hunk.slice left (i : Int) ((i + size : Nat) : Int)).map (' ' :: ·) := rfl
    have hleft := Hunk.slice_append_drop left (i := i) (j := i + size) (by omega) (by omega)
    have hlength := Hunk.length_slice left (i := i) (j := i + size) (by omega) (by omega)
    rw [List.flatMap_cons, hspan, List.append_assoc, ← hleft, patch_common, hlength, ih hdiff,
      Option.map_some, ← List.append_assoc, heq, Hunk.slice_append right (by omega) hjl]
  | @differ i j i' j' k l rest hi hj hrest ih =>
    obtain ⟨hik, hjl, hk, hl⟩ := hrest.le
    have hspan : Hunk.spanLines left right ⟨false, (i : Int), (i' : Int), (j : Int), (j' : Int)⟩ =
        (Hunk.slice left (i : Int) (i' : Int)).map ('-' :: ·)
          ++ (Hunk.slice right (j : Int) (j' : Int)).map ('+' :: ·) := rfl
    have hleft := Hunk.slice_append_drop left hi (by omega)
    have hlength := Hunk.length_slice left hi (by omega)
    rw [List.flatMap_cons, hspan, List.append_assoc, List.append_assoc, ← hleft, patch_removed,
      hlength, patch_added, ih hdiff, Option.map_some, ← List.append_assoc,
      Hunk.slice_append right hj hjl]

/-- A header copies the lines in front of its hunk. -/
theorem patch_header {h : Hunk} {p : Site} (hstands : h.StandsAt left right p) (i : Nat)
    (old diff : List Line) :
    patch i old (h.header :: diff) =
      (patch (i + (p.leftStart - i)) (old.drop (p.leftStart - i)) diff).map
        (old.take (p.leftStart - i) ++ ·) := by
  have hheader : h.header = "@@ -".toList ++ (Hunk.range p.leftStart p.leftStop ++ ' ' ::
      ('+' :: Hunk.range p.rightStart p.rightStop ++ " @@".toList)) := by
    rw [hstands.header]
    simp only [List.append_assoc]
    rfl
  have hstart : statedStart h.header = p.leftStart := by
    rw [hheader, statedStart]
    exact rangeStart_range hstands.left_le.1 _
  obtain ⟨t, ht⟩ : ∃ t, h.header = '@' :: t := ⟨_, hheader⟩
  rw [ht] at hstart ⊢
  rw [patch, hstart]

/-- The hunks of groups turn the lines of the left side into those of the right. -/
theorem patch_grouped {first : Bool} {i j : Nat} {groups : List (List Span)}
    (h : Span.Grouped left right first i j groups) :
    patch i (left.drop i)
        ((groups.map (Hunk.ofGroup left right)).flatMap fun hunk => hunk.header :: hunk.lines) =
      some (right.drop j) := by
  induction h with
  | nil heq =>
    rw [Hunk.slice_length, Hunk.slice_length] at heq
    exact congrArg some heq
  | @cons first i j i' j' k l group groups hi hj _ hfront hne hgroup hgroups ih =>
    obtain ⟨hik, hjl, hk, hl⟩ := hgroup.le
    have hstands := Hunk.standsAt_ofGroup hne hgroup
    have hlines : (Hunk.ofGroup left right group).lines =
        group.flatMap (Hunk.spanLines left right) := by
      cases group <;> rfl
    have hcopied : (left.drop i).take (i' - i) = Hunk.slice left (i : Int) (i' : Int) := by
      rw [Hunk.slice_natCast, List.drop_take]
    rw [List.map_cons, List.flatMap_cons, List.cons_append, patch_header hstands, hlines,
      List.drop_drop, Nat.add_sub_cancel' hi, patch_spans hgroup ih, Option.map_some, hcopied,
      hfront, Hunk.slice_append_drop right hjl hl, Hunk.slice_append_drop right hj (by omega)]

/-- Equal lines have no hunk, and only those. -/
theorem hunks_eq_nil_iff (n : Nat) (left right : List Line) :
    hunks n left right = [] ↔ left = right := by
  constructor
  · intro h
    have hgrouped := Span.grouped_groups n left right
    rw [hunks, List.map_eq_nil_iff] at h
    rw [h] at hgrouped
    have hpatch := patch_grouped hgrouped
    exact Option.some.inj hpatch
  · rintro rfl
    rw [hunks, List.map_eq_nil_iff]
    cases hlines : left with
    | nil => exact Span.groups_same n 1
    | cons l ls =>
      rw [← hlines, Span.ofLists, Matching.runs_self (by simp [hlines]), Span.behind_cons,
        if_neg (by simp), Span.behind, if_neg (by simp)]
      exact Span.groups_same n left.length

/-! ## Sites of hunks -/

/-- What stands between two sites is equal on both sides. -/
def AlikeBetween (left right : List Line) (p q : Site) : Prop :=
  Hunk.slice left p.leftStop q.leftStart = Hunk.slice right p.rightStop q.rightStart

/-- A site is behind another one on both sides, with something between them. -/
def Apart (p q : Site) : Prop :=
  p.leftStop < q.leftStart ∧ p.rightStop < q.rightStart

/-- The hunks of two sides: each stands at its site, the sites are in order and apart from each
    other, and in front of the first, between any two and behind the last the lines of both sides
    are equal. -/
structure Sites (left right : List Line) (hs : List Hunk) (sites : List Site) : Prop where
  stand : List.Forall₂ (Hunk.StandsAt left right) hs sites
  ordered : List.IsChain Apart sites
  alike : List.IsChain (AlikeBetween left right) (Site.mk 0 0 0 0 :: sites
    ++ [Site.mk left.length left.length right.length right.length])

/-- The sites of the hunks of groups, behind a site that stops where the groups start. -/
theorem places_grouped {first : Bool} {i j : Nat} {groups : List (List Span)}
    (h : Span.Grouped left right first i j groups) (p : Site) (hi : p.leftStop = i)
    (hj : p.rightStop = j) :
    ∃ sites, List.Forall₂ (Hunk.StandsAt left right)
        (groups.map (Hunk.ofGroup left right)) sites ∧
      List.IsChain Apart sites ∧ (first = false → List.IsChain Apart (p :: sites)) ∧
      List.IsChain (AlikeBetween left right) (p :: sites
        ++ [Site.mk left.length left.length right.length right.length]) := by
  induction h generalizing p with
  | nil heq =>
    subst hi hj
    exact ⟨[], .nil, .nil, fun _ => .singleton p, .cons_cons heq (.singleton _)⟩
  | @cons first i j i' j' k l group groups hii hjj hfirst hfront hne hgroup _ ih =>
    subst hi hj
    obtain ⟨sites, hstand, -, hordered, halike⟩ := ih ⟨i', k, j', l⟩ rfl rfl
    refine ⟨⟨i', k, j', l⟩ :: sites, .cons (Hunk.standsAt_ofGroup hne hgroup) hstand,
      hordered rfl, fun h => .cons_cons (hfirst h) (hordered rfl), .cons_cons hfront halike⟩

/-- The hunks of two sides have sites. -/
theorem places_hunks (n : Nat) (left right : List Line) :
    ∃ sites, Sites left right (hunks n left right) sites := by
  obtain ⟨sites, hstand, hordered, -, halike⟩ :=
    places_grouped (Span.grouped_groups n left right) ⟨0, 0, 0, 0⟩ rfl rfl
  exact ⟨sites, hstand, hordered, halike⟩

/-- Applied to the left side, the hunks of two sides give the right side. -/
theorem patch_hunks (n : Nat) (left right : List Line) :
    patch 0 left ((hunks n left right).flatMap fun h => h.header :: h.lines) = some right :=
  patch_grouped (Span.grouped_groups n left right)

end Unified

namespace Comparison

/-- The diff of two texts is a patch. It is empty exactly if both have the same lines; otherwise
    it starts with the labels of both sides, and its hunks stand in order, apart from each other,
    each with the lines of both sides in the ranges that its header states and with equal lines
    around it. Applied to the lines of the left side it gives those of the right side. -/
theorem diff_faithful (filter : Filter) {context : Int} (hcontext : 0 ≤ context)
    (left right : Text) (leftLabel rightLabel : String) :
    let c := ofTexts filter context left right leftLabel rightLabel
    let old := Text.rows c.leftText
    let new := Text.rows c.rightText
    (c.diff = [] ↔ old = new) ∧
      (c.diff ≠ [] → ∃ hs sites,
        c.diff = ("--- ".toList ++ filteredLabel leftLabel)
          :: ("+++ ".toList ++ filteredLabel rightLabel)
          :: hs.flatMap (fun h => h.header :: h.lines) ∧
        Unified.Sites old new hs sites) ∧
      Unified.patch 0 old (c.diff.drop 2) = some new := by
  obtain ⟨n, rfl⟩ := Int.eq_ofNat_of_zero_le hcontext
  intro c old new
  obtain ⟨hnone, hsome⟩ : (old = new → c.diff = []) ∧ (old ≠ new → c.diff =
      ("--- ".toList ++ filteredLabel leftLabel) :: ("+++ ".toList ++ filteredLabel rightLabel)
        :: (Unified.hunks n old new).flatMap fun h => h.header :: h.lines) := by
    have hdiff : c.diff = if c.leftText = c.rightText then [] else
        Unified.lines (filteredLabel leftLabel) (filteredLabel rightLabel) n old new := rfl
    have hlines : old ≠ new → c.leftText ≠ c.rightText := fun h heq => h (congrArg Text.rows heq)
    rw [hdiff, Unified.lines]
    constructor
    · intro heq
      rw [(Unified.hunks_eq_nil_iff n old new).2 heq, ite_self]
    · intro hne
      rw [if_neg (hlines hne)]
      cases hhunks : Unified.hunks n old new with
      | nil => exact absurd ((Unified.hunks_eq_nil_iff n old new).1 hhunks) hne
      | cons h hs => rfl
  by_cases heq : old = new
  · have hdiff := hnone heq
    refine ⟨⟨fun _ => heq, hnone⟩, fun h => absurd hdiff h, ?_⟩
    rw [hdiff, heq]
    rfl
  · have hdiff := hsome heq
    obtain ⟨sites, hplaces⟩ := Unified.places_hunks n old new
    refine ⟨⟨fun h => ?_, fun h => absurd h heq⟩, fun _ => ⟨_, sites, hdiff, hplaces⟩, ?_⟩
    · rw [hdiff] at h
      cases h
    · rw [hdiff]
      exact Unified.patch_hunks n old new

/-- Two hunks without context: a line that is changed, and one that is removed. -/
theorem diff_faithful_twoHunks :
    let c := ofTexts {} 0 "a\nb\nc\nd".toList "a\nx\nc".toList "l" "r"
    (0 : Int) ≤ 0 ∧ c.diff.map String.ofList =
        ["--- l (filtered)", "+++ r (filtered)", "@@ -2 +2 @@", "-b", "+x", "@@ -4 +3,0 @@", "-d"] ∧
      Unified.patch 0 (Text.rows c.leftText) (c.diff.drop 2) = some (Text.rows c.rightText) :=
  ⟨by decide, by decide, (diff_faithful {} (by decide) _ _ "l" "r").2.2⟩

end Comparison

end Devicetree
