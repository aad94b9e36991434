-- SUMMARY: What reduction leaves of each run of empty lines, by where the run stands.
import Devicetree.Proofs.Source.BlankLines

/-!
# Layouts

The lines of a source are lines with text and runs of empty lines: one run in front,
which makes up the whole source if no line has text, and one behind each line with
text. Reduction keeps the lines with text and shortens the runs. It leaves one empty
line of a run between two lines with text, and two of a run at either end.

Two passes work together. Dropping lines leaves two empty lines of every longer run,
wherever it stands. Two between lines with text are three line feeds in a row, of
which the second pass drops one; two at an end are two line feeds.
-/

namespace Devicetree

namespace BlankLines

/-! ## Lines by their runs -/

/-- A line with text, and how many empty lines stand behind it. -/
structure Row where
  line : Line
  behind : Nat
  line_ne_nil : line ≠ []

namespace Row

def lines (r : Row) : List Line :=
  r.line :: List.replicate r.behind []

/-- The row with no more than so many empty lines. -/
def atMost (n : Nat) (r : Row) : Row :=
  { r with behind := min r.behind n }

/-- One empty line at most between two rows, and two at most behind the last one. -/
def closeUp : List Row → List Row
  | [] => []
  | [r] => [r.atMost 2]
  | r :: s :: rs => r.atMost 1 :: closeUp (s :: rs)

/-- The lines of rows in order. -/
def linesOfAll (rs : List Row) : List Line :=
  rs.flatMap lines

@[simp] theorem linesOfAll_nil : linesOfAll [] = [] := rfl

theorem linesOfAll_cons (r : Row) (rs : List Row) :
    linesOfAll (r :: rs) = r.line :: (List.replicate r.behind [] ++ linesOfAll rs) := rfl

theorem linesOfAll_ne_nil (r : Row) (rs : List Row) : linesOfAll (r :: rs) ≠ [] := by
  simp [linesOfAll_cons]

/-- Rows begin with text. -/
theorem ne_nil_of_head?_linesOfAll {rs : List Row} : ∀ l ∈ (linesOfAll rs).head?, l ≠ [] := by
  cases rs with
  | nil => simp
  | cons r rs => simpa [linesOfAll_cons] using r.line_ne_nil

theorem closeUp_ne_nil (r : Row) (rs : List Row) : closeUp (r :: rs) ≠ [] := by
  cases rs with
  | nil => simp [closeUp]
  | cons s rs => simp [closeUp]

/-- Runs that have been cut to two empty lines are closed up like whole ones. -/
theorem closeUp_map_atMost (rs : List Row) : closeUp (rs.map (atMost 2)) = closeUp rs := by
  have hatMost : ∀ (r : Row) (n : Nat), n ≤ 2 → (r.atMost 2).atMost n = r.atMost n := by
    intro r n hn
    simp [atMost, Nat.min_assoc, Nat.min_eq_right hn]
  fun_induction closeUp rs with
  | case1 => rfl
  | case2 r => simp [closeUp, hatMost r 2]
  | case3 r s rs ih =>
    rw [List.map_cons] at ih
    simp [closeUp, hatMost r 1, ih]

end Row

/-- The lines of a source: so many empty lines, and then rows. -/
structure Layout where
  front : Nat
  rows : List Row

namespace Layout

def lines (p : Layout) : List Line :=
  List.replicate p.front [] ++ Row.linesOfAll p.rows

/-- The layout with its runs of empty lines cut to what reduction leaves of them. -/
def reduced (p : Layout) : Layout :=
  ⟨min p.front 2, Row.closeUp p.rows⟩

/-- All lines have a layout. -/
theorem exists_lines_eq (ls : List Line) : ∃ p : Layout, p.lines = ls := by
  induction ls with
  | nil => exact ⟨⟨0, []⟩, rfl⟩
  | cons l ls ih =>
    obtain ⟨⟨front, rows⟩, rfl⟩ := ih
    by_cases hl : l = []
    · subst hl
      exact ⟨⟨front + 1, rows⟩, rfl⟩
    · exact ⟨⟨0, ⟨l, front, hl⟩ :: rows⟩, rfl⟩

end Layout

/-! ## Dropping lines -/

theorem thin_cons_of_ne_nil {l : Line} (hl : l ≠ []) (edge : Bool) (ls : List Line) :
    thin edge (l :: ls) = l :: thin true ls := by
  have hempty : l.isEmpty = false := by simpa using hl
  simp [thin, hempty]

/-- In front of a line with text it does not matter what came before. -/
theorem thin_eq_of_head? {ls : List Line} (h : ∀ l ∈ ls.head?, l ≠ []) (edge : Bool) :
    thin edge ls = thin true ls := by
  cases ls with
  | nil => rfl
  | cons l ls =>
    have hl : l ≠ [] := h l rfl
    rw [thin_cons_of_ne_nil hl, thin_cons_of_ne_nil hl]

/-- Of empty lines behind an empty line the last one stays. -/
theorem thin_false_replicate {ls : List Line} (h : ∀ l ∈ ls.head?, l ≠ []) (n : Nat) :
    thin false (List.replicate (n + 1) [] ++ ls) = [] :: thin true ls := by
  induction n with
  | zero =>
    have hnext : ls.head?.any List.isEmpty = false := by
      cases ls with
      | nil => rfl
      | cons l ls => simpa using h l rfl
    simp [thin, hnext, thin_eq_of_head? h false]
  | succ n ih =>
    rw [List.replicate_succ, List.cons_append, thin, ih]
    simp [List.replicate_succ]

/-- Of a run of empty lines the first and the last one stay. -/
theorem thin_true_replicate {ls : List Line} (h : ∀ l ∈ ls.head?, l ≠ []) (n : Nat) :
    thin true (List.replicate n [] ++ ls) = List.replicate (min n 2) [] ++ thin true ls := by
  match n with
  | 0 => simp
  | 1 => simp [thin, thin_eq_of_head? h false]
  | n + 2 =>
    have hrest := thin_false_replicate h n
    simp [List.replicate_succ (n := n + 1), thin, hrest]

theorem thin_linesOfAll (rs : List Row) :
    thin true (Row.linesOfAll rs) = Row.linesOfAll (rs.map (Row.atMost 2)) := by
  induction rs with
  | nil => rfl
  | cons r rs ih =>
    rw [Row.linesOfAll_cons, thin_cons_of_ne_nil r.line_ne_nil,
      thin_true_replicate Row.ne_nil_of_head?_linesOfAll, ih]
    rfl

theorem thin_lines (p : Layout) :
    thin true p.lines = (Layout.mk (min p.front 2) (p.rows.map (Row.atMost 2))).lines := by
  rw [Layout.lines, thin_true_replicate Row.ne_nil_of_head?_linesOfAll, thin_linesOfAll]
  rfl

/-! ## Dropping line feeds -/

theorem squeeze_eq_of_head? {t : Text} (h : t.head? ≠ some '\n') (n : Nat) :
    squeeze n t = squeeze 0 t := by
  cases t with
  | nil => rfl
  | cons c cs =>
    have hc : c ≠ '\n' := by simpa using h
    simp [squeeze, hc]

/-- Two line feeds of a run stay. -/
theorem squeeze_replicate {t : Text} (h : t.head? ≠ some '\n') (n behind : Nat) :
    squeeze behind (List.replicate n '\n' ++ t) =
      List.replicate (min n (2 - behind)) '\n' ++ squeeze 0 t := by
  induction n generalizing behind with
  | zero => simpa using squeeze_eq_of_head? h behind
  | succ n ih =>
    rw [List.replicate_succ, List.cons_append, squeeze, if_pos rfl]
    split
    · rename_i hbehind
      have hnone : 2 - behind = 0 := by omega
      rw [ih, hnone]
      simp
    · rename_i hbehind
      have hcount : min (n + 1) (2 - behind) = min n (2 - (behind + 1)) + 1 := by omega
      rw [ih, hcount, List.replicate_succ, List.cons_append]

/-- Empty lines in front of others are as many line feeds. -/
theorem unlines_replicate_append {ls : List Line} (hls : ls ≠ []) (n : Nat) :
    Text.unlines (List.replicate n [] ++ ls) = List.replicate n '\n' ++ Text.unlines ls := by
  induction n with
  | zero => rfl
  | succ n ih =>
    rw [List.replicate_succ, List.cons_append, Text.unlines.eq_3 [] _ (by simp [hls]), ih]
    rfl

/-- Empty lines by themselves are one line feed less. -/
theorem unlines_replicate (n : Nat) : Text.unlines (List.replicate n []) =
    List.replicate (n - 1) '\n' := by
  cases n with
  | zero => rfl
  | succ n =>
    have hlast := unlines_replicate_append (List.cons_ne_nil [] []) n
    rw [← List.replicate_succ'] at hlast
    rw [hlast]
    simp [Text.unlines]

theorem unlines_linesOfAll_singleton (r : Row) :
    Text.unlines (Row.linesOfAll [r]) = r.line ++ List.replicate r.behind '\n' := by
  rw [Row.linesOfAll_cons, Row.linesOfAll_nil, List.append_nil]
  cases hn : r.behind with
  | zero => simp [Text.unlines]
  | succ n =>
    rw [Text.unlines.eq_3 r.line _ (by simp), unlines_replicate]
    rfl

theorem unlines_linesOfAll_cons (r : Row) {rs : List Row} (hrs : rs ≠ []) :
    Text.unlines (Row.linesOfAll (r :: rs)) =
      r.line ++ (List.replicate (r.behind + 1) '\n' ++ Text.unlines (Row.linesOfAll rs)) := by
  obtain ⟨s, ss, rfl⟩ := List.exists_cons_of_ne_nil hrs
  have hne := Row.linesOfAll_ne_nil s ss
  rw [Row.linesOfAll_cons, Text.unlines.eq_3 r.line _ (by simp [hne]),
    unlines_replicate_append hne]
  rfl

theorem head?_unlines_linesOfAll {rs : List Row} (h : ∀ r ∈ rs, '\n' ∉ r.line) :
    (Text.unlines (Row.linesOfAll rs)).head? ≠ some '\n' := by
  cases rs with
  | nil => simp [Text.unlines]
  | cons r rs =>
    have hline : '\n' ∉ r.line := h r (by simp)
    obtain ⟨c, cs, hcs⟩ := List.exists_cons_of_ne_nil r.line_ne_nil
    have hc : c ≠ '\n' := by
      rintro rfl
      simp [hcs] at hline
    cases rs with
    | nil => simpa [unlines_linesOfAll_singleton, hcs] using hc
    | cons s ss => simpa [unlines_linesOfAll_cons r (List.cons_ne_nil s ss), hcs] using hc

/-- Two empty lines between rows are three line feeds, and one line feed too many. -/
theorem squeeze_unlines_linesOfAll {rs : List Row} (h : ∀ r ∈ rs, '\n' ∉ r.line) :
    squeeze 0 (Text.unlines (Row.linesOfAll rs)) =
      Text.unlines (Row.linesOfAll (Row.closeUp rs)) := by
  fun_induction Row.closeUp rs with
  | case1 => rfl
  | case2 r =>
    have hfeeds := squeeze_replicate (t := []) (by simp) r.behind 0
    rw [List.append_nil] at hfeeds
    rw [unlines_linesOfAll_singleton, unlines_linesOfAll_singleton,
      squeeze_append r.line_ne_nil (h r (by simp)), hfeeds]
    simp [Row.atMost, squeeze]
  | case3 r s rs ih =>
    have hrest : ∀ q ∈ s :: rs, '\n' ∉ q.line := fun q hq => h q (by simp [hq])
    have hcount : min (r.behind + 1) 2 = min r.behind 1 + 1 := by omega
    rw [unlines_linesOfAll_cons r (List.cons_ne_nil s rs),
      unlines_linesOfAll_cons (r.atMost 1) (Row.closeUp_ne_nil s rs),
      squeeze_append r.line_ne_nil (h r (by simp)),
      squeeze_replicate (head?_unlines_linesOfAll hrest), ih hrest, Nat.sub_zero, hcount]
    rfl

/-- Behind some line feeds no more come than make three. -/
theorem not_prefix_squeeze {behind : Nat} (hbehind : behind ≤ 2) (t : Text) :
    ¬ List.replicate (3 - behind) '\n' <+: squeeze behind t := by
  induction t generalizing behind with
  | nil =>
    have hpos : 3 - behind ≠ 0 := by omega
    simpa [squeeze] using hpos
  | cons c cs ih =>
    have hcount : 3 - behind = 2 - behind + 1 := by omega
    unfold squeeze
    split
    · rename_i hc
      split
      · exact ih hbehind
      · rw [hcount, List.replicate_succ, List.cons_prefix_cons]
        have hrest : 2 - behind = 3 - (behind + 1) := by omega
        rw [hrest]
        exact fun h => ih (by omega) h.2
    · rename_i hc
      rw [hcount, List.replicate_succ, List.cons_prefix_cons]
      exact fun h => hc h.1.symm

theorem not_infix_squeeze {behind : Nat} (hbehind : behind ≤ 2) (t : Text) :
    ¬ ['\n', '\n', '\n'] <:+: squeeze behind t := by
  have hthree : ∀ b ≤ 2, List.replicate (3 - b) '\n' <+: ['\n', '\n', '\n'] := by
    intro b hb
    refine ⟨List.replicate b '\n', ?_⟩
    rw [List.replicate_append_replicate, Nat.sub_add_cancel (by omega)]
    rfl
  induction t generalizing behind with
  | nil => simp [squeeze]
  | cons c cs ih =>
    have hstart := not_prefix_squeeze hbehind (c :: cs)
    unfold squeeze at hstart ⊢
    split
    · split
      · exact ih hbehind
      · rename_i hc hmore
        rw [if_pos hc, if_neg hmore] at hstart
        rw [List.infix_cons_iff]
        rintro (h | h)
        · exact hstart ((hthree behind hbehind).trans h)
        · exact ih (by omega) h
    · rename_i hc
      rw [if_neg hc] at hstart
      rw [List.infix_cons_iff]
      rintro (h | h)
      · exact hstart ((hthree behind hbehind).trans h)
      · exact ih (by omega) h

/-! ## Reduction -/

theorem Row.linesOfAll_closeUp_sublist (rs : List Row) :
    (linesOfAll (closeUp rs)).Sublist (linesOfAll rs) := by
  have hrow : ∀ (r : Row) (n : Nat), ((r.atMost n).lines).Sublist r.lines := fun r n =>
    ((List.replicate_sublist_replicate []).2 (Nat.min_le_left _ _)).cons_cons r.line
  fun_induction closeUp rs with
  | case1 => exact List.Sublist.refl _
  | case2 r => simpa [linesOfAll] using hrow r 2
  | case3 r s rs ih => exact (hrow r 1).append ih

/-- Reduction only shortens runs. -/
theorem Layout.lines_reduced_sublist (p : Layout) : p.reduced.lines.Sublist p.lines :=
  ((List.replicate_sublist_replicate []).2 (Nat.min_le_left _ _)).append
    (Row.linesOfAll_closeUp_sublist p.rows)

theorem Layout.lines_reduced_ne_nil {p : Layout} (h : p.lines ≠ []) : p.reduced.lines ≠ [] := by
  obtain ⟨front, rows⟩ := p
  cases rows with
  | nil =>
    have hfront : front ≠ 0 := by simpa [Layout.lines] using h
    simpa [Layout.reduced, Layout.lines, Row.closeUp] using hfront
  | cons r rs =>
    obtain ⟨s, ss, heq⟩ := List.exists_cons_of_ne_nil (Row.closeUp_ne_nil r rs)
    simp [Layout.reduced, Layout.lines, heq, Row.linesOfAll_ne_nil]

theorem squeeze_unlines_lines {p : Layout} (hfront : p.front ≤ 2)
    (h : ∀ r ∈ p.rows, '\n' ∉ r.line) :
    squeeze 0 (Text.unlines p.lines) =
      Text.unlines (Layout.mk p.front (Row.closeUp p.rows)).lines := by
  obtain ⟨front, rows⟩ := p
  simp only at hfront h
  cases rows with
  | nil =>
    have hfeeds := squeeze_replicate (t := []) (by simp) (front - 1) 0
    have hcount : min (front - 1) 2 = front - 1 := by omega
    simpa [Layout.lines, Row.closeUp, unlines_replicate, squeeze, hcount] using hfeeds
  | cons r rs =>
    obtain ⟨s, ss, heq⟩ := List.exists_cons_of_ne_nil (Row.closeUp_ne_nil r rs)
    rw [Layout.lines, Layout.lines, heq, unlines_replicate_append (Row.linesOfAll_ne_nil r rs),
      unlines_replicate_append (Row.linesOfAll_ne_nil s ss),
      squeeze_replicate (head?_unlines_linesOfAll h), squeeze_unlines_linesOfAll h, heq,
      Nat.sub_zero, Nat.min_eq_left hfront]

/-- The lines of a reduced source are those of its layout, the runs cut. -/
theorem lines_reduce {t : Text} {p : Layout} (hp : p.lines = (Text.lines t).map Text.trimEnd) :
    Text.lines (reduce t) = p.reduced.lines := by
  have hfeed : ∀ l ∈ p.lines, '\n' ∉ l := by
    intro l hl hmem
    rw [hp] at hl
    obtain ⟨k, hk, rfl⟩ := List.mem_map.1 hl
    exact Text.newline_not_mem_of_mem_lines hk ((Text.trimEnd_prefix_self k).subset hmem)
  have hne : p.lines ≠ [] := by
    rw [hp]
    simpa using Text.lines_ne_nil t
  have hrows : ∀ r ∈ p.rows.map (Row.atMost 2), '\n' ∉ r.line := by
    intro r hr
    obtain ⟨q, hq, rfl⟩ := List.mem_map.1 hr
    apply hfeed
    apply List.mem_append_right
    exact List.mem_flatMap.2 ⟨q, hq, List.mem_cons_self⟩
  have hreduce : reduce t = Text.unlines p.reduced.lines := by
    rw [reduce, ← hp, thin_lines]
    have hsqueeze := squeeze_unlines_lines (p := ⟨min p.front 2, p.rows.map (Row.atMost 2)⟩)
      (Nat.min_le_right _ _) hrows
    rwa [Row.closeUp_map_atMost] at hsqueeze
  rw [hreduce]
  apply Text.lines_unlines (Layout.lines_reduced_ne_nil hne)
  intro l hl
  exact hfeed l (p.lines_reduced_sublist.subset hl)

/-- Reduction shortens the runs of empty lines: to one line between two lines with text, and to
two at the start and at the end of a source, which may be the whole of it. Lines with text stay,
without their trailing blanks. So no three line feeds are left in a row, and a second reduction
finds nothing to do. -/
theorem reduce_layout (t : Text) :
    (∃ p : Layout, p.lines = (Text.lines t).map Text.trimEnd ∧
        Text.lines (reduce t) = p.reduced.lines) ∧
      ¬ ['\n', '\n', '\n'] <:+: reduce t ∧ reduce (reduce t) = reduce t := by
  obtain ⟨p, hp⟩ := Layout.exists_lines_eq ((Text.lines t).map Text.trimEnd)
  refine ⟨⟨p, hp, lines_reduce hp⟩, ?_, ?_⟩
  · exact not_infix_squeeze (by omega) _
  · exact reduce_eq_self (isReduced_reduce t)

end BlankLines

end Devicetree
