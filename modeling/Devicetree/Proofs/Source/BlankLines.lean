-- SUMMARY: Reducing blank lines cuts line ends and drops empty lines, and is idempotent.
import Devicetree.Proofs.Text.LineFeeds
import Devicetree.Proofs.Text.Trimming
import Devicetree.Source.BlankLines

/-!
# Blank lines reduced

Of the lines of a text, reduction keeps all but some empty ones, each without its
trailing blanks. There are never three empty lines in a row afterwards, so a
second reduction finds nothing to drop. What stands on one line and ends in no blank
is kept as it is.
-/

namespace Devicetree

/-! ## What is left of a line -/

namespace Text

/-- Only blanks come before the first line feed. -/
def StartsBlank (t : Text) : Prop :=
  ∀ c ∈ t.takeWhile (· != '\n'), isBlank c

instance (t : Text) : Decidable t.StartsBlank :=
  List.decidableBAll (fun c => isBlank c) (t.takeWhile (· != '\n'))

theorem startsBlank_newline (t : Text) : StartsBlank ('\n' :: t) := by
  simp [StartsBlank]

theorem startsBlank_append {w t : Text} (hw : ∀ c ∈ w, isBlank c) (ht : t.StartsBlank) :
    (w ++ t).StartsBlank := by
  induction w with
  | nil => exact ht
  | cons c cs ih =>
    intro d hd
    rw [List.cons_append, List.takeWhile_cons] at hd
    split at hd
    · rcases List.mem_cons.1 hd with rfl | hd
      · exact hw d List.mem_cons_self
      · exact ih (fun e he => hw e (List.mem_cons_of_mem c he)) d hd
    · cases hd

/-- What stands before the first line feed is blank. -/
theorem StartsBlank.of_append {w t : Text} (h : (w ++ t).StartsBlank) (hw : '\n' ∉ w) :
    ∀ c ∈ w, isBlank c := by
  have hfeed : ∀ c ∈ w, (c != '\n') = true := by
    rintro c hc
    simpa using fun heq : c = '\n' => hw (heq ▸ hc)
  intro c hc
  apply h
  rw [List.takeWhile_append_of_pos hfeed]
  exact List.mem_append_left _ hc

end Text

namespace BlankLines

/-! ## Dropping empty lines -/

/-- The second lines are the first without some of the empty ones. -/
inductive Thinned : List Line → List Line → Prop where
  | nil : Thinned [] []
  | keep {l : Line} {ls ks : List Line} : Thinned ls ks → Thinned (l :: ls) (l :: ks)
  | drop {ls ks : List Line} : Thinned ls ks → Thinned ([] :: ls) ks

theorem Thinned.trans {ls ks js : List Line} (h : Thinned ls ks) (h' : Thinned ks js) :
    Thinned ls js := by
  induction h generalizing js with
  | nil => exact h'
  | keep _ ih =>
    cases h' with
    | keep h' => exact .keep (ih h')
    | drop h' => exact .drop (ih h')
  | drop _ ih => exact .drop (ih h')

theorem Thinned.subset {ls ks : List Line} (h : Thinned ls ks) : ks ⊆ ls := by
  induction h with
  | nil => exact List.Subset.refl _
  | keep _ ih => exact List.cons_subset_cons _ ih
  | drop _ ih => exact List.subset_cons_of_subset _ ih

theorem Thinned.flatten_eq {ls ks : List Line} (h : Thinned ls ks) : ks.flatten = ls.flatten := by
  induction h with
  | nil => rfl
  | keep _ ih => rw [List.flatten_cons, List.flatten_cons, ih]
  | drop _ ih => rw [List.flatten_cons, ih, List.nil_append]

theorem thinned_thin (edge : Bool) (ls : List Line) : Thinned ls (thin edge ls) := by
  induction ls generalizing edge with
  | nil => exact .nil
  | cons l ls ih =>
    unfold thin
    split
    · rename_i hdrop
      simp only [Bool.and_eq_true, List.isEmpty_iff] at hdrop
      rw [hdrop.1.1]
      exact .drop (ih false)
    · exact .keep (ih _)

theorem thin_ne_nil (edge : Bool) {ls : List Line} (h : ls ≠ []) : thin edge ls ≠ [] := by
  induction ls generalizing edge with
  | nil => exact absurd rfl h
  | cons l ls ih =>
    unfold thin
    split
    · rename_i hdrop
      simp only [Bool.and_eq_true] at hdrop
      apply ih false
      rintro rfl
      simp at hdrop
    · simp

/-- Dropping line feeds drops empty lines, and none before the first line has ended. -/
theorem thinned_squeeze (n : Nat) (t : Text) :
    Thinned (Text.lines t) (Text.lines (squeeze n t)) ∧
      (n = 0 → ∃ l ls ks, Text.lines t = l :: ls ∧ Text.lines (squeeze n t) = l :: ks ∧
        Thinned ls ks) := by
  induction t generalizing n with
  | nil => exact ⟨.keep .nil, fun _ => ⟨[], [], [], rfl, rfl, .nil⟩⟩
  | cons c cs ih =>
    by_cases hc : c = '\n'
    · subst hc
      have hlines : ∀ t : Text, Text.lines ('\n' :: t) = [] :: Text.lines t := fun t => rfl
      rw [squeeze, if_pos rfl, hlines]
      split
      · exact ⟨.drop (ih n).1, fun hn => by omega⟩
      · rw [hlines]
        exact ⟨.keep (ih _).1, fun _ => ⟨[], _, _, rfl, rfl, (ih _).1⟩⟩
    · obtain ⟨l, ls, ks, hlines, hsqueezed, hthinned⟩ := (ih 0).2 rfl
      have hcons : ∀ {t : Text} {m ms}, Text.lines t = m :: ms →
          Text.lines (c :: t) = (c :: m) :: ms := by
        intro t m ms ht
        rw [Text.lines, if_neg hc, ht]
      rw [squeeze, if_neg hc, hcons hlines, hcons hsqueezed]
      exact ⟨.keep hthinned, fun _ => ⟨c :: l, ls, ks, rfl, rfl, hthinned⟩⟩

/-! ## What is left -/

/-- With as many empty lines behind, no three come in a row. -/
def Sparse : (behind : Nat) → List Line → Prop
  | _, [] => True
  | behind, l :: ls => if l = [] then behind < 2 ∧ Sparse (behind + 1) ls else Sparse 0 ls

theorem Sparse.mono {m n : Nat} (hmn : m ≤ n) {ls : List Line} (h : Sparse n ls) :
    Sparse m ls := by
  induction ls generalizing m n with
  | nil => trivial
  | cons l ls ih =>
    rw [Sparse] at h ⊢
    split
    · rename_i hl
      rw [if_pos hl] at h
      exact ⟨by omega, ih (by omega) h.2⟩
    · rename_i hl
      rwa [if_neg hl] at h

theorem Sparse.of_thinned {n : Nat} {ls ks : List Line} (hthinned : Thinned ls ks)
    (h : Sparse n ls) : Sparse n ks := by
  induction hthinned generalizing n with
  | nil => trivial
  | keep _ ih =>
    rw [Sparse] at h ⊢
    split
    · rename_i hl
      rw [if_pos hl] at h
      exact ⟨h.1, ih h.2⟩
    · rename_i hl
      rw [if_neg hl] at h
      exact ih h
  | drop _ ih =>
    rw [Sparse, if_pos rfl] at h
    exact ih (h.2.mono (Nat.le_succ n))

/-- Behind an empty line, thinning leaves another one only as the last of its run. -/
theorem sparse_thin {edge : Bool} {n : Nat} {ls : List Line} (hedge : edge → n = 0)
    (hempty : ¬ edge → n = 1 ∨ n = 2 ∧ ∀ l ∈ ls.head?, l ≠ []) : Sparse n (thin edge ls) := by
  induction ls generalizing edge n with
  | nil => trivial
  | cons l ls ih =>
    unfold thin
    split
    · rename_i hdrop
      simp only [Bool.and_eq_true, Bool.not_eq_true', List.isEmpty_iff] at hdrop
      obtain ⟨⟨hl, hedge⟩, -⟩ := hdrop
      have hone : n = 1 := by
        rcases hempty (by simp [hedge]) with hone | ⟨-, hhead⟩
        · exact hone
        · exact absurd hl (hhead l rfl)
      exact ih (by simp) fun _ => .inl hone
    · rename_i hkeep
      unfold Sparse
      split
      · rename_i hl
        subst hl
        simp only [List.isEmpty_nil, Bool.true_and, Bool.and_eq_true, Bool.not_eq_true',
          not_and] at hkeep
        by_cases he : edge
        · have hzero := hedge he
          exact ⟨by omega, ih (by simp) fun _ => .inl (by omega)⟩
        · have hone : n = 1 := by
            rcases hempty he with hone | ⟨-, hhead⟩
            · exact hone
            · exact absurd rfl (hhead [] rfl)
          refine ⟨by omega, ih (by simp) fun _ => .inr ⟨by omega, ?_⟩⟩
          intro k hk hknil
          apply hkeep (by simpa using he)
          rw [Option.mem_def.1 hk, hknil]
          rfl
      · rename_i hl
        have hlempty : l.isEmpty = false := by simpa using hl
        rw [hlempty]
        exact ih (fun _ => rfl) fun hfalse => absurd rfl hfalse

/-- Where no three empty lines come in a row, thinning drops nothing. -/
theorem thin_eq_self {edge : Bool} {n : Nat} {ls : List Line} (h : Sparse n ls)
    (hedge : ¬ edge → 1 ≤ n) : thin edge ls = ls := by
  induction ls generalizing edge n with
  | nil => rfl
  | cons l ls ih =>
    rw [Sparse] at h
    rw [thin]
    by_cases hl : l = []
    · rw [if_pos hl] at h
      have hkeep : ¬ (l.isEmpty && !edge && ls.head?.any List.isEmpty) = true := by
        simp only [Bool.and_eq_true, Bool.not_eq_true', not_and]
        rintro ⟨-, he⟩ hnext
        have hn := hedge (by simp [he])
        cases ls with
        | nil => simp at hnext
        | cons k ks =>
          have hk : k = [] := by simpa using hnext
          have hlt := h.2
          rw [Sparse, if_pos hk] at hlt
          omega
      rw [if_neg hkeep, ih h.2 fun _ => by omega]
    · have hlempty : l.isEmpty = false := by simpa using hl
      rw [if_neg hl] at h
      simp only [hlempty, Bool.false_and, Bool.false_eq_true, if_false, Bool.not_false]
      rw [ih h (by simp)]

theorem squeeze_squeeze (n : Nat) (t : Text) : squeeze n (squeeze n t) = squeeze n t := by
  induction t generalizing n with
  | nil => rfl
  | cons c cs ih =>
    rw [squeeze]
    split
    · rename_i hc
      split
      · exact ih n
      · rename_i hn
        rw [squeeze, if_pos hc, if_neg hn, ih]
    · rename_i hc
      rw [squeeze, if_neg hc, ih]

/-- A text without line feeds is written as it is, and ends the run of those in front of it. -/
theorem squeeze_append {w : Text} (hne : w ≠ []) (hw : '\n' ∉ w) (n : Nat) (t : Text) :
    squeeze n (w ++ t) = w ++ squeeze 0 t := by
  induction w generalizing n with
  | nil => exact absurd rfl hne
  | cons c cs ih =>
    obtain ⟨hc, hcs⟩ : '\n' ≠ c ∧ '\n' ∉ cs := by simpa using hw
    rw [List.cons_append, squeeze, if_neg hc.symm]
    cases cs with
    | nil => rfl
    | cons d ds => exact congrArg (c :: ·) (ih (by simp) hcs 0)

/-! ## Reduction -/

/-- No line ends in a blank, and no more empty lines come in a row than reduction leaves. -/
structure IsReduced (t : Text) : Prop where
  trimmed : ∀ l ∈ Text.lines t, Text.trimEnd l = l
  sparse : Sparse 0 (Text.lines t)
  squeezed : squeeze 0 t = t

/-- The lines that thinning leaves are read again. -/
theorem lines_unlines_thin (t : Text) :
    Text.lines (Text.unlines (thin true ((Text.lines t).map Text.trimEnd))) =
      thin true ((Text.lines t).map Text.trimEnd) := by
  apply Text.lines_unlines (thin_ne_nil true (by simpa using Text.lines_ne_nil t))
  intro l hl hmem
  obtain ⟨k, hk, rfl⟩ := List.mem_map.1 ((thinned_thin true _).subset hl)
  exact Text.newline_not_mem_of_mem_lines hk ((Text.trimEnd_prefix_self k).subset hmem)

/-- The lines of the reduced text are the lines without trailing blanks, and without some
    of the empty ones. -/
theorem thinned_reduce (t : Text) :
    Thinned ((Text.lines t).map Text.trimEnd) (Text.lines (reduce t)) := by
  have hsqueeze := (thinned_squeeze 0
    (Text.unlines (thin true ((Text.lines t).map Text.trimEnd)))).1
  rw [lines_unlines_thin] at hsqueeze
  exact (thinned_thin true _).trans hsqueeze

theorem isReduced_reduce (t : Text) : IsReduced (reduce t) where
  trimmed := by
    intro l hl
    obtain ⟨k, -, rfl⟩ := List.mem_map.1 ((thinned_reduce t).subset hl)
    exact Text.trimEnd_trimEnd k
  sparse := by
    have hsparse : Sparse 0 (thin true ((Text.lines t).map Text.trimEnd)) :=
      sparse_thin (fun _ => rfl) fun hfalse => absurd rfl hfalse
    rw [← lines_unlines_thin] at hsparse
    exact hsparse.of_thinned (thinned_squeeze 0 _).1
  squeezed := squeeze_squeeze 0 _

theorem IsReduced.not_isGap_getLast {t : Text} (h : IsReduced t) :
    ∀ c ∈ t.getLast?, ¬ isGap c := by
  intro c hc hgap
  have hblank := isBlank_of_isGap hgap
  obtain ⟨l, hl, hlast⟩ := Text.exists_mem_lines_getLast? (t := t) (c := c) hc (by
    rintro rfl
    simp [isGap] at hgap)
  obtain ⟨ds, rfl⟩ := List.getLast?_eq_some_iff.1 hlast
  have htrimmed := h.trimmed _ hl
  rw [Text.trimEnd_concat, if_pos hblank] at htrimmed
  have hlength := congrArg List.length htrimmed
  have hprefix := (Text.trimEnd_prefix_self ds).length_le
  simp only [List.length_append, List.length_singleton] at hlength
  omega

/-- A reduced text is left as it is. -/
theorem reduce_eq_self {t : Text} (h : IsReduced t) : reduce t = t := by
  have htrimmed : (Text.lines t).map Text.trimEnd = Text.lines t := by
    rw [List.map_congr_left h.trimmed, List.map_id']
  rw [reduce, htrimmed, thin_eq_self h.sparse (by simp), Text.unlines_lines, h.squeezed]

/-! ## What is kept -/

/-- The second text is the first without some characters, each with nothing but blanks left of
    its line: a line feed, or a blank at the end of a line. -/
inductive Shortened : Text → Text → Prop where
  | nil : Shortened [] []
  | keep (c : Char) {x y : Text} : Shortened x y → Shortened (c :: x) (c :: y)
  | drop {c : Char} {x y : Text} : Text.StartsBlank (c :: x) → Shortened x y → Shortened (c :: x) y

namespace Shortened

variable {x y : Text}

theorem sublist (h : Shortened x y) : y.Sublist x := by
  induction h with
  | nil => exact .slnil
  | keep c _ ih => exact ih.cons_cons c
  | drop _ _ ih => exact ih.cons _

theorem of_newline (h : Shortened x ('\n' :: y)) : Shortened x y := by
  induction x with
  | nil => cases h
  | cons c cs ih =>
    cases h with
    | keep _ h => exact .drop (Text.startsBlank_newline cs) h
    | drop hblank h => exact .drop hblank (ih h)

/-- A line in front of the text loses its trailing blanks. -/
theorem trimEnd_append (hblank : x.StartsBlank) (h : Shortened x y) (l : Line) :
    Shortened (l ++ x) (Text.trimEnd l ++ y) := by
  induction l with
  | nil => exact h
  | cons c cs ih =>
    rw [Text.trimEnd]
    cases hcs : Text.trimEnd cs with
    | nil =>
      rw [hcs] at ih
      dsimp only
      split
      · rename_i hc
        have hall : ∀ d ∈ c :: cs, isBlank d := by
          intro d hd
          rcases List.mem_cons.1 hd with rfl | hd
          · exact hc
          · exact Text.trimEnd_eq_nil_iff.1 hcs d hd
        exact .drop (Text.startsBlank_append hall hblank) ih
      · exact .keep c ih
    | cons d ds =>
      rw [hcs] at ih
      exact .keep c ih

/-- What stands behind a part of the text stands behind what is left of that part. -/
theorem of_append {w : Text} (h : Shortened (w ++ x) y) :
    ∃ w' x', y = w' ++ x' ∧ Shortened x x' := by
  induction w generalizing y with
  | nil => exact ⟨[], y, rfl, h⟩
  | cons c cs ih =>
    cases h with
    | keep _ h =>
      obtain ⟨w', x', rfl, hx⟩ := ih h
      exact ⟨c :: w', x', rfl, hx⟩
    | drop _ h => exact ih h

/-- A part of a line that ends in no blank is kept. -/
theorem of_solid_append {w : Text} {d : Char} (hfeed : '\n' ∉ w) (hlast : w.getLast? = some d)
    (hd : ¬ isBlank d) (h : Shortened (w ++ x) y) : ∃ x', y = w ++ x' ∧ Shortened x x' := by
  induction w generalizing y with
  | nil => cases hlast
  | cons c cs ih =>
    cases h with
    | keep _ h =>
      cases cs with
      | nil => exact ⟨_, rfl, h⟩
      | cons e es =>
        have hes : '\n' ∉ e :: es := fun hmem => hfeed (List.mem_cons_of_mem c hmem)
        obtain ⟨x', rfl, hx⟩ := ih hes (by simpa using hlast) h
        exact ⟨x', rfl, hx⟩
    | drop hblank h =>
      exact absurd (Text.StartsBlank.of_append hblank hfeed d (List.mem_of_getLast? hlast)) hd

end Shortened

/-- A text of lines, each with a line feed in front of it. -/
theorem newline_unlines {ls : List Line} (hne : ls ≠ []) :
    '\n' :: Text.unlines ls = ls.flatMap ('\n' :: ·) := by
  induction ls with
  | nil => exact absurd rfl hne
  | cons l ls ih =>
    cases ls with
    | nil => simp [Text.unlines]
    | cons k ks =>
      rw [Text.unlines.eq_3 l _ (by simp), ih (by simp)]
      rfl

theorem Thinned.shortened {ls ks : List Line} (h : Thinned (ls.map Text.trimEnd) ks) :
    Shortened (ls.flatMap ('\n' :: ·)) (ks.flatMap ('\n' :: ·)) := by
  induction ls generalizing ks with
  | nil =>
    cases h
    exact .nil
  | cons l ls ih =>
    have hblank : Text.StartsBlank (ls.flatMap ('\n' :: ·)) := by
      cases ls with
      | nil => simp [Text.StartsBlank]
      | cons k ks => exact Text.startsBlank_newline _
    rw [List.map_cons] at h
    generalize hl : Text.trimEnd l = m at h
    cases h with
    | keep h =>
      subst hl
      exact .keep '\n' ((ih h).trimEnd_append hblank l)
    | drop h =>
      have hrest := (ih h).trimEnd_append hblank l
      rw [hl, List.nil_append] at hrest
      exact .drop (Text.startsBlank_newline _) hrest

/-- Reduction drops line feeds, and blanks at the ends of lines. -/
theorem shortened_reduce (t : Text) : Shortened t (reduce t) := by
  have h := (thinned_reduce t).shortened
  rw [← newline_unlines (Text.lines_ne_nil t), ← newline_unlines (Text.lines_ne_nil (reduce t)),
    Text.unlines_lines, Text.unlines_lines] at h
  cases h with
  | keep _ h => exact h
  | drop _ h => exact h.of_newline

/-- Reduction only takes away. -/
theorem reduce_sublist (t : Text) : (reduce t).Sublist t :=
  (shortened_reduce t).sublist

end BlankLines

end Devicetree
