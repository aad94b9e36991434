-- SUMMARY: When a dropped comment separates what stands around it like a space does.
import Devicetree.Proofs.Source.Comments

/-!
# Separation

A comment between marks leaves nothing, and the gaps behind it go with it. What
stands on its two sides is kept apart by the gaps in front of it alone, so a
comment that touches the word in front of it joins that word to the next.
-/

namespace Devicetree

/-! ## Gaps at the end of a text -/

/-- The text ends in a gap that does not indent its last line. -/
def Text.EndsApart (t : Text) : Prop :=
  (∃ c ∈ t.getLast?, isGap c) ∧ ¬ t.EndsIndenting

theorem Text.endsApart_nil : ¬ Text.EndsApart [] := by
  simp [Text.EndsApart]

theorem Text.endsApart_concat {c : Char} (t : Text) :
    Text.EndsApart (t ++ [c]) ↔ isGap c ∧ ¬ t.EndsIndenting := by
  rw [EndsApart, List.getLast?_concat]
  constructor
  · rintro ⟨⟨d, hd, hc⟩, hends⟩
    obtain rfl : c = d := by simpa using hd
    exact ⟨hc, by rwa [endsIndenting_concat_gap hc] at hends⟩
  · rintro ⟨hc, hends⟩
    exact ⟨⟨c, rfl, hc⟩, by rwa [endsIndenting_concat_gap hc]⟩

namespace Scanner

variable {f : Filter} {s : State} {c : Char} {next : Option Char} {u : Text}

/-! ## Where a line began does not matter behind a comment -/

theorem codeStep_lineStart (b : Bool) (hc : ¬ isGap c) :
    codeStep f { s with lineStart := b } c next = codeStep f s c next ∨
      (codeStep f s c next).2.mode.isComment ∧
        codeStep f { s with lineStart := b } c next =
          ((codeStep f s c next).1, { (codeStep f s c next).2 with lineStart := b }) := by
  unfold codeStep
  split
  · exact .inl rfl
  · split
    · exact .inr ⟨rfl, rfl⟩
    · split
      · exact .inr ⟨rfl, rfl⟩
      · split
        · exact .inl rfl
        · rw [if_neg (by simp [hc]), if_neg (by simp [hc])]
          exact .inl rfl

theorem step_lineStart (b : Bool) (h : s.mode.isComment) :
    step f { s with lineStart := b } c next = step f s c next ∨
      (step f s c next).2.mode.isComment ∧
        step f { s with lineStart := b } c next =
          ((step f s c next).1, { (step f s c next).2 with lineStart := b }) := by
  obtain ⟨mode, lineStart, escaped, passing, width⟩ := s
  unfold step
  split
  · exact .inr ⟨h, rfl⟩
  · cases mode with
    | code => cases h
    | literal q => cases h
    | lineComment =>
      simp only [lineCommentStep]
      split
      · exact .inl rfl
      · split
        · exact .inl rfl
        · exact .inr ⟨rfl, rfl⟩
    | blockComment =>
      simp only [blockCommentStep]
      split
      · exact .inr ⟨rfl, rfl⟩
      · split
        · exact .inr ⟨rfl, rfl⟩
        · exact .inr ⟨rfl, rfl⟩
    | afterComment =>
      dsimp only
      split
      · exact .inr ⟨rfl, rfl⟩
      · rename_i hc
        exact codeStep_lineStart (s := ⟨.code, lineStart, escaped, passing, width⟩) b hc

/-- Gaps behind a comment are dropped, so it does not matter there whether they would indent. -/
theorem run_lineStart (b : Bool) (t : Text) (h : s.mode.isComment) :
    run f { s with lineStart := b } t = run f s t := by
  induction t generalizing s with
  | nil => rfl
  | cons c cs ih =>
    rw [run_cons, run_cons]
    rcases @step_lineStart f s c cs.head? b h with heq | ⟨hcomment, heq⟩
    · rw [heq]
    · rw [heq, ih hcomment]

/-- The scanner right behind a comment. -/
def State.behindComment : State :=
  { mode := .afterComment, lineStart := false }

theorem run_afterComment (hmode : s.mode = .afterComment) (hpassing : s.passing = false)
    (hescaped : s.escaped = false) (hwidth : s.width = 0) (v : Text) :
    run f s v = run f .behindComment v := by
  have hself : { s with lineStart := false } = State.behindComment := by
    obtain ⟨mode, lineStart, escaped, passing, width⟩ := s
    simp only at hmode hpassing hescaped hwidth
    subst hmode hpassing hescaped hwidth
    rfl
  rw [← hself, run_lineStart false v (by rw [hmode]; rfl)]

theorem run_behindComment (f : Filter) (v : Text) :
    run f .behindComment v =
      run f { State.behindComment with mode := .code } (v.dropWhile isGap) := by
  induction v with
  | nil => rfl
  | cons c cs ih =>
    by_cases hc : isGap c
    · rw [List.dropWhile_cons_of_pos hc, ← ih, run_cons]
      simp [step, State.behindComment, hc]
    · rw [List.dropWhile_cons_of_neg hc, run_cons, run_cons]
      simp [step, State.behindComment, hc]

/-- A run of gaps in code is written as spaces, unless the text ends with it. -/
theorem run_gaps (heven : f.normalizeWhitespace) (hmode : s.mode = .code)
    (hpassing : s.passing = false) (hc : isGap c) (v : Text) :
    ∃ k, run f s (c :: v) = List.replicate k ' ' ++ run f .behindComment v ∧
      (v.dropWhile isGap ≠ [] →
        (s.lineStart → s.width + gapWidth c ≤ k) ∧ (¬ s.lineStart → k = 1)) := by
  have hended : { s with lineStart := false, escaped := false, width := 0 } =
      { State.behindComment with mode := .code } := by
    rw [hmode, hpassing]
    rfl
  have hrun := run_gaps_append heven hmode hpassing (List.cons_ne_nil _ _)
    (isGap_of_mem_run hc v) (not_gapAhead_dropWhile v)
  rw [List.cons_append, List.takeWhile_append_dropWhile, hended, ← run_behindComment] at hrun
  refine ⟨_, hrun, fun hne => ⟨fun hstart => ?_, fun hstart => by simp [hne, hstart]⟩⟩
  simp [hne, hstart, gapsWidth]

theorem run_space (heven : f.normalizeWhitespace) (hmode : s.mode = .code)
    (hpassing : s.passing = false) (v : Text) :
    ∃ k, run f s (' ' :: v) = List.replicate k ' ' ++ run f .behindComment v ∧
      (v.dropWhile isGap ≠ [] → 1 ≤ k) := by
  obtain ⟨k, hrun, hk⟩ := run_gaps heven hmode hpassing (c := ' ') (by decide) v
  refine ⟨k, hrun, fun hne => ?_⟩
  obtain ⟨hindent, hsingle⟩ := hk hne
  by_cases hstart : s.lineStart
  · exact (Nat.le_add_left _ _).trans (hindent hstart)
  · exact (hsingle hstart).ge

/-- A gap and a space behind it, next to the gap and a comment behind it. The gap is written as
    one space already, unless it indents its line: then the space makes the indentation wider. -/
theorem exists_run_space_of_gap (heven : f.normalizeWhitespace) (h : Reads f u (some c) s)
    (hc : isGap c) (houtside : s.isOutside) (v : Text) :
    ∃ m n, (step f s c (some '/')).1 = List.replicate m ' ' ∧
      (step f s c (some ' ')).1 ++ run f (step f s c (some ' ')).2 (' ' :: v) =
        List.replicate n ' ' ++ run f .behindComment v ∧
      (v.dropWhile isGap ≠ [] → (m = n ↔ ¬ u.EndsIndenting)) := by
  have hspace : isGap ' ' := by decide
  obtain ⟨hmode | hmode, hpassing⟩ := isOutside_iff.1 houtside
  · obtain ⟨k, hrun, hk⟩ :=
      run_gaps (s := { s with escaped := false, width := s.width + gapWidth c }) heven hmode
        hpassing hspace v
    rw [step_gap heven hmode hpassing hc, step_gap heven hmode hpassing hc,
      gapStep_of_ahead (show gapAhead (some ' ') from hspace), gapStep_of_not_ahead (by decide),
      List.nil_append, hrun]
    refine ⟨_, k, rfl, rfl, fun hne => ?_⟩
    obtain ⟨hindent, hsingle⟩ := hk hne
    rw [← h.indent heven hmode hpassing hc]
    by_cases hstart : s.lineStart
    · have hle : s.width + gapWidth c + 1 ≤ k := hindent hstart
      have hlt : s.width + gapWidth c ≠ k := by omega
      simpa [hstart] using hlt
    · simp [hstart, hsingle hstart]
  · have hstep : ∀ next, step f s c next = ([], s) := by
      intro next
      simp [step, hpassing, hmode, hc]
    have hunescaped : s.escaped = false := h.unescaped (by rw [hmode]; rfl)
    have hrun : run f s (' ' :: v) = run f .behindComment v := by
      rw [run_afterComment hmode hpassing hunescaped (h.width_eq_zero (by simp [hmode])),
        run_behindComment, run_behindComment, List.dropWhile_cons_of_pos hspace]
    rw [hstep, hstep, hrun]
    refine ⟨0, 0, rfl, rfl, fun _ => ?_⟩
    simp [Text.EndsIndenting, h.behind hmode hpassing]

/-- A space behind a text that the scanner leaves outside of literals and comments, next to a
    comment behind it: only the spaces between the two parts can differ. -/
theorem exists_run_space (heven : f.normalizeWhitespace)
    (houtside : (stateAfter f (some '/') .start u).isOutside) (hslash : u.getLast? ≠ some '/')
    (v : Text) :
    ∃ t m n, runBefore f (some '/') .start u = t ++ List.replicate m ' ' ∧
      run f .start (u ++ ' ' :: v) = t ++ (List.replicate n ' ' ++ run f .behindComment v) ∧
      (v.dropWhile isGap ≠ [] → (m = n ↔ u.EndsApart)) := by
  rcases List.eq_nil_or_concat' u with rfl | ⟨w, c, rfl⟩
  · obtain ⟨k, hrun, hk⟩ := run_space (s := .start) heven rfl rfl v
    refine ⟨[], 0, k, rfl, hrun, fun hne => ?_⟩
    have hone := hk hne
    exact iff_of_false (by omega) Text.endsApart_nil
  · have hslash : c ≠ '/' := by simpa using hslash
    have hbefore := reads_stateAfter f (some c) w
    have hreads := reads_stateAfter f (some '/') (w ++ [c])
    rw [run_append, List.head?_cons, runBefore_concat, runBefore_concat, Text.endsApart_concat,
      stateAfter_concat]
    rw [stateAfter_concat] at houtside hreads
    generalize stateAfter f (some c) .start w = σ at houtside hreads hbefore ⊢
    generalize runBefore f (some c) .start w = t
    by_cases hc : isGap c
    · obtain ⟨m, n, hbehind, hrun, hmn⟩ :=
        exists_run_space_of_gap heven hbefore hc (hbefore.isOutside_of_gap hc houtside) v
      refine ⟨t, m, n, by rw [hbehind], by rw [List.append_assoc, hrun], fun hne => ?_⟩
      rw [hmn hne, and_iff_right hc]
    · have hnext : step f σ c (some ' ') = step f σ c (some '/') :=
        step_eq_of_isOutside hslash (by simp) (fun h => hc h.2.2.2) houtside
      obtain ⟨hmode, hpassing⟩ := isOutside_iff.1 houtside
      have hcode : (step f σ c (some '/')).2.mode = .code := by
        refine hmode.resolve_right fun hafter => hslash ?_
        have hlast := hreads.behind hafter hpassing
        rw [List.rdropWhile_concat_neg _ _ _ hc] at hlast
        simpa using hlast
      obtain ⟨k, hrun, hk⟩ := run_space heven hcode hpassing v
      refine ⟨t ++ (step f σ c (some '/')).1, 0, k, by simp, by rw [hnext, hrun], fun hne => ?_⟩
      have hone := hk hne
      exact iff_of_false (by omega) fun h => hc h.1

end Scanner

namespace Source

open Scanner

/-- A comment separates what stands around it like a space does, if it stands behind a gap that
    does not indent its line, or if its line ends with it. Anywhere else the two texts differ: a
    comment between two words joins them, and one in an indentation leaves it as wide as it is. -/
theorem clean_blockComment_eq_space_iff {f : Filter} (hdrops : f.stripBlockComments)
    (heven : f.normalizeWhitespace) {u : Text}
    (houtside : (stateAfter f (some '/') .start u).isOutside) (hslash : u.getLast? ≠ some '/')
    {body : Text} (hbody : '/' ∉ body) (v : Text) :
    clean f (u ++ (blockComment body ++ v)) = clean f (u ++ ' ' :: v) ↔
      u.EndsApart ∨ (run f .behindComment v).StartsBlank := by
  obtain ⟨t, m, n, hbefore, hspace, hmn⟩ := exists_run_space heven houtside hslash v
  have hwidth := (reads_stateAfter f (some '/') u).width_eq_zero_of_not_ahead (by decide)
  generalize hσ : stateAfter f (some '/') .start u = σ at houtside hwidth
  have hlast : body.getLast? ≠ some '/' := fun hlast => hbody (List.mem_of_getLast? hlast)
  have hhead : (blockComment body ++ v).head? = some '/' := rfl
  have hcomment : run f .start (u ++ (blockComment body ++ v)) =
      t ++ (List.replicate m ' ' ++ run f .behindComment v) := by
    rw [run_append, hhead, hσ, hbefore,
      run_blockComment hdrops houtside (closesOnce_of_slash_not_mem hbody), if_neg hlast,
      run_afterComment (s := { σ with mode := .afterComment, escaped := false }) rfl
        (isOutside_iff.1 houtside).2 rfl hwidth, List.append_assoc]
  rw [clean, clean, hcomment, hspace, BlankLines.reduce_spaces_iff]
  by_cases hend : v.dropWhile isGap = []
  · have hblank : (run f .behindComment v).StartsBlank := by
      rw [run_behindComment, hend]
      simp [run, runBefore, Text.StartsBlank]
    simp only [hblank, or_true]
  · rw [hmn hend]

theorem clean_blockComment_eq_space_iff_cells :
    let f : Filter := {}
    let u := "reg = <1 ".toList
    let v := "2>;".toList
    let body := " x ".toList
    f.stripBlockComments ∧ f.normalizeWhitespace ∧
      (stateAfter f (some '/') .start u).isOutside ∧ u.getLast? ≠ some '/' ∧ '/' ∉ body ∧
      clean f (u ++ (blockComment body ++ v)) = clean f (u ++ ' ' :: v) := by
  intro f u v body
  have houtside : (stateAfter f (some '/') .start u).isOutside := by decide +kernel
  have hslash : u.getLast? ≠ some '/' := by decide +kernel
  have hbody : '/' ∉ body := by decide +kernel
  have hends : Text.EndsApart u :=
    (@Text.endsApart_concat ' ' "reg = <1".toList).2
      ⟨by decide, mt (@Text.endsIndenting_concat '1' (by decide) "reg = <".toList).1 (by decide)⟩
  refine ⟨rfl, rfl, houtside, hslash, hbody, ?_⟩
  exact (clean_blockComment_eq_space_iff rfl rfl houtside hslash hbody v).2 (.inl hends)

/-- A comment that touches the words on its two sides joins them. -/
theorem clean_joins_cells :
    let f : Filter := {}
    let u := "reg = <1".toList
    let v := "2>;".toList
    let body := " x ".toList
    (f.stripLineComments ∧ f.stripBlockComments ∧ f.preserveStringLiterals ∧
        f.normalizeWhitespace) ∧
      (stateAfter f (some '/') .start u).isOutside ∧
      (∃ l ∈ (Text.lines u).getLast?, ∃ c ∈ l, ¬ isBlank c) ∧
      u.getLast? ≠ some '/' ∧ u.getLast? ≠ some '\\' ∧ '/' ∉ body ∧
      clean f (u ++ (blockComment body ++ v)) ≠ clean f (u ++ ' ' :: v) := by
  intro f u v body
  have hline : ∃ l ∈ (Text.lines u).getLast?, ∃ c ∈ l, ¬ isBlank c :=
    ⟨u, rfl, '1', by decide +kernel, by decide⟩
  refine ⟨⟨rfl, rfl, rfl, rfl⟩, by decide +kernel, hline, ?_⟩
  decide +kernel

end Source

end Devicetree
