-- SUMMARY: What the scanner makes of a comment, whatever it holds and whatever stands around it.
import Devicetree.Proofs.Source.LineEnds
import Devicetree.Proofs.Source.States

/-!
# Comments

A comment between marks leaves the state in which its opening mark was read, but
for what follows right behind it, and a comment to the end of its line leaves what
the end of the line makes of any state. The texts around a comment are followed
from these two facts.

The opening mark is looked for inside a comment as well. A slash right in front of
the closing mark forms one with its star, and so keeps the comment open.
-/

namespace Devicetree

namespace Scanner

variable {f : Filter} {s : State}

/-! ## Bodies -/

/-- A comment between marks. -/
def blockComment (body : Text) : Text :=
  '/' :: '*' :: (body ++ ['*', '/'])

/-- The first closing mark behind an opening one is the one that stands behind the body. -/
def ClosesOnce (body : Text) : Prop :=
  ∀ u v, body ++ ['*', '/'] = u ++ '*' :: '/' :: v → v = []

theorem ClosesOnce.of_cons {c : Char} {cs : Text} (h : ClosesOnce (c :: cs)) : ClosesOnce cs :=
  fun u v heq => h (c :: u) v (by rw [List.cons_append, heq, List.cons_append])

/-- No closing mark begins inside of the body. -/
theorem ClosesOnce.behind_star {cs : Text} (h : ClosesOnce ('*' :: cs)) :
    cs.head?.getD '*' ≠ '/' := by
  intro hhead
  cases cs with
  | nil => simp at hhead
  | cons d ds =>
    obtain rfl : d = '/' := hhead
    have hnil := h [] (ds ++ ['*', '/']) rfl
    simp at hnil

theorem closesOnce_iff {body : Text} : ClosesOnce body ↔ ¬ ['*', '/'] <:+: body ++ ['*'] := by
  constructor
  · rintro h ⟨u, v, heq⟩
    have hv := h u (v ++ ['/']) (by simpa using (congrArg (· ++ ['/']) heq).symm)
    simp at hv
  · intro h u v heq
    by_contra hv
    have hsplit : body ++ ['*'] ++ ['/'] = u ++ ['*', '/'] ++ v := by simpa using heq
    have hlast := congrArg List.dropLast hsplit
    rw [List.dropLast_concat, List.dropLast_append_of_ne_nil hv] at hlast
    exact h ⟨u, v.dropLast, hlast.symm⟩

instance (body : Text) : Decidable (ClosesOnce body) :=
  decidable_of_iff _ closesOnce_iff.symm

theorem closesOnce_of_slash_not_mem {body : Text} (h : '/' ∉ body) : ClosesOnce body := by
  rw [closesOnce_iff]
  intro hinfix
  have hmem : '/' ∈ body ++ ['*'] := hinfix.subset (by simp)
  simp [h] at hmem

/-- The second character of a mark is passed over. -/
theorem run_passing (f : Filter) (hpassing : s.passing = false) (c : Char) (cs : Text) :
    run f { s with passing := true } (c :: cs) = run f s cs := by
  have hself : { s with passing := false } = s := by rw [← hpassing]
  rw [run_cons, step, if_pos rfl]
  exact congrArg (run f · cs) hself

/-- A body is passed over up to its closing mark, which counts unless a slash stands right in
    front of it. -/
theorem run_body (hmode : s.mode = .blockComment) (hpassing : s.passing = false) {body : Text}
    (hbody : ClosesOnce body) (rest : Text) :
    run f s (body ++ '*' :: '/' :: rest) =
      if body.getLast? = some '/' then run f s ('/' :: rest)
      else run f { s with mode := .afterComment } rest := by
  have hstep : ∀ c cs, run f s (c :: cs) = (blockCommentStep s c cs.head?).1 ++
      run f (blockCommentStep s c cs.head?).2 cs := by
    intro c cs
    rw [run_cons, step, hpassing, if_neg (by simp), hmode]
  have hmark : ∀ t, run f s ('/' :: '*' :: t) = run f s t := by
    intro t
    rw [hstep]
    exact run_passing f hpassing '*' t
  -- An opening mark in the body is passed over as a whole, so two characters may go at once.
  induction hn : body.length using Nat.strong_induction_on generalizing body with
  | _ n ih =>
    cases body with
    | nil =>
      rw [List.nil_append, hstep]
      exact run_passing f (s := { s with mode := .afterComment }) hpassing '/' rest
    | cons c cs =>
      have hshorter : cs.length < n := by simp [← hn]
      by_cases hslash : c = '/' ∧ cs.head?.getD '*' = '*'
      · obtain ⟨rfl, hhead⟩ := hslash
        cases cs with
        | nil => exact hmark ('/' :: rest)
        | cons d ds =>
          obtain rfl : d = '*' := hhead
          have hds := ih ds.length (by simp at hshorter; omega) hbody.of_cons.of_cons rfl
          have hlast : ('/' :: '*' :: ds).getLast? = some '/' ↔ ds.getLast? = some '/' := by
            cases ds <;> simp
          rw [List.cons_append, List.cons_append, hmark, hds, if_congr hlast rfl rfl]
      · have hcs := ih cs.length hshorter hbody.of_cons rfl
        have hnext : (cs ++ '*' :: '/' :: rest).head? = some (cs.head?.getD '*') := by
          cases cs <;> rfl
        have hopen : c = '*' → cs.head?.getD '*' ≠ '/' := by
          rintro rfl
          exact hbody.behind_star
        have hquiet : blockCommentStep s c (some (cs.head?.getD '*')) = ([], s) := by
          unfold blockCommentStep
          rw [if_neg (by simpa using hslash), if_neg (by simpa using hopen)]
        have hlast : (c :: cs).getLast? = some '/' ↔ cs.getLast? = some '/' := by
          cases cs with
          | nil => simpa using hslash
          | cons d ds => simp
        rw [List.cons_append, hstep, hnext, hquiet, List.nil_append, hcs, if_congr hlast rfl rfl]

/-! ## Comments -/

/-- Outside of literals and comments, a slash opens a comment if the mark goes on with a star. -/
theorem step_blockMark (hdrops : f.stripBlockComments) (hs : s.isOutside) :
    step f s '/' (some '*') =
      ([], { s with mode := .blockComment, escaped := false, passing := true }) := by
  obtain ⟨hmode | hmode, hpassing⟩ := isOutside_iff.1 hs
  · simp [step, hpassing, hmode, codeStep, isQuote, hdrops]
  · simp [step, hpassing, hmode, isGap, codeStep, isQuote, hdrops]

theorem step_lineMark (hdrops : f.stripLineComments) (hs : s.isOutside) :
    step f s '/' (some '/') =
      ([], { s with mode := .lineComment, escaped := false, passing := true }) := by
  obtain ⟨hmode | hmode, hpassing⟩ := isOutside_iff.1 hs
  · simp [step, hpassing, hmode, codeStep, isQuote, hdrops]
  · simp [step, hpassing, hmode, isGap, codeStep, isQuote, hdrops]

theorem run_blockMark (hdrops : f.stripBlockComments) (hs : s.isOutside) (rest : Text) :
    run f s ('/' :: '*' :: rest) =
      run f { s with mode := .blockComment, escaped := false } rest := by
  have hpassing := (isOutside_iff.1 hs).2
  rw [run_cons, List.head?_cons, step_blockMark hdrops hs]
  exact run_passing f (s := { s with mode := .blockComment, escaped := false }) hpassing '*' rest

/-- A comment that closes at its mark leaves nothing; one that does not goes on. -/
theorem run_blockComment (hdrops : f.stripBlockComments) (hs : s.isOutside) {body : Text}
    (hbody : ClosesOnce body) (rest : Text) :
    run f s (blockComment body ++ rest) =
      if body.getLast? = some '/' then run f s ("/*/".toList ++ rest)
      else run f { s with mode := .afterComment, escaped := false } rest := by
  have hmark : "/*/".toList ++ rest = '/' :: '*' :: '/' :: rest := rfl
  have hcomment : blockComment body ++ rest = '/' :: '*' :: (body ++ '*' :: '/' :: rest) := by
    simp [blockComment]
  rw [hmark, hcomment, run_blockMark hdrops hs, run_blockMark hdrops hs,
    run_body (s := { s with mode := .blockComment, escaped := false }) rfl (isOutside_iff.1 hs).2
      hbody]

/-- A comment reaches to the end of its line. -/
theorem run_lineComment (hdrops : f.stripLineComments) (hs : s.isOutside) {body : Text}
    (hbody : ∀ c ∈ body, c ≠ '\n' ∧ c ≠ '\r') (rest : Text) :
    run f s ('/' :: '/' :: (body ++ rest)) =
      run f { s with mode := .lineComment, escaped := false } rest := by
  have hpassing := (isOutside_iff.1 hs).2
  have hmark : run f s ('/' :: '/' :: (body ++ rest)) =
      run f { s with mode := .lineComment, escaped := false } (body ++ rest) := by
    rw [run_cons, List.head?_cons, step_lineMark hdrops hs]
    exact run_passing f (s := { s with mode := .lineComment, escaped := false }) hpassing '/'
      (body ++ rest)
  rw [hmark]
  clear hmark
  induction body with
  | nil => rfl
  | cons c cs ih =>
    obtain ⟨hfeed, hreturn⟩ := hbody c (by simp)
    rw [List.cons_append, run_cons]
    refine Eq.trans ?_ (ih fun d hd => hbody d (by simp [hd]))
    simp [step, hpassing, lineCommentStep, hfeed, hreturn]

end Scanner

namespace Source

open Scanner

theorem clean_blockComment_append {f : Filter} (hdrops : f.stripBlockComments) {u : Text}
    (houtside : (stateAfter f (some '/') .start u).isOutside) {body : Text}
    (hbody : ClosesOnce body) (v : Text) :
    clean f (u ++ (blockComment body ++ v)) =
      if body.getLast? = some '/' then clean f (u ++ ("/*/".toList ++ v))
      else clean f (u ++ (blockComment [] ++ v)) := by
  have hrun : ∀ t : Text, t.head? = some '/' → clean f (u ++ t) =
      BlankLines.reduce (runBefore f (some '/') .start u ++
        run f (stateAfter f (some '/') .start u) t) := by
    intro t ht
    rw [clean, run_append, ht]
  have hnil := run_blockComment hdrops houtside (by decide : ClosesOnce []) v
  rw [hrun _ rfl, hrun _ rfl, hrun _ rfl, run_blockComment hdrops houtside hbody, hnil]
  split <;> simp

/-- Behind the first closing mark of a comment it does not matter what stands in the comment,
    but for one thing: a slash right in front of the mark makes an opening mark with its star,
    and the comment goes on. -/
theorem clean_blockComment_eq_iff {f : Filter} (hdrops : f.stripBlockComments) {u : Text}
    (houtside : (stateAfter f (some '/') .start u).isOutside) {c d : Text} (hc : ClosesOnce c)
    (hd : ClosesOnce d) (v : Text) :
    clean f (u ++ (blockComment c ++ v)) = clean f (u ++ (blockComment d ++ v)) ↔
      (c.getLast? = some '/' ↔ d.getLast? = some '/') ∨
        clean f (u ++ (blockComment [] ++ v)) = clean f (u ++ ("/*/".toList ++ v)) := by
  rw [clean_blockComment_append hdrops houtside hc, clean_blockComment_append hdrops houtside hd]
  by_cases hslash : c.getLast? = some '/'
  · by_cases hslash' : d.getLast? = some '/'
    · simp [hslash, hslash']
    · rw [if_pos hslash, if_neg hslash', eq_comm]
      simp [hslash, hslash']
  · by_cases hslash' : d.getLast? = some '/'
    · simp [hslash, hslash']
    · simp [hslash, hslash']

theorem clean_blockComment_eq_iff_marks :
    let f : Filter := {}
    let u := "a; ".toList
    let v := " b;\n".toList
    let c := " x // \" /* \n".toList
    let d := "**".toList
    f.stripBlockComments ∧ (stateAfter f (some '/') .start u).isOutside ∧
      ClosesOnce c ∧ ClosesOnce d ∧
      clean f (u ++ (blockComment c ++ v)) = clean f (u ++ (blockComment d ++ v)) := by
  intro f u v c d
  have houtside : (stateAfter f (some '/') .start u).isOutside := by decide +kernel
  have hc : ClosesOnce c := by decide +kernel
  have hd : ClosesOnce d := by decide +kernel
  refine ⟨rfl, houtside, hc, hd, ?_⟩
  exact (clean_blockComment_eq_iff rfl houtside hc hd v).2 (.inl (by decide +kernel))

/-- A body that ends in a slash matters: its comment stays open. -/
theorem clean_ne_of_slash :
    let f : Filter := {}
    let u := "a; ".toList
    let v := " b;".toList
    f.stripBlockComments ∧ (stateAfter f (some '/') .start u).isOutside ∧
      u.getLast? ≠ some '/' ∧ ClosesOnce " old/".toList ∧ ClosesOnce " old".toList ∧
      clean f (u ++ (blockComment " old/".toList ++ v)) ≠
        clean f (u ++ (blockComment " old".toList ++ v)) := by
  decide +kernel

end Source

namespace Scanner

variable {f : Filter} {s : State} {c : Char} {next : Option Char} {u : Text}

/-! ## The end of a line -/

/-- In front of a comment and in front of the end of a line the scanner is in the same state, and
    has written the same but for spaces at the end of the text. -/
theorem lookahead_slash (hlast : ∀ d ∈ u.getLast?, d ≠ '/' ∧ d ≠ '\r')
    (houtside : (stateAfter f next .start u).isOutside) (hnext : ¬ gapAhead next) :
    stateAfter f (some '/') .start u = stateAfter f next .start u ∧
      ∃ n, runBefore f (some '/') .start u = runBefore f next .start u ++ List.replicate n ' ' ∧
        (next ≠ none → n = 0) := by
  rcases List.eq_nil_or_concat' u with rfl | ⟨t, c, rfl⟩
  · exact ⟨rfl, 0, rfl, fun _ => rfl⟩
  · rw [stateAfter_concat] at houtside
    rw [stateAfter_concat, stateAfter_concat, runBefore_concat, runBefore_concat]
    generalize stateAfter f (some c) .start t = σ at houtside ⊢
    obtain ⟨hslash, hreturn⟩ := hlast c (by simp)
    by_cases hgap : f.normalizeWhitespace ∧ σ.mode = .code ∧ σ.passing = false ∧ isGap c
    · obtain ⟨heven, hmode, hpassing, hc⟩ := hgap
      rw [step_gap heven hmode hpassing hc, step_gap heven hmode hpassing hc,
        gapStep_of_not_ahead hnext, gapStep_of_not_ahead (by decide)]
      refine ⟨rfl, ?_⟩
      cases next with
      | none =>
        exact ⟨if σ.lineStart then σ.width + gapWidth c else 1, by simp, fun h => absurd rfl h⟩
      | some d => exact ⟨0, by simp, fun _ => rfl⟩
    · rw [step_eq_of_isOutside (b := some '/') hslash (fun hc => absurd hc hreturn) hgap houtside]
      exact ⟨rfl, 0, by simp, fun _ => rfl⟩

/-- A character that ends a line leaves nothing of the state in front of it. -/
theorem codeStep_break (hpassing : s.passing = false) (hwidth : s.width = 0)
    (hc : c = '\n' ∨ c = '\r') :
    codeStep f { s with mode := .code } c next = codeStep f .start c next := by
  have hplain : isQuote c = false ∧ c ≠ '/' ∧ isGap c = false ∧ c ≠ '\\' := by
    rcases hc with rfl | rfl <;> decide
  by_cases heven : f.normalizeWhitespace
  · simp [codeStep, hplain, heven, hc, hwidth, State.start]
  · simp [codeStep, hplain, heven, State.written, hpassing, hwidth, State.start]

theorem step_break (hmode : s.mode = .code ∨ s.mode = .lineComment ∨ s.mode = .afterComment)
    (hpassing : s.passing = false) (hwidth : s.width = 0)
    (hc : c = '\n' ∨ c = '\r' ∧ next = some '\n') : step f s c next = step f .start c next := by
  have hbreak : c = '\n' ∨ c = '\r' := hc.imp_right And.left
  have hgap := not_isGap_of_isBreak hbreak
  have hstart : step f .start c next = codeStep f .start c next := rfl
  rw [hstart, step, hpassing, if_neg (by simp)]
  rcases hmode with hmode | hmode | hmode
  · have hself : { s with mode := .code } = s := by rw [← hmode]
    rw [hmode, ← codeStep_break hpassing hwidth hbreak, hself]
  · have hlone : (c == '\r' && next != some '\n') = false := by
      rcases hc with rfl | ⟨rfl, rfl⟩ <;> rfl
    rw [hmode]
    simp only [lineCommentStep, hlone, Bool.false_eq_true, if_false]
    rw [if_pos (by simpa using hbreak)]
    exact codeStep_break (s := { s with lineStart := true }) hpassing hwidth hbreak
  · rw [hmode]
    simp only [hgap, Bool.false_eq_true, if_false]
    exact codeStep_break (s := { s with passing := false }) rfl hwidth hbreak

theorem not_gapAhead_lineEnd {v : Text} (hv : v = [] ∨ ['\n'] <+: v ∨ ['\r', '\n'] <+: v) :
    ¬ gapAhead v.head? := by
  rcases hv with rfl | ⟨r, rfl⟩ | ⟨r, rfl⟩ <;> simp [gapAhead, isGap]

/-- Where a line ends, the scanner starts afresh. -/
theorem run_lineEnd (hmode : s.mode = .code ∨ s.mode = .lineComment ∨ s.mode = .afterComment)
    (hpassing : s.passing = false) (hwidth : s.width = 0) {v : Text}
    (hv : v = [] ∨ ['\n'] <+: v ∨ ['\r', '\n'] <+: v) : run f s v = run f .start v := by
  rcases hv with rfl | ⟨r, rfl⟩ | ⟨r, rfl⟩
  · rfl
  · have hstep : step f s '\n' r.head? = step f .start '\n' r.head? :=
      step_break hmode hpassing hwidth (.inl rfl)
    rw [List.singleton_append, run_cons, hstep, ← run_cons]
  · have hstep := step_break (f := f) hmode hpassing hwidth (.inr ⟨rfl, rfl⟩)
    rw [List.cons_append, run_cons, List.singleton_append, List.head?_cons, hstep]
    exact (run_cons f .start '\r' ('\n' :: r)).symm

end Scanner

namespace Source

open Scanner

/-- What the scanner makes nothing of at the end of a line might as well not be there. The spaces
    in front of it go with the end of the line. -/
theorem clean_append_of_run {f : Filter} {u v t : Text}
    (houtside : (stateAfter f v.head? .start u).isOutside)
    (hlast : ∀ d ∈ u.getLast?, d ≠ '/' ∧ d ≠ '\r')
    (hv : v = [] ∨ ['\n'] <+: v ∨ ['\r', '\n'] <+: v) (ht : t.head? = some '/')
    (hrun : run f (stateAfter f v.head? .start u) t = run f (stateAfter f v.head? .start u) v) :
    clean f (u ++ t) = clean f (u ++ v) := by
  obtain ⟨hstate, n, hwritten, hn⟩ := lookahead_slash hlast houtside (not_gapAhead_lineEnd hv)
  rw [clean, clean, run_append, run_append, ht, hstate, hrun, hwritten, List.append_assoc]
  by_cases hnil : v = []
  · subst hnil
    exact BlankLines.reduce_spaces_of_startsBlank (by simp [run, runBefore, Text.StartsBlank]) _ n
  · rw [hn (by simpa using hnil), List.replicate_zero, List.nil_append]

/-- A comment at the end of a line leaves nothing: neither a line comment nor, on one line or
    several, a comment between marks. -/
theorem clean_trailingComment {f : Filter} {u v : Text}
    (houtside : (stateAfter f v.head? .start u).isOutside)
    (hlast : ∀ d ∈ u.getLast?, d ≠ '/' ∧ d ≠ '\r')
    (hv : v = [] ∨ ['\n'] <+: v ∨ ['\r', '\n'] <+: v) (body : Text) :
    (f.stripLineComments → (∀ c ∈ body, c ≠ '\n' ∧ c ≠ '\r') →
      clean f (u ++ '/' :: '/' :: (body ++ v)) = clean f (u ++ v)) ∧
    (f.stripBlockComments → '/' ∉ body →
      clean f (u ++ (blockComment body ++ v)) = clean f (u ++ v)) := by
  have hwidth := (reads_stateAfter f v.head? u).width_eq_zero_of_not_ahead (not_gapAhead_lineEnd hv)
  have hskip := fun t => @clean_append_of_run f u v t houtside hlast hv
  generalize stateAfter f v.head? .start u = σ at houtside hwidth hskip
  obtain ⟨hmode, hpassing⟩ := isOutside_iff.1 houtside
  have hend : run f σ v = run f .start v := run_lineEnd (hmode.imp_right .inr) hpassing hwidth hv
  constructor
  · intro hdrops hbody
    refine hskip _ rfl ?_
    rw [run_lineComment hdrops houtside hbody, hend]
    exact run_lineEnd (s := { σ with mode := .lineComment, escaped := false }) (.inr (.inl rfl))
      hpassing hwidth hv
  · intro hdrops hbody
    have hslash : body.getLast? ≠ some '/' := fun hslash => hbody (List.mem_of_getLast? hslash)
    refine hskip _ rfl ?_
    rw [run_blockComment hdrops houtside (closesOnce_of_slash_not_mem hbody), if_neg hslash, hend]
    exact run_lineEnd (s := { σ with mode := .afterComment, escaped := false }) (.inr (.inr rfl))
      hpassing hwidth hv

theorem clean_trailingComment_status :
    let f : Filter := {}
    let u := "status = \"okay\"; ".toList
    let v := "\r\nreg;\n".toList
    let body := " \"quoted\" \\".toList
    (stateAfter f v.head? .start u).isOutside ∧ (∀ d ∈ u.getLast?, d ≠ '/' ∧ d ≠ '\r') ∧
      (v = [] ∨ ['\n'] <+: v ∨ ['\r', '\n'] <+: v) ∧
      f.stripLineComments ∧ (∀ c ∈ body, c ≠ '\n' ∧ c ≠ '\r') ∧
      clean f (u ++ '/' :: '/' :: (body ++ v)) = clean f (u ++ v) ∧
      f.stripBlockComments ∧ '/' ∉ body ∧
      clean f (u ++ (blockComment body ++ v)) = clean f (u ++ v) := by
  intro f u v body
  have houtside : (stateAfter f v.head? .start u).isOutside := by decide +kernel
  have hlast : ∀ d ∈ u.getLast?, d ≠ '/' ∧ d ≠ '\r' := by
    intro d hd
    obtain rfl : ' ' = d := Option.some.inj hd
    decide
  have hv : v = [] ∨ ['\n'] <+: v ∨ ['\r', '\n'] <+: v := .inr (.inr ⟨"reg;\n".toList, rfl⟩)
  have hline : ∀ c ∈ body, c ≠ '\n' ∧ c ≠ '\r' := by
    intro c hc
    have hbreaks : '\n' ∉ body ∧ '\r' ∉ body := by decide +kernel
    exact ⟨ne_of_mem_of_not_mem hc hbreaks.1, ne_of_mem_of_not_mem hc hbreaks.2⟩
  have hslash : '/' ∉ body := by decide +kernel
  obtain ⟨hlines, hblocks⟩ := clean_trailingComment houtside hlast hv body
  exact ⟨houtside, hlast, hv, rfl, hline, hlines rfl hline, rfl, hslash, hblocks rfl hslash⟩

end Source

end Devicetree
