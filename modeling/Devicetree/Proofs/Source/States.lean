-- SUMMARY: What the state of the scanner tells about the text behind it and the character ahead.
import Mathlib.Data.List.DropRight
import Devicetree.Proofs.Source.PlainTexts

/-!
# States of the scanner

The scanner holds a run of gaps back, and passes over the second character of a
mark, only while the character ahead calls for it. In code it knows whether its
line has been gaps alone so far, and behind a comment it stands until something
other than a gap comes. All this holds behind every text that is read from the
start.

The character ahead is looked at by a character that begins a mark and by a gap of
code. Any other character is read alike whatever comes next.
-/

namespace Devicetree

/-! ## Indentations -/

/-- Only gaps have come since the last line feed or carriage return. -/
def Text.EndsIndenting (t : Text) : Prop :=
  ∀ c ∈ (t.rdropWhile isGap).getLast?, c = '\n' ∨ c = '\r'

theorem Text.endsIndenting_nil : Text.EndsIndenting [] := by
  simp [Text.EndsIndenting]

theorem Text.endsIndenting_concat_gap {c : Char} (hc : isGap c) (t : Text) :
    (t ++ [c]).EndsIndenting ↔ t.EndsIndenting := by
  rw [EndsIndenting, EndsIndenting, List.rdropWhile_concat_pos _ _ _ hc]

theorem Text.endsIndenting_concat {c : Char} (hc : ¬ isGap c) (t : Text) :
    (t ++ [c]).EndsIndenting ↔ c = '\n' ∨ c = '\r' := by
  rw [EndsIndenting, List.rdropWhile_concat_neg _ _ _ hc]
  simp

namespace Scanner

variable {f : Filter} {s : State} {c : Char} {next : Option Char} {u : Text}

/-! ## What the state tells about the text behind -/

theorem not_isGap_of_isBreak (hc : c = '\n' ∨ c = '\r') : ¬ isGap c := by
  rcases hc with rfl | rfl <;> decide

/-- The second character of the mark that has led to a mode. -/
def Mode.endsMark : Mode → Char → Bool
  | .code, c => c == '\n'
  | .literal _, _ => false
  | .lineComment, c => c == '/'
  | .blockComment, c => c == '*'
  | .afterComment, c => c == '/'

/-- The scanner behind a text, with the next character in view. -/
structure Reads (f : Filter) (u : Text) (next : Option Char) (s : State) : Prop where
  /-- A run of gaps is held back as long as it goes on. -/
  held : 0 < s.width →
    s.mode = .code ∧ s.passing = false ∧ f.normalizeWhitespace ∧ gapAhead next
  unescaped : s.mode.isComment → s.escaped = false
  passing : s.passing → ∃ d ∈ next, s.mode.endsMark d ∧ (s.mode = .code → s.lineStart)
  indent : f.normalizeWhitespace → s.mode = .code → s.passing = false → gapAhead next →
    (s.lineStart ↔ u.EndsIndenting)
  behind : s.mode = .afterComment → s.passing = false → (u.rdropWhile isGap).getLast? = some '/'

theorem reads_start (f : Filter) (next : Option Char) : Reads f [] next .start where
  held := by simp [State.start]
  unescaped := by simp [State.start]
  passing := by simp [State.start]
  indent := by simp [State.start, Text.endsIndenting_nil]
  behind := by simp [State.start]

theorem Reads.width_eq_zero (h : Reads f u next s) (hs : s.mode ≠ .code) : s.width = 0 := by
  by_contra hwidth
  exact hs (h.held (by omega)).1

theorem Reads.width_eq_zero_of_not_ahead (h : Reads f u next s) (hnext : ¬ gapAhead next) :
    s.width = 0 := by
  by_contra hwidth
  exact hnext (h.held (by omega)).2.2.2

theorem reads_codeStep (hmode : s.mode = .code) (hpassing : s.passing = false)
    (hheld : 0 < s.width → f.normalizeWhitespace ∧ isGap c)
    (hindent : f.normalizeWhitespace → isGap c → (s.lineStart ↔ u.EndsIndenting)) :
    Reads f (u ++ [c]) next (codeStep f s c next).2 := by
  have hwidth : ¬ isGap c → s.width = 0 := by
    intro hc
    by_contra hwidth
    exact hc (hheld (by omega)).2
  have hcase := codeCase f s c next
  generalize codeStep f s c next = r at hcase ⊢
  cases hcase with
  | literal hopens hc hescaped =>
    have hzero := hwidth (not_isGap_of_isQuote hc)
    constructor <;> simp [hzero, hpassing, Mode.isComment]
  | block hdrops hc hnext =>
    subst hc
    have hzero := hwidth (by decide)
    constructor <;> simp [hzero, hnext, Mode.isComment, Mode.endsMark]
  | line hdrops hc hnext =>
    subst hc
    have hzero := hwidth (by decide)
    constructor <;> simp [hzero, hnext, Mode.isComment, Mode.endsMark]
  | newline hevens hc =>
    have hgap := not_isGap_of_isBreak hc
    have hzero := hwidth hgap
    have hends := (Text.endsIndenting_concat hgap u).2 hc
    constructor <;> simp +contextual [hzero, hmode, hends, Mode.isComment, Mode.endsMark]
  | held hevens hc hnext =>
    have hends := Text.endsIndenting_concat_gap hc u
    constructor <;>
      simp [hmode, hpassing, hevens, hnext, hends, hindent hevens hc, Mode.isComment]
  | lost hevens hc hnext =>
    constructor <;> simp [hmode, hpassing, hnext, gapAhead, Mode.isComment]
  | space hevens hc hnext hgap =>
    constructor <;> simp [hmode, hpassing, hgap, Mode.isComment]
  | written hquote hblock hline heven =>
    have hzero : s.width = 0 := by
      by_contra hne
      obtain ⟨hevens, hc⟩ := hheld (by omega)
      exact (heven hevens).2.2 hc
    constructor
    case held => simp [State.written, hzero]
    case unescaped => simp [State.written, hmode, Mode.isComment]
    case passing => simp [State.written, hpassing]
    case indent =>
      intro hevens _ _ _
      obtain ⟨hfeed, hreturn, hgap⟩ := heven hevens
      simp [State.written, Text.endsIndenting_concat hgap, hfeed, hreturn]
    case behind => simp [State.written, hmode]

theorem Reads.passedStep (h : Reads f u (some c) s) (hpassing : s.passing) :
    Reads f (u ++ [c]) next { s with passing := false } := by
  obtain ⟨d, hd, hmark, hstart⟩ := h.passing hpassing
  obtain rfl : c = d := by simpa using hd
  have hwidth : s.width = 0 := by
    by_contra hwidth
    have hheld := (h.held (by omega)).2.1
    simp [hpassing] at hheld
  constructor
  case held => simp [hwidth]
  case unescaped => exact h.unescaped
  case passing => simp
  case indent =>
    intro _ hmode _ _
    rw [hmode] at hmark
    obtain rfl : c = '\n' := by simpa [Mode.endsMark] using hmark
    simpa [hstart hmode] using (Text.endsIndenting_concat (c := '\n') (by decide) u).2 (.inl rfl)
  case behind =>
    intro hmode _
    rw [hmode] at hmark
    obtain rfl : c = '/' := by simpa [Mode.endsMark] using hmark
    rw [List.rdropWhile_concat_neg _ _ _ (by decide), List.getLast?_concat]

theorem Reads.literalStep {q : Char} (h : Reads f u (some c) s) (hmode : s.mode = .literal q)
    (hpassing : s.passing = false) :
    Reads f (u ++ [c]) next (Scanner.literalStep s q c).2 := by
  have hwidth := h.width_eq_zero (by simp [hmode])
  unfold Scanner.literalStep
  split
  · rename_i hquote
    simp only [Bool.and_eq_true] at hquote
    have hends := Text.endsIndenting_concat (not_isGap_of_isQuote hquote.1) u
    have hbreak : ¬ (c = '\n' ∨ c = '\r') := by
      rcases eq_of_isQuote hquote.1 with rfl | rfl <;> decide
    by_cases hc : c = q
    · constructor <;> simp [hc, hwidth, hpassing, Mode.isComment]
      subst hc
      simp [hends, hbreak]
    · constructor <;> simp [hc, hwidth, hpassing, Mode.isComment]
  · constructor <;> simp [State.written, hmode, hwidth, hpassing, Mode.isComment]

/-- A comment that goes on, or the first character of the mark that closes it. -/
theorem Reads.commentStep {s' : State} (h : Reads f u (some c) s) (hcomment : s.mode.isComment)
    (hcomment' : s'.mode.isComment) (hescaped : s'.escaped = s.escaped)
    (hwidth : s'.width = s.width) (hmark : s'.passing → ∃ d ∈ next, s'.mode.endsMark d)
    (hbehind : s'.mode = .afterComment → s'.passing = false →
      isGap c ∧ s.mode = .afterComment ∧ s.passing = false) :
    Reads f (u ++ [c]) next s' := by
  obtain ⟨-, hcode⟩ := Mode.of_isComment hcomment
  obtain ⟨-, hcode'⟩ := Mode.of_isComment hcomment'
  have hzero : s'.width = 0 := hwidth.trans (h.width_eq_zero hcode)
  constructor
  case held => simp [hzero]
  case unescaped => exact fun _ => hescaped.trans (h.unescaped hcomment)
  case passing =>
    intro hpassing
    obtain ⟨d, hd, hends⟩ := hmark hpassing
    exact ⟨d, hd, hends, fun hmode => absurd hmode hcode'⟩
  case indent => exact fun _ hmode => absurd hmode hcode'
  case behind =>
    intro hmode hpassing
    obtain ⟨hgap, hs, hpassing⟩ := hbehind hmode hpassing
    rw [List.rdropWhile_concat_pos _ _ _ hgap]
    exact h.behind hs hpassing

theorem Reads.lineCommentStep (h : Reads f u (some c) s) (hmode : s.mode = .lineComment)
    (hpassing : s.passing = false) :
    Reads f (u ++ [c]) next (Scanner.lineCommentStep f s c next).2 := by
  have hcomment : s.mode.isComment := by rw [hmode]; rfl
  have hwidth := h.width_eq_zero (by simp [hmode])
  unfold Scanner.lineCommentStep
  split
  · rename_i hlone
    simp only [Bool.and_eq_true, beq_iff_eq] at hlone
    obtain ⟨rfl, -⟩ := hlone
    have hends := (Text.endsIndenting_concat (c := '\r') (by decide) u).2 (.inr rfl)
    constructor <;> simp [hwidth, hpassing, Mode.isComment, hends]
  · split
    · rename_i hc
      have hgap := not_isGap_of_isBreak (by simpa using hc)
      exact reads_codeStep rfl hpassing (by simp [hwidth]) fun _ hc => absurd hc hgap
    · exact h.commentStep hcomment hcomment rfl rfl (by simp [hpassing]) (by simp [hmode])

theorem Reads.blockCommentStep (h : Reads f u (some c) s) (hmode : s.mode = .blockComment)
    (hpassing : s.passing = false) :
    Reads f (u ++ [c]) next (Scanner.blockCommentStep s c next).2 := by
  have hcomment : s.mode.isComment := by rw [hmode]; rfl
  unfold Scanner.blockCommentStep
  split
  · rename_i hmark
    simp only [Bool.and_eq_true, beq_iff_eq] at hmark
    exact h.commentStep hcomment hcomment rfl rfl
      (fun _ => ⟨'*', hmark.2, by rw [hmode]; rfl⟩) (by simp [hmode])
  · split
    · rename_i hmark
      simp only [Bool.and_eq_true, beq_iff_eq] at hmark
      exact h.commentStep hcomment rfl rfl rfl (fun _ => ⟨'/', hmark.2, rfl⟩) (by simp)
    · exact h.commentStep hcomment hcomment rfl rfl (by simp [hpassing]) (by simp [hmode])

/-- One step further. -/
theorem Reads.step (h : Reads f u (some c) s) :
    Reads f (u ++ [c]) next (Scanner.step f s c next).2 := by
  rw [Scanner.step]
  split
  · rename_i hpassing
    exact h.passedStep hpassing
  · rename_i hpassing
    have hpassing : s.passing = false := by simpa using hpassing
    cases hmode : s.mode with
    | code =>
      exact reads_codeStep hmode hpassing (fun hwidth => (h.held hwidth).2.2)
        fun hevens hc => h.indent hevens hmode hpassing hc
    | literal q => exact h.literalStep hmode hpassing
    | lineComment => exact h.lineCommentStep hmode hpassing
    | blockComment => exact h.blockCommentStep hmode hpassing
    | afterComment =>
      have hcomment : s.mode.isComment := by rw [hmode]; rfl
      have hwidth := h.width_eq_zero (by simp [hmode])
      dsimp only
      split
      · rename_i hc
        exact h.commentStep hcomment hcomment rfl rfl (by simp [hpassing])
          fun _ _ => ⟨hc, hmode, hpassing⟩
      · rename_i hc
        exact reads_codeStep rfl hpassing (by simp [hwidth]) fun _ hgap => absurd hgap hc

theorem Reads.stateAfter {t : Text} (h : Reads f u (t.head?.or next) s) :
    Reads f (u ++ t) next (Scanner.stateAfter f next s t) := by
  induction t generalizing u s with
  | nil => simpa [Scanner.stateAfter] using h
  | cons c cs ih =>
    have hstep : Reads f (u ++ [c]) (cs.head?.or next) (Scanner.step f s c (cs.head?.or next)).2 :=
      Reads.step (by simpa using h)
    simpa [Scanner.stateAfter] using ih hstep

/-- What is known of the scanner behind a text from its first character on. -/
theorem reads_stateAfter (f : Filter) (next : Option Char) (t : Text) :
    Reads f t next (stateAfter f next .start t) :=
  (reads_start f _).stateAfter

/-! ## The character in view -/

theorem head?_append_or (u v : Text) (next : Option Char) :
    (u ++ v).head?.or next = u.head?.or (v.head?.or next) := by
  cases u <;> rfl

theorem stateAfter_append (f : Filter) (next : Option Char) (s : State) (u v : Text) :
    stateAfter f next s (u ++ v) = stateAfter f next (stateAfter f (v.head?.or next) s u) v := by
  induction u generalizing s with
  | nil => rfl
  | cons d ds ih => rw [List.cons_append, stateAfter, stateAfter, head?_append_or, ih]

theorem runBefore_append (f : Filter) (next : Option Char) (s : State) (u v : Text) :
    runBefore f next s (u ++ v) =
      runBefore f (v.head?.or next) s u ++
        runBefore f next (stateAfter f (v.head?.or next) s u) v := by
  induction u generalizing s with
  | nil => rfl
  | cons d ds ih =>
    rw [List.cons_append, runBefore, runBefore, stateAfter, head?_append_or]
    simp [ih]

theorem stateAfter_concat (f : Filter) (next : Option Char) (s : State) (u : Text) (c : Char) :
    stateAfter f next s (u ++ [c]) = (step f (stateAfter f (some c) s u) c next).2 :=
  stateAfter_append f next s u [c]

theorem runBefore_concat (f : Filter) (next : Option Char) (s : State) (u : Text) (c : Char) :
    runBefore f next s (u ++ [c]) =
      runBefore f (some c) s u ++ (step f (stateAfter f (some c) s u) c next).1 := by
  rw [runBefore_append]
  simp [runBefore]

theorem codeStep_eq_codeStep {a b : Option Char} (hslash : c ≠ '/')
    (hreturn : c = '\r' → a ≠ some '\n' ∧ b ≠ some '\n')
    (hgap : f.normalizeWhitespace → ¬ isGap c) :
    codeStep f s c a = codeStep f s c b := by
  have hpair : (c == '\r' && a == some '\n') = (c == '\r' && b == some '\n') := by
    by_cases hc : c = '\r'
    · rw [beq_eq_false_iff_ne.2 (hreturn hc).1, beq_eq_false_iff_ne.2 (hreturn hc).2]
    · rw [beq_eq_false_iff_ne.2 hc, Bool.false_and, Bool.false_and]
  have hgap : (f.normalizeWhitespace && isGap c) = false := by simpa using hgap
  simp only [codeStep, beq_eq_false_iff_ne.2 hslash, hpair, hgap, Bool.and_false, Bool.false_and,
    Bool.false_eq_true, if_false]

/-- A character that begins no mark and is no gap of code is read alike, whatever comes next. -/
theorem step_eq_step {a b : Option Char} (hslash : c ≠ '/')
    (hreturn : c = '\r' → a ≠ some '\n' ∧ b ≠ some '\n')
    (hstar : s.mode = .blockComment → c ≠ '*')
    (hgap : f.normalizeWhitespace → s.mode = .code → ¬ isGap c) :
    step f s c a = step f s c b := by
  rw [step, step]
  split
  · rfl
  · cases hmode : s.mode with
    | code => exact codeStep_eq_codeStep hslash hreturn fun hevens => hgap hevens hmode
    | literal q => rfl
    | lineComment =>
      have hlone : (c == '\r' && a != some '\n') = (c == '\r' && b != some '\n') := by
        by_cases hc : c = '\r'
        · rw [bne_iff_ne.2 (hreturn hc).1, bne_iff_ne.2 (hreturn hc).2]
        · rw [beq_eq_false_iff_ne.2 hc, Bool.false_and, Bool.false_and]
      simp only [lineCommentStep, hlone]
      split
      · rfl
      · split
        · rename_i hbreak
          have hgap := not_isGap_of_isBreak (by simpa using hbreak)
          exact codeStep_eq_codeStep hslash hreturn fun _ => hgap
        · rfl
    | blockComment => simp [blockCommentStep, hslash, hstar hmode]
    | afterComment =>
      dsimp only
      split
      · rfl
      · rename_i hc
        exact codeStep_eq_codeStep hslash hreturn fun _ => hc

/-! ## Gaps of code -/

theorem codeStep_gap (heven : f.normalizeWhitespace) (hc : isGap c) :
    codeStep f s c next = gapStep s c next := by
  simp only [isGap, Bool.or_eq_true, beq_iff_eq] at hc
  rcases hc with rfl | rfl
  · simp [codeStep, isQuote, isGap, heven]
  · simp [codeStep, isQuote, isGap, heven]

theorem gapStep_of_ahead (h : gapAhead next) :
    gapStep s c next = ([], { s with escaped := false, width := s.width + gapWidth c }) := by
  rw [gapStep, if_pos h]

/-- A run of gaps ends as some spaces, unless the text ends. -/
theorem gapStep_of_not_ahead (h : ¬ gapAhead next) :
    gapStep s c next =
      (List.replicate
          (if next = none then 0 else if s.lineStart then s.width + gapWidth c else 1) ' ',
        { s with lineStart := false, escaped := false, width := 0 }) := by
  rw [gapStep, if_neg h]
  cases next with
  | none => rfl
  | some d => by_cases hstart : s.lineStart <;> simp [hstart]

theorem step_gap (heven : f.normalizeWhitespace) (hmode : s.mode = .code)
    (hpassing : s.passing = false) (hc : isGap c) : step f s c next = gapStep s c next := by
  rw [step, hpassing, if_neg (by simp), hmode]
  exact codeStep_gap heven hc

theorem not_gapAhead_dropWhile (v : Text) : ¬ gapAhead (v.dropWhile isGap).head? := by
  cases hv : v.dropWhile isGap with
  | nil => simp [gapAhead]
  | cons d ds =>
    have hhead := List.head?_dropWhile_not isGap v
    rw [hv] at hhead
    simpa [gapAhead] using hhead

theorem isGap_of_mem_run (hc : isGap c) (v : Text) : ∀ d ∈ c :: v.takeWhile isGap, isGap d := by
  intro d hd
  rcases List.mem_cons.1 hd with rfl | hd
  · exact hc
  · exact List.mem_takeWhile_imp hd

/-- How many columns a run of gaps takes. -/
def gapsWidth : Text → Nat
  | [] => 0
  | c :: cs => gapWidth c + gapsWidth cs

/-- A whole run of gaps ends as some spaces, unless the text ends. -/
theorem gaps_spec (heven : f.normalizeWhitespace) (hmode : s.mode = .code)
    (hpassing : s.passing = false) {w : Text} (hne : w ≠ []) (hw : ∀ c ∈ w, isGap c)
    (hnext : ¬ gapAhead next) :
    runBefore f next s w =
        List.replicate
          (if next = none then 0 else if s.lineStart then s.width + gapsWidth w else 1) ' ' ∧
      stateAfter f next s w = { s with lineStart := false, escaped := false, width := 0 } := by
  induction w generalizing s with
  | nil => exact absurd rfl hne
  | cons c cs ih =>
    have hc : isGap c := hw c (by simp)
    have hcs : ∀ d ∈ cs, isGap d := fun d hd => hw d (by simp [hd])
    unfold runBefore stateAfter
    cases cs with
    | nil =>
      simp [runBefore, stateAfter, step_gap heven hmode hpassing hc, gapStep_of_not_ahead hnext,
        gapsWidth]
    | cons d ds =>
      have hahead : gapAhead ((d :: ds).head?.or next) := hcs d (by simp)
      have hrest := ih (s := { s with escaped := false, width := s.width + gapWidth c }) hmode
        hpassing (by simp) hcs
      simp only [step_gap heven hmode hpassing hc, gapStep_of_ahead hahead, hrest]
      simp [gapsWidth, Nat.add_assoc]

/-- Behind a whole run of gaps nothing of it is left in the state. -/
theorem run_gaps_append (heven : f.normalizeWhitespace) (hmode : s.mode = .code)
    (hpassing : s.passing = false) {w : Text} (hne : w ≠ []) (hw : ∀ c ∈ w, isGap c) {v : Text}
    (hv : ¬ gapAhead v.head?) :
    run f s (w ++ v) =
      List.replicate (if v = [] then 0 else if s.lineStart then s.width + gapsWidth w else 1) ' ' ++
        run f { s with lineStart := false, escaped := false, width := 0 } v := by
  obtain ⟨hwritten, hstate⟩ := gaps_spec heven hmode hpassing hne hw hv
  simp only [run_append, hwritten, hstate, List.head?_eq_none_iff]

/-! ## Outside of literals and comments -/

theorem isOutside_iff :
    s.isOutside ↔ (s.mode = .code ∨ s.mode = .afterComment) ∧ s.passing = false := by
  simp [State.isOutside]

/-- A gap leads out of no literal and no comment. -/
theorem Reads.isOutside_of_gap (h : Reads f u (some c) s) (hc : isGap c)
    (houtside : (Scanner.step f s c next).2.isOutside) : s.isOutside := by
  have hplain : isQuote c = false ∧ c ≠ '/' ∧ c ≠ '*' ∧ c ≠ '\n' ∧ c ≠ '\r' := by
    rcases (by simpa [isGap] using hc : c = ' ' ∨ c = '\t') with rfl | rfl <;> decide
  cases hpassing : s.passing with
  | true =>
    obtain ⟨d, hd, hmark, -⟩ := h.passing hpassing
    obtain rfl : c = d := by simpa using hd
    cases hmode : s.mode <;> simp [hmode, Mode.endsMark, hplain] at hmark
  | false =>
    cases hmode : s.mode with
    | code => simp [State.isOutside, hmode, hpassing]
    | literal q =>
      simp [Scanner.step, hpassing, hmode, Scanner.literalStep, hplain, State.isOutside,
        State.written] at houtside
    | lineComment =>
      simp [Scanner.step, hpassing, hmode, Scanner.lineCommentStep, hplain, State.isOutside]
        at houtside
    | blockComment =>
      simp [Scanner.step, hpassing, hmode, Scanner.blockCommentStep, hplain, State.isOutside]
        at houtside
    | afterComment => simp [State.isOutside, hmode, hpassing]

/-- A character behind which the scanner is outside is read alike whatever follows, if it begins
    no mark and is no gap of code. -/
theorem step_eq_of_isOutside {a b : Option Char} (hslash : c ≠ '/')
    (hreturn : c = '\r' → a ≠ some '\n' ∧ b ≠ some '\n')
    (hgap : ¬ (f.normalizeWhitespace ∧ s.mode = .code ∧ s.passing = false ∧ isGap c))
    (houtside : (step f s c a).2.isOutside) : step f s c b = step f s c a := by
  cases hpassing : s.passing with
  | true => rw [step, step, if_pos hpassing, if_pos hpassing]
  | false =>
    refine step_eq_step hslash (fun hc => (hreturn hc).symm) ?_ ?_
    · rintro hmode rfl
      by_cases hclose : a = some '/'
      · simp [step, hpassing, hmode, blockCommentStep, State.isOutside, hclose] at houtside
      · simp [step, hpassing, hmode, blockCommentStep, State.isOutside, hclose] at houtside
    · exact fun heven hmode hc => hgap ⟨heven, hmode, hpassing, hc⟩

end Scanner

end Devicetree
