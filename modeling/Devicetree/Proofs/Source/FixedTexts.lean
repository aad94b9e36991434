-- SUMMARY: A text is left alone by cleaning if and only if it is quiet and reduced.
import Devicetree.Proofs.Source.QuietTexts
import Devicetree.Source.Clean

/-!
# Texts that are clean

The scanner writes a quiet text as it is. Nothing else comes back: what is dropped
or changed makes a text smaller, if a tab counts for more than the spaces it is
written as and a carriage return for more than a line feed, and reducing blank lines
makes nothing larger. So the clean texts are those that are quiet and reduced.
-/

namespace Devicetree

namespace Scanner

/-! ## One character -/

theorem not_isGap_of_isQuote {c : Char} (h : isQuote c) : ¬ isGap c := by
  rcases eq_of_isQuote h with rfl | rfl
  · decide
  · decide

theorem one_le_gapWidth (c : Char) : 1 ≤ gapWidth c := by
  unfold gapWidth
  split <;> decide

/-- What can happen to a character of code. -/
inductive CodeCase (f : Filter) (s : State) (c : Char) (next : Option Char) :
    Text × State → Prop where
  | literal (hopens : f.preserveStringLiterals) (hc : isQuote c) (hescaped : s.escaped = false) :
      CodeCase f s c next
        ([c], { s with mode := .literal c, lineStart := false, escaped := false })
  | block (hdrops : f.stripBlockComments) (hc : c = '/') (hnext : next = some '*') :
      CodeCase f s c next
        ([], { s with mode := .blockComment, escaped := false, passing := true })
  | line (hdrops : f.stripLineComments) (hc : c = '/') (hnext : next = some '/') :
      CodeCase f s c next
        ([], { s with mode := .lineComment, escaped := false, passing := true })
  | newline (hevens : f.normalizeWhitespace) (hc : c = '\n' ∨ c = '\r') :
      CodeCase f s c next
        (['\n'], { s with
          lineStart := true, escaped := false, passing := c == '\r' && next == some '\n' })
  | held (hevens : f.normalizeWhitespace) (hc : isGap c) (hnext : gapAhead next) :
      CodeCase f s c next ([], { s with escaped := false, width := s.width + gapWidth c })
  | lost (hevens : f.normalizeWhitespace) (hc : isGap c) (hnext : next = none) :
      CodeCase f s c next ([], { s with lineStart := false, escaped := false, width := 0 })
  | space (hevens : f.normalizeWhitespace) (hc : isGap c) (hnext : next ≠ none)
      (hgap : ¬ gapAhead next) :
      CodeCase f s c next
        (if s.lineStart then List.replicate (s.width + gapWidth c) ' ' else [' '],
          { s with lineStart := false, escaped := false, width := 0 })
  | written (hquote : f.preserveStringLiterals → isQuote c → s.escaped)
      (hblock : f.stripBlockComments → c = '/' → next ≠ some '*')
      (hline : f.stripLineComments → c = '/' → next ≠ some '/')
      (heven : f.normalizeWhitespace → c ≠ '\n' ∧ c ≠ '\r' ∧ ¬ isGap c) :
      CodeCase f s c next ([c], s.written c)

theorem codeCase (f : Filter) (s : State) (c : Char) (next : Option Char) :
    CodeCase f s c next (codeStep f s c next) := by
  unfold codeStep
  split
  · rename_i h
    simp only [Bool.and_eq_true, Bool.not_eq_true'] at h
    exact .literal h.1.1 h.1.2 h.2
  · rename_i hquote
    split
    · rename_i h
      simp only [Bool.and_eq_true, beq_iff_eq] at h
      exact .block h.1.1 h.1.2 h.2
    · rename_i hblock
      split
      · rename_i h
        simp only [Bool.and_eq_true, beq_iff_eq] at h
        exact .line h.1.1 h.1.2 h.2
      · rename_i hline
        split
        · rename_i h
          simp only [Bool.and_eq_true, Bool.or_eq_true, beq_iff_eq] at h
          exact .newline h.1 h.2
        · rename_i hnewline
          split
          · rename_i h
            simp only [Bool.and_eq_true] at h
            unfold gapStep
            split
            · rename_i hgap
              exact .held h.1 h.2 hgap
            · rename_i hgap
              cases next with
              | none => exact .lost h.1 h.2 rfl
              | some d => exact .space h.1 h.2 (by simp) hgap
          · rename_i hgap
            exact .written (by simpa using hquote) (by simpa using hblock) (by simpa using hline)
              (by grind)

/-! ## Quiet text is left alone -/

variable {f : Filter} {s : State} {κ : Trail} {c : Char} {cs : Text}

/-- The scanner in a text that it has left alone so far, but for the spaces it holds
    back: they indent a line that goes on. -/
structure Tracks (f : Filter) (s : State) (κ : Trail) (rest : Text) : Prop where
  passing : s.passing = false
  mode : s.mode = κ.quote.elim .code .literal
  escaped : κ.escaped = s.escaped
  held : 0 < s.width →
    κ.quote = none ∧ f.normalizeWhitespace ∧ s.lineStart ∧ gapAhead rest.head?
  indent : κ.quote = none → f.normalizeWhitespace → gapAhead rest.head? → s.lineStart = κ.indent

theorem tracks_start (f : Filter) (t : Text) : Tracks f .start (.atLine none) t :=
  ⟨rfl, rfl, rfl, by simp [State.start], fun _ _ _ => rfl⟩

theorem Tracks.width_eq_zero (h : Tracks f s κ (c :: cs))
    (hc : κ.quote = none → f.normalizeWhitespace → ¬ isGap c) : s.width = 0 := by
  by_contra hwidth
  obtain ⟨hquote, hevens, -, hgap⟩ := h.held (by omega)
  exact hc hquote hevens (by simpa [gapAhead] using hgap)

/-- Nothing that begins with the character gives the scanner a reason to drop or to
    change anything. -/
structure Undisturbed (f : Filter) (s : State) (κ : Trail) (c : Char) (cs : Text) : Prop where
  admits : κ.Admits f c
  block : f.stripBlockComments → c = '/' → cs.head? ≠ some '*'
  line : f.stripLineComments → c = '/' → cs.head? ≠ some '/'
  held : f.normalizeWhitespace → isGap c → gapAhead cs.head? → s.lineStart
  ended : f.normalizeWhitespace → cs = [] → ¬ isGap c

/-- A step that writes the character, or holds it back as a space of an indentation. -/
def Tracks.Kept (f : Filter) (s : State) (κ : Trail) (c : Char) (cs : Text)
    (r : Text × State) : Prop :=
  r.1 ++ List.replicate r.2.width ' ' = List.replicate s.width ' ' ++ [c] ∧
    Tracks f r.2 (κ.advance f c) cs

theorem Tracks.literalStep {q : Char} (h : Tracks f s κ (c :: cs)) (hq : κ.quote = some q) :
    Kept f s κ c cs (Scanner.literalStep s q c) := by
  have hwidth : s.width = 0 := h.width_eq_zero (by simp [hq])
  have hmode : s.mode = .literal q := by simp [h.mode, hq]
  simp only [Kept, Scanner.literalStep, Trail.advance, hq, h.escaped]
  split
  · refine ⟨by simp [hwidth], h.passing, ?_, rfl, by simp [hwidth], fun _ _ _ => rfl⟩
    by_cases hcq : c = q
    · simp [hcq]
    · simp [hcq]
  · exact ⟨by simp [hwidth, State.written], h.passing, hmode, rfl, by simp [State.written, hwidth],
      by simp⟩

theorem Tracks.codeStep (h : Tracks f s κ (c :: cs)) (hq : κ.quote = none)
    (hcalm : Undisturbed f s κ c cs) : Kept f s κ c cs (Scanner.codeStep f s c cs.head?) := by
  have hmode : s.mode = .code := by simp [h.mode, hq]
  have hspace : f.normalizeWhitespace → isGap c → c = ' ' := hcalm.admits.eq_space hq
  have hcase := codeCase f s c cs.head?
  generalize Scanner.codeStep f s c cs.head? = r at hcase ⊢
  cases hcase with
  | literal hopens hc hescaped =>
    have hwidth := h.width_eq_zero fun _ _ => not_isGap_of_isQuote hc
    simp only [Kept, Trail.advance, hq, hopens, hc, h.escaped, hescaped]
    exact ⟨by simp [hwidth], h.passing, rfl, rfl, by simp [hwidth], by simp⟩
  | block hdrops hc hnext => exact absurd hnext (hcalm.block hdrops hc)
  | line hdrops hc hnext => exact absurd hnext (hcalm.line hdrops hc)
  | newline hevens hc =>
    obtain rfl : c = '\n' := hc.resolve_right (hcalm.admits.plain hq hevens).1
    have hwidth := h.width_eq_zero fun _ _ => by decide
    rw [Kept, Trail.advance_newline, hq]
    exact ⟨by simp [hwidth], rfl, hmode, rfl, by simp [hwidth], fun _ _ _ => rfl⟩
  | held hevens hc hnext =>
    obtain rfl := hspace hevens hc
    have hindent : s.lineStart = κ.indent := h.indent hq hevens rfl
    rw [Kept, Trail.advance_code hq (by simp [isQuote])]
    exact ⟨by simp [gapWidth, List.replicate_succ'], h.passing, hmode, rfl,
      fun _ => ⟨rfl, hevens, hcalm.held hevens hc hnext, hnext⟩, fun _ _ _ => by simp [hindent]⟩
  | lost hevens hc hnext => exact absurd hc (hcalm.ended hevens (by simpa using hnext))
  | space hevens hc hnext hgap =>
    obtain rfl := hspace hevens hc
    rw [Kept, Trail.advance_code hq (by simp [isQuote])]
    refine ⟨?_, h.passing, hmode, rfl, by simp, fun _ _ hahead => absurd hahead hgap⟩
    by_cases hstart : s.lineStart
    · simp [hstart, gapWidth, List.replicate_succ']
    · have hwidth : s.width = 0 := by
        by_contra hwidth
        exact hstart (h.held (by omega)).2.2.1
      simp [hstart, hwidth]
  | written hquote hblock hline heven =>
    have hwidth := h.width_eq_zero fun _ hevens => (heven hevens).2.2
    rw [Kept, Trail.advance_code hq (by rwa [h.escaped])]
    refine ⟨by simp [hwidth, State.written], h.passing, hmode,
      by simp [State.written, h.escaped], by simp [State.written, hwidth], fun _ hevens _ => ?_⟩
    have hne : c ≠ ' ' := fun heq => (heven hevens).2.2 (by simp [heq, isGap])
    simp [State.written, hne]

theorem Tracks.step (h : Tracks f s κ (c :: cs))
    (hcalm : κ.quote = none → Undisturbed f s κ c cs) :
    Kept f s κ c cs (Scanner.step f s c cs.head?) := by
  rw [Scanner.step, h.passing, if_neg (by simp), h.mode]
  cases hq : κ.quote with
  | none => exact h.codeStep hq (hcalm hq)
  | some q => exact h.literalStep hq

/-! ## Quiet text is left alone -/

theorem Quiet.undisturbed (hquiet : Quiet f κ (c :: cs)) (hq : κ.quote = none)
    (h : Tracks f s κ (c :: cs)) (hend : cs = [] → ¬ isGap c) : Undisturbed f s κ c cs where
  admits := hquiet.1
  block := by
    rintro hdrops rfl hnext
    obtain ⟨ds, rfl⟩ := List.head?_eq_some_iff.1 hnext
    have hd := hquiet.2.1
    rw [Trail.advance_code hq (by simp [isQuote])] at hd
    exact hd.block rfl hdrops rfl rfl
  line := by
    rintro hdrops rfl hnext
    obtain ⟨ds, rfl⟩ := List.head?_eq_some_iff.1 hnext
    have hd := hquiet.2.1
    rw [Trail.advance_code hq (by simp [isQuote])] at hd
    exact hd.line rfl hdrops rfl rfl
  held := by
    intro hevens hc hnext
    obtain ⟨d, ds, rfl⟩ : ∃ d ds, cs = d :: ds := by
      cases cs with
      | nil => simp [gapAhead] at hnext
      | cons d ds => exact ⟨d, ds, rfl⟩
    obtain rfl := hquiet.1.eq_space hq hevens hc
    have hd := hquiet.2.1
    rw [Trail.advance_code hq (by simp [isQuote])] at hd
    have hspace : d = ' ' := hd.eq_space rfl hevens (by simpa [gapAhead] using hnext)
    -- A second space is admitted in an indentation only.
    by_contra hstart
    refine hd.single rfl hevens ?_ hspace
    simpa [← h.indent hq hevens rfl] using hstart
  ended := fun _ => hend

theorem run_cons (f : Filter) (s : State) (c : Char) (cs : Text) :
    run f s (c :: cs) = (step f s c cs.head?).1 ++ run f (step f s c cs.head?).2 cs := by
  simp [run, runBefore]

theorem Tracks.run_eq {t : Text} (h : Tracks f s κ t) (hquiet : Quiet f κ t)
    (hend : ∀ c ∈ t.getLast?, ¬ isGap c) : run f s t = List.replicate s.width ' ' ++ t := by
  induction t generalizing s κ with
  | nil =>
    have hwidth : s.width = 0 := by
      by_contra hwidth
      simpa [gapAhead] using (h.held (by omega)).2.2.2
    simp [run, runBefore, hwidth]
  | cons c cs ih =>
    have hkept := h.step fun hq => hquiet.undisturbed hq h (by rintro rfl; exact hend c rfl)
    have hcs : ∀ d ∈ cs.getLast?, ¬ isGap d := by
      intro d hd
      apply hend d
      rw [List.getLast?_cons, Option.mem_def.1 hd]
      rfl
    rw [run_cons, ih hkept.2 hquiet.2 hcs, ← List.append_assoc, hkept.1, List.append_assoc]
    rfl

/-- A quiet text that ends in no gap is left as it is. -/
theorem run_eq_self {t : Text} (hquiet : Quiet f (.atLine none) t)
    (hend : ∀ c ∈ t.getLast?, ¬ isGap c) : run f .start t = t := by
  simpa [State.start] using (tracks_start f t).run_eq hquiet hend

/-! ## Nothing else is -/

/-- The size of a text, where a character counts for more than whatever else the scanner
    may write for it. -/
def size : Text → Nat
  | [] => 0
  | c :: cs => (if c = '\t' then 5 else if c = '\r' then 2 else 1) + size cs

@[simp] theorem size_nil : size [] = 0 := rfl

theorem size_cons (c : Char) (cs : Text) : size (c :: cs) = size [c] + size cs := rfl

@[simp] theorem size_append (u v : Text) : size (u ++ v) = size u + size v := by
  induction u with
  | nil => simp
  | cons c cs ih =>
    rw [List.cons_append, size_cons, ih, size_cons c cs]
    omega

@[simp] theorem size_replicate (n : Nat) : size (List.replicate n ' ') = n := by
  induction n with
  | zero => rfl
  | succ n ih =>
    have hspace : size [' '] = 1 := rfl
    rw [List.replicate_succ, size_cons, ih, hspace]
    omega

theorem size_le_of_sublist {t u : Text} (h : t.Sublist u) : size t ≤ size u := by
  induction h with
  | slnil => exact Nat.le_refl _
  | cons c _ ih =>
    rw [size_cons]
    omega
  | @cons_cons v w c _ ih =>
    rw [size_cons c v, size_cons c w]
    omega

theorem one_le_size (c : Char) : 1 ≤ size [c] := by
  simp only [size]
  split
  · omega
  · split <;> omega

theorem gapWidth_le_size (hc : isGap c) :
    gapWidth c ≤ size [c] ∧ (size [c] ≤ gapWidth c → c = ' ') := by
  simp only [isGap, Bool.or_eq_true, beq_iff_eq] at hc
  rcases hc with rfl | rfl
  · decide
  · decide

theorem size_codeStep_le (f : Filter) (s : State) (c : Char) (next : Option Char) :
    size (codeStep f s c next).1 + (codeStep f s c next).2.width ≤ s.width + size [c] := by
  have hone := one_le_size c
  have hcase := codeCase f s c next
  generalize codeStep f s c next = r at hcase ⊢
  cases hcase with
  | literal => exact (Nat.add_comm _ _).le
  | block => simp
  | line => simp
  | newline =>
    have hsize : size ['\n'] = 1 := rfl
    simp only [hsize]
    omega
  | held _ hc _ =>
    have hwidth := (gapWidth_le_size hc).1
    simp only [size_nil]
    omega
  | lost => simp
  | space _ hc _ _ =>
    have hwidth := (gapWidth_le_size hc).1
    split
    · simp only [size_replicate]
      omega
    · have hsize : size [' '] = 1 := rfl
      simp only [hsize]
      omega
  | written => exact (Nat.add_comm _ _).le

theorem size_step_le (f : Filter) (s : State) (c : Char) (next : Option Char) :
    size (step f s c next).1 + (step f s c next).2.width ≤ s.width + size [c] := by
  unfold step
  split
  · simp
  · cases s.mode with
    | code => exact size_codeStep_le f s c next
    | literal q =>
      simp only [literalStep]
      split <;> exact (Nat.add_comm _ _).le
    | lineComment =>
      simp only [lineCommentStep]
      split
      · exact (Nat.add_comm _ _).le
      · split
        · exact size_codeStep_le f _ c next
        · simp
    | blockComment =>
      simp only [blockCommentStep]
      split
      · simp
      · split <;> simp
    | afterComment =>
      simp only
      split
      · simp
      · exact size_codeStep_le f _ c next

/-- Nothing gets larger. -/
theorem size_run_le (f : Filter) (s : State) (t : Text) :
    size (run f s t) ≤ s.width + size t := by
  induction t generalizing s with
  | nil => simp [run, runBefore]
  | cons c cs ih =>
    have hstep := size_step_le f s c cs.head?
    have hrest := ih (step f s c cs.head?).2
    rw [run_cons, size_append, size_cons]
    omega

/-- A run of gaps that does not indent a line gets smaller. -/
theorem size_run_lt {t : Text} (hpassing : s.passing = false) (hmode : s.mode = .code)
    (hstart : ¬ s.lineStart) (hwidth : 0 < s.width) (hevens : f.normalizeWhitespace)
    (hgap : gapAhead t.head?) : size (run f s t) < s.width + size t := by
  induction t generalizing s with
  | nil => simp [gapAhead] at hgap
  | cons c cs ih =>
    have hc : isGap c := hgap
    have hone := one_le_size c
    have hgapWidth := (gapWidth_le_size hc).1
    rw [run_cons, size_append, size_cons, step, hpassing, if_neg (by simp), hmode]
    simp only
    have hcase := codeCase f s c cs.head?
    generalize codeStep f s c cs.head? = r at hcase ⊢
    cases hcase with
    | literal _ hquote _ => exact absurd hc (not_isGap_of_isQuote hquote)
    | block _ hmark _ => simp [hmark, isGap] at hc
    | line _ hmark _ => simp [hmark, isGap] at hc
    | newline _ hbreak => rcases hbreak with rfl | rfl <;> simp [isGap] at hc
    | held _ _ hnext =>
      have hrest := ih (s := { s with escaped := false, width := s.width + gapWidth c })
        hpassing hmode hstart (by simp only; omega) hnext
      simp only [size_nil] at hrest ⊢
      omega
    | lost _ _ hnext =>
      have hrest := size_run_le f { s with lineStart := false, escaped := false, width := 0 } cs
      simp only [size_nil] at hrest ⊢
      omega
    | space _ _ _ _ =>
      have hrest := size_run_le f { s with lineStart := false, escaped := false, width := 0 } cs
      have hsize : size [' '] = 1 := rfl
      simp only [hstart, if_false, Bool.false_eq_true, hsize] at hrest ⊢
      omega
    | written _ _ _ heven => exact absurd hc (heven hevens).2.2

/-- The scanner in a text that it has left alone so far, with what the character that
    comes next must not be. -/
structure Tight (f : Filter) (s : State) (κ : Trail) (rest : Text) : Prop
    extends Tracks f s κ rest where
  block : κ.quote = none → f.stripBlockComments → κ.slash → rest.head? ≠ some '*'
  line : κ.quote = none → f.stripLineComments → κ.slash → rest.head? ≠ some '/'
  single : κ.quote = none → f.normalizeWhitespace → κ.gap → ¬ gapAhead rest.head?

/-- Where nothing gets smaller, the scanner has no reason to drop or to change anything. -/
theorem Tight.undisturbed (h : Tight f s κ (c :: cs)) (hq : κ.quote = none)
    (hsize : s.width + size [c] ≤
      size (step f s c cs.head?).1 + (step f s c cs.head?).2.width)
    (hrest : (step f s c cs.head?).2.width + size cs ≤
      size (run f (step f s c cs.head?).2 cs)) : Undisturbed f s κ c cs := by
  have hone := one_le_size c
  have hmode : s.mode = .code := by simp [h.mode, hq]
  have hstep : step f s c cs.head? = codeStep f s c cs.head? := by
    rw [step, h.passing, if_neg (by simp), hmode]
  rw [hstep] at hsize hrest
  have hadmits : (f.normalizeWhitespace → c ≠ '\r' ∧ c ≠ '\t') → κ.Admits f c := fun hplain =>
    ⟨fun _ hdrops hslash heq => h.block hq hdrops hslash (by simp [heq]),
      fun _ hdrops hslash heq => h.line hq hdrops hslash (by simp [heq]),
      fun _ hevens => hplain hevens,
      fun _ hevens hgap heq => h.single hq hevens hgap (by simp [heq, gapAhead, isGap])⟩
  have hcase := codeCase f s c cs.head?
  generalize codeStep f s c cs.head? = r at hcase hsize hrest
  cases hcase with
  | literal hopens hc hescaped =>
    have hgap := not_isGap_of_isQuote hc
    have hplain : c ≠ '\r' ∧ c ≠ '\t' ∧ c ≠ '/' := by
      rcases eq_of_isQuote hc with rfl | rfl <;> decide
    exact ⟨hadmits fun _ => ⟨hplain.1, hplain.2.1⟩, fun _ heq => absurd heq hplain.2.2,
      fun _ heq => absurd heq hplain.2.2, fun _ hc _ => absurd hc hgap, fun _ _ => hgap⟩
  | block => simp only [size_nil] at hsize; omega
  | line => simp only [size_nil] at hsize; omega
  | newline hevens hc =>
    obtain rfl : c = '\n' := by
      apply hc.resolve_right
      rintro rfl
      have hbreaks : size ['\r'] = 2 ∧ size ['\n'] = 1 := ⟨rfl, rfl⟩
      simp only [hbreaks] at hsize
      omega
    exact ⟨admits_newline f κ, by simp, by simp, by simp [isGap], by simp [isGap]⟩
  | held hevens hc hnext =>
    have hspace : c = ' ' := by
      apply (gapWidth_le_size hc).2
      simp only [size_nil] at hsize
      omega
    subst hspace
    have hstart : s.lineStart := by
      by_contra hstart
      have hlt := size_run_lt (f := f) (t := cs)
        (s := { s with escaped := false, width := s.width + gapWidth ' ' })
        h.passing hmode hstart (by simp [gapWidth]) hevens hnext
      simp only at hlt hrest
      omega
    refine ⟨hadmits fun _ => by decide, by simp, by simp, fun _ _ _ => hstart, ?_⟩
    rintro - rfl
    simp [gapAhead] at hnext
  | lost => simp only [size_nil] at hsize; omega
  | space hevens hc hnext hgap =>
    have hspace : c = ' ' := by
      apply (gapWidth_le_size hc).2
      have hone := one_le_gapWidth c
      have hsize' : size [' '] = 1 := rfl
      split at hsize
      · simp only [size_replicate] at hsize
        omega
      · simp only [hsize'] at hsize
        omega
    subst hspace
    refine ⟨hadmits fun _ => by decide, by simp, by simp, fun _ _ hahead => absurd hahead hgap, ?_⟩
    rintro - rfl
    simp at hnext
  | written _ hblock hline heven =>
    have hgap : f.normalizeWhitespace → ¬ isGap c := fun hevens => (heven hevens).2.2
    refine ⟨hadmits fun hevens => ⟨(heven hevens).2.1, ?_⟩, hblock, hline,
      fun hevens hc _ => absurd hc (hgap hevens), fun hevens _ => hgap hevens⟩
    rintro rfl
    exact hgap hevens rfl

theorem Tight.step (h : Tight f s κ (c :: cs)) (hcalm : κ.quote = none → Undisturbed f s κ c cs) :
    Tight f (Scanner.step f s c cs.head?).2 (κ.advance f c) cs where
  toTracks := (h.toTracks.step hcalm).2
  block := by
    intro _ hdrops hslash
    obtain ⟨hq, hc⟩ := Trail.of_slash_advance hslash
    exact (hcalm hq).block hdrops hc
  line := by
    intro _ hdrops hslash
    obtain ⟨hq, hc⟩ := Trail.of_slash_advance hslash
    exact (hcalm hq).line hdrops hc
  single := by
    intro _ hevens hgap hnext
    obtain ⟨hq, rfl, hindent⟩ := Trail.of_gap_advance hgap
    apply hindent
    rw [← h.indent hq hevens rfl]
    exact (hcalm hq).held hevens rfl hnext

theorem Tight.quiet {t : Text} (h : Tight f s κ t) (hsize : s.width + size t ≤ size (run f s t)) :
    Quiet f κ t := by
  induction t generalizing s κ with
  | nil => trivial
  | cons c cs ih =>
    have hstep := size_step_le f s c cs.head?
    have hrun := size_run_le f (Scanner.step f s c cs.head?).2 cs
    rw [run_cons, size_append, size_cons] at hsize
    have hcalm := fun hq => h.undisturbed hq (by omega) (by omega)
    refine ⟨?_, ih (h.step hcalm) (by omega)⟩
    cases hq : κ.quote with
    | none => exact (hcalm hq).admits
    | some q => refine ⟨?_, ?_, ?_, ?_⟩ <;> simp [hq]

/-- A text that does not get smaller is quiet. -/
theorem quiet_of_size_le {t : Text} (hsize : size t ≤ size (run f .start t)) :
    Quiet f (.atLine none) t := by
  have htight : Tight f .start (.atLine none) t :=
    ⟨tracks_start f t, by simp [Trail.atLine], by simp [Trail.atLine], by simp [Trail.atLine]⟩
  exact htight.quiet (by simpa [State.start] using hsize)

end Scanner

namespace Source

open Scanner

/-- The texts that cleaning leaves as they are. -/
theorem clean_eq_self_iff {f : Filter} {t : Text} :
    clean f t = t ↔ Quiet f (.atLine none) t ∧ BlankLines.IsReduced t := by
  constructor
  · intro h
    have hsize : size t ≤ size (run f .start t) := by
      have hreduced := size_le_of_sublist (BlankLines.reduce_sublist (run f .start t))
      rwa [← clean, h] at hreduced
    refine ⟨quiet_of_size_le hsize, ?_⟩
    rw [← h]
    exact BlankLines.isReduced_reduce _
  · rintro ⟨hquiet, hreduced⟩
    rw [clean, run_eq_self hquiet hreduced.not_isGap_getLast, BlankLines.reduce_eq_self hreduced]

/-- Cleaning is idempotent on a text if and only if the scanner finds nothing in what is
    left of it. -/
theorem clean_clean_iff {f : Filter} {t : Text} :
    clean f (clean f t) = clean f t ↔ Quiet f (.atLine none) (clean f t) :=
  clean_eq_self_iff.trans (and_iff_left (BlankLines.isReduced_reduce _))

end Source

end Devicetree
