-- SUMMARY: The texts that the comment scanner leaves alone, recognised by looking back.
import Devicetree.Proofs.Source.BlankLines
import Devicetree.Source.Scanner

/-!
# Quiet texts

The scanner decides on a character with the one behind it in view. Whether it
leaves a text alone can be told the other way round, from what has come before
each character: no mark of a comment is completed, and where white space is evened
out there is nothing left to even out. Told so, it is a property of the lines of
the text and of the literal each line begins in, and reducing blank lines keeps it.
-/

namespace Devicetree

namespace Scanner

/-! ## Looking back -/

theorem eq_of_isQuote {c : Char} (h : isQuote c) : c = '"' ∨ c = '\'' := by
  simpa [isQuote] using h

/-- What the characters so far tell about the next one. -/
structure Trail where
  /-- The quote that ends the literal the next character is in. -/
  quote : Option Char := none
  /-- An odd run of backslashes stands right behind. -/
  escaped : Bool := false
  /-- A slash of code stands right behind. -/
  slash : Bool := false
  /-- Only spaces of code have come since the line began. -/
  indent : Bool := true
  /-- A space of code stands right behind that does not indent the line. -/
  gap : Bool := false

namespace Trail

/-- What is known behind one more character. -/
def advance (f : Filter) (κ : Trail) (c : Char) : Trail :=
  match κ.quote with
  | some q =>
    if isQuote c && !κ.escaped then { quote := if c == q then none else some q, indent := false }
    else { quote := some q, escaped := c == '\\' && !κ.escaped, indent := c == '\n' }
  | none =>
    if f.preserveStringLiterals && isQuote c && !κ.escaped then
      { quote := some c, indent := false }
    else
      { escaped := c == '\\' && !κ.escaped
        slash := c == '/'
        indent := c == '\n' || κ.indent && c == ' '
        gap := c == ' ' && !κ.indent }

/-- What is known behind a text. -/
def after (f : Filter) (κ : Trail) (t : Text) : Trail :=
  t.foldl (advance f) κ

/-- What is known where a line begins depends only on the literal it begins in. -/
def atLine (quote : Option Char) : Trail :=
  { quote }

/-- A character of code that opens no literal. -/
theorem advance_code {f : Filter} {κ : Trail} {c : Char} (hquote : κ.quote = none)
    (hc : f.preserveStringLiterals → isQuote c → κ.escaped) :
    κ.advance f c =
      { escaped := c == '\\' && !κ.escaped
        slash := c == '/'
        indent := c == '\n' || κ.indent && c == ' '
        gap := c == ' ' && !κ.indent } := by
  rw [advance, hquote]
  apply if_neg
  simpa using hc

theorem of_slash_advance {f : Filter} {κ : Trail} {c : Char} (h : (κ.advance f c).slash) :
    κ.quote = none ∧ c = '/' := by
  rw [advance] at h
  split at h
  · split at h <;> simp at h
  · rename_i hquote
    split at h
    · simp at h
    · exact ⟨hquote, by simpa using h⟩

theorem of_gap_advance {f : Filter} {κ : Trail} {c : Char} (h : (κ.advance f c).gap) :
    κ.quote = none ∧ c = ' ' ∧ ¬ κ.indent := by
  rw [advance] at h
  split at h
  · split at h <;> simp at h
  · rename_i hquote
    split at h
    · simp at h
    · exact ⟨hquote, by simpa using h⟩

theorem advance_newline (f : Filter) (κ : Trail) : κ.advance f '\n' = atLine κ.quote := by
  unfold advance
  split
  · rename_i q hq
    simp [hq, atLine, isQuote]
  · rename_i hq
    simp [hq, atLine, isQuote]

theorem quote_advance_of_isBlank {c : Char} (hc : isBlank c) (f : Filter) (κ : Trail) :
    (κ.advance f c).quote = κ.quote := by
  have hquote : isQuote c = false := by
    by_contra hquote
    rcases eq_of_isQuote (by simpa using hquote) with rfl | rfl
    · exact absurd hc (by decide)
    · exact absurd hc (by decide)
  unfold advance
  split
  · rename_i q hq
    simp [hq, hquote]
  · rename_i hq
    simp [hq, hquote]

theorem quote_after_of_isBlank {w : Text} (hw : ∀ c ∈ w, isBlank c) (f : Filter) (κ : Trail) :
    (κ.after f w).quote = κ.quote := by
  induction w generalizing κ with
  | nil => rfl
  | cons c cs ih =>
    have hrest := ih (fun d hd => hw d (by simp [hd])) (κ.advance f c)
    rw [after, List.foldl_cons]
    exact hrest.trans (quote_advance_of_isBlank (hw c (by simp)) f κ)

/-- Blanks at the end of a line open and close no literal. -/
theorem quote_after_trimEnd (f : Filter) (κ : Trail) (l : Line) :
    (κ.after f (Text.trimEnd l)).quote = (κ.after f l).quote := by
  obtain ⟨w, hw, heq⟩ := Text.exists_trimEnd_append l
  have hsplit : κ.after f l = (κ.after f (Text.trimEnd l)).after f w := by
    rw [after, after, after, ← List.foldl_append, ← heq]
  rw [hsplit, quote_after_of_isBlank hw]

/-- A character that the scanner has no reason to drop or to change. In a literal that
    is every one. -/
structure Admits (f : Filter) (κ : Trail) (c : Char) : Prop where
  block : κ.quote = none → f.stripBlockComments → κ.slash → c ≠ '*'
  line : κ.quote = none → f.stripLineComments → κ.slash → c ≠ '/'
  plain : κ.quote = none → f.normalizeWhitespace → c ≠ '\r' ∧ c ≠ '\t'
  single : κ.quote = none → f.normalizeWhitespace → κ.gap → c ≠ ' '

/-- The only gap that is admitted where white space is evened out is a space. -/
theorem Admits.eq_space {f : Filter} {κ : Trail} {c : Char} (h : κ.Admits f c)
    (hquote : κ.quote = none) (hevens : f.normalizeWhitespace) (hc : isGap c) : c = ' ' := by
  simp only [isGap, Bool.or_eq_true, beq_iff_eq] at hc
  exact hc.resolve_right (h.plain hquote hevens).2

end Trail

/-- Every character of the text is admitted behind those before it. -/
def Quiet (f : Filter) : Trail → Text → Prop
  | _, [] => True
  | κ, c :: cs => κ.Admits f c ∧ Quiet f (κ.advance f c) cs

theorem quiet_append (f : Filter) (κ : Trail) (u v : Text) :
    Quiet f κ (u ++ v) ↔ Quiet f κ u ∧ Quiet f (κ.after f u) v := by
  induction u generalizing κ with
  | nil => simp [Quiet, Trail.after]
  | cons c cs ih => simp [Quiet, Trail.after, ih, and_assoc]

/-! ## Line by line -/

/-- Every line is quiet behind those before it, the first of which begins in the given
    literal. -/
def QuietLines (f : Filter) : Option Char → List Line → Prop
  | _, [] => True
  | q, l :: ls =>
    Quiet f (.atLine q) l ∧ QuietLines f ((Trail.atLine q).after f l).quote ls

theorem admits_newline (f : Filter) (κ : Trail) : κ.Admits f '\n' where
  block _ _ _ := by decide
  line _ _ _ := by decide
  plain _ _ := by decide
  single _ _ _ := by decide

theorem quiet_unlines (f : Filter) (q : Option Char) (ls : List Line) :
    Quiet f (.atLine q) (Text.unlines ls) ↔ QuietLines f q ls := by
  induction ls generalizing q with
  | nil => simp [Text.unlines, Quiet, QuietLines]
  | cons l ls ih =>
    cases ls with
    | nil => simp [Text.unlines, QuietLines]
    | cons k ks =>
      rw [Text.unlines.eq_3 l (k :: ks) (by simp), quiet_append, Quiet, Trail.advance_newline, ih,
        QuietLines]
      exact and_congr_right fun _ => and_iff_right (admits_newline f _)

theorem QuietLines.map_trimEnd {f : Filter} {q : Option Char} {ls : List Line}
    (h : QuietLines f q ls) : QuietLines f q (ls.map Text.trimEnd) := by
  induction ls generalizing q with
  | nil => trivial
  | cons l ls ih =>
    obtain ⟨w, -, heq⟩ := Text.exists_trimEnd_append l
    have hl := h.1
    rw [heq, quiet_append] at hl
    rw [List.map_cons, QuietLines, Trail.quote_after_trimEnd]
    exact ⟨hl.1, ih h.2⟩

theorem QuietLines.of_thinned {f : Filter} {q : Option Char} {ls ks : List Line}
    (hthinned : BlankLines.Thinned ls ks) (h : QuietLines f q ls) : QuietLines f q ks := by
  induction hthinned generalizing q with
  | nil => trivial
  | keep _ ih => exact ⟨h.1, ih h.2⟩
  | drop _ ih => exact ih h.2

/-- A quiet text is quiet still when its blank lines are reduced. -/
theorem Quiet.reduce {f : Filter} {q : Option Char} {t : Text} (h : Quiet f (.atLine q) t) :
    Quiet f (.atLine q) (BlankLines.reduce t) := by
  rw [← Text.unlines_lines t, quiet_unlines] at h
  rw [← Text.unlines_lines (BlankLines.reduce t), quiet_unlines]
  exact h.map_trimEnd.of_thinned (BlankLines.thinned_reduce t)

end Scanner

end Devicetree
