-- SUMMARY: Where dropping comments joins nothing, what is cleaned is clean.
import Mathlib.Data.List.Infix
import Devicetree.Proofs.Source.FixedTexts

/-!
# Plain texts

What the scanner writes need not be quiet. A dropped comment can join what stands
around it to a new mark or to a new escape, and the carriage return that ends a
comment stays where it would be evened out elsewhere. A text where none of this
happens is plain. The scanner is followed through it with the trail of what it has
written, and what it writes is quiet.
-/

namespace Devicetree

namespace Scanner

variable {f : Filter} {s : State} {κ : Trail} {c : Char} {cs : Text}

/-! ## What dropping a comment may join -/

/-- Dropping the comments of the text joins nothing to a new mark, escape or line end. -/
structure Plain (f : Filter) (t : Text) : Prop where
  /-- A comment that a lone carriage return ends leaves it in the text. -/
  returns : f.stripLineComments → f.normalizeWhitespace →
    ∀ u v, t = u ++ '\r' :: v → v.head? = some '\n'
  /-- A backslash in front of a comment escapes what follows the comment. -/
  escapes : f.stripBlockComments → f.preserveStringLiterals → ¬ ['\\', '/', '*'] <:+: t
  /-- A slash in front of a comment makes a mark with what follows the comment. -/
  slashes : f.stripBlockComments → ¬ f.stripLineComments → ¬ ['/', '/', '*'] <:+: t

theorem Plain.of_suffix {f : Filter} {t u : Text} (h : Plain f t) (hu : u <:+ t) : Plain f u where
  returns hline hevens v w heq := by
    obtain ⟨x, rfl⟩ := hu
    exact h.returns hline hevens (x ++ v) w (by simp [heq])
  escapes hblock hliteral hmem := h.escapes hblock hliteral (hmem.trans hu.isInfix)
  slashes hblock hline hmem := h.slashes hblock hline (hmem.trans hu.isInfix)

/-- The quote that ends the literal being read. -/
def Mode.quote : Mode → Option Char
  | .literal q => some q
  | _ => none

def Mode.isComment : Mode → Bool
  | .code | .literal _ => false
  | _ => true

theorem Mode.of_isComment {m : Mode} (h : m.isComment) : m.quote = none ∧ m ≠ .code := by
  cases m with
  | code => cases h
  | literal q => cases h
  | lineComment => exact ⟨rfl, by decide⟩
  | blockComment => exact ⟨rfl, by decide⟩
  | afterComment => exact ⟨rfl, by decide⟩

/-- The scanner in a text, and the trail of what it has written. -/
structure Follows (f : Filter) (s : State) (κ : Trail) (rest : Text) : Prop where
  passing : s.passing = false
  quote : κ.quote = s.mode.quote
  literal : s.mode.quote ≠ none → f.preserveStringLiterals
  line : s.mode = .lineComment → f.stripLineComments
  held : 0 < s.width → s.mode = .code ∧ f.normalizeWhitespace ∧ gapAhead rest.head?
  comment : s.mode.isComment → s.escaped = false
  escaped : f.preserveStringLiterals → s.mode ≠ .lineComment → s.width = 0 → κ.escaped = s.escaped
  /-- Behind a backslash no comment is dropped. -/
  joined : f.preserveStringLiterals → f.stripBlockComments → s.mode = .code → s.width = 0 →
    s.escaped → ¬ ['/', '*'] <+: rest
  /-- Behind a slash neither a mark comes nor a comment that is dropped. -/
  slash : κ.slash → s.mode = .code ∧ (s.width = 0 →
    (f.stripBlockComments → rest.head? ≠ some '*' ∧ ¬ ['/', '*'] <+: rest) ∧
      (f.stripLineComments → rest.head? ≠ some '/'))
  indent : f.normalizeWhitespace → s.lineStart → κ.indent
  gap : f.normalizeWhitespace → s.mode = .code → gapAhead rest.head? → κ.gap = false

/-- The state with the second character of a mark passed over. -/
def State.settled (s : State) : State :=
  { s with passing := false }

/-- The text with the second character of a mark passed over. -/
def State.ahead (s : State) (t : Text) : Text :=
  if s.passing then t.tail else t

theorem State.settled_eq_self {s : State} (h : s.passing = false) : s.settled = s := by
  cases s
  simpa [State.settled] using h

theorem State.ahead_suffix (s : State) (t : Text) : s.ahead t <:+ t := by
  unfold State.ahead
  split
  · exact List.tail_suffix t
  · exact List.suffix_refl t

theorem run_settled (f : Filter) (s : State) (t : Text) :
    run f s t = run f s.settled (s.ahead t) := by
  unfold State.ahead
  split
  · rename_i hpassing
    cases t with
    | nil => rfl
    | cons c cs =>
      rw [run_cons, step, if_pos hpassing]
      rfl
  · rename_i hpassing
    rw [State.settled_eq_self (by simpa using hpassing)]

/-- A step that writes quiet text, with the relation upheld if any text is left. -/
def Follows.Kept (f : Filter) (κ : Trail) (cs : Text) (r : Text × State) : Prop :=
  Quiet f κ r.1 ∧ (cs ≠ [] → Follows f r.2.settled (κ.after f r.1) (r.2.ahead cs))

theorem Follows.width_eq_zero (h : Follows f s κ (c :: cs))
    (hc : f.normalizeWhitespace → ¬ isGap c) : s.width = 0 := by
  by_contra hwidth
  obtain ⟨-, hevens, hgap⟩ := h.held (by omega)
  exact hc hevens (by simpa [gapAhead] using hgap)

theorem Follows.width_eq_zero_of_ne {rest : Text} (h : Follows f s κ rest)
    (hmode : s.mode ≠ .code) : s.width = 0 := by
  by_contra hwidth
  exact hmode (h.held (by omega)).1

theorem Follows.literalStep {q : Char} (h : Follows f s κ (c :: cs)) (hmode : s.mode = .literal q) :
    Kept f κ cs (Scanner.literalStep s q c) := by
  have hquote : κ.quote = some q := by rw [h.quote, hmode]; rfl
  have hwidth : s.width = 0 := h.width_eq_zero_of_ne (by simp [hmode])
  have hadmits : κ.Admits f c := by
    refine ⟨?_, ?_, ?_, ?_⟩ <;> simp [hquote]
  have hliteral : f.preserveStringLiterals := h.literal (by simp [hmode, Mode.quote])
  have hescaped : κ.escaped = s.escaped := h.escaped hliteral (by simp [hmode]) hwidth
  simp only [Kept, Scanner.literalStep]
  split
  · rename_i hc
    refine ⟨⟨hadmits, trivial⟩, fun _ => ?_⟩
    have hafter : κ.after f [c] =
        { quote := if c == q then none else some q, indent := false } := by
      simp [Trail.after, Trail.advance, hquote, hescaped, hc]
    rw [hafter]
    by_cases hcq : c = q
    · subst hcq
      constructor <;> simp [State.settled, State.ahead, Mode.quote, Mode.isComment, hwidth]
    · constructor <;>
        simp [State.settled, State.ahead, Mode.quote, Mode.isComment, hwidth, hcq, hliteral]
  · rename_i hc
    refine ⟨⟨hadmits, trivial⟩, fun _ => ?_⟩
    have hafter : κ.after f [c] =
        { quote := some q, escaped := c == '\\' && !s.escaped, indent := c == '\n' } := by
      simp [Trail.after, Trail.advance, hquote, hescaped, hc]
    rw [hafter]
    constructor <;>
      simp [State.settled, State.written, Mode.quote, Mode.isComment, hmode, hwidth, hliteral]

/-- In a comment it does not matter what text is left. -/
theorem follows_comment {rest : Text} (hcomment : s.mode.isComment)
    (hline : s.mode = .lineComment → f.stripLineComments) (hpassing : s.passing = false)
    (hwidth : s.width = 0) (hescaped : s.escaped = false) (hquote : κ.quote = none)
    (hslash : ¬ κ.slash)
    (hunescaped : f.preserveStringLiterals → s.mode ≠ .lineComment → κ.escaped = false)
    (hindent : f.normalizeWhitespace → s.lineStart → κ.indent) : Follows f s κ rest := by
  obtain ⟨hnone, hcode⟩ := Mode.of_isComment hcomment
  constructor
  case passing => exact hpassing
  case quote => rw [hquote, hnone]
  case literal => exact fun hliteral => absurd hnone hliteral
  case line => exact hline
  case held => simp [hwidth]
  case comment => exact fun _ => hescaped
  case escaped => exact fun hliteral hmode _ => (hunescaped hliteral hmode).trans hescaped.symm
  case joined => exact fun _ _ hmode => absurd hmode hcode
  case slash => exact fun hκ => absurd hκ hslash
  case indent => exact hindent
  case gap => exact fun _ hmode => absurd hmode hcode

/-- A comment that goes on. -/
theorem Follows.of_isComment {s' : State} {rest rest' : Text} (h : Follows f s κ rest)
    (hs : s.mode.isComment) (hs' : s'.mode.isComment)
    (hline : s'.mode = .lineComment ↔ s.mode = .lineComment)
    (hstart : s'.lineStart = s.lineStart) (hescaped : s'.escaped = s.escaped)
    (hpassing : s'.passing = false) (hwidth : s'.width = s.width) : Follows f s' κ rest' := by
  obtain ⟨hnone, hcode⟩ := Mode.of_isComment hs
  have hzero : s.width = 0 := h.width_eq_zero_of_ne hcode
  have hunescaped : s.escaped = false := h.comment hs
  refine follows_comment hs' (fun hmode => h.line (hline.1 hmode)) hpassing (hwidth.trans hzero)
    (hescaped.trans hunescaped) (h.quote.trans hnone)
    (fun hslash => hcode (h.slash hslash).1) (fun hliteral hmode => ?_)
    fun hevens hlineStart => h.indent hevens (hstart ▸ hlineStart)
  rw [h.escaped hliteral (fun heq => hmode (hline.2 heq)) hzero, hunescaped]

theorem Follows.blockCommentStep (h : Follows f s κ (c :: cs)) (hmode : s.mode = .blockComment) :
    Kept f κ cs (Scanner.blockCommentStep s c cs.head?) := by
  have hcomment : s.mode.isComment := by rw [hmode]; rfl
  simp only [Kept, Scanner.blockCommentStep]
  split
  · exact ⟨trivial, fun _ => h.of_isComment hcomment hcomment (by simp [State.settled]) rfl rfl
      rfl rfl⟩
  · split
    · exact ⟨trivial, fun _ => h.of_isComment hcomment rfl (by simp [State.settled, hmode]) rfl rfl
        rfl rfl⟩
    · exact ⟨trivial, fun _ => h.of_isComment hcomment hcomment (by simp [State.settled]) rfl rfl
        rfl rfl⟩

/-- Behind what ends a line, or stands for its end where white space is kept. -/
theorem follows_break {indent gap : Bool} {rest : Text} (hmode : s.mode = .code)
    (hescaped : s.escaped = false) (hpassing : s.passing = false) (hwidth : s.width = 0)
    (hevens : f.normalizeWhitespace → indent ∧ gap = false) : Follows f s { indent, gap } rest := by
  constructor <;> simp [Mode.quote, Mode.isComment, hmode, hescaped, hpassing, hwidth]
  case indent => exact fun heven _ => (hevens heven).1
  case gap => exact fun heven _ => (hevens heven).2

/-- What ends a line is written as a line feed. -/
theorem kept_newline {s' : State} (hquote : κ.quote = none) (hmode : s'.mode = .code)
    (hescaped : s'.escaped = false) (hwidth : s'.width = 0) :
    Follows.Kept f κ cs (['\n'], s') := by
  refine ⟨⟨admits_newline f κ, trivial⟩, fun _ => ?_⟩
  rw [Trail.after, List.foldl_cons, Trail.advance_newline, hquote]
  exact follows_break hmode hescaped rfl hwidth fun _ => ⟨rfl, rfl⟩

/-- Spaces in an indentation are quiet, and the indentation goes on behind them. -/
theorem quiet_replicate (hquote : κ.quote = none) (hgap : κ.gap = false) (hindent : κ.indent)
    (n : Nat) :
    Quiet f κ (List.replicate n ' ') ∧
      (0 < n → κ.after f (List.replicate n ' ') = .atLine none) := by
  induction n generalizing κ with
  | zero => exact ⟨trivial, by simp⟩
  | succ n ih =>
    have hadvance : κ.advance f ' ' = .atLine none := by
      rw [Trail.advance_code hquote (by simp [isQuote])]
      simp [Trail.atLine, hindent]
    have hrest := ih (κ := .atLine none) rfl rfl rfl
    have hadmits : κ.Admits f ' ' := by
      refine ⟨?_, ?_, ?_, ?_⟩ <;> simp [hgap]
    rw [List.replicate_succ]
    refine ⟨⟨hadmits, hadvance ▸ hrest.1⟩, fun _ => ?_⟩
    rw [Trail.after, List.foldl_cons, hadvance]
    cases n with
    | zero => rfl
    | succ n => exact hrest.2 (by omega)

/-- What a run of gaps ends as is quiet, and leaves nothing behind but a space. -/
theorem quiet_space (hquote : κ.quote = none) (hgap : κ.gap = false) {start : Bool}
    (hindent : start → κ.indent) {n : Nat} (hn : 0 < n) :
    Quiet f κ (if start then List.replicate n ' ' else [' ']) ∧
      ∃ indent gap,
        κ.after f (if start then List.replicate n ' ' else [' ']) = { indent, gap } := by
  split
  · rename_i hstart
    have hspaces := quiet_replicate (f := f) hquote hgap (hindent hstart) n
    exact ⟨hspaces.1, true, false, hspaces.2 hn⟩
  · have hadmits : κ.Admits f ' ' := by
      refine ⟨?_, ?_, ?_, ?_⟩ <;> simp [hgap]
    exact ⟨⟨hadmits, trivial⟩, _, _, Trail.advance_code hquote (by simp [isQuote])⟩

/-- A character of code that is written as it is. -/
theorem Follows.written (h : Follows f s κ (c :: cs)) (hmode : s.mode = .code)
    (hplain : Plain f (c :: cs)) (hquotes : f.preserveStringLiterals → isQuote c → s.escaped)
    (hblock : f.stripBlockComments → c = '/' → cs.head? ≠ some '*')
    (hline : f.stripLineComments → c = '/' → cs.head? ≠ some '/')
    (heven : f.normalizeWhitespace → c ≠ '\n' ∧ c ≠ '\r' ∧ ¬ isGap c) :
    Kept f κ cs ([c], s.written c) := by
  have hquote : κ.quote = none := by rw [h.quote, hmode]; rfl
  have hescaped : f.preserveStringLiterals → s.width = 0 → κ.escaped = s.escaped :=
    fun hliteral => h.escaped hliteral (by simp [hmode])
  have hwidth := h.width_eq_zero fun hevens => (heven hevens).2.2
  have hspace : f.normalizeWhitespace → c ≠ ' ' ∧ c ≠ '\t' := by
    intro hevens
    simpa [isGap] using (heven hevens).2.2
  have hadmits : κ.Admits f c :=
    ⟨fun _ hdrops hslash heq => (((h.slash hslash).2 hwidth).1 hdrops).1 (by simp [heq]),
      fun _ hdrops hslash heq => ((h.slash hslash).2 hwidth).2 hdrops (by simp [heq]),
      fun _ hevens => ⟨(heven hevens).2.1, (hspace hevens).2⟩,
      fun _ hevens _ => (hspace hevens).1⟩
  have hafter := Trail.advance_code (f := f) (κ := κ) (c := c) hquote (by
    intro hliteral hc
    rw [hescaped hliteral hwidth]
    exact hquotes hliteral hc)
  have hahead : (s.written c).ahead cs = cs := by simp [State.ahead, State.written, h.passing]
  refine ⟨⟨hadmits, trivial⟩, fun _ => ?_⟩
  rw [Trail.after, List.foldl_cons, hafter, hahead]
  constructor
  case passing => rfl
  case quote => simp [State.settled, State.written, hmode, Mode.quote]
  case literal => simp [State.settled, State.written, hmode, Mode.quote]
  case line => simp [State.settled, State.written, hmode]
  case held => simp [State.settled, State.written, hwidth]
  case comment => simp [State.settled, State.written, hmode, Mode.isComment]
  case escaped =>
    intro hliteral _ _
    simp [State.settled, State.written, hescaped hliteral hwidth]
  case joined =>
    intro hliteral hdrops _ _ hsescaped hprefix
    obtain rfl : c = '\\' := by
      simp only [State.settled, State.written, Bool.and_eq_true, beq_iff_eq] at hsescaped
      exact hsescaped.1
    exact hplain.escapes hdrops hliteral (List.prefix_cons_inj _ |>.2 hprefix).isInfix
  case slash =>
    intro hslash
    obtain rfl : c = '/' := by simpa using hslash
    refine ⟨hmode, fun _ => ⟨fun hdrops => ⟨hblock hdrops rfl, fun hprefix => ?_⟩,
      fun hdrops => hline hdrops rfl⟩⟩
    by_cases hlines : f.stripLineComments
    · obtain ⟨ds, rfl⟩ := hprefix
      exact hline hlines rfl rfl
    · exact hplain.slashes hdrops hlines (List.prefix_cons_inj _ |>.2 hprefix).isInfix
  case indent =>
    intro _ hstart
    have hc : c = '\n' := by simpa [State.settled, State.written] using hstart
    simp [hc]
  case gap =>
    intro hevens _ _
    simp [(hspace hevens).1]

theorem Follows.codeStep (h : Follows f s κ (c :: cs)) (hmode : s.mode = .code)
    (hplain : Plain f (c :: cs)) : Kept f κ cs (Scanner.codeStep f s c cs.head?) := by
  have hquote : κ.quote = none := by rw [h.quote, hmode]; rfl
  have hescaped : f.preserveStringLiterals → s.width = 0 → κ.escaped = s.escaped :=
    fun hliteral => h.escaped hliteral (by simp [hmode])
  have hcase := codeCase f s c cs.head?
  generalize Scanner.codeStep f s c cs.head? = r at hcase ⊢
  cases hcase with
  | literal hopens hc hsescaped =>
    have hwidth := h.width_eq_zero fun _ => not_isGap_of_isQuote hc
    have hadmits : κ.Admits f c := by
      rcases eq_of_isQuote hc with rfl | rfl <;> exact ⟨by simp, by simp, by simp, by simp⟩
    have hafter : κ.after f [c] = { quote := some c, indent := false } := by
      simp [Trail.after, Trail.advance, hquote, hopens, hc, hescaped hopens hwidth, hsescaped]
    refine ⟨⟨hadmits, trivial⟩, fun _ => ?_⟩
    rw [hafter]
    constructor <;> simp [State.settled, Mode.quote, Mode.isComment, hwidth, hopens]
  | block hdrops hc hnext =>
    subst hc
    have hwidth := h.width_eq_zero fun _ => by decide
    obtain ⟨ds, rfl⟩ := List.head?_eq_some_iff.1 hnext
    have hslash : ¬ κ.slash := fun hslash =>
      (((h.slash hslash).2 hwidth).1 hdrops).2 ⟨ds, rfl⟩
    have hunescaped : f.preserveStringLiterals → κ.escaped = false := by
      intro hliteral
      rw [hescaped hliteral hwidth]
      by_contra hs
      exact h.joined hliteral hdrops hmode hwidth (by simpa using hs) ⟨ds, rfl⟩
    exact ⟨trivial, fun _ => follows_comment rfl (by simp [State.settled]) rfl hwidth rfl hquote
      hslash (fun hliteral _ => hunescaped hliteral) h.indent⟩
  | line hdrops hc hnext =>
    subst hc
    have hwidth := h.width_eq_zero fun _ => by decide
    have hslash : ¬ κ.slash := fun hslash => ((h.slash hslash).2 hwidth).2 hdrops rfl
    exact ⟨trivial, fun _ => follows_comment rfl (fun _ => hdrops) rfl hwidth rfl hquote
      hslash (by simp [State.settled]) h.indent⟩
  | newline hevens hc =>
    have hwidth := h.width_eq_zero fun _ => by rcases hc with rfl | rfl <;> decide
    exact kept_newline hquote hmode rfl hwidth
  | held hevens hc hnext =>
    have hgap : κ.gap = false := h.gap hevens hmode hc
    have hwidth : gapWidth c ≠ 0 := Nat.ne_of_gt (one_le_gapWidth c)
    refine ⟨trivial, fun _ => ?_⟩
    constructor <;>
      simp [State.settled, State.ahead, h.passing, Trail.after, hmode, hquote, Mode.quote,
        Mode.isComment, hevens, hnext, hwidth, hgap]
    exact h.indent hevens
  | lost hevens hc hnext => exact ⟨trivial, fun hcs => absurd (by simpa using hnext) hcs⟩
  | space hevens hc hnext hgap =>
    have hκgap : κ.gap = false := h.gap hevens hmode hc
    have hwidth : 0 < s.width + gapWidth c := Nat.add_pos_right _ (one_le_gapWidth c)
    obtain ⟨hquiet, indent, gap, hafter⟩ :=
      quiet_space (f := f) hquote hκgap (h.indent hevens) hwidth
    refine ⟨hquiet, fun _ => ?_⟩
    rw [hafter]
    constructor <;>
      simp [State.settled, State.ahead, h.passing, hmode, Mode.quote, Mode.isComment]
    exact fun _ hahead => absurd hahead hgap
  | written hquotes hblock hline heven =>
    exact h.written hmode hplain hquotes hblock hline heven

/-- Where white space is kept, what ends a line stays as it is and leaves nothing behind. -/
theorem quiet_break (hquote : κ.quote = none) (hslash : ¬ κ.slash) (hc : c = '\n' ∨ c = '\r')
    (hevens : ¬ f.normalizeWhitespace) :
    Quiet f κ [c] ∧ ∃ indent gap, κ.after f [c] = { indent, gap } := by
  have hadmits : κ.Admits f c := by
    refine ⟨?_, ?_, ?_, ?_⟩ <;> simp [hslash, hevens]
  have hplain : isQuote c = false ∧ c ≠ '\\' ∧ c ≠ '/' := by
    rcases hc with rfl | rfl <;> decide
  have hafter := Trail.advance_code (f := f) (c := c) hquote (by simp [hplain])
  refine ⟨⟨hadmits, trivial⟩, c == '\n' || κ.indent && c == ' ', c == ' ' && !κ.indent, ?_⟩
  rw [Trail.after, List.foldl_cons, hafter]
  simp [hplain]

theorem kept_break {s' : State} (hquote : κ.quote = none) (hslash : ¬ κ.slash)
    (hc : c = '\n' ∨ c = '\r') (hevens : ¬ f.normalizeWhitespace) (hmode : s'.mode = .code)
    (hescaped : s'.escaped = false) (hwidth : s'.width = 0) : Follows.Kept f κ cs ([c], s') := by
  obtain ⟨hquiet, indent, gap, hafter⟩ := quiet_break hquote hslash hc hevens
  refine ⟨hquiet, fun _ => ?_⟩
  rw [hafter]
  exact follows_break hmode hescaped rfl hwidth fun heven => absurd heven hevens

theorem Follows.lineCommentStep (h : Follows f s κ (c :: cs)) (hmode : s.mode = .lineComment)
    (hplain : Plain f (c :: cs)) : Kept f κ cs (Scanner.lineCommentStep f s c cs.head?) := by
  have hcomment : s.mode.isComment := by rw [hmode]; rfl
  have hquote : κ.quote = none := by rw [h.quote, hmode]; rfl
  have hescaped : s.escaped = false := h.comment hcomment
  have hslash : ¬ κ.slash := fun hslash => by simpa [hmode] using (h.slash hslash).1
  have hwidth : s.width = 0 := h.width_eq_zero_of_ne (by simp [hmode])
  simp only [Scanner.lineCommentStep]
  split
  · rename_i hlone
    simp only [Bool.and_eq_true, beq_iff_eq, bne_iff_ne, ne_eq] at hlone
    obtain ⟨rfl, hnext⟩ := hlone
    have hevens : ¬ f.normalizeWhitespace := fun hevens =>
      hnext (hplain.returns (h.line hmode) hevens [] cs rfl)
    exact kept_break hquote hslash (.inr rfl) hevens rfl hescaped hwidth
  · split
    · rename_i hc
      have hc : c = '\n' ∨ c = '\r' := by simpa using hc
      have hplain : isQuote c = false ∧ c ≠ '/' ∧ isGap c = false ∧ c ≠ '\\' := by
        rcases hc with rfl | rfl <;> decide
      have hcase := codeCase f { s with mode := .code, lineStart := true } c cs.head?
      generalize Scanner.codeStep f { s with mode := .code, lineStart := true } c cs.head? = r
        at hcase ⊢
      cases hcase with
      | literal hopens hquotes _ => simp [hplain] at hquotes
      | block hdrops hmark _ => exact absurd hmark hplain.2.1
      | line hdrops hmark _ => exact absurd hmark hplain.2.1
      | newline => exact kept_newline hquote rfl rfl hwidth
      | held hevens hgap _ => simp [hplain] at hgap
      | lost hevens hgap _ => simp [hplain] at hgap
      | space hevens hgap _ _ => simp [hplain] at hgap
      | written _ _ _ heven =>
        have hevens : ¬ f.normalizeWhitespace := by
          intro hevens
          rcases hc with hc | hc
          · exact (heven hevens).1 hc
          · exact (heven hevens).2.1 hc
        exact kept_break hquote hslash hc hevens rfl (by simp [State.written, hplain]) hwidth
    · exact ⟨trivial, fun _ => h.of_isComment hcomment hcomment (by simp [State.settled]) rfl rfl
        rfl rfl⟩

theorem Follows.step (h : Follows f s κ (c :: cs)) (hplain : Plain f (c :: cs)) :
    Kept f κ cs (Scanner.step f s c cs.head?) := by
  rw [Scanner.step, h.passing, if_neg (by simp)]
  cases hmode : s.mode with
  | code => exact h.codeStep hmode hplain
  | literal q => exact h.literalStep hmode
  | lineComment => exact h.lineCommentStep hmode hplain
  | blockComment => exact h.blockCommentStep hmode
  | afterComment =>
    have hcomment : s.mode.isComment := by rw [hmode]; rfl
    simp only
    split
    · exact ⟨trivial, fun _ => h.of_isComment hcomment hcomment (by simp [State.settled]) rfl rfl
        rfl rfl⟩
    · rename_i hc
      have hquote : κ.quote = none := by rw [h.quote, hmode]; rfl
      have hcode : Follows f { s with mode := .code, passing := false } κ (c :: cs) := by
        constructor
        case quote => exact hquote
        case passing => rfl
        case literal => simp [Mode.quote]
        case line => simp
        case held => exact fun hheld => absurd (h.held hheld).1 (by simp [hmode])
        case comment => simp [Mode.isComment]
        case escaped => exact fun hliteral _ => h.escaped hliteral (by simp [hmode])
        case joined => simp [h.comment hcomment]
        case slash => exact fun hslash => absurd (h.slash hslash).1 (by simp [hmode])
        case indent => exact h.indent
        case gap => exact fun _ _ hgap => absurd hgap hc
      exact hcode.codeStep rfl hplain

theorem Follows.quiet_run {t : Text} (h : Follows f s κ t) (hplain : Plain f t) :
    Quiet f κ (run f s t) := by
  induction hn : t.length using Nat.strong_induction_on generalizing s κ t with
  | _ n ih =>
    cases t with
    | nil => trivial
    | cons c cs =>
      obtain ⟨hquiet, hrest⟩ := h.step hplain
      rw [run_cons, quiet_append]
      refine ⟨hquiet, ?_⟩
      by_cases hcs : cs = []
      · subst hcs
        trivial
      · have hsuffix := (Scanner.step f s c cs.head?).2.ahead_suffix cs
        have hlength := hsuffix.length_le
        rw [run_settled]
        refine ih _ ?_ (hrest hcs) (hplain.of_suffix (hsuffix.trans (List.suffix_cons c cs))) rfl
        rw [← hn, List.length_cons]
        omega

/-- What is written for a plain text is quiet. -/
theorem quiet_run {t : Text} (hplain : Plain f t) : Quiet f (.atLine none) (run f .start t) :=
  Follows.quiet_run (follows_break rfl rfl rfl rfl fun _ => ⟨rfl, rfl⟩) hplain

end Scanner

namespace Source

/-- A plain text is clean once it has been cleaned. -/
theorem clean_clean_of_plain {f : Filter} {t : Text} (h : Scanner.Plain f t) :
    clean f (clean f t) = clean f t :=
  clean_clean_iff.2 (Scanner.quiet_run h).reduce

/-- Where line comments are stripped, cleaning is idempotent on texts in which a line feed
    follows each carriage return and no block comment opens right behind a backslash. It does
    not matter which other lexical switches are on. -/
theorem clean_idempotent_of_paired {f : Filter} (hline : f.stripLineComments) {t : Text}
    (hreturns : ∀ u v, t = u ++ '\r' :: v → v.head? = some '\n')
    (hescapes : ¬ ['\\', '/', '*'] <:+: t) : clean f (clean f t) = clean f t := by
  have hplain : Scanner.Plain f t :=
    { returns := fun _ _ => hreturns
      escapes := fun _ _ => hescapes
      slashes := fun _ hkept => absurd hline hkept }
  exact clean_clean_of_plain hplain

/-- Comments of both kinds next to a literal with marks and an escaped quote in it, a slash in
    front of a comment, and lines that end in a carriage return and a line feed. -/
def mixedMarks : Text :=
  "a = \"/* \\\" //\"; // x \"\r\n\t /* y\r\n */ b/ /**/ /* z;\r\n".toList

theorem clean_idempotent_mixedMarks :
    (∀ u v, mixedMarks = u ++ '\r' :: v → v.head? = some '\n') ∧
      ¬ ['\\', '/', '*'] <:+: mixedMarks ∧ clean {} mixedMarks ≠ mixedMarks ∧
      clean {} (clean {} mixedMarks) = clean {} mixedMarks := by
  have hpairs : ∀ s ∈ mixedMarks.tails, s.head? = some '\r' → s.tail.head? = some '\n' := by
    decide +kernel
  have hreturns : ∀ u v, mixedMarks = u ++ '\r' :: v → v.head? = some '\n' := by
    intro u v heq
    refine hpairs ('\r' :: v) ?_ rfl
    rw [List.mem_tails, heq]
    exact List.suffix_append u _
  have hescapes : ¬ ['\\', '/', '*'] <:+: mixedMarks := by decide +kernel
  exact ⟨hreturns, hescapes, by decide +kernel,
    clean_idempotent_of_paired rfl hreturns hescapes⟩

end Source

end Devicetree
