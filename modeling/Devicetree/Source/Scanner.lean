-- SUMMARY: The comment scanner: one pass over a source that drops comments and evens out white space.
import Devicetree.Filter
import Devicetree.Text.Blank

/-!
# The comment scanner

A source is read character by character with one character of lookahead. The state
holds all that an answer can depend on: what is being read, whether only
indentation has come since the line began, whether an odd run of backslashes
stands right behind, and the width of the run of gaps being read. A mark of two
characters (`/*`, `*/`, `//`, or a carriage return with its line feed) is acted on
at its first character, and the second is passed over.

`run` is the whole pass. What it writes for a text and what it writes for the text
behind it are independent but for the state between: see `run_append`.
-/

namespace Devicetree

namespace Scanner

-- ---------------------------------------------------------------------------
-- States
-- ---------------------------------------------------------------------------

/-- What the scanner is reading. -/
inductive Mode where
  | code
  /-- A literal that the same quote character ends. -/
  | literal (quote : Char)
  | lineComment
  | blockComment
  /-- Right behind a block comment, where gaps are dropped still. -/
  | afterComment
deriving DecidableEq, Repr

/-- The scanner between two characters. -/
structure State where
  mode : Mode := .code
  /-- No character but gaps has come since the line began. -/
  lineStart : Bool := true
  /-- An odd run of backslashes stands right behind. -/
  escaped : Bool := false
  /-- The next character is the second of a mark that has been acted on. -/
  passing : Bool := false
  /-- The width of the run of gaps behind, whose end has not come yet. -/
  width : Nat := 0
deriving DecidableEq, Repr

/-- The scanner before the first character. -/
def State.start : State := {}

/-- Outside any literal and any comment, with no mark half read. -/
def State.isOutside (s : State) : Bool :=
  (s.mode == .code || s.mode == .afterComment) && !s.passing


-- ---------------------------------------------------------------------------
-- One character
-- ---------------------------------------------------------------------------

/-- The two characters that delimit a literal. -/
def isQuote (c : Char) : Bool :=
  c == '"' || c == '\''

/-- How many columns a gap takes in an indentation. -/
def gapWidth (c : Char) : Nat :=
  if c = '\t' then 4 else 1

/-- Whether the next character is a gap. -/
def gapAhead (next : Option Char) : Bool :=
  next.any isGap

/-- The state after a character that is written as it is. -/
def State.written (s : State) (c : Char) : State :=
  { s with lineStart := c == '\n', escaped := c == '\\' && !s.escaped }

/-- A run of gaps is written when its end comes, and only if more text follows: in
    full as the indentation of a line, as one space elsewhere. -/
def gapStep (s : State) (c : Char) (next : Option Char) : Text × State :=
  let width := s.width + gapWidth c
  if gapAhead next then ([], { s with escaped := false, width })
  else
    let ended := { s with lineStart := false, escaped := false, width := 0 }
    match next with
    | none => ([], ended)
    | some _ => (if s.lineStart then List.replicate width ' ' else [' '], ended)

/-- One character of code. -/
def codeStep (f : Filter) (s : State) (c : Char) (next : Option Char) : Text × State :=
  if f.preserveStringLiterals && isQuote c && !s.escaped then
    ([c], { s with mode := .literal c, lineStart := false, escaped := false })
  else if f.stripBlockComments && c == '/' && next == some '*' then
    ([], { s with mode := .blockComment, escaped := false, passing := true })
  else if f.stripLineComments && c == '/' && next == some '/' then
    ([], { s with mode := .lineComment, escaped := false, passing := true })
  else if f.normalizeWhitespace && (c == '\n' || c == '\r') then
    (['\n'], { s with
      lineStart := true, escaped := false, passing := c == '\r' && next == some '\n' })
  else if f.normalizeWhitespace && isGap c then gapStep s c next
  else ([c], s.written c)

/-- One character of a literal, which is copied. -/
def literalStep (s : State) (quote c : Char) : Text × State :=
  if isQuote c && !s.escaped then
    ([c], { s with
      mode := if c == quote then .code else .literal quote, lineStart := false, escaped := false })
  else ([c], s.written c)

/-- One character of a comment that ends with its line. A carriage return that no line
    feed follows ends it as well, and stays as it is. -/
def lineCommentStep (f : Filter) (s : State) (c : Char) (next : Option Char) : Text × State :=
  let ended := { s with mode := .code, lineStart := true }
  if c == '\r' && next != some '\n' then ([c], ended)
  else if c == '\n' || c == '\r' then codeStep f ended c next
  else ([], s)

/-- One character of a comment between marks. An opening mark inside is passed over as
    a whole, so its star closes nothing. -/
def blockCommentStep (s : State) (c : Char) (next : Option Char) : Text × State :=
  if c == '/' && next == some '*' then ([], { s with passing := true })
  else if c == '*' && next == some '/' then
    ([], { s with mode := .afterComment, passing := true })
  else ([], s)

/-- Read one character, with the one behind it in view. -/
def step (f : Filter) (s : State) (c : Char) (next : Option Char) : Text × State :=
  if s.passing then ([], { s with passing := false })
  else match s.mode with
    | .code => codeStep f s c next
    | .literal quote => literalStep s quote c
    | .lineComment => lineCommentStep f s c next
    | .blockComment => blockCommentStep s c next
    | .afterComment =>
      if isGap c then ([], s) else codeStep f { s with mode := .code } c next


-- ---------------------------------------------------------------------------
-- Whole texts
-- ---------------------------------------------------------------------------

/-- What is written for a text that `after` follows. -/
def runBefore (f : Filter) (after : Option Char) (s : State) : Text → Text
  | [] => []
  | c :: cs =>
    let (out, s') := step f s c (cs.head?.or after)
    out ++ runBefore f after s' cs

/-- The state behind a text that `after` follows. -/
def stateAfter (f : Filter) (after : Option Char) (s : State) : Text → State
  | [] => s
  | c :: cs => stateAfter f after (step f s c (cs.head?.or after)).2 cs

/-- What is written for a whole text. -/
def run (f : Filter) (s : State) (t : Text) : Text :=
  runBefore f none s t

/-- Reading a text and then another writes what the first gives, with the start of the
    second in view, and then what the second gives from the state reached. -/
theorem run_append (f : Filter) (s : State) (u v : Text) :
    run f s (u ++ v) = runBefore f v.head? s u ++ run f (stateAfter f v.head? s u) v := by
  induction u generalizing s with
  | nil => simp [run, runBefore, stateAfter]
  | cons c cs ih =>
    simp only [run] at ih
    simp [run, runBefore, stateAfter, ih]

end Scanner

end Devicetree
