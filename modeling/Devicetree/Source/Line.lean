-- SUMMARY: What a line of a source is, and the keys by which blocks and properties are ordered.
import Devicetree.Text.Hex
import Devicetree.Text.Lines

/-!
# Lines of a source

A line opens a block, holds part of a property or is blank. It opens a block if it
starts with a name, with a unit address or without, and an opening brace, or with a
label that more text and an opening brace follow. Names are ASCII.

Blocks are ordered by their label, or by their name and unit address if they have
none; properties by the text before the first sign of an assignment.
-/

namespace Devicetree

namespace Line

-- ---------------------------------------------------------------------------
-- Names
-- ---------------------------------------------------------------------------

/-- The characters of names and labels. -/
def isNameChar (c : Char) : Bool :=
  c.isAlphanum || c == '_' || c == '-'

/-- The unit address at the start of a text, with its sign, or nothing. -/
def unitAddress : Text → Text
  | '@' :: cs =>
    match cs.takeWhile Hex.isDigit with
    | [] => []
    | digits => '@' :: digits
  | _ => []

/-- Whether a text goes on, behind blanks, with the given character. -/
def goesOnWith (c : Char) (t : Text) : Bool :=
  (Text.trimStart t).head? == some c

/-- The label at the start of a line: a name with a colon behind it. -/
def label? (l : Line) : Option Text :=
  let name := l.takeWhile isNameChar
  if !name.isEmpty && goesOnWith ':' (l.drop name.length) then some name else none

/-- The block name at the start of a line: a name, perhaps with a unit address, and an
    opening brace behind it. -/
def blockName? (l : Line) : Option Text :=
  let name := l.takeWhile isNameChar
  let full := name ++ unitAddress (l.drop name.length)
  if !name.isEmpty && goesOnWith '{' (l.drop full.length) then some full else none


-- ---------------------------------------------------------------------------
-- Kinds
-- ---------------------------------------------------------------------------

/-- What a line is. -/
inductive Kind where
  | opener
  | property
  | blank
deriving DecidableEq, Repr

/-- Whether an opening brace follows a label: behind at least one character other than
    a line feed, which may be a blank, with no line feed between the two. -/
def bracedBehindLabel (t : Text) : Bool :=
  let blanks := t.takeWhile isBlank
  match (t.dropWhile isBlank).takeWhile (· != '\n') with
  | [] => false
  | c :: cs => cs.contains '{' || (c == '{' && blanks.getLast?.any (· != '\n'))

/-- Whether a line starts with a label that a brace follows. -/
def isLabeledOpener (l : Line) : Bool :=
  match label? l with
  | none => false
  | some name => bracedBehindLabel ((Text.trimStart (l.drop name.length)).drop 1)

/-- What a line is. -/
def kind (l : Line) : Kind :=
  let text := Text.trim l
  if text.isEmpty then .blank
  else if (blockName? text).isSome || isLabeledOpener text then .opener
  else .property


-- ---------------------------------------------------------------------------
-- Keys
-- ---------------------------------------------------------------------------

/-- The key of a block whose opening line names nothing; it comes behind common names. -/
def unnamedKey : Text := "zzz_unknown".toList

/-- The key of the block that a line opens. -/
def blockKey (l : Line) : Text :=
  let text := Text.trimStart l
  ((label? text).or (blockName? text)).getD unnamedKey

/-- The signs that end the name of a property. -/
def endsName (c : Char) : Bool :=
  c == '=' || c == ';' || c == ':'

/-- The key of a property: the text before the first sign that ends its name, or all
    of it if that sign comes first. -/
def propertyKey (l : Line) : Text :=
  match l.takeWhile (!endsName ·) with
  | [] => l
  | name => Text.trim name


-- ---------------------------------------------------------------------------
-- Braces
-- ---------------------------------------------------------------------------

/-- How many more braces a line opens than it closes. -/
def braceBalance (l : Line) : Int :=
  (l.count '{' : Int) - l.count '}'

end Line

end Devicetree
