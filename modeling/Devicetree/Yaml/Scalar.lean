-- SUMMARY: Strings as YAML scalars: unquoted, in single or in double quotes, folded at the line width.
import Devicetree.Yaml.LookAlike

/-!
# Scalars

A string is written without quotes if that can be read back, else in single quotes
if those can hold it, else in double quotes. Lines are folded at the first single
space past the width; in single quotes a line feed is written twice, and in double
quotes a fold is marked with a backslash. Everything but printable ASCII is escaped.
-/

namespace Devicetree

namespace Yaml

-- ---------------------------------------------------------------------------
-- The choice of a style
-- ---------------------------------------------------------------------------

/-- How a string is written. -/
inductive Style where
  | plain
  | single
  | double
deriving DecidableEq, Repr

/-- Characters that only double quotes can hold. -/
def needsEscape (c : Char) : Bool :=
  c != '\n' && (c.toNat < 0x20 || 0x7E < c.toNat)

/-- Whether a space stands right before or right behind a line feed. -/
def hasSpaceAtBreak : Text → Bool
  | ' ' :: '\n' :: _ => true
  | '\n' :: ' ' :: _ => true
  | _ :: cs => hasSpaceAtBreak cs
  | [] => false

/-- Characters that cannot come first without quotes. -/
def isIndicator (c : Char) : Bool :=
  "#,[]\x7b\x7d&*!|>'\"%@\x60".toList.contains c

/-- Whether, behind the first character, a colon stands before a space or at the end, or
    a hash behind a space. -/
def hasMark : Text → Bool
  | [] => false
  | [c] => c == ':'
  | c :: d :: cs => (c == ':' && d == ' ') || (c == ' ' && d == '#') || hasMark (d :: cs)

/-- Whether the start of a text means something else than a string. -/
def startsSpecially (t : Text) : Bool :=
  match t with
  | [] => true
  | c :: cs =>
    isIndicator c || ((c == '?' || c == ':' || c == '-') && (cs.isEmpty || cs.head? == some ' '))
      || "---".toList.isPrefixOf t || "...".toList.isPrefixOf t

/-- Whether a string can stand without quotes. -/
def isPlain (t : Text) : Bool :=
  !isLookAlike t && !startsSpecially t && !hasMark t && !t.contains '\n'
    && t.head? != some ' ' && t.getLast? != some ' '

/-- The style in which a string is written. -/
def styleOf (t : Text) : Style :=
  if t.any needsEscape || hasSpaceAtBreak t then .double
  else if isPlain t then .plain
  else .single


-- ---------------------------------------------------------------------------
-- Folding
-- ---------------------------------------------------------------------------

/-- Lines are folded once they are longer than this. -/
def width : Nat := 80

/-- The line feed and the indentation with which a scalar goes on. -/
def fold (indent : Nat) : Text :=
  '\n' :: List.replicate indent ' '

/-- The characters without quotes, from a column on. A single space past the width turns
    into a fold. `behind` is the character before. -/
def plainFrom (indent : Nat) : (column : Nat) → (behind : Option Char) → Text → Text
  | _, _, [] => []
  | column, behind, c :: cs =>
    if c = ' ' && behind != some ' ' && cs.head? != some ' ' && width < column then
      fold indent ++ plainFrom indent indent (some c) cs
    else c :: plainFrom indent (column + 1) (some c) cs

/-- The characters between single quotes, from a column on. A quote is doubled, and a
    run of line feeds is written with one more. -/
def singleFrom (indent : Nat) : (column : Nat) → (behind : Option Char) → Text → Text
  | _, _, [] => []
  | column, behind, c :: cs =>
    if c = '\n' then
      let first := if behind = some '\n' then [] else ['\n']
      if cs.head? = some '\n' then first ++ '\n' :: singleFrom indent 0 (some c) cs
      else first ++ fold indent ++ singleFrom indent indent (some c) cs
    else if c = '\'' then '\'' :: '\'' :: singleFrom indent (column + 2) (some c) cs
    else if c = ' ' && behind.any (· != ' ') && cs.head?.any (· != ' ') && width < column then
      fold indent ++ singleFrom indent indent (some c) cs
    else c :: singleFrom indent (column + 1) (some c) cs

/-- The letter behind a backslash that stands for a character. -/
def escapeLetter? (c : Char) : Option Char :=
  match c.toNat with
  | 0x00 => some '0'
  | 0x07 => some 'a'
  | 0x08 => some 'b'
  | 0x09 => some 't'
  | 0x0A => some 'n'
  | 0x0B => some 'v'
  | 0x0C => some 'f'
  | 0x0D => some 'r'
  | 0x1B => some 'e'
  | 0x22 => some '"'
  | 0x5C => some '\\'
  | 0x85 => some 'N'
  | 0xA0 => some '_'
  | 0x2028 => some 'L'
  | 0x2029 => some 'P'
  | _ => none

/-- How a character is written between double quotes; `none` if it stands for itself. -/
def escape? (c : Char) : Option Text :=
  let code := c.toNat
  if c != '"' && c != '\\' && 0x20 ≤ code && code ≤ 0x7E then none
  else some <| '\\' :: match escapeLetter? c with
    | some letter => [letter]
    | none =>
      let digits := fun n => (Hex.padded n code).map Char.toUpper
      if code ≤ 0xFF then 'x' :: digits 2
      else if code ≤ 0xFFFF then 'u' :: digits 4
      else 'U' :: digits 8

/-- What marks a fold between double quotes. A space that the next line starts with gets
    a backslash of its own, which takes one column more. -/
def doubleFold (indent : Nat) (next : Option Char) : Text × Nat :=
  if next = some ' ' then ('\\' :: fold indent ++ ['\\'], indent + 1)
  else ('\\' :: fold indent, indent)

/-- The characters between double quotes, from a column on. Behind the first character
    and before the last, a line past the width is folded behind an escape, and in front
    of a space or of a character that an escape precedes. -/
def doubleFrom (indent : Nat) :
    (column : Nat) → (first behindEscape : Bool) → Text → Text
  | _, _, _, [] => []
  | column, first, behindEscape, c :: cs =>
    let inside := !first && !cs.isEmpty
    match escape? c with
    | some escape =>
      let column := column + escape.length
      if inside && width + 1 < column then
        let (mark, column) := doubleFold indent cs.head?
        escape ++ mark ++ doubleFrom indent column false true cs
      else escape ++ doubleFrom indent column false true cs
    | none =>
      if inside && (c == ' ' || behindEscape) && width < column then
        let (mark, column) := doubleFold indent (some c)
        mark ++ c :: doubleFrom indent (column + 1) false false cs
      else c :: doubleFrom indent (column + 1) false false cs

/-- A string as a scalar that starts, with a space in front, at a column and goes on in
    lines indented by `indent`. -/
def scalar (indent column : Nat) (t : Text) : Text :=
  match styleOf t with
  | .plain => ' ' :: plainFrom indent (column + 1) none t
  | .single => ' ' :: '\'' :: (singleFrom indent (column + 2) none t ++ ['\''])
  | .double => ' ' :: '"' :: (doubleFrom indent (column + 2) true false t ++ ['"'])

end Yaml

end Devicetree
