-- SUMMARY: Assigned lists of quoted strings in one spelling.
import Devicetree.Text.Pieces

/-!
# String lists

An assigned string list is an equals sign, quoted strings with commas between
them, and a semicolon, with blanks anywhere outside the quotes. It is written with
one space on either side of the equals sign, one behind each comma, and none before
the semicolon. A quoted string ends at the next quote; there are no escapes.
-/

namespace Devicetree

namespace StringList

-- ---------------------------------------------------------------------------
-- Elements
-- ---------------------------------------------------------------------------

/-- Cut a list at the commas outside quotes. `quoted` holds inside a quoted string, and
    `current` is what has been read of the element, last character first. An element
    is trimmed; a last element of blanks alone is none. -/
def splitFrom (quoted : Bool) (current : Text) : Text → List Text
  | [] =>
    match Text.trim current.reverse with
    | [] => []
    | tail => [tail]
  | c :: cs =>
    if c = '"' then splitFrom (!quoted) (c :: current) cs
    else if c = ',' && !quoted then Text.trim current.reverse :: splitFrom quoted [] cs
    else splitFrom quoted (c :: current) cs

/-- The elements of a list: what stands between its commas outside quotes. -/
def split (t : Text) : List Text :=
  splitFrom false [] t


-- ---------------------------------------------------------------------------
-- Finding lists
-- ---------------------------------------------------------------------------

/-- Where a reader of an assigned list stands. -/
inductive Place where
  | beforeString
  | inString
  | behindString
deriving DecidableEq, Repr

/-- How many characters stand before the semicolon that ends the list; `none` if the
    text does not go on as a list. -/
def extent? : Place → Text → Option Nat
  | _, [] => none
  | .beforeString, c :: cs =>
    if c = '"' then (extent? .inString cs).map (· + 1)
    else if isBlank c then (extent? .beforeString cs).map (· + 1)
    else none
  | .inString, c :: cs =>
    (extent? (if c = '"' then .behindString else .inString) cs).map (· + 1)
  | .behindString, c :: cs =>
    if c = ';' then some 0
    else if c = ',' then (extent? .beforeString cs).map (· + 1)
    else if isBlank c then (extent? .behindString cs).map (· + 1)
    else none

/-- The list assigned at the start of a text, with the blanks around it. -/
def find (t : Text) : Option (Text × Nat) :=
  let lead := (t.takeWhile isBlank).length
  match t.dropWhile isBlank with
  | '=' :: cs => (extent? .beforeString cs).map fun n => (cs.take n, lead + n + 2)
  | _ => none


-- ---------------------------------------------------------------------------
-- Spelling
-- ---------------------------------------------------------------------------

/-- The elements with a comma and a space between each two. -/
def separated : List Text → Text
  | [] => []
  | [e] => e
  | e :: es => e ++ ',' :: ' ' :: separated es

/-- An assigned list with canonical blanks. -/
def canonical (list : Text) : Text :=
  ' ' :: '=' :: ' ' :: (separated (split list) ++ [';'])

/-- Space every assigned string list canonically. -/
def normalize (t : Text) : Text :=
  Piece.replaceMatches find canonical t

end StringList

end Devicetree
