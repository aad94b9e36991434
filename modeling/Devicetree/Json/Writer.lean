-- SUMMARY: Writing JSON texts, on one line or indented, in ASCII.
import Devicetree.Decimal.Style
import Devicetree.Json.Value
import Devicetree.Text.Hex

/-!
# Writing JSON

Texts are ASCII only: every other character is written as one code unit behind
`\u`, or as two for a character past the basic plane. Indented texts put each
element and each member on a line of its own, two spaces further in than what
encloses it; what is empty stays on one line.
-/

namespace Devicetree

namespace Json

-- ---------------------------------------------------------------------------
-- Strings
-- ---------------------------------------------------------------------------

/-- A code unit behind a backslash. -/
def unitEscape (unit : Nat) : Text :=
  '\\' :: 'u' :: Hex.padded 4 unit

/-- How a character is written inside quotes. -/
def escape (c : Char) : Text :=
  match c with
  | '"' => ['\\', '"']
  | '\\' => ['\\', '\\']
  | '\n' => ['\\', 'n']
  | '\r' => ['\\', 'r']
  | '\t' => ['\\', 't']
  | '\x08' => ['\\', 'b']
  | '\x0c' => ['\\', 'f']
  | c =>
    let code := c.toNat
    if 32 ≤ code && code < 127 then [c]
    else if code < 0x10000 then unitEscape code
    else
      let rest := code - 0x10000
      unitEscape (0xD800 + rest / 0x400) ++ unitEscape (0xDC00 + rest % 0x400)

/-- A string in quotes. -/
def quoted (s : String) : Text :=
  '"' :: (s.toList.flatMap escape ++ ['"'])

/-- A value that holds no others. -/
def scalar : Json → Text
  | null => "null".toList
  | bool b => (if b then "true" else "false").toList
  | int n => (toString n).toList
  | real x => (DecimalStyle.stored.write x).toList
  | str s => quoted s
  | arr _ => "[]".toList
  | obj _ => "{}".toList


-- ---------------------------------------------------------------------------
-- One line
-- ---------------------------------------------------------------------------

mutual

/-- A value on one line. -/
def compact : Json → Text
  | arr (v :: items) => '[' :: (compact v ++ compactItems items)
  | obj ((k, v) :: members) => '{' :: (quoted k ++ ':' :: (compact v ++ compactMembers members))
  | v => scalar v

/-- The elements behind the first, with the closing bracket. -/
def compactItems : List Json → Text
  | [] => [']']
  | v :: items => ',' :: (compact v ++ compactItems items)

/-- The members behind the first, with the closing brace. -/
def compactMembers : List (String × Json) → Text
  | [] => ['}']
  | (k, v) :: members => ',' :: (quoted k ++ ':' :: (compact v ++ compactMembers members))

end


-- ---------------------------------------------------------------------------
-- Indented
-- ---------------------------------------------------------------------------

/-- A line feed and the indentation of the line it starts. -/
def newLine (indent : Nat) : Text :=
  '\n' :: List.replicate indent ' '

mutual

/-- A value that stands on a line indented by `indent`. -/
def indented (indent : Nat) : Json → Text
  | arr (v :: items) =>
    '[' :: (newLine (indent + 2) ++ indented (indent + 2) v ++ indentedItems indent items)
  | obj ((k, v) :: members) =>
    '{' :: (newLine (indent + 2) ++ quoted k ++ ':' :: ' ' :: indented (indent + 2) v
      ++ indentedMembers indent members)
  | v => scalar v

/-- The elements behind the first, with the closing bracket. -/
def indentedItems (indent : Nat) : List Json → Text
  | [] => newLine indent ++ [']']
  | v :: items =>
    ',' :: (newLine (indent + 2) ++ indented (indent + 2) v ++ indentedItems indent items)

/-- The members behind the first, with the closing brace. -/
def indentedMembers (indent : Nat) : List (String × Json) → Text
  | [] => newLine indent ++ ['}']
  | (k, v) :: members =>
    ',' :: (newLine (indent + 2) ++ quoted k ++ ':' :: ' ' :: indented (indent + 2) v
      ++ indentedMembers indent members)

end

/-- A value over several lines, without a line feed at the end. -/
def pretty (v : Json) : Text :=
  indented 0 v

end Json

end Devicetree
