-- SUMMARY: Texts between quotes, as messages show them.
import Devicetree.Text.Hex
import Devicetree.Text.Printable

/-!
# Quoted texts

A message shows a foreign text between single quotes, or between double quotes if
it holds single ones only. The quotes, backslashes and what cannot be seen are
spelled out behind a backslash, so that no two texts are shown alike.
-/

namespace Devicetree

namespace Text

/-- The quotes for a text: double if it holds single quotes and no double ones. -/
def quoteFor (t : Text) : Char :=
  if t.holds '\'' && !t.holds '"' then '"' else '\''

/-- The code of a character behind a backslash, in as many digits as its size asks for. -/
def spelledCode (c : Char) : Text :=
  let code := c.toNat
  if code < 0x100 then '\\' :: 'x' :: Hex.padded 2 code
  else if code < 0x10000 then '\\' :: 'u' :: Hex.padded 4 code
  else '\\' :: 'U' :: Hex.padded 8 code

/-- How a character is shown between quotes. -/
def shownChar (quote : Char) (c : Char) : Text :=
  if c = quote || c = '\\' then ['\\', c]
  else if c = '\t' then ['\\', 't']
  else if c = '\n' then ['\\', 'n']
  else if c = '\r' then ['\\', 'r']
  else if isPrintable c then [c]
  else spelledCode c

/-- A text between quotes. -/
def quoted (t : Text) : Text :=
  let quote := quoteFor t
  quote :: (t.flatMap (shownChar quote) ++ [quote])

/-- Texts between quotes, in brackets. -/
def quotedList (ts : List Text) : Text :=
  '[' :: ((", ".toList).intercalate (ts.map quoted) ++ [']'])

end Text

/-- A string between quotes. -/
def quote (s : String) : String :=
  String.ofList (Text.quoted s.toList)

end Devicetree
