-- SUMMARY: Properties of a flattened tree as lines of source.
import Devicetree.Text.Octets

/-!
# Property values

Values carry no type. Printable strings that each end with a zero octet are written
as a string list, whole words as cells, and anything else octet by octet; a property
without a value is its name alone.
-/

namespace Devicetree

namespace PropertyValue

/-- Printable octets: ASCII with tabs and line breaks. -/
def isPrintable (o : UInt8) : Bool :=
  (0x20 ≤ o && o < 0x7F) || o == 0x09 || o == 0x0A || o == 0x0D

/-- Cut octets behind each zero; the last part has none behind it. -/
def parts : Octets → List Octets
  | [] => [[]]
  | o :: os =>
    if o = 0 then [] :: parts os
    else match parts os with
      | [] => [[o]]
      | p :: ps => (o :: p) :: ps

/-- The strings of a string list: printable, not empty, each with a zero behind it. -/
def strings? (value : Octets) : Option (List Text) :=
  if value.getLast? = some 0 then
    let strings := parts value.dropLast
    if strings.all fun s => !s.isEmpty && s.all isPrintable then
      some (strings.map fun s => s.map fun o => Char.ofNat o.toNat)
    else none
  else none

/-- The words of a value, as far as they are whole. -/
def cells : Octets → List Nat
  | a :: b :: c :: d :: os => Octets.number [a, b, c, d] :: cells os
  | _ => []

/-- Texts with a separator between each two. -/
def joined (separator : Text) : List Text → Text
  | [] => []
  | [t] => t
  | t :: ts => t ++ separator ++ joined separator ts

/-- A value as it is assigned, if it is not empty. -/
def text (value : Octets) : Text :=
  match strings? value with
  | some strings => joined [',', ' '] (strings.map fun s => '"' :: (s ++ ['"']))
  | none =>
    if value.length % 4 = 0 then
      '<' :: (joined [' '] ((cells value).map fun n => '0' :: 'x' :: Hex.digits n) ++ ['>'])
    else '[' :: (joined [' '] (value.map fun o => Hex.padded 2 o.toNat) ++ [']'])

/-- The line of a property. -/
def line (name : Text) (value : Octets) (indent : Text) : Line :=
  if value.isEmpty then indent ++ name ++ [';']
  else indent ++ name ++ " = ".toList ++ text value ++ [';']

end PropertyValue

end Devicetree
