-- SUMMARY: The text that stands for a JSON value where a name is wanted.
import Devicetree.Decimal.Style
import Devicetree.Json.Value
import Devicetree.Text.Quoted

/-!
# Labels

A record names things by texts. Where another value stands in its place, the value
is shown: words with a capital letter, numbers in full, and what is nested in
brackets, with its texts between quotes. A text is its own label.
-/

namespace Devicetree

namespace Json

/-- What a value is called in messages. -/
def typeName : Json → String
  | null => "NoneType"
  | bool _ => "bool"
  | int _ => "int"
  | real _ => "float"
  | str _ => "str"
  | arr _ => "list"
  | obj _ => "dict"

mutual

/-- A value as it is shown inside brackets. -/
def shown : Json → Text
  | null => "None".toList
  | bool b => (if b then "True" else "False").toList
  | int n => (toString n).toList
  | real x => (DecimalStyle.plain.write x).toList
  | str s => Text.quoted s.toList
  | arr [] => ['[', ']']
  | arr (v :: items) => '[' :: (shown v ++ shownItems items)
  | obj [] => ['{', '}']
  | obj ((k, v) :: members) =>
    '{' :: (Text.quoted k.toList ++ ':' :: ' ' :: (shown v ++ shownMembers members))

/-- The elements behind the first, with the closing bracket. -/
def shownItems : List Json → Text
  | [] => [']']
  | v :: items => ',' :: ' ' :: (shown v ++ shownItems items)

/-- The members behind the first, with the closing brace. -/
def shownMembers : List (String × Json) → Text
  | [] => ['}']
  | (k, v) :: members =>
    ',' :: ' ' :: (Text.quoted k.toList ++ ':' :: ' ' :: (shown v ++ shownMembers members))

end

/-- The text that stands for a value. -/
def label : Json → String
  | str s => s
  | v => String.ofList (shown v)

end Json

end Devicetree
