-- SUMMARY: Which unquoted words a YAML reader takes for something other than a string.
import Devicetree.Text.Hex

/-!
# Look-alikes

An unquoted word is read as a truth value, null, a number, a time or one of two
marks if it has that shape in YAML 1.1. A string of such a shape has to be quoted.
Each shape is a recogniser that takes its part off the front of a word.
-/

namespace Devicetree

namespace Yaml

-- ---------------------------------------------------------------------------
-- Words
-- ---------------------------------------------------------------------------

/-- The words for truth values, null, the merge key and the default value. -/
def reservedWords : List String :=
  [ "yes", "Yes", "YES", "no", "No", "NO", "true", "True", "TRUE", "false", "False", "FALSE",
    "on", "On", "ON", "off", "Off", "OFF", "~", "null", "Null", "NULL", "", "<<", "=" ]


-- ---------------------------------------------------------------------------
-- Numbers
-- ---------------------------------------------------------------------------

/-- A digit of base ten, or the mark that may stand between digits. -/
def isSpacedDigit (c : Char) : Bool :=
  c.isDigit || c == '_'

/-- Drop one sign. -/
def dropSign : Text → Text
  | '-' :: cs => cs
  | '+' :: cs => cs
  | cs => cs

/-- Whether a text is nothing but characters of a class, and has at least one. -/
def isAll (test : Char → Bool) (t : Text) : Bool :=
  !t.isEmpty && t.all test

/-- What follows the parts `:mm` of a number of base sixty, and whether there was one. -/
def dropSixties : Text → Bool × Text
  | ':' :: a :: b :: cs =>
    if '0' ≤ a && a ≤ '5' && b.isDigit then (true, (dropSixties cs).2)
    else if a.isDigit then (true, (dropSixties (b :: cs)).2)
    else (false, ':' :: a :: b :: cs)
  | [':', a] => if a.isDigit then (true, []) else (false, [':', a])
  | cs => (false, cs)

/-- Whether a text is an exponent, which has a sign, or nothing. -/
def isExponentOrEmpty : Text → Bool
  | [] => true
  | e :: sign :: digits =>
    (e == 'e' || e == 'E') && (sign == '-' || sign == '+') && isAll Char.isDigit digits
  | _ => false

/-- Whole numbers of base two, eight, ten, sixteen and sixty. -/
def looksWhole (t : Text) : Bool :=
  match dropSign t with
  | ['0'] => true
  | '0' :: 'b' :: ds => isAll (fun c => c == '0' || c == '1' || c == '_') ds
  | '0' :: 'x' :: ds => isAll (fun c => Hex.isDigit c || c == '_') ds
  | '0' :: ds => isAll (fun c => ('0' ≤ c && c ≤ '7') || c == '_') ds
  | d :: ds =>
    d.isDigit && (ds.dropWhile isSpacedDigit == []
      || dropSixties (ds.dropWhile isSpacedDigit) == (true, []))
  | [] => false

/-- Numbers with a point, infinities and what is not a number. -/
def looksFractional (t : Text) : Bool :=
  let unsigned := dropSign t
  let word := String.ofList unsigned
  match unsigned with
  | '.' :: d :: ds =>
    [".inf", ".Inf", ".INF"].contains word
      || (unsigned == t && ([".nan", ".NaN", ".NAN"].contains word
        || (d.isDigit && isExponentOrEmpty (ds.dropWhile isSpacedDigit))))
  | d :: ds =>
    d.isDigit && match ds.dropWhile isSpacedDigit with
      | '.' :: rest => isExponentOrEmpty (rest.dropWhile isSpacedDigit)
      | rest => match dropSixties rest with
        | (true, '.' :: rest) => rest.all isSpacedDigit
        | _ => false
  | [] => false


-- ---------------------------------------------------------------------------
-- Times
-- ---------------------------------------------------------------------------

/-- Take between `least` and `most` digits off, if there are so many. -/
def dropDigits (least most : Nat) (t : Text) : Option Text :=
  let n := ((t.take most).takeWhile Char.isDigit).length
  if least ≤ n then some (t.drop n) else none

/-- Take one given character off. -/
def dropChar (c : Char) : Text → Option Text
  | d :: cs => if c = d then some cs else none
  | [] => none

/-- A date of four, two and two digits. -/
def looksLikeDate (t : Text) : Bool :=
  (do
    let t ← dropDigits 4 4 t
    let t ← dropDigits 2 2 (← dropChar '-' t)
    dropDigits 2 2 (← dropChar '-' t)) == some []

/-- The zone at the end of a time, if any. -/
def isZoneOrEmpty (t : Text) : Bool :=
  match t.dropWhile isGap with
  | [] => t.isEmpty
  | ['Z'] => true
  | sign :: digits =>
    (sign == '-' || sign == '+') && match dropDigits 1 2 digits with
      | some [] => true
      | some (':' :: minutes) => dropDigits 2 2 minutes == some []
      | _ => false

/-- A date with a time of day, perhaps with a fraction and a zone. -/
def looksLikeMoment (t : Text) : Bool :=
  let behindDate : Option Text := do
    let t ← dropDigits 4 4 t
    let t ← dropDigits 1 2 (← dropChar '-' t)
    dropDigits 1 2 (← dropChar '-' t)
  let behindClock : Option Text := do
    let t ← behindDate
    let t ← match t with
      | 'T' :: rest => some rest
      | 't' :: rest => some rest
      | c :: rest => if isGap c then some (rest.dropWhile isGap) else none
      | [] => none
    let t ← dropDigits 1 2 t
    let t ← dropDigits 2 2 (← dropChar ':' t)
    dropDigits 2 2 (← dropChar ':' t)
  match behindClock with
  | none => false
  | some ('.' :: rest) => isZoneOrEmpty (rest.dropWhile Char.isDigit)
  | some rest => isZoneOrEmpty rest

/-- Whether an unquoted text would not be read as a string. -/
def isLookAlike (t : Text) : Bool :=
  reservedWords.contains (String.ofList t) || looksWhole t || looksFractional t
    || looksLikeDate t || looksLikeMoment t

end Yaml

end Devicetree
