-- SUMMARY: Reading JSON texts; where and why a text is not JSON.
import Devicetree.Decimal.Reading
import Devicetree.Json.Value
import Devicetree.Text.Hex
import Devicetree.Text.Lines

/-!
# Reading JSON

A recursive-descent reader over the characters that are left. A fault says what
was expected and how many characters were left when it was missed, from which the
line and the column follow. The reader also takes the three words that stand for
numbers that are not finite.

Two things are left open about the reader. It calls itself for what is inside an array or
an object, so the stack of the runtime bounds how deeply these may be nested; how much of
it is left depends on who calls. And half a surrogate pair that stands alone is no
character: which one is read for it is a parameter, and what holds for every choice does
not depend on such halves.
-/

namespace Devicetree

namespace Json

-- ---------------------------------------------------------------------------
-- Faults
-- ---------------------------------------------------------------------------

/-- What a reader was looking for when it stopped. -/
inductive Expected where
  | value
  | memberName
  | colon
  | comma
  | closingQuote
  | printable
  | escapeLetter
  | escapeDigits
  | nothing
  | unmarkedStart
deriving DecidableEq, Repr

/-- Why a text was not read. -/
inductive Fault where
  /-- Something else stood where `expected` belongs, `left` characters before the end. -/
  | missed (expected : Expected) (left : Nat)
  /-- A whole number has more digits than are converted. -/
  | tooManyDigits (count : Nat)
  /-- Arrays and objects are nested more deeply than the reader follows; the innermost
      one that it met is an array or an object. -/
  | tooDeep (isArray : Bool)
deriving DecidableEq, Repr

/-- The wording for what was missed. -/
def Expected.message : Expected → String
  | value => "Expecting value"
  | memberName => "Expecting property name enclosed in double quotes"
  | colon => "Expecting ':' delimiter"
  | comma => "Expecting ',' delimiter"
  | closingQuote => "Unterminated string starting at"
  | printable => "Invalid control character at"
  | escapeLetter => "Invalid \\escape"
  | escapeDigits => "Invalid \\uXXXX escape"
  | nothing => "Extra data"
  | unmarkedStart => "Unexpected UTF-8 BOM (decode using utf-8-sig)"

/-- Line and column, from one, of the end of a text. -/
def position (before : Text) : Nat × Nat :=
  (before.count '\n' + 1, (before.reverse.takeWhile (· != '\n')).length + 1)

/-- The whole wording of a fault in `text`. -/
def Fault.message (text : Text) : Fault → String
  | missed expected left =>
    let offset := text.length - left
    let (line, column) := position (text.take offset)
    s!"{expected.message}: line {line} column {column} (char {offset})"
  | tooManyDigits count =>
    "Exceeds the limit (4300 digits) for integer string conversion: value has "
      ++ s!"{count} digits; use sys.set_int_max_str_digits() to increase the limit"
  | tooDeep isArray =>
    let kind := if isArray then "array" else "object"
    s!"maximum recursion depth exceeded while decoding a JSON {kind} from a unicode string"

/-- What a reading step answers: a result and the characters behind it. -/
abbrev Read (α : Type) := Except Fault (α × Text)


-- ---------------------------------------------------------------------------
-- Numbers and words
-- ---------------------------------------------------------------------------

/-- The blanks between the parts of a value. -/
def isSpace (c : Char) : Bool :=
  c == ' ' || c == '\t' || c == '\n' || c == '\r'

/-- The digits behind a point, and what follows; nothing if no digit does. -/
def fractionDigits : Text → Text × Text
  | '.' :: cs =>
    match cs.takeWhile Char.isDigit with
    | [] => ([], '.' :: cs)
    | ds => (ds, cs.dropWhile Char.isDigit)
  | cs => ([], cs)

/-- The value of an exponent, and what follows; `none` if there is none. -/
def exponentPart (cs : Text) : Option Int × Text :=
  match cs with
  | e :: rest =>
    if e == 'e' || e == 'E' then
      let (negative, ds) := match rest with
        | '-' :: ds => (true, ds)
        | '+' :: ds => (false, ds)
        | ds => (false, ds)
      match ds.takeWhile Char.isDigit with
      | [] => (none, cs)
      | digits =>
        let n : Int := Decimal.natural digits
        (some (if negative then -n else n), ds.dropWhile Char.isDigit)
    else (none, cs)
  | [] => (none, cs)

/-- The digits before a point: a lone zero, or digits that start with another. -/
def wholeDigits : Text → Text
  | '0' :: _ => ['0']
  | cs => cs.takeWhile Char.isDigit

/-- Read a number, which starts with `signed`; behind its sign stands `cs`. -/
def number (negative : Bool) (signed cs : Text) : Read Json :=
  match wholeDigits cs with
  | [] => .error (.missed .value signed.length)
  | whole =>
    let (fraction, afterFraction) := fractionDigits (cs.drop whole.length)
    let (exponent, rest) := exponentPart afterFraction
    if fraction.isEmpty && exponent.isNone then
      if Decimal.digitLimit < whole.length then .error (.tooManyDigits whole.length)
      else
        let n : Int := Decimal.natural whole
        .ok (int (if negative then -n else n), rest)
    else
      let x := Decimal.toFloat (Decimal.natural (whole ++ fraction))
        (exponent.getD 0 - fraction.length)
      .ok (real (if negative then -x else x), rest)

/-- What follows a word at the start of a text, if it stands there. -/
def afterWord (word : String) (cs : Text) : Option Text :=
  if word.toList.isPrefixOf cs then some (cs.drop word.length) else none

/-- Read a value that is one word or a number. -/
def atom (cs : Text) : Read Json :=
  if let some rest := afterWord "null" cs then .ok (null, rest)
  else if let some rest := afterWord "true" cs then .ok (bool true, rest)
  else if let some rest := afterWord "false" cs then .ok (bool false, rest)
  else if let some rest := afterWord "NaN" cs then .ok (real (0.0 / 0.0), rest)
  else if let some rest := afterWord "Infinity" cs then .ok (real (1.0 / 0.0), rest)
  else if let some rest := afterWord "-Infinity" cs then .ok (real (-1.0 / 0.0), rest)
  else match cs with
    | '-' :: digits => number true cs digits
    | _ => number false cs cs


-- ---------------------------------------------------------------------------
-- Strings
-- ---------------------------------------------------------------------------

/-- The character that a letter behind a backslash stands for. -/
def unescape? : Char → Option Char
  | '"' => some '"'
  | '\\' => some '\\'
  | '/' => some '/'
  | 'b' => some '\x08'
  | 'f' => some '\x0c'
  | 'n' => some '\n'
  | 'r' => some '\r'
  | 't' => some '\t'
  | _ => none

/-- The four digits at the start of a text as a code unit. -/
def codeUnit? (cs : Text) : Option Nat :=
  if (cs.drop 3).isEmpty then none else Hex.read? (cs.take 4)

/-- A character from a code point, or what is read for half a pair. -/
def character (half : Nat → Char) (code : Nat) : Char :=
  if 0xD800 ≤ code && code < 0xE000 then half code else Char.ofNat code

/-- The low half of a pair that stands, with its own backslash, at the start of a
    text. It counts only if the string goes on behind it. -/
def lowHalf? (cs : Text) : Except Fault (Option Nat) :=
  match cs with
  | '\\' :: 'u' :: rest =>
    if (rest.drop 4).isEmpty then .ok none
    else match codeUnit? rest with
      | none => .error (.missed .escapeDigits (cs.length - 1))
      | some low => .ok (if 0xDC00 ≤ low && low < 0xE000 then some low else none)
  | _ => .ok none

/-- Read the rest of a string, which begins with its opening quote as `whole`. `skip`
    characters have been taken in with an escape already; `done` is what has been read,
    last character first. -/
def string (half : Nat → Char) (whole : Text) : Nat → Text → Text → Read String
  | _, _, [] => .error (.missed .closingQuote whole.length)
  | skip + 1, done, _ :: cs => string half whole skip done cs
  | 0, done, '"' :: cs => .ok (String.ofList done.reverse, cs)
  | 0, _, '\\' :: [] => .error (.missed .closingQuote whole.length)
  | 0, done, '\\' :: 'u' :: cs =>
    if (cs.drop 4).isEmpty then .error (.missed .escapeDigits (cs.length + 1))
    else match codeUnit? cs with
      | none => .error (.missed .escapeDigits (cs.length + 1))
      | some unit =>
        if 0xD800 ≤ unit && unit < 0xDC00 then
          match lowHalf? (cs.drop 4) with
          | .error fault => .error fault
          | .ok none => string half whole 5 (character half unit :: done) ('u' :: cs)
          | .ok (some low) =>
            let code := 0x10000 + (unit - 0xD800) * 0x400 + (low - 0xDC00)
            string half whole 11 (character half code :: done) ('u' :: cs)
        else string half whole 5 (character half unit :: done) ('u' :: cs)
  | 0, done, '\\' :: c :: cs =>
    match unescape? c with
    | none => .error (.missed .escapeLetter (cs.length + 2))
    | some d => string half whole 1 (d :: done) (c :: cs)
  | 0, done, c :: cs =>
    if c.toNat < 32 then .error (.missed .printable (cs.length + 1))
    else string half whole 0 (c :: done) cs


-- ---------------------------------------------------------------------------
-- Values
-- ---------------------------------------------------------------------------

/-- Drop the blanks at the start. -/
def skipSpace (cs : Text) : Text :=
  cs.dropWhile isSpace

/-- What is left open about a reader. -/
structure Reading where
  /-- How many arrays and objects may be open inside each other. -/
  depth : Nat := 990
  /-- The character that is read for half a surrogate pair. -/
  half : Nat → Char := fun _ => '\uFFFD'

mutual

/-- Read a value that starts with the first character. Each call takes at least one
    character or ends, so the characters that are left bound the calls. -/
def value (half : Nat → Char) : (fuel depth : Nat) → Text → Read Json
  | 0, _, cs => .error (.missed .value cs.length)
  | fuel + 1, depth, cs =>
    match cs with
    | '"' :: rest =>
      match string half cs 0 [] rest with
      | .error fault => .error fault
      | .ok (s, rest) => .ok (str s, rest)
    | '[' :: rest =>
      if depth = 0 then .error (.tooDeep true)
      else match skipSpace rest with
        | ']' :: rest => .ok (arr [], rest)
        | rest => elements half fuel (depth - 1) [] rest
    | '{' :: rest =>
      if depth = 0 then .error (.tooDeep false)
      else match skipSpace rest with
        | '}' :: rest => .ok (obj [], rest)
        | rest => members half fuel (depth - 1) [] rest
    | _ => atom cs

/-- Read the elements of an array up to its end; `done` holds those before, the last
    one first. -/
def elements (half : Nat → Char) : (fuel depth : Nat) → List Json → Text → Read Json
  | 0, _, _, cs => .error (.missed .value cs.length)
  | fuel + 1, depth, done, cs =>
    match value half fuel depth cs with
    | .error fault => .error fault
    | .ok (v, rest) =>
      match skipSpace rest with
      | ']' :: rest => .ok (arr (v :: done).reverse, rest)
      | ',' :: rest => elements half fuel depth (v :: done) (skipSpace rest)
      | rest => .error (.missed .comma rest.length)

/-- Read the members of an object up to its end; `done` holds those before. -/
def members (half : Nat → Char) : (fuel depth : Nat) → List (String × Json) → Text → Read Json
  | 0, _, _, cs => .error (.missed .value cs.length)
  | fuel + 1, depth, done, cs =>
    match cs with
    | '"' :: rest =>
      match string half cs 0 [] rest with
      | .error fault => .error fault
      | .ok (key, rest) =>
        match skipSpace rest with
        | ':' :: rest =>
          match value half fuel depth (skipSpace rest) with
          | .error fault => .error fault
          | .ok (v, rest) =>
            match skipSpace rest with
            | '}' :: rest => .ok (obj (put key v done), rest)
            | ',' :: rest => members half fuel depth (put key v done) (skipSpace rest)
            | rest => .error (.missed .comma rest.length)
        | rest => .error (.missed .colon rest.length)
    | _ => .error (.missed .memberName cs.length)

end

/-- Read a text that holds one value and blanks around it. -/
def parse (text : Text) (r : Reading := {}) : Except Fault Json :=
  match text with
  | '\uFEFF' :: _ => .error (.missed .unmarkedStart text.length)
  | _ =>
    let start := skipSpace text
    match value r.half (2 * start.length + 1) r.depth start with
    | .error fault => .error fault
    | .ok (v, rest) =>
      match skipSpace rest with
      | [] => .ok v
      | rest => .error (.missed .nothing rest.length)

end Json

end Devicetree
