-- SUMMARY: Joining the lines of a property into one record.
import Devicetree.Text.Lines

/-!
# Records

A property may run over several lines. Its record is the trimmed lines with single
spaces between them. A line ends a record with a semicolon, or with a comma if the
next line holds an assignment that does not start with a quote; a comma also ends
the record if no line follows.
-/

namespace Devicetree

namespace Record

/-- Whether a record goes on into the line behind a comma. -/
def goesOnInto (next : Line) : Bool :=
  let text := Text.trim next
  text.head? == some '"' || !text.contains '='

/-- Whether a trimmed line ends its record, with the line behind it in view. -/
def endsAt (text : Text) (next : Option Line) : Bool :=
  match text.getLast? with
  | some ';' => true
  | some ',' => !next.any goesOnInto
  | _ => false

/-- Put a piece behind what has been read of a record. -/
def extend (current text : Text) : Text :=
  if current.isEmpty then text else current ++ ' ' :: text

/-- Join lines into records; `current` is what has been read of the first. -/
def joinFrom (current : Text) : List Line → List Text
  | [] => if current.isEmpty then [] else [current]
  | l :: ls =>
    let text := Text.trim l
    if text.isEmpty then joinFrom current ls
    else if endsAt text ls.head? then extend current text :: joinFrom [] ls
    else joinFrom (extend current text) ls

/-- Join lines into records. -/
def join (ls : List Line) : List Text :=
  joinFrom [] ls

end Record

end Devicetree
