-- SUMMARY: What a command leaves behind: what it printed, and how it ended.
import Devicetree.Breakdown
import Devicetree.Note
import Devicetree.Text.ControlSequence

/-!
# Outcomes

A command prints to two channels and ends with an exit code, unless it breaks down.
Each text that is printed has a line feed behind it, and control sequences reach
terminals only. Notes are printed to the error channel, in front of all else and as they
are, and only if they are asked for.
-/

namespace Devicetree

/-- How a command ends. -/
inductive Ending where
  | exit (code : Nat)
  | broken (breakdown : Breakdown)
deriving DecidableEq, Repr

/-- The exit code that the caller sees; a program that breaks down leaves a one. -/
def Ending.code : Ending → Nat
  | exit code => code
  | broken _ => 1

/-- What a command leaves behind. -/
structure Outcome where
  notes : List Note := []
  output : List Text := []
  errors : List Text := []
  ending : Ending := .exit 0

namespace Outcome

/-- Print texts and end with a code. -/
def printing (output : List Text) (code : Nat) : Outcome :=
  { output, ending := .exit code }

/-- Print a text to the error channel and end with a code. -/
def failing (message : String) (code : Nat) : Outcome :=
  { errors := [message.toList], ending := .exit code }

/-- Break down. -/
def breaking (breakdown : Breakdown) : Outcome :=
  { ending := .broken breakdown }

/-- Put notes in front of those that an outcome has. -/
def noting (notes : List Note) (o : Outcome) : Outcome :=
  { o with notes := notes ++ o.notes }

/-- Drop the notes, unless they are asked for. -/
def settleNotes (asked : Bool) (o : Outcome) : Outcome :=
  { o with notes := if asked then o.notes else [] }

/-- Texts with a line feed behind each. -/
def printed (texts : List Text) : Text :=
  texts.flatMap (· ++ ['\n'])

/-- A text as it is shown on a channel. -/
def shown (terminal : Bool) (t : Text) : Text :=
  if terminal then t else ControlSequence.strip t

/-- What is printed to standard output. -/
def outputText (terminal : Bool) (o : Outcome) : Text :=
  printed (o.output.map (shown terminal))

/-- What is printed to the error channel. -/
def errorText (terminal : Bool) (o : Outcome) : Text :=
  printed (o.notes.flatMap Note.lines) ++ printed (o.errors.map (shown terminal))

end Outcome

end Devicetree
