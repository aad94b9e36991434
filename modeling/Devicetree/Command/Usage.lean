-- SUMMARY: What is wrong with a command line, and how it is said.
import Devicetree.Command.Closest
import Devicetree.Command.Outcome

/-!
# Usage

A command line that a command cannot take is answered with how the command is used and
what is wrong; two faults of a single option are answered without the former.
-/

namespace Devicetree

/-- How a command is called. -/
structure Usage where
  /-- The names that lead to the command. -/
  name : String
  /-- What stands behind them. -/
  arguments : String
deriving DecidableEq, Repr

/-- What is wrong with a command line. -/
inductive UsageFault where
  | needsArgument (option : Text)
  | takesNoValue (option : Text)
  | noSuchOption (option : Text) (similar : List String)
  | noSuchCommand (name : Text) (similar : List String)
  | missingCommand
  | missingArgument (name : String)
  | unexpectedArguments (first : Text) (others : List Text)
  | invalidValue (what reason : String)
  /-- A value is a path with a zero character. -/
  | zeroInPath
deriving DecidableEq, Repr

namespace UsageFault

/-- A text between quotes. -/
def shown (t : Text) : String :=
  String.ofList (Text.quoted t)

/-- The wording of a fault. -/
def message : UsageFault → String
  | needsArgument option => s!"Option {shown option} requires an argument."
  | takesNoValue option => s!"Option {shown option} does not take a value."
  | noSuchOption option similar => s!"No such option {shown option}.{Closest.message similar}"
  | noSuchCommand name similar => s!"No such command {shown name}.{Closest.message similar}"
  | missingCommand => "Missing command."
  | missingArgument name => s!"Missing argument '{name}'."
  | unexpectedArguments first [] => s!"Got unexpected extra argument ({String.ofList first})"
  | unexpectedArguments first others =>
    let all := " ".intercalate ((first :: others).map String.ofList)
    s!"Got unexpected extra arguments ({all})"
  | invalidValue what reason => s!"Invalid value for {what}: {reason}"
  | zeroInPath => Breakdown.zeroInPath.message

/-- Whether the usage of the command is shown with the fault. -/
def showsUsage : UsageFault → Bool
  | needsArgument _ => false
  | takesNoValue _ => false
  | _ => true

/-- The answer to a command line with a fault. A path with a zero character breaks a
    program off. -/
def outcome (u : Usage) : UsageFault → Outcome
  | zeroInPath => .breaking .zeroInPath
  | fault =>
    let header :=
      if fault.showsUsage then
        [s!"Usage: {u.name} {u.arguments}", s!"Try '{u.name} --help' for help.", ""]
      else []
    { errors := (header ++ [s!"Error: {fault.message}"]).map String.toList
      ending := .exit 2 }

end UsageFault

namespace Usage

/-- The answer to a request for help. -/
def help (u : Usage) : Outcome :=
  .printing [s!"Usage: {u.name} {u.arguments}".toList] 0

/-- The answer to an empty line that should name a command. -/
def hint (u : Usage) : Outcome :=
  .failing s!"Usage: {u.name} {u.arguments}" 2

end Usage

end Devicetree
