-- SUMMARY: The program: its commands under one name.
import Devicetree.Command.Compare
import Devicetree.Command.Profiles
import Devicetree.Command.Strip

/-!
# The program

A line of words names a command, and the words behind the name belong to it. Notes are
printed if the line asks for them in front of the name.
-/

namespace Devicetree

namespace Program

/-- The options of the program. -/
inductive Key where
  | version
  | debug
  | help
deriving DecidableEq, Repr

/-- What the program takes. -/
def grammar : Grammar Key where
  usage := ⟨"dtsdiff", "[OPTIONS] COMMAND [ARGS]..."⟩
  spellings :=
    [ ⟨"--version", .version, .interrupts⟩,
      ⟨"--debug", .debug, .turnsOn⟩,
      ⟨"--help", .help, .interrupts⟩ ]
  arguments := []
  isGroup := true

/-- The commands of the program. -/
def commands : List String :=
  ["compare", "profile", "strip"]

/-- The answer to an option that interrupts. -/
def interrupted : Key → Outcome
  | .version => .printing ["dtsdiff, version 0.1.0".toList] 0
  | _ => grammar.usage.help

/-- What a program prints, and how it ends. -/
structure Result where
  output : Text
  errors : Text
  ending : Ending

variable {m : Type → Type} [Monad m] [Machine m]

/-- Run a command on the words behind its name. -/
def runCommand (s : Surroundings) (command : String) (words : List Text) : m Outcome :=
  match command with
  | "compare" => Compare.run s words
  | "strip" => Strip.run s words
  | _ => Profiles.runGroup s words

/-- Run the program on a line of words. -/
def outcome (s : Surroundings) (words : List Text) : m Outcome :=
  grammar.runGroup commands words interrupted fun line command words => do
    return (← runCommand s command words).settleNotes (line.isOn .debug)

/-- Run the program. -/
def run (s : Surroundings) (words : List Text) : m Result := do
  let o ← outcome s words
  return ⟨o.outputText s.outputIsTerminal, o.errorText s.errorsAreTerminal, o.ending⟩

end Program

end Devicetree
