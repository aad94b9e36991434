-- SUMMARY: The command that compares two sources.
import Devicetree.Command.Options

/-!
# Comparing

Either side is a file, or standard input if it is a dash. The left side is loaded first,
and a fault there is the answer.
-/

namespace Devicetree

namespace Compare

/-- The options of the command. -/
inductive Key where
  | filter (s : FilterSwitch)
  | form
  | context
  | quiet
  | verbose
  | help
deriving DecidableEq, Repr

/-- What the command takes. -/
def grammar : Grammar Key where
  usage := ⟨"dtsdiff compare", "[OPTIONS] LEFT RIGHT"⟩
  spellings := FilterSwitch.spellings .filter ++
    [ ⟨"--format", .form, .takes (.choice Form.names)⟩,
      ⟨"--context", .context, .takes .integer⟩,
      ⟨"-U", .context, .takes .integer⟩,
      ⟨"--quiet", .quiet, .turnsOn⟩,
      ⟨"-q", .quiet, .turnsOn⟩,
      ⟨"--verbose", .verbose, .turnsOn⟩,
      ⟨"-v", .verbose, .turnsOn⟩,
      ⟨"--help", .help, .interrupts⟩ ]
  arguments := [⟨"LEFT", .source⟩, ⟨"RIGHT", .source⟩]

/-- Why a side cannot be had. -/
inductive SideFault where
  | load (fault : LoadFault)
  | input (fault : Utf8.Fault)

/-- The answer to a side that cannot be had. -/
def SideFault.outcome : SideFault → Outcome
  | load (.unreachable fault) => .failing s!"Unexpected error: {fault.message}" 1
  | load .overflow => .failing s!"Unexpected error: {LoadFault.overflow.message}" 1
  | load fault => fault.outcome
  | input fault => .failing s!"Unexpected error: {fault.message}" 1

/-- How a side is called. -/
def label (side : Text) : String :=
  if side = ['-'] then "<stdin>" else String.ofList side

/-- Standard input as a side; it must hold something. -/
def inputSide (s : Surroundings) : Except SideFault Text :=
  match s.inputText with
  | .error fault => .error (.input fault)
  | .ok t => if (Text.trim t).isEmpty then .error (.load .emptyInput) else .ok t

variable {m : Type → Type} [Monad m] [Machine m]

/-- Load a side, with what is noted about it. -/
def loadSide (s : Surroundings) (side : Text) : m (List Note × Except SideFault Text) := do
  if side = ['-'] then return ([], inputSide s)
  else
    let loaded ← Source.load (Path.ofText side)
    return (loaded.notes, loaded.text.mapError .load)

/-- Compare two sides. -/
def sides (s : Surroundings) (filter : Filter) (context : Int) (showing : Showing)
    (left right : Text) : m Outcome := do
  if left = ['-'] && right = ['-'] then
    return .failing "Error: only one side can be read from standard input" 2
  match ← loadSide s left with
  | (leftNotes, .error fault) => return fault.outcome.noting leftNotes
  | (leftNotes, .ok leftText) =>
    match ← loadSide s right with
    | (rightNotes, .error fault) => return fault.outcome.noting (leftNotes ++ rightNotes)
    | (rightNotes, .ok rightText) =>
      let c := Comparison.ofTexts filter context leftText rightText (label left) (label right)
      return (c.outcome showing).noting
        (leftNotes ++ rightNotes ++ Note.ofComparison filter leftText rightText c)

/-- Run the command. -/
def run (s : Surroundings) (words : List Text) : m Outcome :=
  grammar.run words (fun _ => grammar.usage.help) fun line =>
    sides s (FilterSwitch.filter .filter line)
      (((line.value? .context).bind Numeral.int?).getD 3)
      { form := Form.ofValue (line.value? .form)
        quiet := line.isOn .quiet
        verbose := line.isOn .verbose }
      (line.argument 0) (line.argument 1)

end Compare

end Devicetree
