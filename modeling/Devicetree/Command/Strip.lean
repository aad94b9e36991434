-- SUMMARY: The command that shows what a comparison would see of a source.
import Devicetree.Command.Options

/-!
# Stripping

A source is filtered and printed, or written to a file whose directory is made if it is
missing.
-/

namespace Devicetree

namespace Strip

/-- The options of the command. -/
inductive Key where
  | filter (s : FilterSwitch)
  | output
  | verbose
  | help
deriving DecidableEq, Repr

/-- What the command takes. -/
def grammar : Grammar Key where
  usage := ⟨"dtsdiff strip", "[OPTIONS] SOURCE"⟩
  spellings :=
    [ ⟨"--output", .output, .takes .file⟩,
      ⟨"-o", .output, .takes .file⟩ ]
    ++ FilterSwitch.spellings .filter ++
    [ ⟨"--verbose", .verbose, .turnsOn⟩,
      ⟨"-v", .verbose, .turnsOn⟩,
      ⟨"--help", .help, .interrupts⟩ ]
  arguments := [⟨"SOURCE", .source⟩]

variable {m : Type → Type} [Monad m] [Machine m]

/-- Write a text to a file; the line that says so. -/
def writeOutput (p : Path) (t : Text) : m (Except FileFault Text) := do
  match ← Machine.makeDirectories p.parent with
  | .error fault => return .error fault
  | .ok () =>
    match ← Machine.write p (Utf8.encode t) with
    | .error obstacle => return .error ⟨obstacle, [p]⟩
    | .ok () => return .ok s!"Generated: {p.string}".toList

/-- The line about how many lines came in and went out. -/
def countLine (raw filtered : Text) : Text :=
  s!"✓ {(Text.rows raw).length} lines in, {(Text.rows filtered).length} lines out".toList

/-- The answer to a file that cannot be reached. -/
def obstructed (fault : FileFault) : Outcome :=
  .failing s!"Error: Failed to write output: {fault.message}" 3

/-- Filter a source that has been loaded. -/
def text (filter : Filter) (output : Text) (verbose : Bool) (raw : Text) : m Outcome := do
  let filtered := Source.process filter raw
  let written ← if output.isEmpty then pure (.ok filtered)
    else writeOutput (Path.ofText output) filtered
  match written with
  | .error fault => return obstructed fault
  | .ok line =>
    return { output := [line]
             errors := if verbose then [countLine raw filtered] else [] }

/-- Filter a source. -/
def source (s : Surroundings) (filter : Filter) (output : Text) (verbose : Bool)
    (path : Text) : m Outcome := do
  if path = ['-'] then
    match s.inputText with
    | .error fault => return .breaking (.notText fault)
    | .ok raw => return (← text filter output verbose raw).noting [.processing filter raw]
  else
    let loaded ← Source.load (Path.ofText path)
    match loaded.text with
    | .error (.unreachable fault) => return (obstructed fault).noting loaded.notes
    | .error fault => return fault.outcome.noting loaded.notes
    | .ok raw =>
      return (← text filter output verbose raw).noting (loaded.notes ++ [.processing filter raw])

/-- Run the command. -/
def run (s : Surroundings) (words : List Text) : m Outcome :=
  grammar.run words (fun _ => grammar.usage.help) fun line =>
    source s (FilterSwitch.filter .filter line) ((line.value? .output).getD [])
      (line.isOn .verbose) (line.argument 0)

end Strip

end Devicetree
