-- SUMMARY: The options that several commands share.
import Devicetree.Command.Grammar
import Devicetree.Report

/-!
# Shared options

Commands that filter take the same switches, and commands that compare the same forms of
output.
-/

namespace Devicetree

-- ---------------------------------------------------------------------------
-- Filters
-- ---------------------------------------------------------------------------

/-- The switches of a filter on a command line. -/
inductive FilterSwitch where
  | lineComments
  | blockComments
  | strings
  | whitespace
  | semantic
  | hex
  | arrays
  | sort
deriving DecidableEq, Repr

namespace FilterSwitch

/-- How the switches are turned on and off, as options with their own keys. -/
def spellings {κ : Type} (key : FilterSwitch → κ) : List (Spelling κ) :=
  [ ⟨"--strip-line-comments", key lineComments, .turnsOn⟩,
    ⟨"--keep-line-comments", key lineComments, .turnsOff⟩,
    ⟨"--strip-block-comments", key blockComments, .turnsOn⟩,
    ⟨"--keep-block-comments", key blockComments, .turnsOff⟩,
    ⟨"--preserve-strings", key strings, .turnsOn⟩,
    ⟨"--no-preserve-strings", key strings, .turnsOff⟩,
    ⟨"--normalize-whitespace", key whitespace, .turnsOn⟩,
    ⟨"--keep-whitespace", key whitespace, .turnsOff⟩,
    ⟨"--semantic", key semantic, .turnsOn⟩,
    ⟨"--hex", key hex, .turnsOn⟩,
    ⟨"--no-hex", key hex, .turnsOff⟩,
    ⟨"--arrays", key arrays, .turnsOn⟩,
    ⟨"--no-arrays", key arrays, .turnsOff⟩,
    ⟨"--sort", key sort, .turnsOn⟩,
    ⟨"--no-sort", key sort, .turnsOff⟩ ]

/-- What a line asks of a filter. -/
def request (switched : FilterSwitch → Option Bool) : Filter.Request where
  stripLineComments := (switched lineComments).getD true
  stripBlockComments := (switched blockComments).getD true
  preserveStringLiterals := (switched strings).getD true
  normalizeWhitespace := (switched whitespace).getD true
  semantic := (switched semantic).getD false
  normalizeHexValues := switched hex
  normalizeArrays := switched arrays
  sortProperties := switched sort

/-- The filter that a line asks for. -/
def filter {κ : Type} [DecidableEq κ] (key : FilterSwitch → κ) (line : CommandLine κ) :
    Filter :=
  Filter.ofRequest <| request fun s =>
    match line.last? (key s) with
    | some .on => some true
    | some .off => some false
    | _ => none

end FilterSwitch


-- ---------------------------------------------------------------------------
-- Forms of output
-- ---------------------------------------------------------------------------

/-- The forms in which a comparison is shown. -/
inductive Form where
  | diff
  | report (format : Report.Format)
deriving DecidableEq, Repr

namespace Form

/-- The names of the forms. -/
def names : List String := ["diff", "text", "json", "yaml"]

/-- The form with a name. -/
def ofName (name : String) : Form :=
  if name = "text" then .report .text
  else if name = "json" then .report .json
  else if name = "yaml" then .report .yaml
  else .diff

/-- The form that a value asks for; a diff, if there is none. -/
def ofValue (value : Option Text) : Form :=
  ofName (String.ofList (value.getD []))

end Form

/-- How a comparison is shown: in which form, and how much of it. -/
structure Showing where
  form : Form
  quiet : Bool
  verbose : Bool
deriving DecidableEq, Repr

/-- Show a comparison. The code is zero exactly if the sources are identical. -/
def Comparison.outcome (s : Showing) (c : Comparison) : Outcome :=
  let code := if c.identical then 0 else 1
  match s.form with
  | .report format => .printing [(Report.write format c s.verbose).toList] code
  | .diff =>
    if s.quiet then .printing [] code
    else if c.identical then
      .printing ["✓ The files are identical after filtering".toList] code
    else
      { output := c.diff
        errors := if s.verbose then [s!"\n{c.changedLines} changed lines".toList] else []
        ending := .exit code }


-- ---------------------------------------------------------------------------
-- Surroundings
-- ---------------------------------------------------------------------------

/-- What a program finds around it when it starts. -/
structure Surroundings where
  /-- Standard input. -/
  input : Octets
  /-- The variables of the environment. -/
  environment : List (String × String)
  /-- Whether standard output is a terminal. -/
  outputIsTerminal : Bool := false
  /-- Whether the error channel is a terminal. -/
  errorsAreTerminal : Bool := false

/-- Standard input as a text. -/
def Surroundings.inputText (s : Surroundings) : Except Utf8.Fault Text :=
  (Utf8.decode s.input).map Text.universalNewlines

/-- How a fault that no command expects of a source breaks it off. -/
def LoadFault.breakdown? : LoadFault → Option Breakdown
  | unreachable fault => some (.obstructed fault)
  | overflow => some (.tooDeep .node)
  | _ => none

/-- The answer to a source that cannot be loaded. -/
def LoadFault.outcome (fault : LoadFault) : Outcome :=
  match fault.breakdown? with
  | some breakdown => .breaking breakdown
  | none =>
    match fault with
    | badBlob fault => .failing s!"Parse error: {fault.message}" 4
    | fault => .failing s!"Error: {fault.message}" 3

end Devicetree
