-- SUMMARY: Reports on a comparison, as text, as JSON and as YAML.
import Devicetree.Comparison
import Devicetree.Json.Writer
import Devicetree.Yaml.Scalar

/-!
# Reports

A report names both sides, the filter, whether the sources agree and the diff. A
verbose report adds how long the canonical texts are, or the texts themselves. The
JSON and the YAML form have the same members in the same order.
-/

namespace Devicetree

namespace Report

/-- The forms of a report. -/
inductive Format where
  | text
  | json
  | yaml
deriving DecidableEq, Repr


-- ---------------------------------------------------------------------------
-- Text
-- ---------------------------------------------------------------------------

/-- How the switches of a filter are listed: a mark and the name with dashes. -/
def switchLine (switch : String × Bool) : String :=
  let dashed := switch.1.map fun c => if c = '_' then '-' else c
  let mark := if switch.2 then "✓" else "-"
  s!"  {mark} {dashed}"

/-- The lines of a report for readers. -/
def textLines (c : Comparison) (verbose : Bool) : List String :=
  [ "DTS Comparison Report",
    String.ofList (List.replicate 21 '='),
    s!"Left:  {c.leftLabel}",
    s!"Right: {c.rightLabel}",
    "",
    "Filter Options:" ]
  ++ c.filter.switches.map switchLine
  ++ [""]
  ++ (if c.identical then ["Status: ✓ IDENTICAL after filtering"]
      else ["Status: ✗ DIFFERENT", s!"  {c.changedLines} changed lines"])
  ++ (if verbose then
        [ "",
          s!"  Left:  {(Text.rows c.leftText).length} lines after filtering",
          s!"  Right: {(Text.rows c.rightText).length} lines after filtering" ]
      else [])
  ++ (if c.diff.isEmpty then [] else "" :: c.diff.map String.ofList)

/-- A report for readers, without a line feed at the end. -/
def text (c : Comparison) (verbose : Bool) : String :=
  "\n".intercalate (textLines c verbose)


-- ---------------------------------------------------------------------------
-- JSON
-- ---------------------------------------------------------------------------

/-- The canonical texts, which a verbose report holds. -/
def texts (c : Comparison) (verbose : Bool) : List (String × Text) :=
  if verbose then [("left_text", c.leftText), ("right_text", c.rightText)] else []

/-- The members of a report. -/
def members (c : Comparison) (verbose : Bool) : Json :=
  .obj <|
    [ ("left", .str c.leftLabel),
      ("right", .str c.rightLabel),
      ("identical", .bool c.identical),
      ("changed_lines", .int c.changedLines),
      ("options", .obj (c.filter.switches.map fun (name, on) => (name, .bool on))),
      ("diff", .arr (c.diff.map fun l => .str (String.ofList l))) ]
    ++ (texts c verbose).map fun (name, t) => (name, .str (String.ofList t))


-- ---------------------------------------------------------------------------
-- YAML
-- ---------------------------------------------------------------------------

/-- Scalars go on in lines indented by this much. -/
def yamlIndent : Nat := 2

/-- A member whose value is a string. -/
def yamlString (name : String) (value : Text) : Text :=
  name.toList ++ ':' :: (Yaml.scalar yamlIndent (name.length + 1) value ++ ['\n'])

/-- A member whose value is one word. -/
def yamlWord (name value : String) : Text :=
  s!"{name}: {value}\n".toList

/-- A truth value as a word. -/
def yamlBool (b : Bool) : String :=
  if b then "true" else "false"

/-- The lines of a diff as the items of a list. -/
def yamlItems (items : List Line) : Text :=
  if items.isEmpty then " []\n".toList
  else '\n' :: items.flatMap fun l => '-' :: (Yaml.scalar yamlIndent 1 l ++ ['\n'])

/-- A report in YAML, with a line feed at the end. -/
def yaml (c : Comparison) (verbose : Bool) : Text :=
  yamlString "left" c.leftLabel.toList
  ++ yamlString "right" c.rightLabel.toList
  ++ yamlWord "identical" (yamlBool c.identical)
  ++ yamlWord "changed_lines" (toString c.changedLines)
  ++ "options:\n".toList
  ++ c.filter.switches.flatMap (fun (name, on) => ' ' :: ' ' :: yamlWord name (yamlBool on))
  ++ "diff:".toList ++ yamlItems c.diff
  ++ (texts c verbose).flatMap fun (name, t) => yamlString name t

/-- A report in one of the forms. -/
def write (format : Format) (c : Comparison) (verbose : Bool) : String :=
  match format with
  | .text => text c verbose
  | .json => String.ofList (members c verbose).pretty
  | .yaml => String.ofList (yaml c verbose)

end Report

end Devicetree
