-- SUMMARY: Which differences between two sources are filtered out.

/-!
# Filters

A filter says what is dropped from a source before it is compared. The first four
switches steer the scanner that drops comments and evens out white space; the last
four steer the ordering of blocks and the spelling of values, of which the
ordering switch turns the whole pass on.
-/

namespace Devicetree

/-- What is filtered out of a source. -/
structure Filter where
  stripLineComments : Bool := true
  stripBlockComments : Bool := true
  preserveStringLiterals : Bool := true
  normalizeWhitespace : Bool := true
  semanticComparison : Bool := false
  normalizeHexValues : Bool := false
  normalizeArrays : Bool := false
  sortProperties : Bool := false
deriving DecidableEq, Repr, Inhabited

namespace Filter

/-- Every switch on. -/
def semantic : Filter where
  semanticComparison := true
  normalizeHexValues := true
  normalizeArrays := true
  sortProperties := true

/-- The switches by name, in the order in which they are listed everywhere. -/
def switches (f : Filter) : List (String × Bool) :=
  [ ("strip_line_comments", f.stripLineComments),
    ("strip_block_comments", f.stripBlockComments),
    ("preserve_string_literals", f.preserveStringLiterals),
    ("normalize_whitespace", f.normalizeWhitespace),
    ("semantic_comparison", f.semanticComparison),
    ("normalize_hex_values", f.normalizeHexValues),
    ("normalize_arrays", f.normalizeArrays),
    ("sort_properties", f.sortProperties) ]

/-- Read a filter from named switches: a name that `setting` knows takes that value,
    every other keeps its default. -/
def ofSettings (setting : String → Option Bool) : Filter :=
  let standard : Filter := {}
  { stripLineComments := (setting "strip_line_comments").getD standard.stripLineComments
    stripBlockComments := (setting "strip_block_comments").getD standard.stripBlockComments
    preserveStringLiterals :=
      (setting "preserve_string_literals").getD standard.preserveStringLiterals
    normalizeWhitespace := (setting "normalize_whitespace").getD standard.normalizeWhitespace
    semanticComparison := (setting "semantic_comparison").getD standard.semanticComparison
    normalizeHexValues := (setting "normalize_hex_values").getD standard.normalizeHexValues
    normalizeArrays := (setting "normalize_arrays").getD standard.normalizeArrays
    sortProperties := (setting "sort_properties").getD standard.sortProperties }

/-- What is asked for on a command line. A switch of the ordering pass that is left open
    follows `semantic`, and one that is turned on turns the pass on. -/
structure Request where
  stripLineComments : Bool := true
  stripBlockComments : Bool := true
  preserveStringLiterals : Bool := true
  normalizeWhitespace : Bool := true
  semantic : Bool := false
  normalizeHexValues : Option Bool := none
  normalizeArrays : Option Bool := none
  sortProperties : Option Bool := none
deriving DecidableEq, Repr, Inhabited

/-- The filter that a request asks for. -/
def ofRequest (r : Request) : Filter :=
  let hex := r.normalizeHexValues.getD r.semantic
  let arrays := r.normalizeArrays.getD r.semantic
  let sort := r.sortProperties.getD r.semantic
  { stripLineComments := r.stripLineComments
    stripBlockComments := r.stripBlockComments
    preserveStringLiterals := r.preserveStringLiterals
    normalizeWhitespace := r.normalizeWhitespace
    semanticComparison := r.semantic || hex || arrays || sort
    normalizeHexValues := hex
    normalizeArrays := arrays
    sortProperties := sort }

/-- A filter's own switches read back as the filter. -/
theorem ofSettings_lookup_switches (f : Filter) :
    ofSettings (fun name => f.switches.lookup name) = f := by
  simp [ofSettings, switches, List.lookup_cons]

end Filter

end Devicetree
