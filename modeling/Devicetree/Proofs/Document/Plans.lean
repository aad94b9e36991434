-- SUMMARY: What is written of a document before values are spelled, in which no rule for values has a say.
import Devicetree.Proofs.Source.Nodes

/-!
# Plans

A document can be planned line by line without a filter: which lines are kept and in
which places, where the records of properties end, and how blocks and properties are
ordered depends on the lines of the source alone. All that a filter does that sorts is
to spell the records of the plan. So two such filters write as many lines, and the same
line wherever the plan has no property.
-/

namespace Devicetree

/-! ## Lines of a plan -/

/-- A line that is to be written, by what it is. -/
inductive PlannedLine where
  | declaration (l : Line)
  | closing (l : Line)
  | free (l : Line)
  | verbatim (l : Line)
  | property (indent record : Text)
deriving DecidableEq, Repr

namespace PlannedLine

def isProperty : PlannedLine → Bool
  | property _ _ => true
  | _ => false

/-- The line itself, or the record of a property behind its indentation: respelled by the rule
for literals and then by those for arrays and lists, each if the filter asks for it, and
trimmed. -/
def write (f : Filter) : PlannedLine → Line
  | declaration l => l
  | closing l => l
  | free l => l
  | verbatim l => l
  | property indent record =>
    let literals := if f.normalizeHexValues then HexLiteral.normalize record else record
    let lists := if f.normalizeArrays then Value.normalizeLists literals else literals
    indent ++ Text.trim lists

theorem write_eq_write (f g : Filter) {p : PlannedLine} (h : ¬ p.isProperty) :
    p.write f = p.write g := by
  cases p with
  | property indent record => exact absurd rfl h
  | _ => rfl

@[simp] theorem map_write_verbatim (f : Filter) (ls : List Line) :
    (ls.map verbatim).map (write f) = ls := by
  rw [List.map_map]
  exact List.map_id ls

end PlannedLine

/-! ## Plans of blocks -/

/-- The key of the line that opens a block. -/
def Block.key (b : Block) : Text :=
  Line.blockKey b.opening

/-- The plan of a block of which `levels` levels are parsed. -/
def Block.plan : (levels : Nat) → Block → List PlannedLine
  | 0, b => b.lines.map .verbatim
  | levels + 1, b =>
    if b.rest.isEmpty then b.lines.map .verbatim
    else
      let records := b.records.filter (!Property.isBareCloser ·)
      .declaration b.opening ::
        ((Node.sortByKey Line.propertyKey records).map
            (.property (Node.propertyIndent b.opening))
          ++ (Node.sortByKey key b.outline.blocks).flatMap (plan levels)
          ++ [.closing b.closing])

variable {f : Filter}

/-- Children are put in order by their blocks. -/
theorem Node.sortByKey_map_build (f : Filter) (levels : Nat) (depth : Int) (bs : List Block) :
    sortByKey key (bs.map (build f levels depth)) =
      (sortByKey Block.key bs).map (build f levels depth) :=
  (map_sortByKey _ fun b _ => key_build f levels depth b).symm

/-- A block is written as planned: by induction on the levels that are parsed. -/
theorem Node.lines_build_eq_plan (hsort : f.sortProperties) (levels : Nat) (depth : Int)
    (b : Block) : (build f levels depth b).lines = (b.plan levels).map (·.write f) := by
  induction levels generalizing depth b with
  | zero => exact (PlannedLine.map_write_verbatim f b.lines).symm
  | succ levels ih =>
    by_cases hrest : b.rest = []
    · rw [build_of_rest_eq_nil f _ _ hrest, Block.plan, if_pos (by simp [hrest])]
      exact (PlannedLine.map_write_verbatim f b.lines).symm
    · have hchildren : (sortByKey key (b.outline.blocks.map (build f levels (depth + 1)))).flatMap
          lines = ((sortByKey Block.key b.outline.blocks).flatMap (Block.plan levels)).map
            (·.write f) := by
        rw [sortByKey_map_build, List.flatMap_map, List.map_flatMap]
        exact List.flatMap_congr fun c _ => ih (depth + 1) c
      rw [lines_build hsort levels depth hrest, Property.ofLines, Property.sortByKey_map_ofRecord,
        hchildren, Block.plan, if_neg (by simpa using hrest)]
      simp only [List.map_cons, List.map_append, List.map_map, List.map_nil]
      rfl

/-! ## Plans of documents -/

/-- The plan of a free line or of an outermost block. -/
def Segment.plan : Segment → List PlannedLine
  | free l => [.free l]
  | block b => b.plan (Node.levelsFrom 0)

namespace Document

/-- The plan of a document: its blocks in order, in the places of the outline. -/
def plan (ls : List Line) : List PlannedLine :=
  let outline := Outline.ofLines ls
  (Outline.refill (Node.sortByKey Block.key outline.blocks) outline).flatMap Segment.plan

theorem fill_map_ofBlock (hsort : f.sortProperties) (bs : List Block) (o : Outline) :
    fill (bs.map (Node.ofBlock f 0)) o =
      ((Outline.refill bs o).flatMap Segment.plan).map (·.write f) := by
  induction o generalizing bs with
  | nil => simp [fill, Outline.refill]
  | cons s o ih =>
    cases s with
    | free l => simpa [fill, Outline.refill, Segment.plan] using ⟨rfl, ih bs⟩
    | block b =>
      cases bs with
      | nil => simpa [fill, Outline.refill] using ih []
      | cons c cs =>
        simp [fill, Outline.refill, Segment.plan, ih, Node.ofBlock,
          Node.lines_build_eq_plan hsort]

theorem canonicalLines_eq_plan (hsort : f.sortProperties) (ls : List Line) :
    canonicalLines f ls = (plan ls).map (·.write f) := by
  have hnodes : orderedNodes f (Outline.ofLines ls) =
      (Node.sortByKey Block.key (Outline.ofLines ls).blocks).map (Node.ofBlock f 0) :=
    Node.sortByKey_map_build f _ 0 _
  rw [canonicalLines, hnodes]
  exact fill_map_ofBlock hsort _ _

/-- Two filters that sort write the plan of a document, each with its own spelling of the
records, and so differ in lines of properties only. -/
theorem lines_normalize_plan {g : Filter} (hf : f.sortProperties) (hg : g.sortProperties)
    (t : Text) :
    let plan := Document.plan (Text.lines t)
    Text.lines (normalize f t) = plan.map (·.write f) ∧
      Text.lines (normalize g t) = plan.map (·.write g) ∧
      (Text.lines (normalize f t)).length = (Text.lines (normalize g t)).length ∧
      ∀ (i : Nat) (p : PlannedLine), plan[i]? = some p → ¬ p.isProperty →
        (Text.lines (normalize f t))[i]? = (Text.lines (normalize g t))[i]? := by
  intro plan
  have hwritten : ∀ {h : Filter}, h.sortProperties →
      Text.lines (normalize h t) = plan.map (·.write h) := by
    intro h hsort
    rw [lines_normalize hsort, canonicalLines_eq_plan hsort]
  refine ⟨hwritten hf, hwritten hg, ?_, fun i p hp hproperty => ?_⟩
  · rw [hwritten hf, hwritten hg, List.length_map, List.length_map]
  · rw [hwritten hf, hwritten hg, List.getElem?_map, List.getElem?_map, hp, Option.map_some,
      Option.map_some, PlannedLine.write_eq_write f g hproperty]

/-- A property over two lines, a block on one line behind it, and a free line at the end. -/
def bus : Text :=
  "bus \x7b\nreg=<0xA\n0x1B>;\ncs \x7b \x7d;\n\x7d;\n/* end */".toList

theorem plan_bus : plan (Text.lines bus) =
    [.declaration "bus \x7b".toList, .property "    ".toList "reg=<0xA 0x1B>;".toList,
      .verbatim "cs \x7b \x7d;".toList, .closing "\x7d;".toList, .free "/* end */".toList] := by
  let b : Block := ⟨"bus \x7b".toList,
    ["reg=<0xA", "0x1B>;", "cs \x7b \x7d;", "\x7d;"].map String.toList⟩
  have houtline : Outline.ofLines (Text.lines bus) = [.block b, .free "/* end */".toList] := by
    decide
  have hb : b.plan (Node.levelsFrom 0) =
      [.declaration "bus \x7b".toList, .property "    ".toList "reg=<0xA 0x1B>;".toList,
        .verbatim "cs \x7b \x7d;".toList, .closing "\x7d;".toList] := by
    have hlevels : Node.levelsFrom 0 = 6 := by decide
    rw [hlevels, Block.plan, if_neg (by decide)]
    dsimp only
    rw [Node.sortByKey_eq_self (by decide), Node.sortByKey_eq_self (by decide)]
    decide
  have hblocks : Outline.blocks [.block b, .free "/* end */".toList] = [b] := rfl
  rw [plan, houtline, hblocks, Node.sortByKey_eq_self (by decide)]
  simp only [Outline.refill, List.flatMap_cons, Segment.plan, hb]
  rfl

/-- One filter spells literals and arrays, the other neither. -/
theorem lines_normalize_plan_bus :
    let g := { Filter.semantic with normalizeHexValues := false, normalizeArrays := false }
    Filter.semantic.sortProperties ∧ g.sortProperties ∧
      Text.lines (normalize .semantic bus) = ["bus \x7b", "    reg=< 0x0a 0x1b >;",
        "cs \x7b \x7d;", "\x7d;", "/* end */"].map String.toList ∧
      Text.lines (normalize g bus) = ["bus \x7b", "    reg=<0xA 0x1B>;",
        "cs \x7b \x7d;", "\x7d;", "/* end */"].map String.toList := by
  intro g
  have hf : Filter.semantic.sortProperties := rfl
  have hg : g.sortProperties := rfl
  obtain ⟨hsemantic, hplain, -, -⟩ := lines_normalize_plan hf hg bus
  refine ⟨hf, hg, ?_, ?_⟩
  · rw [hsemantic, plan_bus]
    decide
  · rw [hplain, plan_bus]
    decide

end Document

end Devicetree
