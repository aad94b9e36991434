-- SUMMARY: Blocks read as nodes with properties and children, ordered, and written as lines again.
import Devicetree.Source.Outline
import Devicetree.Source.Record
import Devicetree.Text.Order
import Devicetree.Value.Spelling

/-!
# Nodes

A block is read as a node: the records of the free lines in its body are its
properties, the blocks in its body its children. Blocks of one line, and blocks
that lie deeper than `maxDepth`, are kept as they are. Where the filter sorts,
properties and children stand in the order of their keys, equal keys in the order
of the source.
-/

namespace Devicetree

-- ---------------------------------------------------------------------------
-- Properties
-- ---------------------------------------------------------------------------

/-- A property: its record as read, its spelling, and the key that orders it. -/
structure Property where
  source : Text
  spelling : Text
  key : Text
deriving DecidableEq, Repr

namespace Property

/-- A record as a property. -/
def ofRecord (f : Filter) (record : Text) : Property where
  source := record
  spelling := Value.spell f record
  key := Line.propertyKey record

/-- A record that only closes a block, and is no property. -/
def isBareCloser (record : Text) : Bool :=
  record == ['}'] || record == ['}', ';']

/-- The properties among the free lines of a body. -/
def ofLines (f : Filter) (ls : List Line) : List Property :=
  ((Record.join ls).filter (!isBareCloser ·)).map (ofRecord f)

end Property


-- ---------------------------------------------------------------------------
-- Nodes
-- ---------------------------------------------------------------------------

/-- The tree of a block. -/
inductive Node where
  /-- A block that is kept as it is. -/
  | verbatim (depth : Int) (block : Block)
  | parsed (depth : Int) (opening closing : Line) (properties : List Property)
      (children : List Node)

namespace Node

/-- The outermost block has depth zero; blocks deeper than this are kept as they are. -/
def maxDepth : Int := 5

/-- The line that opens the block of a node. -/
def opening : Node → Line
  | verbatim _ block => block.opening
  | parsed _ opening _ _ _ => opening

/-- The line that closes the block of a node. -/
def closing : Node → Line
  | verbatim _ block => block.closing
  | parsed _ _ closing _ _ => closing

/-- How many blocks lie around the block of a node. -/
def depth : Node → Int
  | verbatim depth _ => depth
  | parsed depth _ _ _ _ => depth

/-- The key that orders a node among its siblings. -/
def key (n : Node) : Text :=
  Line.blockKey n.opening

/-- Sort by key; equal keys keep their order. -/
def sortByKey {α : Type} (key : α → Text) (xs : List α) : List α :=
  xs.mergeSort fun a b => Text.le (key a) (key b)

/-- Read a block at some depth, parsing at most `levels` levels of blocks. -/
def build (f : Filter) : (levels : Nat) → (depth : Int) → Block → Node
  | 0, depth, b => verbatim depth b
  | levels + 1, depth, b =>
    if b.rest.isEmpty then verbatim depth b
    else
      let outline := Outline.ofLines b.body
      let properties := Property.ofLines f (outline.freeLines.filter fun l => Line.kind l != .blank)
      let children := outline.blocks.map (build f levels (depth + 1))
      if f.sortProperties then
        parsed depth b.opening b.closing (sortByKey Property.key properties)
          (sortByKey key children)
      else parsed depth b.opening b.closing properties children

/-- How many levels of blocks are parsed from some depth on. -/
def levelsFrom (depth : Int) : Nat :=
  (maxDepth + 1 - depth).toNat

/-- Read a block at some depth. -/
def ofBlock (f : Filter) (depth : Int) (b : Block) : Node :=
  build f (levelsFrom depth) depth b


-- ---------------------------------------------------------------------------
-- Writing nodes
-- ---------------------------------------------------------------------------

/-- What a property is indented by: one unit more than the line that opens its block. -/
def propertyIndent (opening : Line) : Text :=
  opening.takeWhile isBlank ++ List.replicate 4 ' '

mutual

/-- The lines of a node. Children keep the indentation of their own lines. -/
def lines : Node → List Line
  | verbatim _ block => block.lines
  | parsed _ opening closing properties children =>
    opening :: (properties.map fun p => propertyIndent opening ++ Text.trim p.spelling)
      ++ linesOfAll children ++ [closing]

/-- The lines of nodes one behind the other. -/
def linesOfAll : List Node → List Line
  | [] => []
  | n :: ns => lines n ++ linesOfAll ns

end

/-- The lines of a block in canonical order. -/
def canonicalLines (f : Filter) (depth : Int) (b : Block) : List Line :=
  (ofBlock f depth b).lines


-- ---------------------------------------------------------------------------
-- Blocks too deep to be parsed
-- ---------------------------------------------------------------------------

/-- The depth and the opening line of each block that lies too deep to be parsed, in
    the order in which they are met. -/
def tooDeep : (levels : Nat) → (depth : Int) → Block → List (Int × Line)
  | 0, depth, b => [(depth, Text.trim b.opening)]
  | levels + 1, depth, b =>
    (Outline.ofLines b.body).blocks.flatMap (tooDeep levels (depth + 1))

end Node

end Devicetree
