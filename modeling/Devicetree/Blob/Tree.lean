-- SUMMARY: The tree that a row of tags describes, and the tree as source.
import Devicetree.Blob.PropertyValue
import Devicetree.Blob.Tag
import Devicetree.Text.Lines
import Devicetree.Text.Utf8

/-!
# Trees

A row of tags is read in one pass over a stack of open nodes. The properties of a
node are those before its first child; a later one is passed over. A row that ends
or breaks off where a property could stand is at fault; elsewhere the nodes that are
open are taken to be closed. What follows the closing tag of the outermost node is
not looked at.

A node is read by a call inside the call for the node around it. Where there is no room
for one more call the reader overflows, and what it has read is lost.
-/

namespace Devicetree

namespace Blob

-- ---------------------------------------------------------------------------
-- Trees and their lines
-- ---------------------------------------------------------------------------

/-- A node of a device tree. -/
inductive Tree where
  | node (name : Text) (properties : List (Text × Octets)) (children : List Tree)

namespace Tree

/-- The indentation of a level. -/
def indent (level : Nat) : Text :=
  List.replicate (4 * level) ' '

/-- The name of a node as it is written; the outermost node has none. -/
def shownName (name : Text) : Text :=
  if name.isEmpty then ['/'] else name

mutual

/-- The lines of a node at some level: properties first, then children. -/
def lines (level : Nat) : Tree → List Line
  | node name properties children =>
    (indent level ++ shownName name ++ [' ', '{'])
      :: (properties.map fun (name, value) => PropertyValue.line name value (indent (level + 1)))
      ++ linesOfAll (level + 1) children ++ [indent level ++ ['}', ';']]

/-- The lines of nodes one behind the other. -/
def linesOfAll (level : Nat) : List Tree → List Line
  | [] => []
  | t :: ts => lines level t ++ linesOfAll level ts

end

/-- The source of a tree. -/
def source (t : Tree) : Text :=
  Text.unlines ("/dts-v1/;".toList :: [] :: lines 0 t) ++ ['\n']

end Tree


-- ---------------------------------------------------------------------------
-- Reading tags
-- ---------------------------------------------------------------------------

/-- A node whose closing tag has not come. -/
structure OpenNode where
  name : Text
  /-- The properties so far, the last one first. -/
  properties : List (Text × Octets)
  /-- The children so far, the last one first. -/
  children : List Tree
  /-- No child has come yet, so that a property may follow. -/
  inProperties : Bool

namespace OpenNode

/-- A node that has just been opened. -/
def named (name : Text) : OpenNode := ⟨name, [], [], true⟩

/-- The node with what has been read of it. -/
def close (n : OpenNode) : Tree :=
  .node n.name n.properties.reverse n.children.reverse

/-- Add a child. -/
def withChild (n : OpenNode) (t : Tree) : OpenNode :=
  { n with children := t :: n.children, inProperties := false }

/-- Close the innermost node and all around it. -/
def closeAll (inner : OpenNode) : List OpenNode → Tree
  | [] => inner.close
  | outer :: around => closeAll (outer.withChild inner.close) around

end OpenNode

/-- What is needed to read names: the version and the strings block. -/
structure Naming where
  version : Nat
  strings : Octets

namespace Naming

/-- The name of a node: all of it, or before version 16 what stands behind the last slash
    of its path. -/
def nodeName (n : Naming) (name : Octets) : Except Fault Text :=
  if 16 ≤ n.version then .ok (Utf8.decodeOrSpell name)
  else if name.contains 0x2F then
    .ok (Utf8.decodeOrSpell (name.reverse.takeWhile (· != 0x2F)).reverse)
  else .error .badStructure

/-- The name of a property: what stands in the strings block up to a zero. Properties
    are read from version 16 on. -/
def propertyName (n : Naming) (offset : Nat) : Except Fault Text :=
  if 16 ≤ n.version then
    .ok (Utf8.decodeOrSpell ((n.strings.drop offset).takeWhile (· != 0)))
  else .error .badVersion

end Naming

/-- Why reading a tree ends without one. -/
inductive Failure where
  | faulty (fault : Fault)
  /-- There is no room for one more node. -/
  | overflow
deriving DecidableEq, Repr

/-- The wording of a failure. -/
def Failure.message : Failure → String
  | faulty fault => fault.message
  | overflow => "maximum recursion depth exceeded"

/-- Read tags inside the node `inner`, around which the nodes `around` are open and in which
    `spare` more may be opened inside each other. -/
def readInside (n : Naming) (ending : Ending) (spare : Nat) (inner : OpenNode)
    (around : List OpenNode) : List TagKind → Except Failure Tree
  | [] =>
    if inner.inProperties then
      match ending with
      | .regular => .error (.faulty .badStructure)
      | .broken fault => .error (.faulty fault)
    else .ok (inner.closeAll around)
  | .filler :: tags => readInside n ending spare inner around tags
  | .property nameOffset value :: tags =>
    if inner.inProperties then
      match n.propertyName nameOffset with
      | .error fault => .error (.faulty fault)
      | .ok name =>
        readInside n ending spare { inner with properties := (name, value) :: inner.properties }
          around tags
    else readInside n ending spare inner around tags
  | .beginNode name :: tags =>
    match spare with
    | 0 => .error .overflow
    | spare + 1 =>
      match n.nodeName name with
      | .error fault => .error (.faulty fault)
      | .ok name =>
        readInside n ending spare (.named name) ({ inner with inProperties := false } :: around)
          tags
  | .endNode :: tags =>
    match around with
    | [] => .ok inner.close
    | outer :: around => readInside n ending (spare + 1) (outer.withChild inner.close) around tags

/-- Read the tree of a row of tags, which starts with the tag that opens it, with room for
    so many nodes inside each other. -/
def TagStream.tree (s : TagStream) (n : Naming) : (room : Nat) → Except Failure Tree
  | 0 => .error .overflow
  | spare + 1 =>
    match s.tags.map Tag.kind with
    | .beginNode name :: tags =>
      match n.nodeName name with
      | .error fault => .error (.faulty fault)
      | .ok name => readInside n s.ending spare (.named name) [] tags
    | _ => .error (.faulty .badOffset)

/-- Read a flattened tree, with room for so many nodes inside each other. -/
def tree (os : Octets) (room : Nat) : Except Failure Tree :=
  let header := Header.read os
  match header.check with
  | .error fault => .error (.faulty fault)
  | .ok () =>
    (tags header.version (header.structBlock os)).tree
      ⟨header.version, header.stringsBlock os⟩ room

/-- The source of a flattened tree. -/
def decompile (os : Octets) (room : Nat := 960) : Except Failure Text :=
  (tree os room).map Tree.source

end Blob

end Devicetree
