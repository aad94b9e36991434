-- SUMMARY: Paths of files: reading and writing them, their parts, and places in a file tree.
import Devicetree.Text.Blank

/-!
# Paths

A path is a row of names behind an anchor. Written between slashes, names that are
empty or a single dot say nothing and are left out; two dots lead to what lies
around and are kept, since only a place tells what that is. A place is where a path
leads from the root, in which no dots are left.
-/

namespace Devicetree

/-- Where a path starts. A path may be written with exactly two slashes in front, which
    sets it apart from one with a single slash though both start at the root. -/
inductive Anchor where
  | here
  | root
  | doubleRoot
deriving DecidableEq, Repr

/-- A path. -/
structure Path where
  anchor : Anchor
  names : List Text
deriving DecidableEq, Repr

/-- The names that lead from the root to a file or a directory. -/
abbrev Place := List Text

namespace Path

-- ---------------------------------------------------------------------------
-- Reading and writing
-- ---------------------------------------------------------------------------

/-- What stands between slashes. -/
def pieces : Text → List Text
  | [] => [[]]
  | c :: cs =>
    if c = '/' then [] :: pieces cs
    else match pieces cs with
      | [] => [[c]]
      | p :: ps => (c :: p) :: ps

/-- Where a written path starts. -/
def anchorOf : Text → Anchor
  | '/' :: '/' :: '/' :: _ => .root
  | '/' :: '/' :: _ => .doubleRoot
  | '/' :: _ => .root
  | _ => .here

/-- Read a path. -/
def ofText (t : Text) : Path where
  anchor := anchorOf t
  names := (pieces t).filter fun p => !p.isEmpty && p != ['.']

/-- Read a path that is followed as it is written: single dots are kept, and a slash at
    the end is one, so that each has to stand for a directory. -/
def written (t : Text) : Path where
  anchor := anchorOf t
  names := ((pieces t).filter fun p => !p.isEmpty)
    ++ if t.getLast? = some '/' then [['.']] else []

/-- How an anchor is written. -/
def anchorText : Anchor → Text
  | .here => []
  | .root => ['/']
  | .doubleRoot => ['/', '/']

/-- Write a path; one that leads nowhere else is a dot. -/
def text (p : Path) : Text :=
  match p.anchor, p.names with
  | .here, [] => ['.']
  | anchor, names => anchorText anchor ++ ['/'].intercalate names

/-- Whether a name of a path holds a zero character. No file can be asked for by such a
    path, since the character ends the path for a system. -/
def hasZero (p : Path) : Bool :=
  p.names.any (·.contains '\x00')

/-- A path as a string. -/
def string (p : Path) : String :=
  String.ofList p.text


-- ---------------------------------------------------------------------------
-- Parts
-- ---------------------------------------------------------------------------

/-- The parts of a path: its anchor, if it has one to write, and its names. -/
def parts (p : Path) : List Text :=
  match p.anchor with
  | .here => p.names
  | anchor => anchorText anchor :: p.names

/-- A written path, shortened to its last two names if it has more than three parts. -/
def abbreviate (t : Text) : Text :=
  let p := ofText t
  if p.parts.isEmpty then t
  else if p.parts.length ≤ 3 then p.text
  else ".../".toList ++ ['/'].intercalate (p.parts.drop (p.parts.length - 2))

/-- The path of what lies around. -/
def parent (p : Path) : Path :=
  { p with names := p.names.dropLast }

/-- The path of what a name stands for inside. -/
def inside (p : Path) (name : Text) : Path :=
  { p with names := p.names ++ [name] }

/-- Split a name in front of its last dot, if something stands on both sides of it. -/
def splitName (name : Text) : Text × Text :=
  let ending := name.reverse.takeWhile (· != '.')
  let front := (name.reverse.drop (ending.length + 1)).reverse
  if ending.isEmpty || front.isEmpty then (name, []) else (front, '.' :: ending.reverse)

/-- The last name of a path. -/
def lastName (p : Path) : Text :=
  p.names.getLast?.getD []

/-- The ending of the last name, with its dot. -/
def ending (p : Path) : Text :=
  (splitName p.lastName).2

/-- The path with another ending of its last name. -/
def withEnding (p : Path) (ending : Text) : Path :=
  p.parent.inside ((splitName p.lastName).1 ++ ending)


-- ---------------------------------------------------------------------------
-- Places
-- ---------------------------------------------------------------------------

/-- Where names lead from a place, if every name leads inward and two dots outward. -/
def walk : Place → List Text → Place
  | place, [] => place
  | place, name :: names =>
    if name = ['.', '.'] then walk place.dropLast names else walk (place ++ [name]) names

/-- The place of a path, seen from another. -/
def place (here : Place) (p : Path) : Place :=
  match p.anchor with
  | .here => walk here p.names
  | _ => walk [] p.names

/-- The path from the root to a place. -/
def ofPlace (place : Place) : Path :=
  ⟨.root, place⟩

end Path

end Devicetree
