-- SUMMARY: What programs ask of the machine they run on.
import Devicetree.Files.Obstacle
import Devicetree.Json.Reader
import Devicetree.Text.Octets

/-!
# Machines

A program that reads and writes files asks a machine for it. Each request is answered
with a result or with the obstacle that it met. Programs are written for any machine,
so that the same program runs on the files of a computer and on a file tree in memory.

Readers that call themselves for what is inside something else are bounded by the stack of the
runtime. How much of it is left to them depends on who calls them, so the bounds are asked of
the machine too.
-/

namespace Devicetree

/-- A file or a directory. -/
inductive EntryKind where
  | file
  | directory
deriving DecidableEq, Repr

/-- What sets a new profile apart: a name of its own, and the time in seconds since 1970. -/
structure Identity where
  id : String
  created : Float
deriving Inhabited, Repr

/-- What the runtime of a program leaves to the readers of nested things. -/
structure Runtime where
  /-- What is left open about the reader of JSON texts. -/
  reading : Json.Reading := {}
  /-- How many nodes of a blob may be open inside each other. What is called for the
      properties of a node needs room as well, so that it depends on the blob. -/
  nodes : Octets → Nat := fun _ => 960
  /-- There is always room for a record of a store, which is four objects and arrays deep. -/
  records : 4 ≤ reading.depth := by decide

/-- What a runtime leaves to them if nothing is said about it. -/
def Runtime.usual : Runtime := {}

/-- The requests that a program may make. -/
class Machine (m : Type → Type) where
  /-- The place from which paths without an anchor start. -/
  here : m Place
  /-- What stands at a path. -/
  look : Path → m (Except Obstacle EntryKind)
  /-- The contents of a file. -/
  read : Path → m (Except Obstacle Octets)
  /-- Give a file its contents, whether it is there or not. -/
  write : Path → Octets → m (Except Obstacle Unit)
  /-- Make a directory in one that is there. -/
  makeDirectory : Path → m (Except Obstacle Unit)
  /-- Move a file, over another one if there is one. -/
  moveFile : Path → Path → m (Except Obstacle Unit)
  /-- An identity that has not been given out. -/
  newIdentity : m Identity
  /-- The bounds that the runtime sets. -/
  runtime : m Runtime

namespace Machine

variable {m : Type → Type} [Monad m] [Machine m]

/-- A program that may fail asks the machine that it runs on. -/
instance {ε : Type} : Machine (ExceptT ε m) where
  here := ExceptT.lift here
  look p := ExceptT.lift (look p)
  read p := ExceptT.lift (read p)
  write p contents := ExceptT.lift (write p contents)
  makeDirectory p := ExceptT.lift (makeDirectory p)
  moveFile source destination := ExceptT.lift (moveFile source destination)
  newIdentity := ExceptT.lift newIdentity
  runtime := ExceptT.lift runtime

/-- Whether a file stands at a path, unless an obstacle leaves that open. -/
def isFile (p : Path) : m (Except FileFault Bool) := do
  match ← look p with
  | .ok .file => return .ok true
  | .ok .directory => return .ok false
  | .error obstacle =>
    return if obstacle.meansNothing then .ok false else .error ⟨obstacle, [p]⟩

/-- Whether a directory stands at a path. -/
def isDirectory (p : Path) : m Bool := do
  match ← look p with
  | .ok .directory => return true
  | _ => return false

/-- Let a directory count as made if it is there already. -/
def settle (p : Path) : Except Obstacle Unit → m (Except FileFault Unit)
  | .ok () => return .ok ()
  | .error obstacle => do
    if obstacle ≠ .absent && (← isDirectory p) then return .ok ()
    else return .error ⟨obstacle, [p]⟩

/-- Make a directory and what is missing around it; `inward` are the names of its path,
    the last one first. -/
def makeAround (anchor : Anchor) : (inward : List Text) → m (Except FileFault Unit)
  | [] => do settle ⟨anchor, []⟩ (← makeDirectory ⟨anchor, []⟩)
  | name :: outward => do
    let p : Path := ⟨anchor, (name :: outward).reverse⟩
    match ← makeDirectory p with
    | .error .absent =>
      match ← makeAround anchor outward with
      | .error fault => return .error fault
      | .ok () => settle p (← makeDirectory p)
    | result => settle p result

/-- Make a directory and what is missing around it, if it is not there. -/
def makeDirectories (p : Path) : m (Except FileFault Unit) :=
  makeAround p.anchor p.names.reverse

end Machine

end Devicetree
