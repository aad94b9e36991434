-- SUMMARY: Loading sources from files, be they texts or flattened trees.
import Devicetree.Blob.Tree
import Devicetree.Machine.Basic

/-!
# Loading sources

A file is read as a flattened tree if its name says so or its contents start like one,
and as a text otherwise.
-/

namespace Devicetree

/-- Why a source cannot be loaded. -/
inductive LoadFault where
  | missing (p : Path)
  /-- It cannot be found out whether a file is there. -/
  | unreachable (fault : FileFault)
  | unreadable (fault : FileFault) (p : Path)
  | notText (p : Path) (fault : Utf8.Fault)
  | badBlob (fault : Blob.Fault)
  /-- There is no room for the nodes of a blob inside each other. -/
  | overflow
  | emptyInput

namespace LoadFault

/-- Why the source of a blob is not there. -/
def ofBlob : Blob.Failure → LoadFault
  | .faulty fault => badBlob fault
  | .overflow => overflow

/-- The wording of a fault. -/
def message : LoadFault → String
  | missing p => s!"Input file '{p.string}' does not exist"
  | unreachable fault => fault.message
  | unreadable fault p => s!"Failed to read {p.string}: {fault.message}"
  | notText p fault => s!"{p.string} is not a UTF-8 text file: {fault.message}"
  | badBlob fault => fault.message
  | overflow => Blob.Failure.overflow.message
  | emptyInput => "Standard input is empty"

end LoadFault

/-- What came of loading a source: whether it was taken for a flattened tree, and its
    text or a fault. -/
structure Loaded where
  path : Path
  fromBlob : Bool
  text : Except LoadFault Text

namespace Source

/-- Whether a file is read as a flattened tree. -/
def isBlob (p : Path) (contents : Octets) : Bool :=
  p.ending == ".dtb".toList || Blob.hasMagic contents

/-- The text of the contents of a file, which is decompiled with room for so many nodes
    inside each other if it is a flattened tree. -/
def textOf (room : Nat) (p : Path) (contents : Octets) : Except LoadFault Text :=
  if isBlob p contents then (Blob.decompile contents room).mapError .ofBlob
  else (Utf8.decode contents).mapError (.notText p)

variable {m : Type → Type} [Monad m] [Machine m]

/-- Load the source at a path. -/
def load (p : Path) : m Loaded := do
  match ← Machine.isFile p with
  | .error fault => return ⟨p, false, .error (.unreachable fault)⟩
  | .ok false => return ⟨p, false, .error (.missing p)⟩
  | .ok true =>
    match ← Machine.read p with
    | .error obstacle => return ⟨p, false, .error (.unreadable ⟨obstacle, [p]⟩ p)⟩
    | .ok contents =>
      let room := (← Machine.runtime).nodes contents
      return ⟨p, isBlob p contents, textOf room p contents⟩

end Source

end Devicetree
