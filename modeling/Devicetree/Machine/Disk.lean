-- SUMMARY: A machine in memory: a file tree, a place to start from, and a supply of identities.
import Devicetree.Files.Tree
import Devicetree.Machine.Basic

/-!
# Disks

A disk is a machine in memory. Programs that run on it are functions from disks to
disks, so that what they leave behind can be reasoned about and compared.
-/

namespace Devicetree

/-- A machine in memory. -/
structure Disk where
  tree : FileTree
  here : Place
  /-- The identities in the order in which they are given out. -/
  identities : Nat → Identity
  /-- How many identities have been given out. -/
  issued : Nat
  /-- The bounds of the programs that run on it. -/
  runtime : Runtime := .usual

namespace Disk

/-- The kind of an entry. -/
def kindOf : Entry → EntryKind
  | .file _ => .file
  | .directory => .directory

/-- Put a changed tree in place, if there is one. -/
def commit (d : Disk) : Except Obstacle FileTree → Except Obstacle Unit × Disk
  | .ok tree => (.ok (), { d with tree })
  | .error obstacle => (.error obstacle, d)

instance : Machine (StateM Disk) where
  here := fun d => (d.here, d)
  look p := fun d => ((d.tree.look d.here p).map kindOf, d)
  read p := fun d => (d.tree.read d.here p, d)
  write p contents := fun d => d.commit (d.tree.write d.here p contents)
  makeDirectory p := fun d => d.commit (d.tree.makeDirectory d.here p)
  moveFile source destination := fun d => d.commit (d.tree.moveFile d.here source destination)
  newIdentity := fun d => (d.identities d.issued, { d with issued := d.issued + 1 })
  runtime := fun d => (d.runtime, d)

end Disk

end Devicetree
