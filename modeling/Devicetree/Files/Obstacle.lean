-- SUMMARY: Why a file operation fails, and the wording of it.
import Devicetree.Files.Path
import Devicetree.Text.Quoted

/-!
# Obstacles

A file operation meets an obstacle at the paths it was given. The wording gives the
obstacle's customary number, its text, and the paths between quotes.
-/

namespace Devicetree

/-- What is in the way of a file operation. -/
inductive Obstacle where
  | absent
  | busy
  | alreadyThere
  | notDirectory
  | isDirectory
  | nameTooLong
  /-- Any other, by its number and text. -/
  | other (number : Nat) (text : String)
deriving DecidableEq, Repr

namespace Obstacle

/-- The number by which an obstacle is known. -/
def number : Obstacle → Nat
  | absent => 2
  | busy => 16
  | alreadyThere => 17
  | notDirectory => 20
  | isDirectory => 21
  | nameTooLong => 36
  | other number _ => number

/-- The text by which an obstacle is known. -/
def text : Obstacle → String
  | absent => "No such file or directory"
  | busy => "Device or resource busy"
  | alreadyThere => "File exists"
  | notDirectory => "Not a directory"
  | isDirectory => "Is a directory"
  | nameTooLong => "File name too long"
  | other _ text => text

/-- Whether an obstacle says that nothing stands at a path: something on the way there is
    missing, is a file, or leads in circles. -/
def meansNothing : Obstacle → Bool
  | absent => true
  | notDirectory => true
  | other number _ => number == 40
  | _ => false

end Obstacle

/-- An obstacle and the paths at which it was met. -/
structure FileFault where
  obstacle : Obstacle
  paths : List Path
deriving DecidableEq, Repr

/-- The wording of a fault. -/
def FileFault.message (fault : FileFault) : String :=
  let shown := fault.paths.map fun p => quote p.string
  s!"[Errno {fault.obstacle.number}] {fault.obstacle.text}: " ++ " -> ".intercalate shown

end Devicetree
