-- SUMMARY: The program on the machine of an operating system.
import Devicetree.Command.Program
import Std.Time.DateTime.Timestamp

/-!
# The outer layer

The requests of programs are passed on to the operating system, and its faults are
brought under their customary numbers. Everything else happens in `Program.run`.
-/

namespace Devicetree

namespace Native

/-- The number of an obstacle, which some requests answer with its sign changed. -/
def numberOf (code : UInt32) : Nat :=
  if code < 0x80000000 then code.toNat else (0 - code).toNat

/-- The obstacle with a number. -/
def numbered (code : UInt32) (text : String) : Obstacle :=
  match numberOf code with
  | 20 => .notDirectory
  | 21 => .isDirectory
  | 36 => .nameTooLong
  | number => .other number text

/-- The obstacle that a fault of the system stands for. -/
def obstacleOf : IO.Error → Obstacle
  | .noFileOrDirectory .. => .absent
  | .alreadyExists .. => .alreadyThere
  | .resourceBusy .. => .busy
  | .inappropriateType _ code text => numbered code text
  | .invalidArgument _ code text => numbered code text
  | .otherError code text => numbered code text
  | fault => .other 0 (toString fault)

/-- Ask the system, and take its faults for obstacles. -/
def attempt {α : Type} (request : IO α) : IO (Except Obstacle α) := do
  match ← request.toBaseIO with
  | .ok v => return .ok v
  | .error fault => return .error (obstacleOf fault)

/-- The seconds since 1970. -/
def now : IO Float := do
  let moment ← Std.Time.Timestamp.now
  return Float.ofInt moment.toNanosecondsSinceUnixEpoch.val / 1000000000.0

instance : Machine IO where
  here := return (Path.ofText (← IO.currentDir).toString.toList).names
  look p := if p.hasZero then return .error .absent else attempt do
    let found ← ((← IO.currentDir) / p.string).metadata
    return match found.type with
      | .dir => .directory
      | _ => .file
  read p := attempt do return (← IO.FS.readBinFile p.string).toList
  write p contents := attempt (IO.FS.writeBinFile p.string ⟨contents.toArray⟩)
  makeDirectory p := attempt (IO.FS.createDir p.string)
  moveFile source destination := attempt (IO.FS.rename source.string destination.string)
  newIdentity := do
    let octets := (← IO.getRandomBytes 6).toList
    return { id := String.ofList (Octets.hex octets), created := ← now }
  runtime := return .usual

/-- Read a stream to its end. -/
partial def readAll (stream : IO.FS.Stream) : IO Octets := do
  let chunk ← stream.read 65536
  if chunk.isEmpty then return [] else return chunk.toList ++ (← readAll stream)

/-- Standard input, if a word of the line stands for it. -/
def input (words : List String) : IO Octets := do
  if words.contains "-" then readAll (← IO.getStdin) else return []

/-- The variables that the program looks at. -/
def environment : IO (List (String × String)) := do
  let names := [Profiles.storeVariable, "XDG_CONFIG_HOME", "HOME"]
  names.filterMapM fun name => return (← IO.getEnv name).map fun v => (name, v)

/-- Write a text to a stream. -/
def put (stream : IO.FS.Stream) (t : Text) : IO Unit := do
  stream.write ⟨(Utf8.encode t).toArray⟩
  stream.flush

end Native

end Devicetree

open Devicetree in
def main (words : List String) : IO UInt32 := do
  let surroundings :=
    { input := ← Native.input words
      environment := ← Native.environment
      outputIsTerminal := ← (← IO.getStdout).isTty
      errorsAreTerminal := ← (← IO.getStderr).isTty }
  let result ← Program.run surroundings (words.map String.toList)
  Native.put (← IO.getStdout) result.output
  Native.put (← IO.getStderr) result.errors
  if let .broken breakdown := result.ending then
    Native.put (← IO.getStderr) (breakdown.message.toList ++ ['\n'])
  return result.ending.code.toUInt32
