-- SUMMARY: Control sequences of terminals, and texts without them.
import Devicetree.Text.Pieces

/-!
# Control sequences

A control sequence makes a terminal do something instead of showing text. It is an
escape character with an opening bracket, then parameters, then intermediate signs,
then the sign that ends it. Each of these has a range of ASCII of its own, and what only
begins like a control sequence is text.
-/

namespace Devicetree

namespace ControlSequence

/-- The characters of parameters: the digits and the signs behind them. -/
def isParameter (c : Char) : Bool :=
  0x30 ≤ c.toNat && c.toNat ≤ 0x3F

/-- The intermediate signs: the space and the signs in front of the digits. -/
def isIntermediate (c : Char) : Bool :=
  0x20 ≤ c.toNat && c.toNat ≤ 0x2F

/-- The characters that end a control sequence: the letters and the signs around them. -/
def isFinal (c : Char) : Bool :=
  0x40 ≤ c.toNat && c.toNat ≤ 0x7E

/-- The length of the control sequence at the start of a text, if there is one. -/
def length? : Text → Option Nat
  | '\x1b' :: '[' :: cs =>
    let parameters := cs.takeWhile isParameter
    let behind := cs.drop parameters.length
    let intermediates := behind.takeWhile isIntermediate
    match behind.drop intermediates.length with
    | c :: _ => if isFinal c then some (parameters.length + intermediates.length + 3) else none
    | [] => none
  | _ => none

/-- A control sequence as a pattern. -/
def find (t : Text) : Option (Unit × Nat) :=
  (length? t).map fun n => ((), n)

/-- A text without its control sequences. -/
def strip (t : Text) : Text :=
  Piece.replaceMatches find (fun _ => []) t

end ControlSequence

end Devicetree
