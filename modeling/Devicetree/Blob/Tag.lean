-- SUMMARY: The tag stream of a structure block.
import Devicetree.Blob.Header

/-!
# Tags

The structure block is a row of tags, each of which starts at a multiple of four
octets. A tag opens or closes a node, holds a property, fills a gap or ends the
row. A row that does not come to its end is broken off: because it has no more
octets, or because a tag is unknown, a name has no end or a property is cut short.
-/

namespace Devicetree

namespace Blob

/-- What a tag says. -/
inductive TagKind where
  | beginNode (name : Octets)
  | endNode
  | property (nameOffset : Nat) (value : Octets)
  | filler
deriving DecidableEq, Repr

/-- A tag, and where in the structure block it starts. -/
structure Tag where
  offset : Nat
  kind : TagKind
deriving DecidableEq, Repr

/-- How a row of tags comes to its end: with the tag for it, or broken off. -/
inductive Ending where
  | regular
  | broken (fault : Fault)
deriving DecidableEq, Repr

/-- A row of tags. -/
structure TagStream where
  tags : List Tag
  ending : Ending
deriving DecidableEq, Repr

/-- What reading one tag gives: a tag and its octets, the tag for the end, or a fault. -/
inductive TagRead where
  | tag (kind : TagKind) (size : Nat)
  | stop
  | fault (fault : Fault)
deriving DecidableEq, Repr

/-- Round up to a multiple of four. -/
def aligned (n : Nat) : Nat :=
  (n + 3) / 4 * 4

/-- Octets that a value is moved by: before version 16, long values start at a multiple of
    eight. -/
def valuePadding (version offset length : Nat) : Nat :=
  if version < 16 && 8 ≤ length && (offset + 12) % 8 ≠ 0 then 4 else 0

/-- Read the tag that starts at an offset, whose octets and those behind it are given. -/
def readTag (version offset : Nat) (os : Octets) : TagRead :=
  if os.length < 4 then .fault .truncated
  else
    let rest := os.drop 4
    match Octets.word 0 os with
    | 1 =>
      let name := rest.takeWhile (· != 0)
      if name.length < rest.length then .tag (.beginNode name) (aligned (name.length + 5))
      else .fault .badStructure
    | 2 => .tag .endNode 4
    | 3 =>
      let length := Octets.word 4 os
      let size := 12 + length + valuePadding version offset length
      if rest.length < 4 || os.length < size then .fault .badStructure
      else .tag (.property (Octets.word 8 os) ((os.drop 12).take length)) (aligned size)
    | 4 => .tag .filler 4
    | 9 => .stop
    | _ => .fault .badStructure

/-- Read tags from an offset on; the first `covered` octets belong to a tag already. -/
def tagsFrom (version : Nat) : (covered offset : Nat) → Octets → TagStream
  | _, _, [] => ⟨[], .broken .truncated⟩
  | covered + 1, offset, _ :: os => tagsFrom version covered (offset + 1) os
  | 0, offset, o :: os =>
    match readTag version offset (o :: os) with
    | .fault fault => ⟨[], .broken fault⟩
    | .stop => ⟨[], .regular⟩
    | .tag kind size =>
      let behind := tagsFrom version (size - 1) (offset + 1) os
      { behind with tags := ⟨offset, kind⟩ :: behind.tags }

/-- The tags of a structure block. -/
def tags (version : Nat) (block : Octets) : TagStream :=
  tagsFrom version 0 0 block

end Blob

end Devicetree
