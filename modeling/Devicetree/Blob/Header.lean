-- SUMMARY: Flattened device trees: the header, what is wrong with one, and the blocks it names.
import Devicetree.Text.Octets

/-!
# Headers of flattened trees

A flattened tree starts with ten words that name its version and where its blocks
lie. Checked in order are the magic number, the versions, the total size and the
bounds of the blocks; the first check that fails decides. Before version 17 the
header does not state the size of the structure block, which then reaches to the
end.
-/

namespace Devicetree

namespace Blob

-- ---------------------------------------------------------------------------
-- Faults
-- ---------------------------------------------------------------------------

/-- Why a flattened tree cannot be read. -/
inductive Fault where
  | badOffset
  | truncated
  | badMagic
  | badVersion
  | badStructure
deriving DecidableEq, Repr

/-- The number of a fault. -/
def Fault.code : Fault → Int
  | badOffset => -4
  | truncated => -8
  | badMagic => -9
  | badVersion => -10
  | badStructure => -11

/-- The name of a fault. -/
def Fault.name : Fault → String
  | badOffset => "FDT_ERR_BADOFFSET"
  | truncated => "FDT_ERR_TRUNCATED"
  | badMagic => "FDT_ERR_BADMAGIC"
  | badVersion => "FDT_ERR_BADVERSION"
  | badStructure => "FDT_ERR_BADSTRUCTURE"

/-- The wording of a fault. -/
def Fault.message (fault : Fault) : String :=
  "Failed to decompile DTB: FDT error: pylibfdt error "
    ++ s!"{fault.code}: {fault.name} (error code: {fault.code})"


-- ---------------------------------------------------------------------------
-- Headers
-- ---------------------------------------------------------------------------

/-- The words of a header that matter for reading. -/
structure Header where
  magic : Nat
  totalSize : Nat
  structOffset : Nat
  stringsOffset : Nat
  reserveOffset : Nat
  version : Nat
  lastCompatible : Nat
  stringsSize : Nat
  structSize : Nat
deriving DecidableEq, Repr

/-- The number that every flattened tree starts with. -/
def magicNumber : Nat := 0xD00DFEED

/-- Whether octets start like a flattened tree. -/
def hasMagic (os : Octets) : Bool :=
  4 ≤ os.length && Octets.word 0 os == magicNumber

namespace Header

/-- The header at the start of some octets. -/
def read (os : Octets) : Header where
  magic := Octets.word 0 os
  totalSize := Octets.word 4 os
  structOffset := Octets.word 8 os
  stringsOffset := Octets.word 12 os
  reserveOffset := Octets.word 16 os
  version := Octets.word 20 os
  lastCompatible := Octets.word 24 os
  stringsSize := Octets.word 32 os
  structSize := Octets.word 36 os

/-- The size of a header of some version. -/
def sizeOf (version : Nat) : Nat :=
  if version ≤ 1 then 28 else if version ≤ 2 then 32 else if version ≤ 16 then 36 else 40

/-- Whether the size of the structure block is stated. -/
def statesStructSize (h : Header) : Bool :=
  17 ≤ h.version

/-- Whether an offset lies behind the header and not behind the end. -/
def covers (h : Header) (offset : Nat) : Bool :=
  sizeOf h.version ≤ offset && offset ≤ h.totalSize

/-- Whether a block lies behind the header and not behind the end. -/
def coversBlock (h : Header) (offset size : Nat) : Bool :=
  h.covers offset && h.covers (offset + size)

/-- Total sizes stay below this. -/
def sizeLimit : Nat := 0x80000000

/-- Check a header. -/
def check (h : Header) : Except Fault Unit :=
  if h.magic ≠ magicNumber then .error .badMagic
  else if h.version < 2 || 17 < h.lastCompatible || h.version < h.lastCompatible then
    .error .badVersion
  else if h.totalSize < sizeOf h.version || sizeLimit ≤ h.totalSize then .error .truncated
  else if !h.covers h.reserveOffset then .error .truncated
  else if !(if h.statesStructSize then h.coversBlock h.structOffset h.structSize
      else h.covers h.structOffset) then .error .truncated
  else if !h.coversBlock h.stringsOffset h.stringsSize then .error .truncated
  else .ok ()

/-- The octets of the structure block. -/
def structBlock (h : Header) (os : Octets) : Octets :=
  let size := if h.statesStructSize then h.structSize else h.totalSize - h.structOffset
  (os.drop h.structOffset).take size

/-- The octets in which names of properties are looked up: the strings block, or before
    version 17 all from its start to the end. -/
def stringsBlock (h : Header) (os : Octets) : Octets :=
  let size := if h.statesStructSize then h.stringsSize else h.totalSize - h.stringsOffset
  (os.drop h.stringsOffset).take size

end Header

end Blob

end Devicetree
