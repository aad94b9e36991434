-- SUMMARY: Why an operation on a profile store fails.
import Devicetree.Breakdown
import Devicetree.Files.Obstacle
import Devicetree.Profile.Record

/-!
# Faults of a store

What is reported names the store and what was wrong with it, or the profile that was
asked for. Contents that are no text, and numbers and nestings past what a reader
converts, are not reported but break the operation off.
-/

namespace Devicetree

/-- What a store reports. -/
inductive StoreFault where
  | unreadable (store : Path) (fault : FileFault)
  /-- The contents are not JSON. -/
  | corrupt (store : Path) (reason : String)
  /-- The contents are JSON, but not of a store. -/
  | invalidEntry (store : Path) (reason : Profile.Fault)
  | unwritable (store : Path) (fault : FileFault)
  | blankName
  | takenName (name : String)
  | unknown (key : String)

/-- The wording of what a store reports. -/
def StoreFault.message : StoreFault → String
  | unreadable store fault => s!"Failed to read profiles from {store.string}: {fault.message}"
  | corrupt store reason => s!"Profile store {store.string} is corrupt: {reason}"
  | invalidEntry store reason =>
    s!"Profile store {store.string} has an invalid entry: {reason.message}"
  | unwritable store fault => s!"Failed to write profiles to {store.string}: {fault.message}"
  | blankName => "Profile name must not be empty"
  | takenName name => s!"Comparison profile '{name}' already exists"
  | unknown key => s!"Comparison profile '{key}' not found"

/-- Why an operation on a store fails. -/
inductive StoreFailure where
  | reported (fault : StoreFault)
  | broken (breakdown : Breakdown)

end Devicetree
