-- SUMMARY: The store of saved comparisons: reading and writing it, and what is done to its profiles.
import Devicetree.Json.Writer
import Devicetree.Machine.Basic
import Devicetree.Profile.Fault

/-!
# Profile stores

A store is a file that holds saved comparisons in the order in which they were made;
a store that is not there holds none. Each operation reads the whole store and, if it
changes anything, writes it anew: into a file beside it that then takes its place.
A key is the name or the id of a profile, and the first profile that it fits is meant.
-/

namespace Devicetree

namespace Profile

/-- Whether a key is the name or the id of a profile. -/
def answersTo (key : String) (p : Profile) : Bool :=
  p.name == key || p.id == key

/-- Change the first profile that a key fits; the changed profile, and all of them. -/
def changeFirst (key : String) (change : Profile → Profile) :
    List Profile → Option (Profile × List Profile)
  | [] => none
  | p :: ps =>
    if p.answersTo key then some (change p, change p :: ps)
    else (changeFirst key change ps).map fun (changed, rest) => (changed, p :: rest)

/-- Turn the automatic refreshing of a profile on or off. -/
def toggled (p : Profile) : Profile :=
  { p with autoRefresh := !p.autoRefresh }

end Profile

namespace Store

-- ---------------------------------------------------------------------------
-- Contents
-- ---------------------------------------------------------------------------

/-- Read the contents of a store. -/
def readContents (r : Json.Reading) (store : Path) (contents : Octets) :
    Except StoreFailure (List Profile) :=
  match Utf8.decode contents with
  | .error fault => .error (.broken (.notText fault))
  | .ok raw =>
    let text := Text.universalNewlines raw
    match Json.parse text r with
    | .error (.tooManyDigits count) => .error (.broken (.tooManyDigits count))
    | .error (.tooDeep isArray) => .error (.broken (.tooDeep (.ofJson isArray)))
    | .error fault => .error (.reported (.corrupt store (fault.message text)))
    | .ok v =>
      match Profile.listOfJson v with
      | .error .tooLarge => .error (.broken .tooLarge)
      | .error fault => .error (.reported (.invalidEntry store fault))
      | .ok ps => .ok ps

/-- The contents of a store with some profiles. -/
def contents (ps : List Profile) : Octets :=
  Utf8.encode (Profile.listToJson ps).pretty


-- ---------------------------------------------------------------------------
-- Loading and saving
-- ---------------------------------------------------------------------------

variable {m : Type → Type} [Monad m] [Machine m]

/-- The profiles of a store. -/
def load (store : Path) : ExceptT StoreFailure m (List Profile) := do
  match ← Machine.look store with
  | .error obstacle =>
    if obstacle.meansNothing then return []
    else throw (.broken (.obstructed ⟨obstacle, [store]⟩))
  | .ok _ =>
    match ← Machine.read store with
    | .error obstacle => throw (.reported (.unreadable store ⟨obstacle, [store]⟩))
    | .ok octets => readContents (← Machine.runtime).reading store octets

/-- The file that a store is written into before it takes the place of the old one. -/
def temporary (store : Path) : Path :=
  store.withEnding ".tmp".toList

/-- Write a store. -/
def save (store : Path) (ps : List Profile) : ExceptT StoreFailure m Unit := do
  if store.parent.hasZero then throw (.broken .zeroInPath)
  match ← Machine.makeDirectories store.parent with
  | .error fault => throw (.reported (.unwritable store fault))
  | .ok () =>
    if store.hasZero then throw (.broken .zeroInPath)
    match ← Machine.write (temporary store) (contents ps) with
    | .error obstacle => throw (.reported (.unwritable store ⟨obstacle, [temporary store]⟩))
    | .ok () =>
      match ← Machine.moveFile (temporary store) store with
      | .error obstacle =>
        throw (.reported (.unwritable store ⟨obstacle, [temporary store, store]⟩))
      | .ok () => return ()


-- ---------------------------------------------------------------------------
-- Operations
-- ---------------------------------------------------------------------------

/-- The profile that a key fits. -/
def get (store : Path) (key : String) : ExceptT StoreFailure m Profile := do
  match (← load store).find? (Profile.answersTo key) with
  | some p => return p
  | none => throw (.reported (.unknown key))

/-- A path as it is stored: from the root, so that it leads to the same file from
    everywhere. -/
def rooted (here : Place) (path : String) : Except StoreFailure String :=
  let p := Path.ofText path.toList
  if p.hasZero then .error (.broken .zeroInPath) else .ok (Path.ofPlace (p.place here)).string

/-- Save a new profile under a name that is not taken. -/
def add (store : Path) (name left right : String) (filter : Filter) (autoRefresh : Bool) :
    ExceptT StoreFailure m Profile := do
  if (Text.trim name.toList).isEmpty then throw (.reported .blankName)
  let ps ← load store
  if ps.any (·.name == name) then throw (.reported (.takenName name))
  let here ← Machine.here
  let identity ← Machine.newIdentity
  let p : Profile :=
    { id := identity.id, name, left := ← rooted here left, right := ← rooted here right, filter
      autoRefresh, created := identity.created }
  save store (ps ++ [p])
  return p

/-- Remove the profile that a key fits, with all that have its id. -/
def delete (store : Path) (key : String) : ExceptT StoreFailure m Profile := do
  let p ← get store key
  save store ((← load store).filter fun q => q.id != p.id)
  return p

/-- Turn the automatic refreshing of the profile that a key fits on or off. -/
def toggle (store : Path) (key : String) : ExceptT StoreFailure m Profile := do
  match Profile.changeFirst key Profile.toggled (← load store) with
  | none => throw (.reported (.unknown key))
  | some (p, ps) =>
    save store ps
    return p

/-- The profiles that are refreshed automatically. -/
def autoRefreshed (store : Path) : ExceptT StoreFailure m (List Profile) := do
  return (← load store).filter (·.autoRefresh)

end Store

end Devicetree
