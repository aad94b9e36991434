-- SUMMARY: A file tree in memory, seen through what stands at each place.
import Devicetree.Files.Obstacle
import Devicetree.Text.Utf8

/-!
# File trees

A file tree holds files and directories at places. It is seen through `find?` only:
each change sets or clears one place and leaves all others alone. A path is followed
name by name, and every name but the last has to lead into a directory. Names and paths
have limits, which are counted in octets.
-/

namespace Devicetree

/-- What stands at a place. -/
inductive Entry where
  | file (contents : Octets)
  | directory
deriving DecidableEq, Repr

/-- Files and directories at places. -/
structure FileTree where
  entries : List (Place × Entry)
deriving DecidableEq, Repr

namespace FileTree

-- ---------------------------------------------------------------------------
-- Entries
-- ---------------------------------------------------------------------------

/-- What stands at a place; the root is always a directory. -/
def find? (t : FileTree) (place : Place) : Option Entry :=
  if place = [] then some .directory else t.entries.lookup place

/-- Clear a place. -/
def clear (t : FileTree) (place : Place) : FileTree where
  entries := t.entries.filter fun e => e.1 != place

/-- Set what stands at a place. -/
def set (t : FileTree) (place : Place) (e : Entry) : FileTree where
  entries := (place, e) :: (t.clear place).entries

@[simp] theorem find?_root (t : FileTree) : t.find? [] = some .directory := by
  simp [find?]

theorem lookup_clear (t : FileTree) (p q : Place) :
    (t.clear p).entries.lookup q = if q = p then none else t.entries.lookup q := by
  obtain ⟨es⟩ := t
  simp only [clear]
  induction es with
  | nil => simp
  | cons e es ih =>
    obtain ⟨r, e⟩ := e
    by_cases hr : r = p
    · rw [List.filter_cons_of_neg (by simp [hr]), ih]
      by_cases hq : q = p
      · simp [hq]
      · have h : (q == r) = false := by simp [hr, hq]
        simp only [hq, if_false, List.lookup_cons, h]
    · rw [List.filter_cons_of_pos (by simp [hr])]
      by_cases hq : q = r
      · simp [hq, hr]
      · have h : (q == r) = false := by simp [hq]
        simp only [List.lookup_cons, h, ih]

/-- A place that is set holds what it was set to. -/
theorem find?_set_self (t : FileTree) {p : Place} (e : Entry) (h : p ≠ []) :
    (t.set p e).find? p = some e := by
  simp [find?, set, h]

/-- Setting a place leaves all others alone. -/
theorem find?_set_of_ne (t : FileTree) {p q : Place} (e : Entry) (h : q ≠ p) :
    (t.set p e).find? q = t.find? q := by
  have hq : (q == p) = false := by simpa using h
  simp [find?, set, List.lookup_cons, hq, lookup_clear, h]

/-- A place that is cleared holds nothing. -/
theorem find?_clear_self (t : FileTree) {p : Place} (h : p ≠ []) :
    (t.clear p).find? p = none := by
  simp [find?, lookup_clear, h]

/-- Clearing a place leaves all others alone. -/
theorem find?_clear_of_ne (t : FileTree) {p q : Place} (h : q ≠ p) :
    (t.clear p).find? q = t.find? q := by
  simp [find?, lookup_clear, h]


-- ---------------------------------------------------------------------------
-- Following paths
-- ---------------------------------------------------------------------------

/-- The longest name, in octets. -/
def nameLimit : Nat := 255

/-- The longest path, in octets. -/
def pathLimit : Nat := 4095

/-- Whether a text has more octets than a limit allows. -/
def exceeds (limit : Nat) (t : Text) : Bool :=
  limit < (Utf8.encode t).length

/-- Follow names from a place. A single dot stays where it is and two dots lead
    outward, but each has to be looked up in a directory. -/
def follow (t : FileTree) : Place → List Text → Except Obstacle Place
  | place, [] => .ok place
  | place, name :: names =>
    match t.find? place with
    | none => .error .absent
    | some (.file _) => .error .notDirectory
    | some .directory =>
      if name = ['.'] then follow t place names
      else if name = ['.', '.'] then follow t place.dropLast names
      else if exceeds nameLimit name then .error .nameTooLong
      else follow t (place ++ [name]) names

/-- Where following a path starts. -/
def start (here : Place) : Anchor → Place
  | .here => here
  | _ => []

/-- What stands where names lead. -/
def locate (t : FileTree) (place : Place) (names : List Text) : Except Obstacle (Place × Entry) :=
  match t.follow place names with
  | .error obstacle => .error obstacle
  | .ok place =>
    match t.find? place with
    | none => .error .absent
    | some e => .ok (place, e)

/-- What stands at a path. -/
def look (t : FileTree) (here : Place) (p : Path) : Except Obstacle Entry :=
  if exceeds pathLimit p.text then .error .nameTooLong
  else (t.locate (start here p.anchor) p.names).map (·.2)

/-- The place that the last name of a path stands for, in a directory that is there;
    `none` if the last name leads outward or there is no name. -/
def target (t : FileTree) (here : Place) (p : Path) : Except Obstacle (Option Place) :=
  if exceeds pathLimit p.text then .error .nameTooLong
  else match p.names.getLast? with
    | none => .ok none
    | some name =>
      match t.locate (start here p.anchor) p.names.dropLast with
      | .error obstacle => .error obstacle
      | .ok (_, .file _) => .error .notDirectory
      | .ok (place, .directory) =>
        if name = ['.', '.'] then .ok none
        else if exceeds nameLimit name then .error .nameTooLong
        else .ok (some (place ++ [name]))


-- ---------------------------------------------------------------------------
-- Operations
-- ---------------------------------------------------------------------------

/-- The contents of a file. -/
def read (t : FileTree) (here : Place) (p : Path) : Except Obstacle Octets :=
  match t.look here p with
  | .error obstacle => .error obstacle
  | .ok .directory => .error .isDirectory
  | .ok (.file contents) => .ok contents

/-- Give a file its contents; the file need not be there, its directory has to. -/
def write (t : FileTree) (here : Place) (p : Path) (contents : Octets) :
    Except Obstacle FileTree :=
  match t.target here p with
  | .error obstacle => .error obstacle
  | .ok none => .error .isDirectory
  | .ok (some place) =>
    match t.find? place with
    | some .directory => .error .isDirectory
    | _ => .ok (t.set place (.file contents))

/-- Make a directory inside one that is there. -/
def makeDirectory (t : FileTree) (here : Place) (p : Path) : Except Obstacle FileTree :=
  match t.target here p with
  | .error obstacle => .error obstacle
  | .ok none => .error .alreadyThere
  | .ok (some place) =>
    match t.find? place with
    | some _ => .error .alreadyThere
    | none => .ok (t.set place .directory)

/-- Move a file, over another one if there is one. -/
def moveFile (t : FileTree) (here : Place) (source destination : Path) :
    Except Obstacle FileTree :=
  match t.target here source, t.target here destination with
  | .error obstacle, _ => .error obstacle
  | _, .error obstacle => .error obstacle
  | .ok (some a), .ok (some b) =>
    match t.find? a, t.find? b with
    | none, _ => .error .absent
    | some (.file contents), some (.file _) => .ok ((t.clear a).set b (.file contents))
    | some (.file contents), none => .ok ((t.clear a).set b (.file contents))
    | _, _ => .error .isDirectory
  | _, _ => .error .busy

end FileTree

end Devicetree
