-- SUMMARY: Tags asked for by their offsets: the next property, the first child and the next one.
import Devicetree.Blob.Tree

/-!
# Tags by offset

A structure block can be asked for the tag at any offset, and so be searched from a tag on for
the next property or the next node. A search for nodes counts how deep it stands: a node that is
opened adds one, and the tag that closes the node it started in ends it. The children of a node
are found in this way, one from the other, and each search starts anew. Whatever tags the block
holds, a search comes to an offset behind the one that it started from, and children are what is
found at the level of a node before it is closed.
-/

namespace Devicetree

open Except (ok error)

namespace Blob

/-- A structure block, and what its names are read with. -/
structure StructBlock where
  naming : Naming
  octets : Octets

namespace StructBlock

variable {b : StructBlock} {offset size : Nat} {kind : TagKind}

/-! ## Tags -/

/-- What is read at an offset. -/
def tagAt (b : StructBlock) (offset : Nat) : TagRead :=
  readTag b.naming.version offset (b.octets.drop offset)

theorem aligned_mod (n : Nat) : aligned n % 4 = 0 := by
  rw [aligned]
  omega

theorem le_aligned (n : Nat) : n ≤ aligned n := by
  rw [aligned]
  omega

theorem readTag_bounds {version : Nat} {os : Octets}
    (h : readTag version offset os = .tag kind size) :
    4 ≤ os.length ∧ 4 ≤ size ∧ size % 4 = 0 := by
  unfold readTag at h
  split at h
  · cases h
  · rename_i hlength
    refine ⟨Nat.not_lt.1 hlength, ?_⟩
    dsimp only at h
    split at h
    · split at h
      · cases h
        exact ⟨Nat.le_trans (by omega) (le_aligned _), aligned_mod _⟩
      · cases h
    · cases h
      decide
    · split at h
      · cases h
      · cases h
        exact ⟨Nat.le_trans (by omega) (le_aligned _), aligned_mod _⟩
    · cases h
      decide
    · cases h
    · cases h

/-- A tag takes whole words of the block. -/
theorem tagAt_bounds (h : b.tagAt offset = .tag kind size) :
    offset + 4 ≤ b.octets.length ∧ 4 ≤ size ∧ size % 4 = 0 := by
  obtain ⟨hlength, hsize⟩ := readTag_bounds h
  rw [List.length_drop] at hlength
  exact ⟨by omega, hsize⟩

/-! ## Searches -/

/-- The offset behind the tag that opens a node, if one does so at an offset. -/
def insideOf? (b : StructBlock) (offset : Nat) : Option Nat :=
  if offset % 4 = 0 then
    match b.tagAt offset with
    | .tag (.beginNode _) size => some (offset + size)
    | _ => none
  else none

/-- Search for the next tag that opens a node: its offset, and the depth that it leads to. Where
the node that the search started in is closed, the search ends behind that, at a negative depth. -/
def nextNode? (b : StructBlock) (depth : Int) (offset : Nat) : Option (Nat × Int) :=
  match _h : b.tagAt offset with
  | .tag (.beginNode _) _ => some (offset, depth + 1)
  | .tag .endNode size =>
    if depth - 1 < 0 then some (offset + size, depth - 1)
    else nextNode? b (depth - 1) (offset + size)
  | .tag .filler size => nextNode? b depth (offset + size)
  | .tag (.property _ _) size => nextNode? b depth (offset + size)
  | _ => none
termination_by b.octets.length - offset
decreasing_by all_goals have := tagAt_bounds _h; omega

theorem of_insideOf? {inside : Nat} (h : b.insideOf? offset = some inside) :
    offset % 4 = 0 ∧
      ∃ name size, b.tagAt offset = .tag (.beginNode name) size ∧ inside = offset + size := by
  unfold insideOf? at h
  split at h
  · split at h
    · rename_i haligned _ name size htag
      cases h
      exact ⟨haligned, name, size, htag, rfl⟩
    · cases h
  · cases h

theorem insideOf?_bounds {inside : Nat} (h : b.insideOf? offset = some inside) :
    offset < b.octets.length ∧ offset < inside ∧ inside % 4 = 0 := by
  obtain ⟨haligned, name, size, htag, rfl⟩ := of_insideOf? h
  have hbounds := tagAt_bounds htag
  omega

theorem le_of_nextNode? {depth depth' : Int} {found : Nat}
    (h : b.nextNode? depth offset = some (found, depth')) : offset ≤ found := by
  fun_induction nextNode? b depth offset with
  | case1 =>
    cases h
    exact Nat.le_refl _
  | case2 =>
    cases h
    exact Nat.le_add_right _ _
  | case3 depth offset size htag hdepth ih => exact Nat.le_trans (Nat.le_add_right _ _) (ih h)
  | case4 depth offset size htag ih => exact Nat.le_trans (Nat.le_add_right _ _) (ih h)
  | case5 depth offset _ _ size htag ih => exact Nat.le_trans (Nat.le_add_right _ _) (ih h)
  | case6 => cases h

/-- The first child of the node at an offset. -/
def firstChild? (b : StructBlock) (offset : Nat) : Option Nat :=
  match b.insideOf? offset with
  | none => none
  | some inside =>
    match b.nextNode? 0 inside with
    | none => none
    | some (child, depth) => if depth = 1 then some child else none

/-- Search for the next node that has the parent of a child; the search stands at the given depth
inside the node at an offset, and a child is at depth one. -/
def nextChildFrom? (b : StructBlock) (depth : Int) (offset : Nat) : Option Nat :=
  match _h : b.insideOf? offset with
  | none => none
  | some inside =>
    match _h' : b.nextNode? depth inside with
    | none => none
    | some (found, depth') =>
      if depth' < 1 then none
      else if 1 < depth' then nextChildFrom? b depth' found
      else some found
termination_by b.octets.length - offset
decreasing_by
  have := insideOf?_bounds _h
  have := le_of_nextNode? _h'
  omega

/-- The child behind a child. -/
def nextChild? (b : StructBlock) (offset : Nat) : Option Nat :=
  b.nextChildFrom? 1 offset

/-- Search for the next property, with fillers only in front of it. -/
def propertyFrom (b : StructBlock) (offset : Nat) : Except Fault (Option Nat) :=
  match _h : b.tagAt offset with
  | .fault fault => error fault
  | .stop => error .badStructure
  | .tag (.property _ _) _ => ok (some offset)
  | .tag .filler size => propertyFrom b (offset + size)
  | .tag (.beginNode _) _ => ok none
  | .tag .endNode _ => ok none
termination_by b.octets.length - offset
decreasing_by all_goals have := tagAt_bounds _h; omega

/-- The first property of the node at an offset. -/
def firstProperty (b : StructBlock) (offset : Nat) : Except Fault (Option Nat) :=
  match b.insideOf? offset with
  | none => error .badOffset
  | some inside => b.propertyFrom inside

/-- The property behind a property. -/
def nextProperty (b : StructBlock) (offset : Nat) : Except Fault (Option Nat) :=
  match b.tagAt offset with
  | .tag (.property _ _) size =>
    if offset % 4 = 0 then b.propertyFrom (offset + size) else error .badOffset
  | _ => error .badOffset

/-- The name of the node at an offset. -/
def nodeName (b : StructBlock) (offset : Nat) : Except Fault Text :=
  match b.tagAt offset with
  | .tag (.beginNode name) _ =>
    if offset % 4 = 0 then b.naming.nodeName name else error .badOffset
  | _ => error .badOffset

/-- The name and the value of the property at an offset. -/
def readProperty (b : StructBlock) (offset : Nat) : Except Fault (Text × Octets) :=
  match b.tagAt offset with
  | .tag (.property nameOffset value) _ =>
    if offset % 4 = 0 then (b.naming.propertyName nameOffset).map fun name => (name, value)
    else error .badOffset
  | _ => error .badOffset

/-! ## Levels -/

/-- The first node from an offset on at the level of that offset. -/
def childFrom? (b : StructBlock) (offset : Nat) : Option Nat :=
  match _h : b.tagAt offset with
  | .tag (.beginNode _) _ => some offset
  | .tag .filler size => childFrom? b (offset + size)
  | .tag (.property _ _) size => childFrom? b (offset + size)
  | _ => none
termination_by b.octets.length - offset
decreasing_by all_goals have := tagAt_bounds _h; omega

/-- The offset behind the tag that closes a node, from an offset on that has some nodes inside
that node around it. -/
def behindNode? (b : StructBlock) (depth : Nat) (offset : Nat) : Option Nat :=
  match _h : b.tagAt offset with
  | .tag (.beginNode _) size => behindNode? b (depth + 1) (offset + size)
  | .tag .endNode size =>
    match depth with
    | 0 => some (offset + size)
    | depth + 1 => behindNode? b depth (offset + size)
  | .tag .filler size => behindNode? b depth (offset + size)
  | .tag (.property _ _) size => behindNode? b depth (offset + size)
  | _ => none
termination_by b.octets.length - offset
decreasing_by all_goals have := tagAt_bounds _h; omega

/-- What holds at an offset if it holds from the end of the tag there on holds everywhere. -/
theorem offset_induction (b : StructBlock) {motive : Nat → Prop}
    (step : ∀ offset, (∀ kind size, b.tagAt offset = .tag kind size →
      ∀ more, offset + size ≤ more → motive more) → motive offset) (offset : Nat) :
    motive offset :=
  step offset fun kind size htag more _hmore =>
    have := tagAt_bounds htag
    offset_induction b step more
termination_by b.octets.length - offset

theorem le_of_childFrom? {child : Nat} (h : b.childFrom? offset = some child) :
    offset ≤ child := by
  fun_induction childFrom? b offset with
  | case1 =>
    cases h
    exact Nat.le_refl _
  | case2 offset size htag ih => exact Nat.le_trans (Nat.le_add_right _ _) (ih h)
  | case3 offset _ _ size htag ih => exact Nat.le_trans (Nat.le_add_right _ _) (ih h)
  | case4 => cases h

theorem le_of_propertyFrom {found : Nat} (h : b.propertyFrom offset = ok (some found)) :
    offset ≤ found := by
  fun_induction propertyFrom b offset with
  | case3 =>
    cases h
    exact Nat.le_refl _
  | case4 offset size htag ih => exact Nat.le_trans (Nat.le_add_right _ _) (ih h)
  | _ => cases h

theorem behindNode?_bounds {depth stop : Nat} (haligned : offset % 4 = 0)
    (h : b.behindNode? depth offset = some stop) : offset < stop ∧ stop % 4 = 0 := by
  induction offset using b.offset_induction generalizing depth with
  | step offset ih =>
    revert h
    rw [behindNode?]
    cases htag : b.tagAt offset with
    | fault fault => exact nofun
    | stop => exact nofun
    | tag kind size =>
      obtain ⟨-, hpositive, hsize⟩ := tagAt_bounds htag
      have hmore : ∀ depth, b.behindNode? depth (offset + size) = some stop →
          offset < stop ∧ stop % 4 = 0 := by
        intro depth h
        have := ih kind size htag (offset + size) (Nat.le_refl _) (by omega) h
        omega
      cases kind with
      | beginNode name => exact hmore (depth + 1)
      | endNode =>
        cases depth with
        | zero => exact fun h => by cases h; omega
        | succ depth => exact hmore depth
      | property nameOffset value => exact hmore depth
      | filler => exact hmore depth

/-- Behind a node with a node around it comes what is behind that one. -/
theorem behindNode?_succ (b : StructBlock) (depth offset : Nat) :
    b.behindNode? (depth + 1) offset = (b.behindNode? depth offset).bind (b.behindNode? 0) := by
  induction offset using b.offset_induction generalizing depth with
  | step offset ih =>
    rw [behindNode?, behindNode?]
    cases htag : b.tagAt offset with
    | fault fault => rfl
    | stop => rfl
    | tag kind size =>
      have hmore := ih kind size htag (offset + size) (Nat.le_refl _)
      cases kind with
      | beginNode name => exact hmore (depth + 1)
      | endNode =>
        cases depth with
        | zero => rfl
        | succ depth => exact hmore depth
      | property nameOffset value => exact hmore depth
      | filler => exact hmore depth

/-- The first node that a search from the inside of a node comes to is its first child. -/
theorem nextNode?_zero (b : StructBlock) (offset : Nat) :
    (match b.nextNode? 0 offset with
      | none => none
      | some (child, depth) => if depth = 1 then some child else none) = b.childFrom? offset := by
  induction offset using b.offset_induction with
  | step offset ih =>
    rw [nextNode?, childFrom?]
    cases htag : b.tagAt offset with
    | fault fault => rfl
    | stop => rfl
    | tag kind size =>
      have hmore := ih kind size htag (offset + size) (Nat.le_refl _)
      cases kind with
      | beginNode name => rfl
      | endNode => rfl
      | property nameOffset value => exact hmore
      | filler => exact hmore

theorem firstChild?_eq {inside : Nat} (h : b.insideOf? offset = some inside) :
    b.firstChild? offset = b.childFrom? inside := by
  rw [firstChild?, h]
  exact b.nextNode?_zero inside

/-- What a search for the next child goes on to from an offset. -/
def searchFrom? (b : StructBlock) (depth : Int) (offset : Nat) : Option Nat :=
  match b.nextNode? depth offset with
  | none => none
  | some (found, depth') =>
    if depth' < 1 then none
    else if 1 < depth' then b.nextChildFrom? depth' found
    else some found

theorem nextChildFrom?_eq {inside : Nat} (h : b.insideOf? offset = some inside) (depth : Int) :
    b.nextChildFrom? depth offset = b.searchFrom? depth inside := by
  rw [nextChildFrom?, searchFrom?]
  split
  · rename_i hnone
    cases hnone.symm.trans h
  · rename_i inside' hsome
    obtain rfl := Option.some.inj (h.symm.trans hsome)
    split <;> simp [*]

theorem insideOf?_eq {name : Octets} (haligned : offset % 4 = 0)
    (htag : b.tagAt offset = .tag (.beginNode name) size) :
    b.insideOf? offset = some (offset + size) := by
  rw [insideOf?, if_pos haligned, htag]

theorem searchFrom?_beginNode {name : Octets} (haligned : offset % 4 = 0)
    (htag : b.tagAt offset = .tag (.beginNode name) size) (depth : Nat) :
    b.searchFrom? depth offset =
      if depth = 0 then some offset else b.searchFrom? (depth + 1 : Nat) (offset + size) := by
  rw [searchFrom?, nextNode?, htag]
  dsimp only
  rw [nextChildFrom?_eq (insideOf?_eq haligned htag), if_neg (by omega)]
  cases depth with
  | zero => rfl
  | succ depth => rw [if_pos (by omega), if_neg (by omega)]; rfl

theorem searchFrom?_endNode (htag : b.tagAt offset = .tag .endNode size) (depth : Nat) :
    b.searchFrom? depth offset =
      if depth = 0 then none else b.searchFrom? (depth - 1 : Nat) (offset + size) := by
  rw [searchFrom?, nextNode?, htag]
  dsimp only
  cases depth with
  | zero => rfl
  | succ depth =>
    have hinside : ((depth + 1 : Nat) : Int) - 1 = depth := by omega
    rw [if_neg (by omega), if_neg (by omega), hinside]
    rfl

theorem searchFrom?_filler (htag : b.tagAt offset = .tag .filler size) (depth : Int) :
    b.searchFrom? depth offset = b.searchFrom? depth (offset + size) := by
  rw [searchFrom?, nextNode?, htag]
  rfl

theorem searchFrom?_property {nameOffset : Nat} {value : Octets}
    (htag : b.tagAt offset = .tag (.property nameOffset value) size) (depth : Int) :
    b.searchFrom? depth offset = b.searchFrom? depth (offset + size) := by
  rw [searchFrom?, nextNode?, htag]
  rfl

theorem childFrom?_of_tag (b : StructBlock) (kind : TagKind) (offset size : Nat) :
    b.tagAt offset = .tag kind size → b.childFrom? offset =
      match kind with
      | .beginNode _ => some offset
      | .endNode => none
      | .filler => b.childFrom? (offset + size)
      | .property _ _ => b.childFrom? (offset + size) := by
  intro htag
  rw [childFrom?, htag]
  cases kind <;> rfl

theorem behindNode?_of_tag (b : StructBlock) (kind : TagKind) (offset size depth : Nat) :
    b.tagAt offset = .tag kind size → b.behindNode? depth offset =
      match kind, depth with
      | .beginNode _, depth => b.behindNode? (depth + 1) (offset + size)
      | .endNode, 0 => some (offset + size)
      | .endNode, depth + 1 => b.behindNode? depth (offset + size)
      | .filler, depth => b.behindNode? depth (offset + size)
      | .property _ _, depth => b.behindNode? depth (offset + size) := by
  intro htag
  rw [behindNode?, htag]
  cases kind <;> first | rfl | (cases depth <;> rfl)

/-- Inside some nodes a search goes on behind the outermost of them; at the level of a node it
takes the first one that it comes to. -/
theorem searchFrom?_eq (b : StructBlock) {offset : Nat} (haligned : offset % 4 = 0) (depth : Nat) :
    b.searchFrom? depth offset =
      match depth with
      | 0 => b.childFrom? offset
      | depth + 1 => (b.behindNode? depth offset).bind b.childFrom? := by
  induction offset using b.offset_induction generalizing depth with
  | step offset ih =>
    cases htag : b.tagAt offset with
    | fault fault =>
      rw [searchFrom?, nextNode?, htag]
      cases depth with
      | zero => dsimp only; rw [childFrom?, htag]
      | succ depth => dsimp only; rw [behindNode?, htag]; rfl
    | stop =>
      rw [searchFrom?, nextNode?, htag]
      cases depth with
      | zero => dsimp only; rw [childFrom?, htag]
      | succ depth => dsimp only; rw [behindNode?, htag]; rfl
    | tag kind size =>
      obtain ⟨-, -, hsize⟩ := tagAt_bounds htag
      have hmore := fun depth => ih kind size htag (offset + size) (Nat.le_refl _) (by omega) depth
      have hbehind := fun depth => b.behindNode?_of_tag kind offset size depth htag
      rw [b.childFrom?_of_tag kind offset size htag]
      cases kind with
      | beginNode name =>
        rw [searchFrom?_beginNode haligned htag, hmore]
        cases depth with
        | zero => rfl
        | succ depth => exact congrArg (·.bind b.childFrom?) (hbehind depth).symm
      | endNode =>
        rw [searchFrom?_endNode htag, hmore]
        cases depth with
        | zero => rfl
        | succ depth =>
          dsimp only
          rw [hbehind]
          cases depth <;> rfl
      | property nameOffset value =>
        rw [searchFrom?_property htag, hmore]
        cases depth with
        | zero => rfl
        | succ depth => exact congrArg (·.bind b.childFrom?) (hbehind depth).symm
      | filler =>
        rw [searchFrom?_filler htag, hmore]
        cases depth with
        | zero => rfl
        | succ depth => exact congrArg (·.bind b.childFrom?) (hbehind depth).symm

/-- The next child is the first node behind a child that is at its level. -/
theorem nextChild?_eq {inside : Nat} (h : b.insideOf? offset = some inside) :
    b.nextChild? offset = (b.behindNode? 0 inside).bind b.childFrom? := by
  rw [nextChild?, nextChildFrom?_eq h]
  exact b.searchFrom?_eq (insideOf?_bounds h).2.2 1

end StructBlock

end Blob

end Devicetree
