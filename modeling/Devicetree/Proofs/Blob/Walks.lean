-- SUMMARY: A walk by offsets reads the tree of a row of tags, and looks at no tag twice.
import Devicetree.Proofs.Blob.Damage
import Devicetree.Proofs.Blob.Offsets

/-!
# Walks

A tree can also be read by offsets: of a node its name, its properties, each found from the one
in front of it, and then its children in the same way. A child is found by a search that starts
at the child in front of it and passes over all that is inside that one, so the same tags are
searched time and again. What is looked at, though, is looked at once: the tags of a walk are a
part of the row of tags, in its order, however the row is damaged. What comes of a walk is what
is read of the row in one pass with the same room for nodes inside each other.
-/

namespace Devicetree

open Except (ok error)

namespace Blob

/-! ## Looking at tags -/

/-- What a walk looks at: a node or a property. -/
inductive Visit where
  | node (offset : Nat)
  | property (offset : Nat)
deriving DecidableEq, Repr

/-- Where the tag starts that is looked at. -/
def Visit.offset : Visit → Nat
  | node offset => offset
  | property offset => offset

/-- A part of a walk: what it looks at in order, and what comes of it. -/
structure Walk (α : Type) where
  visits : List Visit
  result : Except Failure α

namespace Walk

variable {α β : Type}

/-- A failure ends a walk. -/
instance : Monad Walk where
  pure a := ⟨[], ok a⟩
  bind w f :=
    match w.result with
    | error failure => ⟨w.visits, error failure⟩
    | ok a => ⟨w.visits ++ (f a).visits, (f a).result⟩

/-- Look at a tag. -/
def visit (v : Visit) : Walk Unit := ⟨[v], ok ()⟩

/-- What is known without looking. -/
def ofExcept (r : Except Fault α) : Walk α := ⟨[], r.mapError .faulty⟩

/-- There is no room for a node. -/
def overflow : Walk α := ⟨[], error .overflow⟩

@[simp] theorem visits_pure (a : α) : (pure a : Walk α).visits = [] := rfl

@[simp] theorem result_pure (a : α) : (pure a : Walk α).result = ok a := rfl

@[simp] theorem visits_visit (v : Visit) : (visit v).visits = [v] := rfl

@[simp] theorem result_visit (v : Visit) : (visit v).result = ok () := rfl

@[simp] theorem visits_ofExcept (r : Except Fault α) : (ofExcept r).visits = [] := rfl

@[simp] theorem result_ofExcept (r : Except Fault α) :
    (ofExcept r).result = r.mapError .faulty := rfl

theorem of_result_ofExcept {r : Except Fault α} {a : α} (h : (ofExcept r).result = ok a) :
    r = ok a := by
  cases r with
  | error fault => cases h
  | ok a =>
    cases h
    rfl

theorem visits_bind (w : Walk α) (f : α → Walk β) :
    (w >>= f).visits = w.visits ++ match w.result with
      | ok a => (f a).visits
      | error _ => [] := by
  obtain ⟨visits, _ | a⟩ := w
  · exact (List.append_nil visits).symm
  · rfl

@[simp] theorem result_bind (w : Walk α) (f : α → Walk β) :
    (w >>= f).result = w.result.bind fun a => (f a).result := by
  obtain ⟨visits, _ | a⟩ := w <;> rfl

/-- What comes of two parts comes of the second, if something comes of the first. -/
theorem of_result_bind {w : Walk α} {f : α → Walk β} {c : β} (h : (w >>= f).result = ok c) :
    ∃ a, w.result = ok a ∧ (f a).result = ok c ∧ (w >>= f).visits = w.visits ++ (f a).visits := by
  obtain ⟨visits, _ | a⟩ := w
  · cases h
  · exact ⟨a, rfl, h, rfl⟩

@[simp] theorem visits_bind_pure (w : Walk α) (f : α → β) :
    (w >>= fun a => pure (f a)).visits = w.visits := by
  obtain ⟨visits, _ | a⟩ := w
  · rfl
  · exact List.append_nil visits

/-- What is looked at in two parts, if the second one does not look at more than is given. -/
theorem visits_bind_sublist {w : Walk α} {f : α → Walk β} {visits : List Visit}
    (h : ∀ a, w.result = ok a → (f a).visits.Sublist visits) :
    (w >>= f).visits.Sublist (w.visits ++ visits) := by
  rw [visits_bind]
  refine (List.Sublist.refl _).append ?_
  split
  · exact h _ ‹_›
  · exact List.nil_sublist _

end Walk

/-! ## Walks by offset -/

namespace StructBlock

variable {b : StructBlock} {offset size : Nat}

/-- What is left of a block from a tag on that has been found. -/
def left (b : StructBlock) : Option Nat → Nat
  | none => 0
  | some offset => b.octets.length - offset + 1

theorem left_lt {found : Option Nat}
    (h : ∀ next, found = some next → offset < b.octets.length ∧ offset < next) :
    b.left found < b.left (some offset) := by
  cases found with
  | none => exact Nat.succ_pos _
  | some next =>
    have := h next rfl
    rw [left, left]
    omega

theorem left_firstChild? (b : StructBlock) (offset : Nat) :
    b.left (b.firstChild? offset) < b.left (some offset) := by
  refine left_lt fun child hchild => ?_
  cases hinside : b.insideOf? offset with
  | none => simp [firstChild?, hinside] at hchild
  | some inside =>
    rw [firstChild?_eq hinside] at hchild
    obtain ⟨hlength, hlt, -⟩ := insideOf?_bounds hinside
    exact ⟨hlength, Nat.lt_of_lt_of_le hlt (le_of_childFrom? hchild)⟩

theorem left_nextChild? (b : StructBlock) (offset : Nat) :
    b.left (b.nextChild? offset) < b.left (some offset) := by
  refine left_lt fun child hchild => ?_
  cases hinside : b.insideOf? offset with
  | none =>
    rw [nextChild?, nextChildFrom?] at hchild
    split at hchild
    · cases hchild
    · rename_i hsome
      cases hinside.symm.trans hsome
  | some inside =>
    rw [nextChild?_eq hinside] at hchild
    obtain ⟨stop, hstop, hfound⟩ := Option.bind_eq_some_iff.1 hchild
    obtain ⟨hlength, hlt, haligned⟩ := insideOf?_bounds hinside
    obtain ⟨hbehind, -⟩ := behindNode?_bounds haligned hstop
    have hle := le_of_childFrom? hfound
    omega

theorem left_nextProperty (b : StructBlock) (offset : Nat) :
    b.left (b.nextProperty offset).toOption.join < b.left (some offset) := by
  refine left_lt fun next hnext => ?_
  have hfound : b.nextProperty offset = ok (some next) := by
    cases hresult : b.nextProperty offset with
    | error fault =>
      rw [hresult] at hnext
      cases hnext
    | ok found =>
      rw [hresult] at hnext
      exact congrArg ok hnext
  unfold nextProperty at hfound
  split at hfound
  · rename_i htag
    have hbounds := tagAt_bounds htag
    split at hfound
    · have hle := le_of_propertyFrom hfound
      omega
    · cases hfound
  · cases hfound

/-- Read properties, from one that has been found on. -/
def walkProperties (b : StructBlock) : Except Fault (Option Nat) → Walk (List (Text × Octets))
  | error fault => Walk.ofExcept (error fault)
  | ok none => pure []
  | ok (some offset) => do
    Walk.visit (.property offset)
    let p ← Walk.ofExcept (b.readProperty offset)
    let ps ← walkProperties b (b.nextProperty offset)
    pure (p :: ps)
termination_by found => b.left found.toOption.join
decreasing_by exact b.left_nextProperty offset

mutual

/-- Read the node at an offset, if there is room for it: its name, its properties and its
children. -/
def walkNode (b : StructBlock) : (room offset : Nat) → Walk Tree
  | 0, _ => Walk.overflow
  | spare + 1, offset => do
    Walk.visit (.node offset)
    let name ← Walk.ofExcept (b.nodeName offset)
    let properties ← b.walkProperties (b.firstProperty offset)
    let children ← walkChildren b spare (b.firstChild? offset)
    pure (.node name properties children)
termination_by _ offset => (b.left (some offset), 0)
decreasing_by exact Prod.Lex.left _ _ (b.left_firstChild? offset)

/-- Read children, from one that has been found on. -/
def walkChildren (b : StructBlock) (room : Nat) : Option Nat → Walk (List Tree)
  | none => pure []
  | some offset => do
    let child ← walkNode b room offset
    let children ← walkChildren b room (b.nextChild? offset)
    pure (child :: children)
termination_by found => (b.left found, 1)
decreasing_by
  · exact Prod.Lex.right _ Nat.zero_lt_one
  · exact Prod.Lex.left _ _ (b.left_nextChild? offset)

end

/-! ## Searches from a tag -/

theorem nodeName_eq {name : Octets} (haligned : offset % 4 = 0)
    (htag : b.tagAt offset = .tag (.beginNode name) size) :
    b.nodeName offset = b.naming.nodeName name := by
  rw [nodeName, htag]
  exact if_pos haligned

theorem firstProperty_eq {inside : Nat} (h : b.insideOf? offset = some inside) :
    b.firstProperty offset = b.propertyFrom inside := by
  rw [firstProperty, h]

theorem readProperty_eq {nameOffset : Nat} {value : Octets} (haligned : offset % 4 = 0)
    (htag : b.tagAt offset = .tag (.property nameOffset value) size) :
    b.readProperty offset = (b.naming.propertyName nameOffset).map fun name => (name, value) := by
  rw [readProperty, htag]
  exact if_pos haligned

theorem nextProperty_eq {nameOffset : Nat} {value : Octets} (haligned : offset % 4 = 0)
    (htag : b.tagAt offset = .tag (.property nameOffset value) size) :
    b.nextProperty offset = b.propertyFrom (offset + size) := by
  rw [nextProperty, htag]
  exact if_pos haligned

/-! ## One pass over the row -/

/-- The tags from an offset on. -/
def row (b : StructBlock) (offset : Nat) : TagStream :=
  tagsFrom b.naming.version 0 offset (b.octets.drop offset)

theorem tagsFrom_covered (version covered offset : Nat) (os : Octets) :
    tagsFrom version covered offset os =
      tagsFrom version 0 (offset + covered) (os.drop covered) := by
  induction os generalizing covered offset with
  | nil => simp [tagsFrom]
  | cons o os ih =>
    cases covered with
    | zero => rfl
    | succ covered => rw [tagsFrom, ih, List.drop_succ_cons, Nat.add_right_comm, Nat.add_assoc]

/-- A row is its first tag and the row behind that. -/
theorem row_eq (b : StructBlock) (offset : Nat) :
    b.row offset =
      match b.tagAt offset with
      | .fault fault => ⟨[], .broken fault⟩
      | .stop => ⟨[], .regular⟩
      | .tag kind size =>
        ⟨⟨offset, kind⟩ :: (b.row (offset + size)).tags, (b.row (offset + size)).ending⟩ := by
  have hbounds := fun kind size => @tagAt_bounds b offset size kind
  unfold tagAt at hbounds ⊢
  simp only [row, ← List.drop_drop]
  cases hoctets : b.octets.drop offset with
  | nil => rfl
  | cons o os =>
    rw [hoctets] at hbounds
    rw [tagsFrom]
    cases htag : readTag b.naming.version offset (o :: os) with
    | fault fault => rfl
    | stop => rfl
    | tag kind size =>
      obtain ⟨-, hsize, -⟩ := hbounds kind size htag
      obtain ⟨size, rfl⟩ := Nat.exists_eq_add_of_le' (Nat.one_le_of_lt hsize)
      dsimp only
      rw [Nat.add_sub_cancel, tagsFrom_covered, List.drop_succ_cons, Nat.add_right_comm,
        Nat.add_assoc]

/-- Read from an offset on, inside a node in which so many more may be opened inside each
other. -/
def readFrom (b : StructBlock) (spare : Nat) (inner : OpenNode) (around : List OpenNode)
    (offset : Nat) : Except Failure Tree :=
  readInside b.naming (b.row offset).ending spare inner around ((b.row offset).tags.map Tag.kind)

/-- Read from the closing tag of a node on; without one, all the nodes around it are closed. -/
def readBehind (b : StructBlock) (spare : Nat) (t : Tree) :
    List OpenNode → Option Nat → Except Failure Tree
  | [], _ => ok t
  | outer :: around, none => ok ((outer.withChild t).closeAll around)
  | outer :: around, some stop => b.readFrom spare (outer.withChild t) around stop

theorem readFrom_of_fault {fault : Fault} (h : b.tagAt offset = .fault fault) (spare : Nat)
    (inner : OpenNode) (around : List OpenNode) :
    b.readFrom spare inner around offset =
      if inner.inProperties then error (.faulty fault) else ok (inner.closeAll around) := by
  rw [readFrom, row_eq, h]
  rfl

theorem readFrom_of_stop (h : b.tagAt offset = .stop) (spare : Nat) (inner : OpenNode)
    (around : List OpenNode) :
    b.readFrom spare inner around offset =
      if inner.inProperties then error (.faulty .badStructure)
      else ok (inner.closeAll around) := by
  rw [readFrom, row_eq, h]
  rfl

/-- Read from an opening tag with a name on, if there is room for a node. -/
def readNode (b : StructBlock) (room : Nat) (name : Octets) (around : List OpenNode)
    (inside : Nat) : Except Failure Tree :=
  match room with
  | 0 => error .overflow
  | spare + 1 =>
    ((b.naming.nodeName name).mapError .faulty).bind fun name =>
      b.readFrom spare (.named name) around inside

theorem readFrom_of_tag (b : StructBlock) (kind : TagKind) (offset size spare : Nat)
    (inner : OpenNode) (around : List OpenNode) :
    b.tagAt offset = .tag kind size → b.readFrom spare inner around offset =
      match kind with
      | .filler => b.readFrom spare inner around (offset + size)
      | .property nameOffset value =>
        if inner.inProperties then
          ((b.naming.propertyName nameOffset).mapError .faulty).bind fun name =>
            b.readFrom spare { inner with properties := (name, value) :: inner.properties } around
              (offset + size)
        else b.readFrom spare inner around (offset + size)
      | .beginNode name =>
        b.readNode spare name ({ inner with inProperties := false } :: around) (offset + size)
      | .endNode => b.readBehind (spare + 1) inner.close around (some (offset + size)) := by
  intro htag
  simp only [readFrom, b.row_eq offset, htag, List.map_cons]
  cases kind with
  | filler => rfl
  | property nameOffset value =>
    dsimp only
    rw [readInside]
    cases b.naming.propertyName nameOffset <;> rfl
  | beginNode name =>
    cases spare with
    | zero => rfl
    | succ spare =>
      dsimp only
      rw [readInside, readNode]
      cases b.naming.nodeName name <;> rfl
  | endNode => cases around <;> rfl

theorem readBehind_none (b : StructBlock) (spare : Nat) (inner : OpenNode)
    (around : List OpenNode) :
    b.readBehind spare inner.close around none = ok (inner.closeAll around) := by
  cases around <;> rfl

theorem propertyFrom_of_tag (b : StructBlock) (kind : TagKind) (offset size : Nat) :
    b.tagAt offset = .tag kind size → b.propertyFrom offset =
      match kind with
      | .filler => b.propertyFrom (offset + size)
      | .property _ _ => ok (some offset)
      | .beginNode _ => ok none
      | .endNode => ok none := by
  intro htag
  rw [propertyFrom, htag]
  cases kind <;> rfl

/-- The properties of a node are those that a walk reads; behind them a node is read as if its
properties had come to their end. -/
theorem readFrom_properties (spare : Nat) {inner : OpenNode} (hinner : inner.inProperties = true)
    (around : List OpenNode) (haligned : offset % 4 = 0) :
    b.readFrom spare inner around offset =
      (b.walkProperties (b.propertyFrom offset)).result.bind fun ps =>
        b.readFrom spare ⟨inner.name, ps.reverse ++ inner.properties, inner.children, false⟩
          around offset := by
  induction offset using b.offset_induction generalizing inner with
  | step offset ih =>
    cases htag : b.tagAt offset with
    | fault fault =>
      rw [readFrom_of_fault htag, if_pos hinner, propertyFrom, htag]
      dsimp only
      rw [walkProperties]
      rfl
    | stop =>
      rw [readFrom_of_stop htag, if_pos hinner, propertyFrom, htag]
      dsimp only
      rw [walkProperties]
      rfl
    | tag kind size =>
      obtain ⟨-, -, hsize⟩ := tagAt_bounds htag
      have hmore := fun inner hinner => @ih kind size htag (offset + size) (Nat.le_refl _) inner
        hinner (by omega)
      simp only [fun inner => b.readFrom_of_tag kind offset size spare inner around htag,
        b.propertyFrom_of_tag kind offset size htag]
      cases kind with
      | filler => exact hmore inner hinner
      | property nameOffset value =>
        rw [walkProperties, readProperty_eq haligned htag, nextProperty_eq haligned htag]
        simp only [hinner, if_true, Walk.result_bind, Walk.result_visit, Walk.result_ofExcept,
          Walk.result_pure]
        cases b.naming.propertyName nameOffset with
        | error fault => rfl
        | ok name =>
          have hnext :=
            hmore ⟨inner.name, (name, value) :: inner.properties, inner.children, true⟩ rfl
          simp only [Except.bind, Except.map, Except.mapError, Bool.false_eq_true, if_false]
            at hnext ⊢
          rw [hnext]
          cases (b.walkProperties (b.propertyFrom (offset + size))).result with
          | error fault => rfl
          | ok ps => simp
      | beginNode name =>
        dsimp only
        rw [walkProperties]
        rfl
      | endNode =>
        dsimp only
        rw [walkProperties]
        rfl

/-- The node at an offset is read in a walk as in a row, if that is so for what is inside it. -/
theorem readNode_eq {name : Octets} (haligned : offset % 4 = 0)
    (htag : b.tagAt offset = .tag (.beginNode name) size) (room : Nat) (around : List OpenNode)
    (hinside : ∀ (spare : Nat) (inner : OpenNode), room = spare + 1 →
      inner.inProperties = false → inner.children = [] →
      b.readFrom spare inner around (offset + size) =
        (b.walkChildren spare (b.childFrom? (offset + size))).result.bind fun ts =>
          b.readBehind room (.node inner.name inner.properties.reverse ts) around
            (b.behindNode? 0 (offset + size))) :
    b.readNode room name around (offset + size) =
      (b.walkNode room offset).result.bind fun t =>
        b.readBehind room t around (b.behindNode? 0 (offset + size)) := by
  cases room with
  | zero =>
    rw [walkNode]
    rfl
  | succ spare =>
    have hstart := insideOf?_eq haligned htag
    rw [readNode, walkNode, nodeName_eq haligned htag, firstProperty_eq hstart,
      firstChild?_eq hstart]
    simp only [Walk.result_bind, Walk.result_visit, Walk.result_ofExcept, Walk.result_pure]
    cases b.naming.nodeName name with
    | error fault => rfl
    | ok name =>
      obtain ⟨-, -, haligned'⟩ := insideOf?_bounds hstart
      simp only [Except.bind, Except.mapError]
      rw [@readFrom_properties b (offset + size) spare (.named name) rfl around haligned']
      cases (b.walkProperties (b.propertyFrom (offset + size))).result with
      | error failure => rfl
      | ok ps =>
        simp only [Except.bind]
        rw [hinside spare _ rfl rfl rfl]
        cases (b.walkChildren spare (b.childFrom? (offset + size))).result with
        | error failure => rfl
        | ok ts => simp [Except.bind, OpenNode.named]

/-- The children of a node are those that a walk reads. -/
theorem readFrom_children (spare : Nat) {inner : OpenNode} (hinner : inner.inProperties = false)
    (around : List OpenNode) (haligned : offset % 4 = 0) :
    b.readFrom spare inner around offset =
      (b.walkChildren spare (b.childFrom? offset)).result.bind fun ts =>
        b.readBehind (spare + 1)
          (.node inner.name inner.properties.reverse (inner.children.reverse ++ ts))
          around (b.behindNode? 0 offset) := by
  have hclose : b.readBehind (spare + 1) inner.close = b.readBehind (spare + 1)
      (.node inner.name inner.properties.reverse (inner.children.reverse ++ [])) := by
    rw [List.append_nil, OpenNode.close]
  induction offset using b.offset_induction generalizing spare inner around with
  | step offset ih =>
    cases htag : b.tagAt offset with
    | fault fault =>
      rw [readFrom_of_fault htag, hinner, childFrom?, behindNode?, htag]
      dsimp only
      rw [walkChildren, ← readBehind_none b (spare + 1), hclose]
      rfl
    | stop =>
      rw [readFrom_of_stop htag, hinner, childFrom?, behindNode?, htag]
      dsimp only
      rw [walkChildren, ← readBehind_none b (spare + 1), hclose]
      rfl
    | tag kind size =>
      obtain ⟨-, -, hsize⟩ := tagAt_bounds htag
      have hmore := fun more hle spare inner hinner around haligned =>
        @ih kind size htag more hle spare inner hinner around haligned
          (by rw [List.append_nil, OpenNode.close])
      rw [b.readFrom_of_tag kind offset size spare inner around htag,
        b.childFrom?_of_tag kind offset size htag, b.behindNode?_of_tag kind offset size 0 htag]
      cases kind with
      | filler => exact hmore _ (Nat.le_refl _) spare inner hinner around (by omega)
      | property nameOffset value =>
        dsimp only
        rw [hinner]
        exact hmore _ (Nat.le_refl _) spare inner hinner around (by omega)
      | endNode =>
        dsimp only
        rw [walkChildren, hclose]
        rfl
      | beginNode name =>
        obtain ⟨shown, properties, children, _⟩ := inner
        cases hinner
        have hstart := insideOf?_eq haligned htag
        dsimp only
        rw [readNode_eq haligned htag, walkChildren, nextChild?_eq hstart, b.behindNode?_succ]
        · simp only [Walk.result_bind, Walk.result_pure]
          cases (b.walkNode spare offset).result with
          | error failure => rfl
          | ok t =>
            simp only [Except.bind]
            cases hstop : b.behindNode? 0 (offset + size) with
            | none =>
              rw [Option.bind_none, Option.bind_none, walkChildren, readBehind]
              simp [OpenNode.close, ← readBehind_none b (spare + 1), OpenNode.withChild]
            | some stop =>
              obtain ⟨hlt, haligned'⟩ := behindNode?_bounds (by omega) hstop
              rw [readBehind, hmore stop (by omega) spare _ rfl around haligned',
                Option.bind_some, Option.bind_some]
              cases (b.walkChildren spare (b.childFrom? stop)).result with
              | error failure => rfl
              | ok ts => simp [Except.bind, OpenNode.withChild]
        · rintro inside inner rfl hinner hchildren
          rw [hmore _ (Nat.le_refl _) inside inner hinner _ (by omega), hchildren]
          rfl

theorem readNode_eq_walkNode {name : Octets} (haligned : offset % 4 = 0)
    (htag : b.tagAt offset = .tag (.beginNode name) size) (room : Nat) (around : List OpenNode) :
    b.readNode room name around (offset + size) =
      (b.walkNode room offset).result.bind fun t =>
        b.readBehind room t around (b.behindNode? 0 (offset + size)) := by
  obtain ⟨-, -, hinside⟩ := insideOf?_bounds (insideOf?_eq haligned htag)
  refine readNode_eq haligned htag room around ?_
  rintro spare inner rfl hinner hchildren
  rw [readFrom_children spare hinner around hinside, hchildren]
  rfl

/-- Where no node is opened there is nothing to walk over. -/
theorem walkNode_of_not_beginNode
    (h : ∀ name size, b.tagAt offset ≠ .tag (.beginNode name) size) (spare : Nat) :
    b.walkNode (spare + 1) offset = ⟨[.node offset], error (.faulty .badOffset)⟩ := by
  have hname : b.nodeName offset = error .badOffset := by
    unfold nodeName
    split
    · exact absurd ‹_› (h _ _)
    · rfl
  rw [walkNode, hname]
  rfl

/-- The tree of a block is what comes of a walk over it. -/
theorem result_walkNode_zero (b : StructBlock) (room : Nat) :
    (b.walkNode room 0).result = (b.row 0).tree b.naming room := by
  cases room with
  | zero =>
    rw [walkNode]
    rfl
  | succ spare =>
    by_cases hroot : ∀ name size, b.tagAt 0 ≠ .tag (.beginNode name) size
    · rw [walkNode_of_not_beginNode hroot, TagStream.tree, row_eq]
      cases htag : b.tagAt 0 with
      | fault fault => rfl
      | stop => rfl
      | tag kind size =>
        cases kind with
        | beginNode name => exact absurd htag (hroot name size)
        | endNode => rfl
        | property nameOffset value => rfl
        | filler => rfl
    · simp only [Classical.not_forall, Decidable.not_not] at hroot
      obtain ⟨name, size, htag⟩ := hroot
      have hread : b.readNode (spare + 1) name [] (0 + size) =
          (b.walkNode (spare + 1) 0).result := by
        rw [readNode_eq_walkNode rfl htag]
        cases (b.walkNode (spare + 1) 0).result <;> rfl
      rw [← hread, TagStream.tree, row_eq, htag, readNode]
      dsimp only
      rw [List.map_cons]
      dsimp only
      cases b.naming.nodeName name <;> rfl

/-! ## What is looked at -/

/-- The tags of nodes and of properties from an offset on. -/
def visitsFrom (b : StructBlock) (offset : Nat) : List Visit :=
  (b.row offset).tags.filterMap fun tag =>
    match tag.kind with
    | .beginNode _ => some (.node tag.offset)
    | .property _ _ => some (.property tag.offset)
    | .endNode => none
    | .filler => none

/-- The tags from the closing tag of a node on. -/
def visitsBehind (b : StructBlock) : Option Nat → List Visit
  | none => []
  | some stop => b.visitsFrom stop

theorem visitsFrom_of_tag (b : StructBlock) (kind : TagKind) (offset size : Nat) :
    b.tagAt offset = .tag kind size → b.visitsFrom offset =
      match kind with
      | .beginNode _ => .node offset :: b.visitsFrom (offset + size)
      | .property _ _ => .property offset :: b.visitsFrom (offset + size)
      | .endNode => b.visitsFrom (offset + size)
      | .filler => b.visitsFrom (offset + size) := by
  intro htag
  unfold visitsFrom
  rw [b.row_eq offset, htag]
  cases kind <;> rfl

/-- A node is looked at in front of its properties, and these in front of its children. -/
theorem visits_walkNode {name : Octets} (haligned : offset % 4 = 0)
    (htag : b.tagAt offset = .tag (.beginNode name) size) (spare : Nat) :
    (b.walkNode (spare + 1) offset).visits.Sublist
      (.node offset :: ((b.walkProperties (b.propertyFrom (offset + size))).visits
        ++ (b.walkChildren spare (b.childFrom? (offset + size))).visits)) := by
  have hstart := insideOf?_eq haligned htag
  rw [walkNode, firstProperty_eq hstart, firstChild?_eq hstart]
  refine Walk.visits_bind_sublist fun _ _ => ?_
  refine Walk.visits_bind_sublist (w := .ofExcept _) fun _ _ => ?_
  refine Walk.visits_bind_sublist fun _ _ => ?_
  rw [Walk.visits_bind_pure]

/-- A property is looked at in front of those behind it. -/
theorem visits_walkProperties_of_tag {nameOffset : Nat} {value : Octets} (haligned : offset % 4 = 0)
    (htag : b.tagAt offset = .tag (.property nameOffset value) size) :
    (b.walkProperties (ok (some offset))).visits.Sublist
      (.property offset :: (b.walkProperties (b.propertyFrom (offset + size))).visits) := by
  rw [walkProperties, nextProperty_eq haligned htag]
  refine Walk.visits_bind_sublist (w := .visit _) fun _ _ => ?_
  refine Walk.visits_bind_sublist (w := .ofExcept _) fun _ _ => ?_
  rw [Walk.visits_bind_pure]

/-- A child is looked at in front of its siblings. -/
theorem visits_walkChildren_of_tag {name : Octets} (haligned : offset % 4 = 0)
    (htag : b.tagAt offset = .tag (.beginNode name) size) (room : Nat) :
    (b.walkChildren room (some offset)).visits.Sublist
      ((b.walkNode room offset).visits
        ++ (b.walkChildren room ((b.behindNode? 0 (offset + size)).bind b.childFrom?)).visits) := by
  rw [walkChildren, nextChild?_eq (insideOf?_eq haligned htag)]
  refine Walk.visits_bind_sublist fun _ _ => ?_
  rw [Walk.visits_bind_pure]

/-- What a walk looks at inside a node is a part of the tags that stand there. -/
theorem visits_inside (b : StructBlock) (spare offset : Nat) (haligned : offset % 4 = 0) :
    ((b.walkProperties (b.propertyFrom offset)).visits
        ++ ((b.walkChildren spare (b.childFrom? offset)).visits
          ++ b.visitsBehind (b.behindNode? 0 offset))).Sublist (b.visitsFrom offset) := by
  induction offset using b.offset_induction generalizing spare with
  | step offset ih =>
    cases htag : b.tagAt offset with
    | fault fault =>
      rw [propertyFrom, childFrom?, behindNode?, htag]
      dsimp only
      rw [walkProperties, walkChildren]
      exact List.nil_sublist _
    | stop =>
      rw [propertyFrom, childFrom?, behindNode?, htag]
      dsimp only
      rw [walkProperties, walkChildren]
      exact List.nil_sublist _
    | tag kind size =>
      obtain ⟨-, -, hsize⟩ := tagAt_bounds htag
      have hmore := ih kind size htag
      have hnext := fun spare => hmore (offset + size) (Nat.le_refl _) spare (by omega)
      rw [b.propertyFrom_of_tag kind offset size htag, b.childFrom?_of_tag kind offset size htag,
        b.behindNode?_of_tag kind offset size 0 htag, b.visitsFrom_of_tag kind offset size htag]
      cases kind with
      | filler => exact hnext spare
      | property nameOffset value =>
        exact ((visits_walkProperties_of_tag haligned htag).append_right _).trans
          ((hnext spare).cons_cons _)
      | endNode =>
        dsimp only
        rw [walkProperties, walkChildren]
        exact List.Sublist.refl _
      | beginNode name =>
        dsimp only
        rw [walkProperties, b.behindNode?_succ]
        -- The node is looked at in its own tags, and its siblings in those behind it.
        have hnode : ((b.walkNode spare offset).visits
            ++ b.visitsBehind (b.behindNode? 0 (offset + size))).Sublist
              (.node offset :: b.visitsFrom (offset + size)) := by
          cases spare with
          | zero =>
            rw [walkNode]
            have hrest := (List.sublist_append_right _ _).trans (hnext 0)
            exact ((List.sublist_append_right _ _).trans hrest).trans (List.sublist_cons_self _ _)
          | succ spare =>
            refine ((visits_walkNode haligned htag spare).append_right _).trans ?_
            rw [List.cons_append, List.append_assoc]
            exact (hnext spare).cons_cons _
        have hbehind :
            ((b.walkChildren spare ((b.behindNode? 0 (offset + size)).bind b.childFrom?)).visits
            ++ b.visitsBehind ((b.behindNode? 0 (offset + size)).bind (b.behindNode? 0))).Sublist
              (b.visitsBehind (b.behindNode? 0 (offset + size))) := by
          cases hstop : b.behindNode? 0 (offset + size) with
          | none =>
            rw [Option.bind_none, Option.bind_none, walkChildren]
            exact List.nil_sublist _
          | some stop =>
            obtain ⟨hlt, haligned'⟩ := behindNode?_bounds (by omega) hstop
            exact (List.sublist_append_right _ _).trans (hmore stop (by omega) spare haligned')
        refine ((visits_walkChildren_of_tag haligned htag spare).append_right _).trans ?_
        rw [List.append_assoc]
        exact (hbehind.append_left _).trans hnode

/-- A tag of the block is what a walk looks for. -/
inductive Holds (b : StructBlock) : Visit → Prop
  | node {offset size : Nat} {name : Octets} (aligned : offset % 4 = 0)
      (inside : offset + 4 ≤ b.octets.length) (tag : b.tagAt offset = .tag (.beginNode name) size) :
      Holds b (.node offset)
  | property {offset size nameOffset : Nat} {value : Octets} (aligned : offset % 4 = 0)
      (inside : offset + 4 ≤ b.octets.length)
      (tag : b.tagAt offset = .tag (.property nameOffset value) size) :
      Holds b (.property offset)

/-- The tags of a row stand one behind the other, and each takes a word at least. -/
theorem visitsFrom_ascend (b : StructBlock) (offset : Nat) (haligned : offset % 4 = 0) :
    (b.visitsFrom offset).Pairwise (fun v w => v.offset < w.offset) ∧
      (∀ v ∈ b.visitsFrom offset, offset ≤ v.offset ∧ b.Holds v) ∧
      4 * (b.visitsFrom offset).length ≤ b.octets.length - offset := by
  induction offset using b.offset_induction with
  | step offset ih =>
    cases htag : b.tagAt offset with
    | fault fault =>
      rw [visitsFrom, row_eq, htag]
      exact ⟨.nil, nofun, Nat.zero_le _⟩
    | stop =>
      rw [visitsFrom, row_eq, htag]
      exact ⟨.nil, nofun, Nat.zero_le _⟩
    | tag kind size =>
      obtain ⟨hlength, hpositive, hsize⟩ := tagAt_bounds htag
      obtain ⟨hpairwise, hholds, hwords⟩ :=
        ih kind size htag (offset + size) (Nat.le_refl _) (by omega)
      have hbehind : ∀ v ∈ b.visitsFrom (offset + size), offset < v.offset := fun v hv => by
        have := (hholds v hv).1
        omega
      have hrest : ∀ v ∈ b.visitsFrom (offset + size), offset ≤ v.offset ∧ b.Holds v :=
        fun v hv => ⟨Nat.le_of_lt (hbehind v hv), (hholds v hv).2⟩
      have hmore : 4 * (b.visitsFrom (offset + size)).length + 4 ≤ b.octets.length - offset := by
        omega
      rw [b.visitsFrom_of_tag kind offset size htag]
      cases kind with
      | beginNode name =>
        exact ⟨hpairwise.cons hbehind,
          List.forall_mem_cons.2 ⟨⟨Nat.le_refl _, .node haligned hlength htag⟩, hrest⟩, hmore⟩
      | property nameOffset value =>
        exact ⟨hpairwise.cons hbehind,
          List.forall_mem_cons.2 ⟨⟨Nat.le_refl _, .property haligned hlength htag⟩, hrest⟩, hmore⟩
      | endNode => exact ⟨hpairwise, hrest, by dsimp only; omega⟩
      | filler => exact ⟨hpairwise, hrest, by dsimp only; omega⟩

theorem visits_walkNode_zero {name : Octets} (htag : b.tagAt 0 = .tag (.beginNode name) size)
    (spare : Nat) : (b.walkNode (spare + 1) 0).visits.Sublist (b.visitsFrom 0) := by
  obtain ⟨-, -, hsize⟩ := tagAt_bounds htag
  refine (visits_walkNode rfl htag spare).trans ?_
  rw [b.visitsFrom_of_tag _ 0 size htag]
  refine List.Sublist.cons_cons _ (.trans ?_ (b.visits_inside spare (0 + size) (by omega)))
  exact (List.sublist_append_left _ _).append_left _

/-! ## What is shown -/

/-- The tags that are looked at say the items of a tree; no tag is looked at for the closing of a
node. -/
inductive Shows (b : StructBlock) : List Visit → List Item → Prop
  | nil : Shows b [] []
  | opening {offset : Nat} {name : Text} {visits : List Visit} {items : List Item}
      (name_eq : b.nodeName offset = ok name) (rest : Shows b visits items) :
      Shows b (.node offset :: visits) (.opening name :: items)
  | property {offset : Nat} {name : Text} {value : Octets} {visits : List Visit}
      {items : List Item} (property_eq : b.readProperty offset = ok (name, value))
      (rest : Shows b visits items) :
      Shows b (.property offset :: visits) (.property name value :: items)
  | closing {visits : List Visit} {items : List Item} (rest : Shows b visits items) :
      Shows b visits (.closing :: items)

theorem Shows.append {visits more : List Visit} {items rest : List Item}
    (h : b.Shows visits items) (hmore : b.Shows more rest) :
    b.Shows (visits ++ more) (items ++ rest) := by
  induction h with
  | nil => exact hmore
  | opening hname _ ih => exact .opening hname ih
  | property hproperty _ ih => exact .property hproperty ih
  | closing _ ih => exact .closing ih

/-- Each property is shown for its own tag. -/
theorem shows_walkProperties (b : StructBlock) (found : Except Fault (Option Nat))
    {ps : List (Text × Octets)} (h : (b.walkProperties found).result = ok ps) :
    b.Shows (b.walkProperties found).visits
      (ps.map fun (name, value) => Item.property name value) := by
  fun_induction walkProperties b found generalizing ps with
  | case1 fault => cases h
  | case2 =>
    cases h
    exact .nil
  | case3 offset ih =>
    obtain ⟨_, -, hread, hvisits⟩ := Walk.of_result_bind h
    obtain ⟨p, hp, hrest, hvisits'⟩ := Walk.of_result_bind hread
    obtain ⟨more, hmore, hps, -⟩ := Walk.of_result_bind hrest
    cases hps
    rw [hvisits, hvisits', Walk.visits_bind_pure]
    exact .property (Walk.of_result_ofExcept hp) (ih hmore)

mutual

/-- A tree is shown for the tags that a walk over its node looks at. -/
theorem shows_walkNode (b : StructBlock) : (room offset : Nat) → (t : Tree) →
    (b.walkNode room offset).result = ok t →
    b.Shows (b.walkNode room offset).visits t.items
  | 0, offset, t, h => by
    rw [walkNode] at h
    cases h
  | spare + 1, offset, t, h => by
    rw [walkNode] at h ⊢
    obtain ⟨_, -, hread, hvisits⟩ := Walk.of_result_bind h
    obtain ⟨name, hname, hread', hvisits'⟩ := Walk.of_result_bind hread
    obtain ⟨ps, hps, hread'', hvisits''⟩ := Walk.of_result_bind hread'
    obtain ⟨ts, hts, ht, -⟩ := Walk.of_result_bind hread''
    cases ht
    rw [hvisits, hvisits', hvisits'', Walk.visits_bind_pure, Tree.items, List.append_assoc,
      List.cons_append]
    have hchildren := (shows_walkChildren b spare _ ts hts).append (.closing .nil)
    rw [List.append_nil] at hchildren
    exact .opening (Walk.of_result_ofExcept hname)
      ((b.shows_walkProperties _ hps).append hchildren)
termination_by _ offset => (b.left (some offset), 0)
decreasing_by exact Prod.Lex.left _ _ (b.left_firstChild? offset)

/-- Trees are shown for the tags that a walk over children looks at. -/
theorem shows_walkChildren (b : StructBlock) (room : Nat) : (found : Option Nat) →
    (ts : List Tree) → (b.walkChildren room found).result = ok ts →
    b.Shows (b.walkChildren room found).visits (Tree.itemsOfAll ts)
  | none, ts, h => by
    rw [walkChildren] at h ⊢
    cases h
    exact .nil
  | some offset, ts, h => by
    rw [walkChildren] at h ⊢
    obtain ⟨t, ht, hread, hvisits⟩ := Walk.of_result_bind h
    obtain ⟨more, hmore, hts, -⟩ := Walk.of_result_bind hread
    cases hts
    rw [hvisits, Walk.visits_bind_pure, Tree.itemsOfAll]
    exact (shows_walkNode b room offset t ht).append (shows_walkChildren b room _ more hmore)
termination_by found => (b.left found, 1)
decreasing_by
  · exact Prod.Lex.right _ Nat.zero_lt_one
  · exact Prod.Lex.left _ _ (b.left_nextChild? offset)

end

end StructBlock

/-- The structure block of a flattened tree. -/
def structOf (os : Octets) : StructBlock :=
  ⟨namingOf os, (Header.read os).structBlock os⟩

/-- Read a flattened tree by offsets, with room for so many nodes inside each other. -/
def walk (os : Octets) (room : Nat) : Walk Tree :=
  match (Header.read os).check with
  | error fault => Walk.ofExcept (error fault)
  | ok () => (structOf os).walkNode room 0

/-- The lines of items, the first of which is at some level. -/
def Item.lines (level : Nat) : List Item → List Line
  | [] => []
  | .opening name :: items =>
    (Tree.indent level ++ Tree.shownName name ++ [' ', '{']) :: lines (level + 1) items
  | .property name value :: items =>
    PropertyValue.line name value (Tree.indent level) :: lines level items
  | .closing :: items => (Tree.indent (level - 1) ++ ['}', ';']) :: lines (level - 1) items

theorem Item.lines_properties (level : Nat) (properties : List (Text × Octets))
    (rest : List Item) :
    Item.lines level ((properties.map fun (name, value) => Item.property name value) ++ rest) =
      (properties.map fun (name, value) => PropertyValue.line name value (Tree.indent level))
        ++ Item.lines level rest := by
  induction properties with
  | nil => rfl
  | cons p properties ih =>
    rw [List.map_cons, List.map_cons, List.cons_append, List.cons_append, Item.lines, ih]

mutual

/-- A tree is printed as one line for each of its items. -/
theorem Item.lines_items (level : Nat) : (t : Tree) → (rest : List Item) →
    Item.lines level (t.items ++ rest) = t.lines level ++ Item.lines level rest
  | .node name properties children, rest => by
    rw [Tree.items, Tree.lines, List.append_assoc, List.append_assoc, List.cons_append, Item.lines,
      Item.lines_properties, Item.lines_itemsOfAll (level + 1) children, List.singleton_append,
      Item.lines, Nat.add_sub_cancel]
    simp

theorem Item.lines_itemsOfAll (level : Nat) : (ts : List Tree) → (rest : List Item) →
    Item.lines level (Tree.itemsOfAll ts ++ rest) =
      Tree.linesOfAll level ts ++ Item.lines level rest
  | [], rest => by rw [Tree.itemsOfAll, Tree.linesOfAll, List.nil_append, List.nil_append]
  | t :: ts, rest => by
    rw [Tree.itemsOfAll, Tree.linesOfAll, List.append_assoc, Item.lines_items level t,
      Item.lines_itemsOfAll level ts, List.append_assoc]

end

/-- A walk goes forward over the tags of nodes and of properties, or ends at the start of a block
that does not start with a node. -/
theorem StructBlock.walkNode_zero_forward (b : StructBlock) (room : Nat) :
    ((b.walkNode room 0).visits.map Visit.offset).Pairwise (· < ·) ∧
      ((∀ v ∈ (b.walkNode room 0).visits, b.Holds v) ∧
          4 * (b.walkNode room 0).visits.length ≤ b.octets.length ∨
        b.walkNode room 0 = ⟨[.node 0], error (.faulty .badOffset)⟩) := by
  cases room with
  | zero =>
    rw [walkNode]
    exact ⟨.nil, .inl ⟨List.forall_mem_nil _, Nat.zero_le _⟩⟩
  | succ spare =>
    by_cases hroot : ∀ name size, b.tagAt 0 ≠ .tag (.beginNode name) size
    · rw [walkNode_of_not_beginNode hroot]
      exact ⟨List.pairwise_singleton _ _, .inr rfl⟩
    · simp only [Classical.not_forall, Decidable.not_not] at hroot
      obtain ⟨name, size, htag⟩ := hroot
      have hvisits := visits_walkNode_zero htag spare
      obtain ⟨hpairwise, hholds, hwords⟩ := b.visitsFrom_ascend 0 rfl
      have hlength := hvisits.length_le
      exact ⟨List.pairwise_map.2 (hpairwise.sublist hvisits),
        .inl ⟨fun v hv => (hholds v (hvisits.subset hv)).2, by omega⟩⟩

/-- A flattened tree, whatever its structure block holds and whatever room there is, is read by a
walk by offsets. The walk goes forward only: each tag that it looks at is a tag of a node or of a
property inside the block and stands behind all those before it, unless the block starts with no
node, and then the walk ends there. Each line of a node or of a property is printed for its own
tag. -/
theorem walk_forward (os : Octets) (room : Nat) :
    (walk os room).result = tree os room ∧
      ((walk os room).visits.map Visit.offset).Pairwise (· < ·) ∧
      ((∀ v ∈ (walk os room).visits, (structOf os).Holds v) ∧
          4 * (walk os room).visits.length ≤ (structOf os).octets.length ∨
        walk os room = ⟨[.node 0], error (.faulty .badOffset)⟩) ∧
      ∀ t, tree os room = ok t →
        (structOf os).Shows (walk os room).visits t.items ∧ t.lines 0 = Item.lines 0 t.items := by
  have hlines : ∀ t : Tree, t.lines 0 = Item.lines 0 t.items := fun t => by
    simpa [Item.lines] using (Item.lines_items 0 t []).symm
  rw [walk, tree]
  cases (Header.read os).check with
  | error fault =>
    refine ⟨rfl, .nil, .inl ⟨List.forall_mem_nil _, Nat.zero_le _⟩, fun t ht => ?_⟩
    cases ht
  | ok _ =>
    dsimp only
    have hresult := (structOf os).result_walkNode_zero room
    obtain ⟨hforward, hholds⟩ := (structOf os).walkNode_zero_forward room
    exact ⟨hresult, hforward, hholds, fun t ht =>
      ⟨(structOf os).shows_walkNode room 0 t (hresult.trans ht), hlines t⟩⟩

end Blob

end Devicetree
