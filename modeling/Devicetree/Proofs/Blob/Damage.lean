-- SUMMARY: Which octets are printed as a tree, and which tree is printed of a row that breaks off.
import Devicetree.Blob.Tree
import Devicetree.Proofs.Blob.Trees

/-!
# Damage

A row of tags is intact if it is one balanced node, fillers behind it and the tag for the end.
Where a property could stand a row that breaks off is at fault, but behind a child that has been
closed it is not: the nodes that are open are printed as if their closing tags had come. Nor is
anything looked at behind the closing tag of the outermost node. So there are damaged rows that
are printed; they are described here together with the tree that is printed of them. And there are
rows, intact or not, that are not printed and are not found to be at fault either, since they open
a node inside more nodes than there is room for.
-/

namespace Devicetree

open Except (ok error)

namespace Blob

/-! ## Shapes of rows -/

/-- A row of tags in which each opening tag has its closing tag. -/
inductive Balanced : List TagKind → Prop
  | nil : Balanced []
  | filler {kinds : List TagKind} : Balanced kinds → Balanced (.filler :: kinds)
  | property {nameOffset : Nat} {value : Octets} {kinds : List TagKind} :
      Balanced kinds → Balanced (.property nameOffset value :: kinds)
  | node {name : Octets} {inside behind : List TagKind} :
      Balanced inside → Balanced behind →
      Balanced (.beginNode name :: (inside ++ .endNode :: behind))

/-- The row of tags of a flattened tree. -/
def rowOf (os : Octets) : TagStream :=
  tags (Header.read os).version ((Header.read os).structBlock os)

/-- What the names of a flattened tree are read with. -/
def namingOf (os : Octets) : Naming :=
  ⟨(Header.read os).version, (Header.read os).stringsBlock os⟩

/-- A row is intact if it holds one balanced node and fillers behind it, and then ends with the
    tag for it. -/
def TagStream.IsIntact (s : TagStream) : Prop :=
  ∃ name inside fillers,
    s.tags.map Tag.kind = .beginNode name :: (inside ++ .endNode :: fillers) ∧
      Balanced inside ∧ (∀ kind ∈ fillers, kind = .filler) ∧ s.ending = .regular

/-- A balanced row inside a node in which there is room for so many nodes inside each other, with
    names that can be read; those of properties behind a child are not. The mark says whether no
    child has come yet. -/
inductive IsBody (n : Naming) : (spare : Nat) → (fresh : Bool) → List TagKind → Prop
  | nil {spare : Nat} {fresh : Bool} : IsBody n spare fresh []
  | filler {spare : Nat} {fresh : Bool} {kinds : List TagKind} :
      IsBody n spare fresh kinds → IsBody n spare fresh (.filler :: kinds)
  | property {spare : Nat} {fresh : Bool} {nameOffset : Nat} {value : Octets}
      {kinds : List TagKind} :
      (fresh = true → ∃ t, n.propertyName nameOffset = ok t) → IsBody n spare fresh kinds →
      IsBody n spare fresh (.property nameOffset value :: kinds)
  | node {spare : Nat} {fresh : Bool} {name : Octets} {t : Text}
      {inside behind : List TagKind} :
      n.nodeName name = ok t → IsBody n spare true inside → IsBody n (spare + 1) false behind →
      IsBody n (spare + 1) fresh (.beginNode name :: (inside ++ .endNode :: behind))

/-- A row inside a node that breaks off right behind a child, or behind fillers and properties
    that follow it, with closing tags missing for some of the nodes inside. -/
inductive IsCut (n : Naming) :
    (spare : Nat) → (fresh : Bool) → (missing : Nat) → List TagKind → Prop
  | stop {spare : Nat} : IsCut n spare false 0 []
  | filler {spare : Nat} {fresh : Bool} {missing : Nat} {kinds : List TagKind} :
      IsCut n spare fresh missing kinds → IsCut n spare fresh missing (.filler :: kinds)
  | property {spare : Nat} {fresh : Bool} {nameOffset : Nat} {value : Octets} {missing : Nat}
      {kinds : List TagKind} :
      (fresh = true → ∃ t, n.propertyName nameOffset = ok t) →
      IsCut n spare fresh missing kinds →
      IsCut n spare fresh missing (.property nameOffset value :: kinds)
  | behind {spare : Nat} {fresh : Bool} {name : Octets} {t : Text} {missing : Nat}
      {inside behind : List TagKind} :
      n.nodeName name = ok t → IsBody n spare true inside →
      IsCut n (spare + 1) false missing behind →
      IsCut n (spare + 1) fresh missing (.beginNode name :: (inside ++ .endNode :: behind))
  | within {spare : Nat} {fresh : Bool} {name : Octets} {t : Text} {missing : Nat}
      {inside : List TagKind} :
      n.nodeName name = ok t → IsCut n spare true missing inside →
      IsCut n (spare + 1) fresh (missing + 1) (.beginNode name :: inside)

/-- A row inside a node that opens a node for which there is no room, and in front of it can be
    read. -/
inductive IsDeep (n : Naming) : (spare : Nat) → (fresh : Bool) → List TagKind → Prop
  | here {fresh : Bool} {name : Octets} {kinds : List TagKind} :
      IsDeep n 0 fresh (.beginNode name :: kinds)
  | filler {spare : Nat} {fresh : Bool} {kinds : List TagKind} :
      IsDeep n spare fresh kinds → IsDeep n spare fresh (.filler :: kinds)
  | property {spare : Nat} {fresh : Bool} {nameOffset : Nat} {value : Octets}
      {kinds : List TagKind} :
      (fresh = true → ∃ t, n.propertyName nameOffset = ok t) → IsDeep n spare fresh kinds →
      IsDeep n spare fresh (.property nameOffset value :: kinds)
  | behind {spare : Nat} {fresh : Bool} {name : Octets} {t : Text}
      {inside behind : List TagKind} :
      n.nodeName name = ok t → IsBody n spare true inside → IsDeep n (spare + 1) false behind →
      IsDeep n (spare + 1) fresh (.beginNode name :: (inside ++ .endNode :: behind))
  | within {spare : Nat} {fresh : Bool} {name : Octets} {t : Text} {inside : List TagKind} :
      n.nodeName name = ok t → IsDeep n spare true inside →
      IsDeep n (spare + 1) fresh (.beginNode name :: inside)

variable {n : Naming} {ending : Ending} {inner : OpenNode} {around : List OpenNode}
  {spare : Nat} {fresh : Bool} {missing : Nat} {kinds : List TagKind}

theorem IsBody.balanced (h : IsBody n spare fresh kinds) : Balanced kinds := by
  induction h with
  | nil => exact .nil
  | filler _ ih => exact .filler ih
  | property _ _ ih => exact .property ih
  | node _ _ _ hinside hbehind => exact .node hinside hbehind

/-- The closing tag of a node is the first one behind a balanced row. -/
theorem Balanced.append_endNode_inj {body other behind rest : List TagKind} (h : Balanced body)
    (hother : Balanced other) (heq : body ++ .endNode :: behind = other ++ .endNode :: rest) :
    body = other ∧ behind = rest := by
  induction h generalizing other behind rest with
  | nil =>
    cases hother with
    | nil => exact ⟨rfl, (List.cons.inj heq).2⟩
    | filler _ => cases heq
    | property _ => cases heq
    | node _ _ => cases heq
  | filler _ ih =>
    cases hother with
    | nil => cases heq
    | filler hmore =>
      obtain ⟨rfl, rfl⟩ := ih hmore (List.cons.inj heq).2
      exact ⟨rfl, rfl⟩
    | property _ => cases heq
    | node _ _ => cases heq
  | property _ ih =>
    cases hother with
    | nil => cases heq
    | filler _ => cases heq
    | property hmore =>
      obtain ⟨hhead, htail⟩ := List.cons.inj heq
      cases hhead
      obtain ⟨rfl, rfl⟩ := ih hmore htail
      exact ⟨rfl, rfl⟩
    | node _ _ => cases heq
  | node _ _ ihInside ihBehind =>
    cases hother with
    | nil => cases heq
    | filler _ => cases heq
    | property _ => cases heq
    | node hinside hmore =>
      obtain ⟨hhead, htail⟩ := List.cons.inj heq
      cases hhead
      simp only [List.append_eq, List.append_assoc, List.cons_append] at htail
      obtain ⟨rfl, hrest⟩ := ihInside hinside htail
      obtain ⟨rfl, rfl⟩ := ihBehind hmore hrest
      exact ⟨rfl, rfl⟩

/-- A row that breaks off does not close the node that it stands in. -/
theorem IsCut.ne_append_endNode (h : IsCut n spare fresh missing kinds) {body behind : List TagKind}
    (hbody : Balanced body) : kinds ≠ body ++ .endNode :: behind := by
  intro heq
  induction h generalizing body behind with
  | stop => cases body <;> cases heq
  | filler _ ih =>
    cases hbody with
    | nil => cases heq
    | filler hmore => exact ih hmore (List.cons.inj heq).2
    | property _ => cases heq
    | node _ _ => cases heq
  | property _ _ ih =>
    cases hbody with
    | nil => cases heq
    | filler _ => cases heq
    | property hmore => exact ih hmore (List.cons.inj heq).2
    | node _ _ => cases heq
  | behind _ hinside _ ih =>
    cases hbody with
    | nil => cases heq
    | filler _ => cases heq
    | property _ => cases heq
    | node hother hmore =>
      have htail := (List.cons.inj heq).2
      rw [List.append_eq, List.append_assoc] at htail
      exact ih hmore (hinside.balanced.append_endNode_inj hother htail).2
  | within _ _ ih =>
    cases hbody with
    | nil => cases heq
    | filler _ => cases heq
    | property _ => cases heq
    | node hother hmore =>
      have htail := (List.cons.inj heq).2
      rw [List.append_eq, List.append_assoc] at htail
      exact ih hother htail

/-- A row with a balanced outermost node is intact if nothing is wrong behind that node. -/
theorem TagStream.isIntact_iff {s : TagStream} {name : Octets} {body behind : List TagKind}
    (hkinds : s.tags.map Tag.kind = .beginNode name :: (body ++ .endNode :: behind))
    (hbody : Balanced body) :
    s.IsIntact ↔ (∀ kind ∈ behind, kind = .filler) ∧ s.ending = .regular := by
  constructor
  · rintro ⟨other, inside, fillers, hother, hinside, hfillers, hending⟩
    rw [hkinds] at hother
    obtain ⟨-, rfl⟩ := hbody.append_endNode_inj hinside (List.cons.inj hother).2
    exact ⟨hfillers, hending⟩
  · rintro ⟨hfillers, hending⟩
    exact ⟨name, body, behind, hkinds, hbody, hfillers, hending⟩

theorem TagStream.not_isIntact_of_isCut {s : TagStream} {name : Octets}
    (hkinds : s.tags.map Tag.kind = .beginNode name :: kinds)
    (h : IsCut n spare fresh missing kinds) : ¬ s.IsIntact := by
  rintro ⟨other, inside, fillers, hother, hinside, -, -⟩
  rw [hkinds] at hother
  exact h.ne_append_endNode hinside (List.cons.inj hother).2

/-! ## Reading them -/

/-- A row may break off where no property could stand. -/
theorem readInside_nil (hfresh : inner.inProperties = false) :
    readInside n ending spare inner around [] = ok (inner.closeAll around) := by
  simp only [readInside.eq_def, hfresh, Bool.false_eq_true, if_false]

/-- An opening tag with a readable name opens a node, if there is room for it. -/
theorem readInside_beginNode {name : Octets} {t : Text} (hname : n.nodeName name = ok t) :
    readInside n ending (spare + 1) inner around (.beginNode name :: kinds) =
      readInside n ending spare (.named t) ({ inner with inProperties := false } :: around)
        kinds := by
  simp only [readInside, hname]

/-- A property is passed over, or added if no child has come. -/
theorem readInside_property {nameOffset : Nat}
    (hname : inner.inProperties = true → ∃ t, n.propertyName nameOffset = ok t) (value : Octets) :
    ∃ next : OpenNode, next.inProperties = inner.inProperties ∧
      ∀ ending spare around kinds,
        readInside n ending spare inner around (.property nameOffset value :: kinds) =
          readInside n ending spare next around kinds := by
  cases hfresh : inner.inProperties with
  | false =>
    exact ⟨inner, hfresh, fun _ _ _ _ => by rw [readInside, hfresh, if_neg (by decide)]⟩
  | true =>
    obtain ⟨t, ht⟩ := hname hfresh
    exact ⟨{ inner with properties := (t, value) :: inner.properties }, hfresh,
      fun _ _ _ _ => by rw [readInside, hfresh, if_pos rfl, ht]⟩

/-- A body is read whatever follows and whatever stands around it. -/
theorem IsBody.readInside_append (h : IsBody n spare inner.inProperties kinds) :
    ∃ next : OpenNode, ∀ ending around rest,
      readInside n ending spare inner around (kinds ++ rest) =
        readInside n ending spare next around rest := by
  generalize hfresh : inner.inProperties = fresh at h
  induction h generalizing inner with
  | nil => exact ⟨inner, fun _ _ _ => rfl⟩
  | filler _ ih => exact ih hfresh
  | property hname _ ih =>
    obtain ⟨read, hread, hstep⟩ := readInside_property (fun h => hname (hfresh ▸ h)) _
    obtain ⟨next, hnext⟩ := ih (hread.trans hfresh)
    exact ⟨next, fun ending around rest =>
      (hstep ending _ around _).trans (hnext ending around rest)⟩
  | @node _ _ name t inside behind hname _ _ ihInside ihBehind =>
    have hnamed : (OpenNode.named t).inProperties = true := rfl
    obtain ⟨child, hchild⟩ := ihInside hnamed
    have hchildren : ({ inner with inProperties := false }.withChild child.close).inProperties =
      false := rfl
    obtain ⟨next, hnext⟩ := ihBehind hchildren
    refine ⟨next, fun ending around rest => ?_⟩
    rw [List.cons_append, List.append_assoc, List.cons_append, readInside_beginNode hname, hchild,
      readInside, hnext]

/-- A child with a closing tag is read, and then what stands behind it. -/
theorem IsBody.readInside_node {name : Octets} {t : Text} {inside : List TagKind}
    (hname : n.nodeName name = ok t) (h : IsBody n spare true inside) (inner : OpenNode) :
    ∃ next : OpenNode, next.inProperties = false ∧ ∀ ending around behind,
      readInside n ending (spare + 1) inner around
          (.beginNode name :: (inside ++ .endNode :: behind)) =
        readInside n ending (spare + 1) next around behind := by
  have hnamed : IsBody n spare (OpenNode.named t).inProperties inside := h
  obtain ⟨child, hchild⟩ := hnamed.readInside_append
  refine ⟨{ inner with inProperties := false }.withChild child.close, rfl,
    fun ending around behind => ?_⟩
  rw [readInside_beginNode hname, hchild, readInside]

/-- Closing tags for all that is open close all of it. -/
theorem readInside_replicate_endNode (n : Naming) (ending : Ending) (spare : Nat)
    (inner : OpenNode) (around : List OpenNode) :
    readInside n ending spare inner around (List.replicate (around.length + 1) .endNode) =
      ok (inner.closeAll around) := by
  induction around generalizing spare inner with
  | nil => rfl
  | cons outer around ih => exact ih (spare + 1) (outer.withChild inner.close)

/-- A row that breaks off is read as a tree: the one that is read if closing tags for all that is
    open stand behind it. -/
theorem IsCut.exists_readInside_eq (h : IsCut n spare inner.inProperties missing kinds)
    (ending complete : Ending) (around : List OpenNode) :
    ∃ t, readInside n ending spare inner around kinds = ok t ∧
      readInside n complete spare inner around
        (kinds ++ List.replicate (missing + around.length + 1) .endNode) = ok t := by
  generalize hfresh : inner.inProperties = fresh at h
  induction h generalizing inner around with
  | stop =>
    refine ⟨_, readInside_nil hfresh, ?_⟩
    rw [List.nil_append, Nat.zero_add, readInside_replicate_endNode]
  | filler _ ih => exact ih around hfresh
  | property hname _ ih =>
    obtain ⟨read, hread, hstep⟩ := readInside_property (fun h => hname (hfresh ▸ h)) _
    rw [List.cons_append, hstep, hstep]
    exact ih around (hread.trans hfresh)
  | behind hname hinside _ ih =>
    obtain ⟨next, hnext, hstep⟩ := hinside.readInside_node hname inner
    rw [List.cons_append, List.append_assoc, List.cons_append, hstep, hstep]
    exact ih around hnext
  | @within _ _ name t missing inside hname _ ih =>
    have hnamed : (OpenNode.named t).inProperties = true := rfl
    obtain ⟨read, hcut, hcomplete⟩ := ih ({ inner with inProperties := false } :: around) hnamed
    refine ⟨read, (readInside_beginNode hname).trans hcut, ?_⟩
    rw [List.cons_append, readInside_beginNode hname, ← hcomplete, List.length_cons]
    simp only [Nat.add_comm, Nat.add_left_comm]

/-- A reader that comes to a node for which there is no room overflows. -/
theorem IsDeep.readInside_eq (h : IsDeep n spare inner.inProperties kinds) (ending : Ending)
    (around : List OpenNode) :
    readInside n ending spare inner around kinds = error .overflow := by
  generalize hfresh : inner.inProperties = fresh at h
  induction h generalizing inner around with
  | here => rfl
  | filler _ ih => exact ih around hfresh
  | property hname _ ih =>
    obtain ⟨read, hread, hstep⟩ := readInside_property (fun h => hname (hfresh ▸ h)) _
    rw [hstep]
    exact ih around (hread.trans hfresh)
  | behind hname hinside _ ih =>
    obtain ⟨next, hnext, hstep⟩ := hinside.readInside_node hname inner
    rw [hstep]
    exact ih around hnext
  | within hname _ ih =>
    rw [readInside_beginNode hname]
    exact ih _ rfl

/-- Reading a row ends with a fault, whatever has been read in front of it and stands around
    it. -/
def IsFaulty (n : Naming) (ending : Ending) (spare : Nat) (fresh : Bool)
    (kinds : List TagKind) : Prop :=
  ∀ (inner : OpenNode) (around : List OpenNode), inner.inProperties = fresh →
    ∃ fault, readInside n ending spare inner around kinds = error (.faulty fault)

/-- What a row inside a node is: closed by a tag of its own, broken off, too deep or at fault. -/
inductive RowShape (n : Naming) (ending : Ending) (spare : Nat) (fresh : Bool) :
    List TagKind → Prop
  | closed {body : List TagKind} (behind : List TagKind) (h : IsBody n spare fresh body) :
      RowShape n ending spare fresh (body ++ .endNode :: behind)
  | cut {missing : Nat} {kinds : List TagKind} (h : IsCut n spare fresh missing kinds) :
      RowShape n ending spare fresh kinds
  | deep {kinds : List TagKind} (h : IsDeep n spare fresh kinds) :
      RowShape n ending spare fresh kinds
  | faulty {kinds : List TagKind} (h : IsFaulty n ending spare fresh kinds) :
      RowShape n ending spare fresh kinds

theorem RowShape.nil (n : Naming) (ending : Ending) (spare : Nat) (fresh : Bool) :
    RowShape n ending spare fresh [] := by
  cases fresh with
  | false => exact .cut .stop
  | true =>
    refine .faulty fun inner around hfresh => ?_
    simp only [readInside.eq_def, hfresh, if_true]
    cases ending with
    | regular => exact ⟨_, rfl⟩
    | broken fault => exact ⟨fault, rfl⟩

theorem RowShape.filler (h : RowShape n ending spare fresh kinds) :
    RowShape n ending spare fresh (.filler :: kinds) := by
  cases h with
  | closed behind h => exact .closed behind (.filler h)
  | cut h => exact .cut (.filler h)
  | deep h => exact .deep (.filler h)
  | faulty h => exact .faulty h

theorem RowShape.property (h : RowShape n ending spare fresh kinds) (nameOffset : Nat)
    (value : Octets) : RowShape n ending spare fresh (.property nameOffset value :: kinds) := by
  by_cases hname : fresh = true → ∃ t, n.propertyName nameOffset = ok t
  · cases h with
    | closed behind h => exact .closed behind (.property hname h)
    | cut h => exact .cut (.property hname h)
    | deep h => exact .deep (.property hname h)
    | faulty h =>
      refine .faulty fun inner around hfresh => ?_
      obtain ⟨read, hread, hstep⟩ := readInside_property (hfresh.symm ▸ hname) value
      rw [hstep]
      exact h read around (hread.trans hfresh)
  · simp only [Classical.not_imp, not_exists] at hname
    cases hread : n.propertyName nameOffset with
    | ok t => exact absurd hread (hname.2 t)
    | error fault =>
      refine .faulty fun inner around hfresh => ⟨fault, ?_⟩
      rw [readInside, hfresh, if_pos hname.1, hread]

/-- Behind a child with a closing tag the row goes on. -/
theorem RowShape.behind {name : Octets} {t : Text} {inside behind : List TagKind}
    (hname : n.nodeName name = ok t) (hinside : IsBody n spare true inside)
    (h : RowShape n ending (spare + 1) false behind) (fresh : Bool) :
    RowShape n ending (spare + 1) fresh (.beginNode name :: (inside ++ .endNode :: behind)) := by
  cases h with
  | @closed body behind h =>
    have hnode : IsBody n (spare + 1) fresh (.beginNode name :: (inside ++ .endNode :: body)) :=
      .node hname hinside h
    have hclosed : RowShape n ending (spare + 1) fresh _ := .closed behind hnode
    rwa [List.cons_append, List.append_assoc, List.cons_append] at hclosed
  | cut h => exact .cut (.behind hname hinside h)
  | deep h => exact .deep (.behind hname hinside h)
  | faulty h =>
    refine .faulty fun inner around hfresh => ?_
    obtain ⟨next, hnext, hstep⟩ := hinside.readInside_node hname inner
    rw [hstep]
    exact h next around hnext

/-- Every row inside a node has one of the shapes. -/
theorem rowShape (n : Naming) (ending : Ending) (spare : Nat) (fresh : Bool)
    (kinds : List TagKind) : RowShape n ending spare fresh kinds := by
  -- The induction is on the length, since what stands behind a child is not a tail of the row.
  induction hlength : kinds.length using Nat.strongRecOn generalizing kinds spare fresh with
  | ind length ih =>
    subst hlength
    cases kinds with
    | nil => exact .nil n ending spare fresh
    | cons kind kinds =>
      cases kind with
      | filler => exact (ih kinds.length (by simp) spare fresh kinds rfl).filler
      | property nameOffset value =>
        exact (ih kinds.length (by simp) spare fresh kinds rfl).property nameOffset value
      | endNode => exact .closed kinds .nil
      | beginNode name =>
        cases spare with
        | zero => exact .deep .here
        | succ spare =>
          cases hname : n.nodeName name with
          | error fault =>
            refine .faulty fun inner around _ => ⟨fault, ?_⟩
            simp only [readInside, hname]
          | ok t =>
            have hinside := ih kinds.length (by simp) spare true kinds rfl
            cases hinside with
            | @closed inside behind hinside =>
              exact .behind hname hinside
                (ih behind.length (by simp; omega) (spare + 1) false behind rfl) fresh
            | cut h => exact .cut (.within hname h)
            | deep h => exact .deep (.within hname h)
            | faulty h =>
              refine .faulty fun inner around _ => ?_
              rw [readInside_beginNode hname]
              exact h _ _ rfl

/-- What follows the closing tag of the outermost node does not matter. -/
theorem IsBody.readInside_closed {body : List TagKind}
    (h : IsBody n spare inner.inProperties body) (ending complete : Ending)
    (behind : List TagKind) :
    readInside n ending spare inner [] (body ++ .endNode :: behind) =
      readInside n complete spare inner [] (body ++ [.endNode]) := by
  obtain ⟨next, hnext⟩ := h.readInside_append
  rw [hnext, hnext, readInside, readInside]

/-- The tree of a row that breaks off inside the outermost node. -/
theorem IsCut.exists_readInside_outermost_eq (h : IsCut n spare inner.inProperties missing kinds)
    (ending : Ending) :
    ∃ t, readInside n ending spare inner [] kinds = ok t ∧
      readInside n .regular spare inner []
        (kinds ++ List.replicate missing .endNode ++ [.endNode]) = ok t := by
  rw [List.append_assoc, ← List.replicate_succ']
  exact h.exists_readInside_eq ending .regular []

/-- A row inside the outermost node is read as a tree exactly if it is a body with a closing tag
    behind it or breaks off; the tree is that of the complete body. -/
theorem readInside_eq_ok_iff {t : Tree} :
    readInside n ending spare inner [] kinds = ok t ↔
      ∃ body, ((∃ behind, kinds = body ++ .endNode :: behind ∧
            IsBody n spare inner.inProperties body) ∨
          ∃ missing, IsCut n spare inner.inProperties missing kinds ∧
            body = kinds ++ List.replicate missing .endNode) ∧
        readInside n .regular spare inner [] (body ++ [.endNode]) = ok t := by
  constructor
  · intro h
    cases rowShape n ending spare inner.inProperties kinds with
    | closed behind hbody =>
      exact ⟨_, .inl ⟨behind, rfl, hbody⟩, hbody.readInside_closed ending .regular behind ▸ h⟩
    | cut hcut =>
      obtain ⟨read, hread, hcomplete⟩ := hcut.exists_readInside_outermost_eq ending
      exact ⟨_, .inr ⟨_, hcut, rfl⟩, hcomplete.trans (hread.symm.trans h)⟩
    | deep hdeep => cases (hdeep.readInside_eq ending []).symm.trans h
    | faulty hfaulty =>
      obtain ⟨fault, hfault⟩ := hfaulty inner [] rfl
      cases hfault.symm.trans h
  · rintro ⟨body, ⟨behind, rfl, hbody⟩ | ⟨missing, hcut, rfl⟩, h⟩
    · exact (hbody.readInside_closed ending .regular behind).trans h
    · obtain ⟨read, hread, hcomplete⟩ := hcut.exists_readInside_outermost_eq ending
      exact hread.trans (hcomplete.symm.trans h)

/-- A row inside the outermost node makes the reader overflow exactly if it is too deep. -/
theorem readInside_eq_overflow_iff :
    readInside n ending spare inner [] kinds = error .overflow ↔
      IsDeep n spare inner.inProperties kinds := by
  refine ⟨fun h => ?_, fun h => h.readInside_eq ending []⟩
  cases rowShape n ending spare inner.inProperties kinds with
  | closed behind hbody =>
    obtain ⟨next, hnext⟩ := hbody.readInside_append
    cases (hnext ending [] _).symm.trans h
  | cut hcut =>
    obtain ⟨read, hread, -⟩ := hcut.exists_readInside_eq ending ending []
    cases hread.symm.trans h
  | deep hdeep => exact hdeep
  | faulty hfaulty =>
    obtain ⟨fault, hfault⟩ := hfaulty inner [] rfl
    cases hfault.symm.trans h

/-! ## What is printed -/

/-- A row starts with an opening tag whose name can be read. -/
def TagStream.Opens (s : TagStream) (n : Naming) (shown : Text) (inside : List TagKind) : Prop :=
  ∃ name, s.tags.map Tag.kind = .beginNode name :: inside ∧ n.nodeName name = ok shown

/-- If there is room for one node, a row that opens it is read from there on, and any other is at
    fault. -/
theorem TagStream.tree_succ_cases (s : TagStream) (n : Naming) (spare : Nat) :
    (∃ shown inside, s.Opens n shown inside ∧
      s.tree n (spare + 1) = readInside n s.ending spare (.named shown) [] inside) ∨
    (∃ fault, s.tree n (spare + 1) = error (.faulty fault)) ∧
      ∀ shown inside, ¬ s.Opens n shown inside := by
  rw [tree]
  split
  case h_1 name inside hkinds =>
    split
    case h_1 fault hname =>
      refine .inr ⟨⟨fault, rfl⟩, ?_⟩
      rintro shown rest ⟨other, hother, hshown⟩
      cases hkinds.symm.trans hother
      cases hname.symm.trans hshown
    case h_2 shown hname => exact .inl ⟨shown, inside, ⟨name, hkinds, hname⟩, rfl⟩
  case h_2 hother =>
    refine .inr ⟨⟨_, rfl⟩, ?_⟩
    rintro shown inside ⟨name, hkinds, -⟩
    exact hother name inside hkinds

theorem TagStream.Opens.unique {s : TagStream} {shown other : Text} {inside rest : List TagKind}
    (h : s.Opens n shown inside) (hother : s.Opens n other rest) :
    shown = other ∧ inside = rest := by
  obtain ⟨name, hkinds, hname⟩ := h
  obtain ⟨_, hkinds', hname'⟩ := hother
  cases hkinds.symm.trans hkinds'
  cases hname.symm.trans hname'
  exact ⟨rfl, rfl⟩

/-- What is read of a row that opens a node. -/
theorem TagStream.Opens.tree_eq {s : TagStream} {shown : Text} {inside : List TagKind}
    (h : s.Opens n shown inside) :
    s.tree n (spare + 1) = readInside n s.ending spare (.named shown) [] inside := by
  rcases s.tree_succ_cases n spare with ⟨other, rest, hother, htree⟩ | ⟨-, hnone⟩
  · obtain ⟨rfl, rfl⟩ := h.unique hother
    exact htree
  · exact absurd h (hnone shown inside)

theorem TagStream.tree_eq_ok_iff {s : TagStream} {room : Nat} {t : Tree} :
    s.tree n room = ok t ↔
      ∃ spare shown inside, room = spare + 1 ∧ s.Opens n shown inside ∧
        readInside n s.ending spare (.named shown) [] inside = ok t := by
  constructor
  · intro h
    cases room with
    | zero => cases h
    | succ spare =>
      rcases s.tree_succ_cases n spare with ⟨shown, inside, hopens, htree⟩ | ⟨⟨fault, hfault⟩, -⟩
      · exact ⟨spare, shown, inside, rfl, hopens, htree.symm.trans h⟩
      · cases hfault.symm.trans h
  · rintro ⟨spare, shown, inside, rfl, hopens, h⟩
    exact hopens.tree_eq.trans h

theorem TagStream.tree_eq_overflow_iff {s : TagStream} {room : Nat} :
    s.tree n room = error .overflow ↔
      room = 0 ∨ ∃ spare shown inside, room = spare + 1 ∧ s.Opens n shown inside ∧
        IsDeep n spare true inside := by
  constructor
  · intro h
    cases room with
    | zero => exact .inl rfl
    | succ spare =>
      rcases s.tree_succ_cases n spare with ⟨shown, inside, hopens, htree⟩ | ⟨⟨fault, hfault⟩, -⟩
      · exact .inr ⟨spare, shown, inside, rfl, hopens,
          readInside_eq_overflow_iff.1 (htree.symm.trans h)⟩
      · cases hfault.symm.trans h
  · rintro (rfl | ⟨spare, shown, inside, rfl, hopens, hdeep⟩)
    · rfl
    · have hnamed : IsDeep n spare (OpenNode.named shown).inProperties inside := hdeep
      exact hopens.tree_eq.trans (hnamed.readInside_eq s.ending [])

theorem decompile_eq_ok_iff {os : Octets} {room : Nat} {text : Text} :
    decompile os room = ok text ↔
      (Header.read os).check = ok () ∧
        ∃ t, (rowOf os).tree (namingOf os) room = ok t ∧ text = t.source := by
  rw [decompile, tree]
  cases (Header.read os).check with
  | error fault => simp [Except.map]
  | ok =>
    change ((rowOf os).tree (namingOf os) room).map Tree.source = ok text ↔ _
    cases (rowOf os).tree (namingOf os) room with
    | error failure => simp [Except.map]
    | ok t => simp [Except.map, eq_comm]

theorem decompile_eq_overflow_iff {os : Octets} {room : Nat} :
    decompile os room = error .overflow ↔
      (Header.read os).check = ok () ∧
        (rowOf os).tree (namingOf os) room = error .overflow := by
  rw [decompile, tree]
  cases (Header.read os).check with
  | error fault => simp [Except.map]
  | ok =>
    change ((rowOf os).tree (namingOf os) room).map Tree.source = error .overflow ↔ _
    cases (rowOf os).tree (namingOf os) room with
    | error failure => simp [Except.map]
    | ok t => simp [Except.map]

/-- Which octets are printed, and what is printed of them. The header has to be sound, and the
    row, with names that can be read, does one of two things: it closes its outermost node, and
    is intact if only fillers and the tag for the end follow; or it breaks off behind a child,
    and is damaged. The tree is that of a complete body, which in the second case is the row with
    the missing closing tags. All others are at fault, but for the rows that open a node for which
    there is no room: with them the reader overflows, be they intact or not. -/
theorem decompile_eq_ok_iff_row (os : Octets) (room : Nat) (text : Text) :
    (decompile os room = ok text ↔
      (Header.read os).check = ok () ∧
      ∃ spare shown inside body t,
        room = spare + 1 ∧ (rowOf os).Opens (namingOf os) shown inside ∧
        ((∃ behind, inside = body ++ .endNode :: behind ∧ IsBody (namingOf os) spare true body) ∨
          ∃ missing, IsCut (namingOf os) spare true missing inside ∧
            body = inside ++ List.replicate missing .endNode) ∧
        readInside (namingOf os) .regular spare (.named shown) [] (body ++ [.endNode]) = ok t ∧
        text = t.source) ∧
    (decompile os room = error .overflow ↔
      (Header.read os).check = ok () ∧
        (room = 0 ∨ ∃ spare shown inside,
          room = spare + 1 ∧ (rowOf os).Opens (namingOf os) shown inside ∧
            IsDeep (namingOf os) spare true inside)) ∧
    (∀ spare shown body behind,
      (rowOf os).Opens (namingOf os) shown (body ++ .endNode :: behind) →
      IsBody (namingOf os) spare true body →
      ((rowOf os).IsIntact ↔ (∀ kind ∈ behind, kind = .filler) ∧ (rowOf os).ending = .regular)) ∧
    ∀ spare shown inside missing, (rowOf os).Opens (namingOf os) shown inside →
      IsCut (namingOf os) spare true missing inside → ¬ (rowOf os).IsIntact := by
  refine ⟨?_, ?_, ?_, ?_⟩
  · rw [decompile_eq_ok_iff]
    simp only [TagStream.tree_eq_ok_iff]
    constructor
    · rintro ⟨hheader, t, ⟨spare, shown, inside, hroom, hopens, hinside⟩, htext⟩
      obtain ⟨body, hshape, hbody⟩ := readInside_eq_ok_iff.1 hinside
      exact ⟨hheader, spare, shown, inside, body, t, hroom, hopens, hshape, hbody, htext⟩
    · rintro ⟨hheader, spare, shown, inside, body, t, hroom, hopens, hshape, hbody, htext⟩
      exact ⟨hheader, t, ⟨spare, shown, inside, hroom, hopens,
        readInside_eq_ok_iff.2 ⟨body, hshape, hbody⟩⟩, htext⟩
  · rw [decompile_eq_overflow_iff, TagStream.tree_eq_overflow_iff]
  · rintro spare shown body behind ⟨name, hkinds, -⟩ hbody
    exact TagStream.isIntact_iff hkinds hbody.balanced
  · rintro spare shown inside missing ⟨name, hkinds, -⟩ hcut
    exact TagStream.not_isIntact_of_isCut hkinds hcut

/-- A tree that breaks off behind a child, with octets in place of the tags that close it. -/
def brokenBlob : Octets :=
  [magicNumber, 80, 56, 80, 40, 17, 16, 0, 0, 24, 0, 0, 0, 0].flatMap Octets.ofWord
    ++ ([Octets.ofWord 1 ++ ([] ++ 0 :: [0, 0, 0]),
      Octets.ofWord 1 ++ ([0x63, 0x70, 0x75] ++ 0 :: []),
      Octets.ofWord 2,
      Octets.ofWord 0xFFFFFFFF].flatten)

theorem decompile_brokenBlob :
    decompile brokenBlob = ok "/dts-v1/;\n\n/ \x7b\n    cpu \x7b\n    \x7d;\n\x7d;\n".toList ∧
      (rowOf brokenBlob).ending = .broken .badStructure ∧ ¬ (rowOf brokenBlob).IsIntact := by
  have hending : (rowOf brokenBlob).ending = .broken .badStructure := by decide
  refine ⟨by decide, hending, ?_⟩
  rintro ⟨name, inside, fillers, hkinds, hinside, hfillers, hregular⟩
  rw [hending] at hregular
  cases hregular

end Blob

end Devicetree
