-- SUMMARY: A flattened tree is read back as the tree, and printed in order.
import Devicetree.Blob.Tree
import Devicetree.Proofs.Blob.Flattening
import Devicetree.Proofs.Text.Utf8

/-!
# Trees

The tags of a tree are those of its outermost node: the tag that opens it, its properties, the
tags of its children and the tag that closes it, with fillers anywhere between them. Reading
them puts back what has been written, each property and each child once and in order, since
what is read of a tree is the same whatever stands around it.
-/

namespace Devicetree

open Except (ok error)

namespace Blob

/-! ## What tags say -/

/-- What a tag of a tree says, with the name of a property in place of its offset. -/
inductive Item where
  | opening (name : Text)
  | property (name : Text) (value : Octets)
  | closing

namespace Tree

mutual

/-- The items of a tree in order. -/
def items : Tree → List Item
  | .node name properties children =>
    .opening name :: (properties.map fun (name, value) => Item.property name value)
      ++ itemsOfAll children ++ [.closing]

/-- The items of trees one behind the other. -/
def itemsOfAll : List Tree → List Item
  | [] => []
  | t :: ts => items t ++ itemsOfAll ts

end

mutual

/-- How many nodes of a tree lie inside each other. -/
def height : Tree → Nat
  | .node _ _ children => heightOfAll children + 1

/-- The greatest height of some trees. -/
def heightOfAll : List Tree → Nat
  | [] => 0
  | t :: ts => max (height t) (heightOfAll ts)

end

end Tree

/-- A tag says an item: names are in UTF-8, and the name of a property stands in the strings
    block at its offset, with a zero behind it. -/
inductive TagKind.Says (strings : Octets) : TagKind → Item → Prop
  | opening (name : Text) : Says strings (.beginNode (Utf8.encode name)) (.opening name)
  | property {nameOffset : Nat} {name : Text} {more : Octets} (value : Octets)
      (zero : 0 ∉ Utf8.encode name)
      (stands : strings.drop nameOffset = Utf8.encode name ++ 0 :: more) :
      Says strings (.property nameOffset value) (.property name value)
  | closing : Says strings .endNode .closing

/-- What says two rows of items says the one, then the other. -/
theorem exists_append_of_says {strings : Octets} {kinds : List TagKind} {items more : List Item}
    (h : List.Forall₂ (TagKind.Says strings) kinds (items ++ more)) :
    ∃ first second, kinds = first ++ second ∧
      List.Forall₂ (TagKind.Says strings) first items ∧
      List.Forall₂ (TagKind.Says strings) second more :=
  ⟨_, _, (List.take_append_drop items.length kinds).symm,
    List.forall₂_take_append _ _ _ h, List.forall₂_drop_append _ _ _ h⟩

/-! ## Reading items -/

variable {n : Naming} {ending : Ending} {spare : Nat} {inner : OpenNode} {around : List OpenNode}

/-- Fillers are passed over. -/
theorem readInside_filter (n : Naming) (ending : Ending) (spare : Nat) (inner : OpenNode)
    (around : List OpenNode) (kinds : List TagKind) :
    readInside n ending spare inner around (kinds.filter (· ≠ .filler)) =
      readInside n ending spare inner around kinds := by
  induction kinds generalizing spare inner around with
  | nil => rfl
  | cons kind kinds ih =>
    cases kind with
    | filler => exact ih spare inner around
    | beginNode name =>
      rw [List.filter_cons_of_pos (by simp)]
      simp only [readInside, ih]
    | property nameOffset value =>
      rw [List.filter_cons_of_pos (by simp)]
      simp only [readInside, ih]
    | endNode =>
      rw [List.filter_cons_of_pos (by simp)]
      cases around with
      | nil => rfl
      | cons outer around => exact ih _ _ around

/-- A reader that does not overflow reads the same with more room. -/
theorem readInside_of_ne_overflow (extra : Nat) {kinds : List TagKind}
    (h : readInside n ending spare inner around kinds ≠ error .overflow) :
    readInside n ending (spare + extra) inner around kinds =
      readInside n ending spare inner around kinds := by
  induction kinds generalizing spare inner around with
  | nil => simp only [readInside.eq_def]
  | cons kind kinds ih =>
    cases kind with
    | filler => exact ih h
    | property nameOffset value =>
      rw [readInside] at h ⊢
      cases hfresh : inner.inProperties with
      | false =>
        simp only [readInside, hfresh, Bool.false_eq_true, if_false] at h ⊢
        exact ih h
      | true =>
        simp only [readInside, hfresh, if_true] at h ⊢
        cases hname : n.propertyName nameOffset with
        | error fault => rfl
        | ok name =>
          simp only [hname] at h ⊢
          exact ih h
    | beginNode name =>
      cases spare with
      | zero => exact absurd rfl h
      | succ spare =>
        rw [Nat.add_right_comm]
        simp only [readInside] at h ⊢
        cases hname : n.nodeName name with
        | error fault => rfl
        | ok shown =>
          simp only [hname] at h ⊢
          exact ih h
    | endNode =>
      cases around with
      | nil => rfl
      | cons outer around =>
        simp only [readInside, Nat.add_right_comm spare extra 1] at h ⊢
        exact ih h

theorem TagStream.tree_of_ne_overflow {s : TagStream} {room : Nat} (extra : Nat)
    (h : s.tree n room ≠ error .overflow) : s.tree n (room + extra) = s.tree n room := by
  cases room with
  | zero => exact absurd rfl h
  | succ spare =>
    rw [Nat.add_right_comm]
    simp only [tree] at h ⊢
    split
    · rename_i name kinds hkinds
      simp only [hkinds] at h
      split
      · rfl
      · rename_i hname
        simp only [hname] at h
        exact readInside_of_ne_overflow extra h
    · rfl

/-- Octets that do not make the reader overflow are decompiled the same with more room. -/
theorem decompile_of_ne_overflow {os : Octets} {room more : Nat}
    (h : decompile os room ≠ error .overflow) (hle : room ≤ more) :
    decompile os more = decompile os room := by
  obtain ⟨extra, rfl⟩ := Nat.exists_eq_add_of_le hle
  simp only [decompile, tree] at h ⊢
  cases hheader : (Header.read os).check with
  | error fault => rfl
  | ok =>
    simp only [hheader] at h ⊢
    rw [TagStream.tree_of_ne_overflow extra]
    intro htree
    rw [htree] at h
    exact h rfl

@[simp] theorem decodeOrSpell_encode (t : Text) : Utf8.decodeOrSpell (Utf8.encode t) = t := by
  rw [Utf8.decodeOrSpell, Utf8.decode_encode]

/-- From version 16 on the name of a node is all that stands in its tag. -/
theorem Naming.nodeName_encode (hversion : 16 ≤ n.version) (name : Text) :
    n.nodeName (Utf8.encode name) = ok name := by
  rw [nodeName, if_pos hversion, decodeOrSpell_encode]

theorem Naming.propertyName_eq (hversion : 16 ≤ n.version) {nameOffset : Nat} {name : Text}
    {more : Octets} (hzero : 0 ∉ Utf8.encode name)
    (hstands : n.strings.drop nameOffset = Utf8.encode name ++ 0 :: more) :
    n.propertyName nameOffset = ok name := by
  have hname : (Utf8.encode name ++ 0 :: more).takeWhile (· != 0) = Utf8.encode name := by
    rw [List.takeWhile_append_of_pos, List.takeWhile_cons_of_neg (by simp), List.append_nil]
    exact fun o ho => bne_iff_ne.2 fun heq => hzero (heq ▸ ho)
  rw [propertyName, if_pos hversion, hstands, hname, decodeOrSpell_encode]

/-- An open node of which some properties and children have been read. -/
def OpenNode.holding (name : Text) (properties : List (Text × Octets)) (children : List Tree) :
    OpenNode :=
  ⟨name, properties.reverse, children.reverse, children.isEmpty⟩

theorem OpenNode.named_eq (name : Text) : named name = holding name [] [] :=
  rfl

theorem OpenNode.withChild_holding (name : Text) (properties : List (Text × Octets))
    (children : List Tree) (t : Tree) :
    (holding name properties children).withChild t = holding name properties (children ++ [t]) := by
  simp [holding, withChild]

theorem OpenNode.close_holding (name : Text) (properties : List (Text × Octets))
    (children : List Tree) :
    (holding name properties children).close = .node name properties children := by
  simp [holding, close]

/-- Properties in front of the first child are read in order. -/
theorem readInside_properties (hversion : 16 ≤ n.version) (name : Text)
    (properties more : List (Text × Octets)) {kinds : List TagKind}
    (hspoken : List.Forall₂ (TagKind.Says n.strings) kinds
      (more.map fun (name, value) => Item.property name value)) (rest : List TagKind) :
    readInside n ending spare (.holding name properties []) around (kinds ++ rest) =
      readInside n ending spare (.holding name (properties ++ more) []) around rest := by
  induction more generalizing properties kinds with
  | nil =>
    cases hspoken
    simp
  | cons p more ih =>
    cases hspoken with
    | cons hfirst hrest =>
      cases hfirst with
      | property value zero stands =>
        have hnext := ih (properties ++ [p]) hrest
        rw [List.append_assoc] at hnext
        rw [List.cons_append, readInside, ← List.singleton_append, ← hnext]
        simp only [OpenNode.holding, List.isEmpty_nil, if_true,
          Naming.propertyName_eq hversion zero stands, List.reverse_append, List.reverse_singleton,
          List.singleton_append]

/-- The tags inside a node are read as its properties and children, if its children are. -/
theorem readInside_interior (hversion : 16 ≤ n.version) (ending : Ending) (spare : Nat)
    (name : Text)
    (properties : List (Text × Octets)) (children : List Tree) (around : List OpenNode)
    (hread : ∀ (kinds rest : List TagKind),
      List.Forall₂ (TagKind.Says n.strings) kinds (Tree.itemsOfAll children) →
      readInside n ending spare (.holding name properties []) around (kinds ++ rest) =
        readInside n ending spare (.holding name properties children) around rest)
    {kinds : List TagKind}
    (hspoken : List.Forall₂ (TagKind.Says n.strings) kinds
      ((properties.map fun (name, value) => Item.property name value)
        ++ (Tree.itemsOfAll children ++ [.closing]))) (rest : List TagKind) :
    readInside n ending spare (.named name) around (kinds ++ rest) =
      readInside n ending spare (.holding name properties children) around (.endNode :: rest) := by
  obtain ⟨first, behind, rfl, hproperties, hbehind⟩ := exists_append_of_says hspoken
  obtain ⟨second, last, rfl, hchildren, hlast⟩ := exists_append_of_says hbehind
  obtain ⟨_, _, hclose, hnil, rfl⟩ := List.forall₂_cons_right_iff.1 hlast
  cases hclose
  cases hnil
  rw [List.append_assoc, List.append_assoc, OpenNode.named_eq,
    readInside_properties hversion name [] properties hproperties, List.nil_append,
    hread second _ hchildren, List.singleton_append]

mutual

/-- A tree inside an open node is read as a child of it, whatever follows, if there is room for
it. -/
theorem readInside_items (hversion : 16 ≤ n.version) (spare : Nat) (inner : OpenNode)
    (around : List OpenNode) :
    (t : Tree) → t.height ≤ spare → (kinds rest : List TagKind) →
    List.Forall₂ (TagKind.Says n.strings) kinds t.items →
    readInside n ending spare inner around (kinds ++ rest) =
      readInside n ending spare (inner.withChild t) around rest
  | .node name properties children, hroom, kinds, rest, hspoken => by
    rw [Tree.items, List.append_assoc, List.cons_append] at hspoken
    obtain ⟨_, inside, hopen, hinside, rfl⟩ := List.forall₂_cons_right_iff.1 hspoken
    cases hopen
    rw [Tree.height] at hroom
    obtain ⟨spare, rfl⟩ : ∃ k, spare = k + 1 := ⟨spare - 1, by omega⟩
    rw [List.cons_append, readInside, Naming.nodeName_encode hversion]
    dsimp only
    rw [readInside_interior hversion ending spare name properties children _
      (readInside_itemsOfAll hversion spare name properties [] _ children (by omega)) hinside,
      readInside, OpenNode.close_holding]
    rfl

/-- Trees one behind the other are read as children of an open node. -/
theorem readInside_itemsOfAll (hversion : 16 ≤ n.version) (spare : Nat) (name : Text)
    (properties : List (Text × Octets)) (children : List Tree) (around : List OpenNode) :
    (ts : List Tree) → Tree.heightOfAll ts ≤ spare → (kinds rest : List TagKind) →
    List.Forall₂ (TagKind.Says n.strings) kinds (Tree.itemsOfAll ts) →
    readInside n ending spare (.holding name properties children) around (kinds ++ rest) =
      readInside n ending spare (.holding name properties (children ++ ts)) around rest
  | [], _, kinds, rest, hspoken => by
    rw [Tree.itemsOfAll] at hspoken
    cases hspoken
    simp
  | t :: ts, hroom, kinds, rest, hspoken => by
    rw [Tree.itemsOfAll] at hspoken
    obtain ⟨first, second, rfl, ht, hts⟩ := exists_append_of_says hspoken
    obtain ⟨hfirst, hsecond⟩ := Nat.max_le.1 hroom
    rw [List.append_assoc, readInside_items hversion spare _ around t hfirst first _ ht,
      OpenNode.withChild_holding,
      readInside_itemsOfAll hversion spare name properties _ around ts hsecond second rest hts,
      List.append_assoc, List.singleton_append]

end

/-- The tree of a row of tags that says the items of a tree, if there is room for it. -/
theorem TagStream.tree_of_says {s : TagStream} {t : Tree} {room : Nat}
    (hroom : t.height ≤ room) (hversion : 16 ≤ n.version)
    (hhead : (s.tags.map Tag.kind).head? ≠ some .filler)
    (hspoken : List.Forall₂ (TagKind.Says n.strings)
      ((s.tags.map Tag.kind).filter (· ≠ .filler)) t.items) :
    s.tree n room = ok t := by
  obtain ⟨name, properties, children⟩ := t
  rw [Tree.height] at hroom
  obtain ⟨spare, rfl⟩ : ∃ k, room = k + 1 := ⟨room - 1, by omega⟩
  rw [tree]
  generalize s.tags.map Tag.kind = kinds at hhead hspoken
  rw [Tree.items, List.append_assoc, List.cons_append] at hspoken
  obtain ⟨_, inside, hopen, hinside, hkinds⟩ := List.forall₂_cons_right_iff.1 hspoken
  cases hopen
  cases kinds with
  | nil => cases hkinds
  | cons kind kinds =>
    -- A filler in front of the outermost node is excluded, so its tag comes first.
    have hkind : kind ≠ .filler := fun h => hhead (congrArg some h)
    rw [List.filter_cons_of_pos (by simpa using hkind), List.cons.injEq] at hkinds
    obtain ⟨rfl, rfl⟩ := hkinds
    have hread := readInside_interior hversion s.ending spare name properties children []
      (readInside_itemsOfAll hversion spare name properties [] [] children (by omega)) hinside []
    rw [List.append_nil, readInside, OpenNode.close_holding] at hread
    dsimp only
    rw [Naming.nodeName_encode hversion]
    dsimp only
    rw [← readInside_filter, hread]

/-! ## Flattened trees -/

/-- A header of version 17 with its blocks behind it and in front of the end. -/
structure Header.IsCurrent (h : Header) : Prop where
  magic : h.magic = magicNumber
  version : h.version = 17
  compatible : h.lastCompatible ≤ 17
  totalSize : h.totalSize < sizeLimit
  reserve : 40 ≤ h.reserveOffset ∧ h.reserveOffset ≤ h.totalSize
  structure_ : 40 ≤ h.structOffset ∧ h.structOffset + h.structSize ≤ h.totalSize
  strings : 40 ≤ h.stringsOffset ∧ h.stringsOffset + h.stringsSize ≤ h.totalSize

theorem Header.IsCurrent.check_eq {h : Header} (hh : h.IsCurrent) : h.check = ok () := by
  obtain ⟨hmagic, hversion, hcompatible, htotal, hreserve, hstruct, hstrings⟩ := hh
  have hstated : h.statesStructSize = true := by rw [statesStructSize, hversion]; rfl
  have hsize : sizeOf 17 = 40 := rfl
  simp only [check, coversBlock, covers, hstated, hmagic, hversion, hsize]
  rw [if_neg (by simp), if_neg (by simp; omega), if_neg (by simp; omega), if_neg (by simp; omega),
    if_neg (by simp; omega), if_neg (by simp; omega)]

/-- Octets hold a tree: the header is sound, and in the structure block stand the tags of the
    tree in order, with fillers anywhere between them, and the tag for the end. -/
structure Flattens (os : Octets) (t : Tree) : Prop where
  header : (Header.read os).IsCurrent
  tags : ∃ (kinds : List TagKind) (parts : List Octets) (more : Octets),
    (Header.read os).structBlock os = parts.flatten ++ (Octets.ofWord 9 ++ more) ∧
      List.Forall₂ TagKind.WrittenAs kinds parts ∧
      kinds.head? ≠ some .filler ∧
      List.Forall₂ (TagKind.Says ((Header.read os).stringsBlock os))
        (kinds.filter (· ≠ .filler)) t.items

/-- What has been flattened is read back, if there is room for it. -/
theorem tree_of_flattens {os : Octets} {t : Tree} (h : Flattens os t) {room : Nat}
    (hroom : t.height ≤ room) : tree os room = ok t := by
  obtain ⟨kinds, parts, more, hblock, hwritten, hhead, hspoken⟩ := h.tags
  have hversion : 16 ≤ (Header.read os).version := h.header.version ▸ by decide
  obtain ⟨hkinds, -⟩ := tags_flatten hwritten hversion more
  rw [tree, h.header.check_eq, hblock]
  exact TagStream.tree_of_says hroom hversion (hkinds ▸ hhead) (hkinds ▸ hspoken)

/-- Decompiling undoes flattening: if there is room for the nodes inside each other, the tree is
    printed in order behind the version line and a blank line, each node with its properties, its
    children and its closing line. -/
theorem decompile_of_flattens {os : Octets} {t : Tree} {room : Nat} (h : Flattens os t)
    (hroom : t.height ≤ room) :
    decompile os room =
      ok (Text.unlines ("/dts-v1/;".toList :: [] :: t.lines 0) ++ ['\n']) := by
  rw [decompile, tree_of_flattens h hroom]
  rfl

/-- A small tree: one node in the outermost one, and a property with a value in each. -/
def smallTree : Tree :=
  .node [] [(['m'], [0x78, 0])] [.node ['c', 'p', 'u'] [(['m'], [])] []]

/-- The tags of the small tree, with fillers between them. -/
def smallParts : List Octets :=
  [Octets.ofWord 1 ++ ([] ++ 0 :: [0, 0, 0]),
    Octets.ofWord 4,
    Octets.ofWord 3 ++ (Octets.ofWord 2 ++ (Octets.ofWord 0 ++ ([0x78, 0] ++ [0, 0]))),
    Octets.ofWord 1 ++ ([0x63, 0x70, 0x75] ++ 0 :: []),
    Octets.ofWord 3 ++ (Octets.ofWord 0 ++ (Octets.ofWord 0 ++ ([] ++ []))),
    Octets.ofWord 4,
    Octets.ofWord 2,
    Octets.ofWord 2,
    Octets.ofWord 4]

/-- The small tree flattened: a header, the end of the reserved memory, the structure block and
    the strings block. -/
def smallBlob : Octets :=
  [magicNumber, 126, 56, 124, 40, 17, 16, 0, 2, 68, 0, 0, 0, 0].flatMap Octets.ofWord
    ++ (smallParts.flatten ++ (Octets.ofWord 9 ++ [0x6D, 0]))

theorem decompile_smallBlob :
    Flattens smallBlob smallTree ∧ smallTree.height ≤ 2 ∧
      decompile smallBlob 2 = ok (Text.unlines (["/dts-v1/;", "", "/ \x7b", "    m = \"x\";",
        "    cpu \x7b", "        m;", "    \x7d;", "\x7d;"].map String.toList) ++ ['\n']) := by
  have hflattens : Flattens smallBlob smallTree := by
    refine ⟨⟨by decide, by decide, by decide, by decide, by decide, by decide, by decide⟩, ?_⟩
    refine ⟨[.beginNode [], .filler, .property 0 [0x78, 0], .beginNode [0x63, 0x70, 0x75],
      .property 0 [], .filler, .endNode, .endNode, .filler], smallParts, [], by decide, ?_,
      by decide, ?_⟩
    · exact .cons (.beginNode (by decide) rfl) (.cons .filler
        (.cons (.property (by decide) (by decide) rfl) (.cons (.beginNode (by decide) rfl)
        (.cons (.property (by decide) (by decide) rfl) (.cons .filler
        (.cons .endNode (.cons .endNode (.cons .filler .nil))))))))
    · exact .cons (.opening []) (.cons (.property _ (by decide) rfl)
        (.cons (.opening ['c', 'p', 'u']) (.cons (.property _ (by decide) rfl)
        (.cons .closing (.cons .closing .nil)))))
  have hheight : smallTree.height ≤ 2 := by decide
  have hlines : smallTree.lines 0 = ["/ \x7b", "    m = \"x\";", "    cpu \x7b", "        m;",
      "    \x7d;", "\x7d;"].map String.toList := by
    decide
  refine ⟨hflattens, hheight, (decompile_of_flattens hflattens hheight).trans ?_⟩
  rw [hlines]
  rfl

end Blob

end Devicetree
