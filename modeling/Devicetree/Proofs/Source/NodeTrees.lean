-- SUMMARY: The tree of a block: how deep it reaches, what of it is kept as it is, and the order of the rest.
import Mathlib.Data.List.OfFn
import Devicetree.Proofs.Source.Nodes

/-!
# Trees of nodes

Which blocks a tree is made of is told by the lines alone. A block of one line, and one
that lies deeper than the deepest level that is parsed, is kept as it is and not
searched. The outermost blocks in the body of any other lie one level deeper, so depths
never go beyond that first level too deep. Whatever the braces of a text are like, the
tree has one node for each of these blocks: it is written within the lines of the tree
without a gap, its properties come before its children, and both are in the order of
their keys if the filter sorts.
-/

namespace Devicetree

/-! ## Parts of a block -/

namespace Block

/-- The blocks that make up the tree of a block, each with the number of blocks around it. -/
inductive HasPart (b : Block) : Int → Block → Prop where
  | whole : HasPart b 0 b
  | inner {depth : Int} {c d : Block} (hc : HasPart b depth c) (hdepth : depth ≤ Node.maxDepth)
      (hlines : c.rest ≠ []) (hd : d ∈ c.outline.blocks) : HasPart b (depth + 1) d

variable {b c : Block} {depth : Int}

theorem HasPart.depth_bounds (h : b.HasPart depth c) : 0 ≤ depth ∧ depth ≤ Node.maxDepth + 1 := by
  induction h with
  | whole => exact ⟨le_rfl, by decide⟩
  | inner _ hdepth _ _ ih => omega

theorem lines_isInfix_of_mem_outline (h : c ∈ b.outline.blocks) : c.lines <:+: b.lines := by
  have hbody : b.outline.lines = b.body := Outline.lines_ofLines b.body
  obtain ⟨s, hs, hc⟩ := List.mem_filterMap.1 h
  have hsegment : s.lines <:+: b.outline.lines :=
    List.infix_of_mem_flatten (List.mem_map_of_mem hs)
  have hinner : b.body <:+: b.lines :=
    (List.dropLast_prefix _).isInfix.trans (List.suffix_cons _ _).isInfix
  cases s with
  | free l => cases hc
  | block d =>
    cases hc
    exact (hbody ▸ hsegment).trans hinner

/-- A part is a range of the lines of the whole. -/
theorem HasPart.lines_isInfix (h : b.HasPart depth c) : c.lines <:+: b.lines := by
  induction h with
  | whole => exact List.infix_rfl
  | inner _ _ _ hd ih => exact (lines_isInfix_of_mem_outline hd).trans ih

end Block

/-! ## Nodes -/

namespace Node

/-- Whether a node is a block that is kept as it is. -/
def isVerbatim : Node → Bool
  | verbatim _ _ => true
  | parsed .. => false

def properties : Node → List Property
  | verbatim _ _ => []
  | parsed _ _ _ properties _ => properties

def children : Node → List Node
  | verbatim _ _ => []
  | parsed _ _ _ _ children => children

/-- The nodes of a tree. -/
inductive Has (tree : Node) : Node → Prop where
  | root : Has tree tree
  | child {n m : Node} (hn : Has tree n) (hm : m ∈ n.children) : Has tree m

/-- Put in the order of keys if the filter sorts. -/
def inOrder {α : Type} (f : Filter) (key : α → Text) (xs : List α) : List α :=
  if f.sortProperties then sortByKey key xs else xs

@[simp] theorem mem_inOrder {α : Type} {f : Filter} {key : α → Text} {x : α} {xs : List α} :
    x ∈ inOrder f key xs ↔ x ∈ xs := by
  rw [inOrder]
  split
  · exact mem_sortByKey
  · rfl

theorem levelsFrom_of_lt {depth : Int} (h : maxDepth < depth) : levelsFrom depth = 0 := by
  rw [levelsFrom]
  omega

variable {f : Filter} {b c : Block} {depth : Int}

theorem ofBlock_of_kept (h : c.rest = [] ∨ maxDepth < depth) :
    ofBlock f depth c = .verbatim depth c := by
  rcases h with hline | hdeep
  · exact build_of_rest_eq_nil f _ _ hline
  · rw [ofBlock, levelsFrom_of_lt hdeep]
    rfl

theorem ofBlock_of_parsed (hdepth : depth ≤ maxDepth) (hlines : c.rest ≠ []) :
    ofBlock f depth c = .parsed depth c.opening c.closing
      (inOrder f Property.key (Property.ofLines f c.propertyLines))
      (inOrder f key (c.outline.blocks.map (ofBlock f (depth + 1)))) := by
  have hempty : c.rest.isEmpty = false := by simpa using hlines
  rw [ofBlock, levelsFrom_of_le hdepth]
  simp only [build, hempty, Bool.false_eq_true, if_false, inOrder]
  split <;> rfl

theorem depth_ofBlock : (ofBlock f depth c).depth = depth := by
  by_cases h : c.rest = [] ∨ maxDepth < depth
  · rw [ofBlock_of_kept h]
    rfl
  · rw [ofBlock_of_parsed (not_lt.1 fun hdeep => h (.inr hdeep)) fun hline => h (.inl hline)]
    rfl

/-- The children of a node are those of the outermost blocks in its body, unless it is kept. -/
theorem mem_children_ofBlock {m : Node} :
    m ∈ (ofBlock f depth c).children ↔
      depth ≤ maxDepth ∧ c.rest ≠ [] ∧ ∃ d ∈ c.outline.blocks, ofBlock f (depth + 1) d = m := by
  by_cases h : c.rest = [] ∨ maxDepth < depth
  · rw [ofBlock_of_kept h]
    refine iff_of_false (List.not_mem_nil) ?_
    rintro ⟨hdepth, hlines, -⟩
    rcases h with hline | hdeep
    · exact hlines hline
    · omega
  · have hdepth : depth ≤ maxDepth := not_lt.1 fun hdeep => h (.inr hdeep)
    have hlines : c.rest ≠ [] := fun hline => h (.inl hline)
    rw [ofBlock_of_parsed hdepth hlines, children, mem_inOrder, List.mem_map]
    exact ⟨fun hm => ⟨hdepth, hlines, hm⟩, fun hm => hm.2.2⟩

/-- The nodes of a tree are those of the parts of its block. -/
theorem has_ofBlock_iff {n : Node} :
    (ofBlock f 0 b).Has n ↔ ∃ depth c, b.HasPart depth c ∧ ofBlock f depth c = n := by
  constructor
  · intro h
    induction h with
    | root => exact ⟨0, b, .whole, rfl⟩
    | child _ hm ih =>
      obtain ⟨depth, c, hc, rfl⟩ := ih
      obtain ⟨hdepth, hlines, d, hd, rfl⟩ := mem_children_ofBlock.1 hm
      exact ⟨depth + 1, d, .inner hc hdepth hlines hd, rfl⟩
  · rintro ⟨depth, c, hc, rfl⟩
    induction hc with
    | whole => exact .root
    | @inner depth c d _ hdepth hlines hd ih =>
      exact .child ih (mem_children_ofBlock.2 ⟨hdepth, hlines, d, hd, rfl⟩)

/-- A child is written without a gap. -/
theorem lines_isInfix_of_mem_children {n m : Node} (h : m ∈ n.children) : m.lines <:+: n.lines := by
  cases n with
  | verbatim depth c => cases h
  | parsed depth opening closing properties children =>
    have hall : m.lines <:+: linesOfAll children := by
      rw [linesOfAll_eq_flatMap]
      exact List.infix_of_mem_flatten (List.mem_map_of_mem h)
    rw [lines, List.append_assoc]
    exact (hall.trans (List.prefix_append _ _).isInfix).trans (List.suffix_append _ _).isInfix

theorem Has.lines_isInfix {tree n : Node} (h : tree.Has n) : n.lines <:+: tree.lines := by
  induction h with
  | root => exact List.infix_rfl
  | child _ hm ih => exact (lines_isInfix_of_mem_children hm).trans ih

/-! ## Trees -/

/-- A list with the keys of its elements in ascending order, and elements with the same key in
the order in which they stand in `xs`. -/
def IsArranged {α : Type} (key : α → Text) (xs ys : List α) : Prop :=
  ∃ s, Arranges key xs s ∧ ys = List.ofFn fun i => xs.get (s i)

theorem isArranged_inOrder {α : Type} (hsort : f.sortProperties) (key : α → Text) (xs : List α) :
    IsArranged key xs (inOrder f key xs) := by
  rw [inOrder, if_pos hsort]
  exact exists_arranges key xs

/-- What is true of the node `n` of a block `c` that lies at some depth in the tree. -/
structure IsShaped (f : Filter) (tree n : Node) (depth : Int) (c : Block) : Prop where
  depth_eq : n.depth = depth
  depth_bounds : 0 ≤ depth ∧ depth ≤ maxDepth + 1
  depth_children : ∀ m ∈ n.children, m.depth = depth + 1
  isVerbatim_iff : n.isVerbatim ↔ c.rest = [] ∨ depth = maxDepth + 1
  lines_of_verbatim : n.isVerbatim → n.lines = c.lines ∧ c.lines <:+: tree.lines
  lines_of_parsed : ¬ n.isVerbatim → n.lines =
    c.opening :: (n.properties.map (Property.line c.opening) ++ n.children.flatMap lines ++
      [c.closing])
  properties_arranged : f.sortProperties → ¬ n.isVerbatim →
    IsArranged Property.key (Property.ofLines f c.propertyLines) n.properties
  children_arranged : f.sortProperties → ¬ n.isVerbatim →
    IsArranged key (c.outline.blocks.map (ofBlock f (depth + 1))) n.children

theorem isShaped_of_kept {tree : Node} (hbounds : 0 ≤ depth ∧ depth ≤ maxDepth + 1)
    (hkept : c.rest = [] ∨ maxDepth < depth) (htree : c.lines <:+: tree.lines) :
    IsShaped f tree (.verbatim depth c) depth c where
  depth_eq := rfl
  depth_bounds := hbounds
  depth_children m hm := absurd hm List.not_mem_nil
  isVerbatim_iff := iff_of_true rfl (hkept.imp_right fun hdeep => by omega)
  lines_of_verbatim _ := ⟨rfl, htree⟩
  lines_of_parsed h := absurd rfl h
  properties_arranged _ h := absurd rfl h
  children_arranged _ h := absurd rfl h

theorem isShaped_of_parsed (tree : Node) (hbounds : 0 ≤ depth ∧ depth ≤ maxDepth)
    (hlines : c.rest ≠ []) : IsShaped f tree (ofBlock f depth c) depth c := by
  have hnode := ofBlock_of_parsed (f := f) hbounds.2 hlines
  have hverbatim : ¬ (ofBlock f depth c).isVerbatim := by simp [hnode, isVerbatim]
  exact {
    depth_eq := depth_ofBlock
    depth_bounds := by omega
    depth_children := fun m hm => by
      obtain ⟨-, -, d, -, rfl⟩ := mem_children_ofBlock.1 hm
      exact depth_ofBlock
    isVerbatim_iff := iff_of_false hverbatim (by simp [hlines]; omega)
    lines_of_verbatim := fun h => absurd h hverbatim
    lines_of_parsed := fun _ => by
      rw [hnode, lines, linesOfAll_eq_flatMap, List.cons_append]
      rfl
    properties_arranged := fun hsort _ => by
      rw [hnode]
      exact isArranged_inOrder hsort _ _
    children_arranged := fun hsort _ => by
      rw [hnode]
      exact isArranged_inOrder hsort _ _ }

/-- The tree of a block has one node for each of its parts, and each is shaped by where its
part lies. -/
theorem tree_ofBlock (f : Filter) (b : Block) :
    (∀ n, (ofBlock f 0 b).Has n ↔ ∃ depth c, b.HasPart depth c ∧ ofBlock f depth c = n) ∧
      ∀ depth c, b.HasPart depth c → c.lines <:+: b.lines ∧
        IsShaped f (ofBlock f 0 b) (ofBlock f depth c) depth c := by
  refine ⟨fun n => has_ofBlock_iff, fun depth c hc => ⟨hc.lines_isInfix, ?_⟩⟩
  obtain ⟨hstart, hend⟩ := hc.depth_bounds
  by_cases hkept : c.rest = [] ∨ maxDepth < depth
  · have htree := (has_ofBlock_iff.2 ⟨depth, c, hc, rfl⟩ : (ofBlock f 0 b).Has _).lines_isInfix
    rw [ofBlock_of_kept hkept] at htree ⊢
    exact isShaped_of_kept ⟨hstart, hend⟩ hkept htree
  · refine isShaped_of_parsed _ ⟨hstart, ?_⟩ fun hline => hkept (.inl hline)
    exact not_lt.1 fun hdeep => hkept (.inr hdeep)

/-- The lines of blocks one in the other, by the lines that open them. -/
def nestedLines : List Line → List Line
  | [] => []
  | l :: ls => l :: (nestedLines ls ++ ["\x7d;".toList])

/-- A block with blocks one in the other. -/
def nest (l : Line) (ls : List Line) : Block :=
  ⟨l, nestedLines ls ++ ["\x7d;".toList]⟩

/-- Two properties of the same key, and blocks on six levels in front of them. -/
def sevenLevels : Block :=
  let inner := ["b \x7b", "c \x7b", "d \x7b", "e \x7b", "f \x7b", "g \x7b"].map String.toList
  ⟨"a \x7b".toList, nestedLines inner ++ ["x = <2>;", "x = <1>;", "\x7d;"].map String.toList⟩

/-- The block on the last level is kept, though it has two lines. -/
theorem tree_ofBlock_sevenLevels :
    let tree := ofBlock .semantic 0 sevenLevels
    let last := nest "g \x7b".toList []
    sevenLevels.HasPart 6 last ∧ (ofBlock .semantic 6 last).isVerbatim ∧
      last.lines <:+: tree.lines ∧ Filter.semantic.sortProperties ∧ ¬ tree.isVerbatim ∧
      IsArranged Property.key (Property.ofLines .semantic sevenLevels.propertyLines)
        tree.properties := by
  intro tree last
  have hsort : Filter.semantic.sortProperties := rfl
  have hb : sevenLevels.HasPart 1 (nest "b \x7b".toList
      (["c \x7b", "d \x7b", "e \x7b", "f \x7b", "g \x7b"].map String.toList)) :=
    .inner .whole (by decide) (by decide) (by decide)
  have hc : sevenLevels.HasPart 2 (nest "c \x7b".toList
      (["d \x7b", "e \x7b", "f \x7b", "g \x7b"].map String.toList)) :=
    .inner hb (by decide) (by decide) (by decide)
  have hd : sevenLevels.HasPart 3 (nest "d \x7b".toList
      (["e \x7b", "f \x7b", "g \x7b"].map String.toList)) :=
    .inner hc (by decide) (by decide) (by decide)
  have he : sevenLevels.HasPart 4 (nest "e \x7b".toList
      (["f \x7b", "g \x7b"].map String.toList)) :=
    .inner hd (by decide) (by decide) (by decide)
  have hf : sevenLevels.HasPart 5 (nest "f \x7b".toList (["g \x7b"].map String.toList)) :=
    .inner he (by decide) (by decide) (by decide)
  have hlast : sevenLevels.HasPart 6 last := .inner hf (by decide) (by decide) (by decide)
  have hshape := ((tree_ofBlock .semantic sevenLevels).2 6 last hlast).2
  have hwhole := ((tree_ofBlock .semantic sevenLevels).2 0 sevenLevels .whole).2
  have hkept : (ofBlock .semantic 6 last).isVerbatim := hshape.isVerbatim_iff.2 (.inr rfl)
  have hparsed : ¬ tree.isVerbatim := fun h => by
    rcases hwhole.isVerbatim_iff.1 h with hline | hdeep
    · exact absurd hline (by decide)
    · exact absurd hdeep (by decide)
  exact ⟨hlast, hkept, (hshape.lines_of_verbatim hkept).2, hsort, hparsed,
    hwhole.properties_arranged hsort hparsed⟩

end Node

end Devicetree
