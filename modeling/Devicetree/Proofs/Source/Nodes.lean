-- SUMMARY: What nodes and documents are written as: blocks again, in the places of the old ones.
import Mathlib.Data.List.TakeWhile
import Devicetree.Proofs.Source.Outlines
import Devicetree.Proofs.Source.Records
import Devicetree.Proofs.Source.Sorting
import Devicetree.Proofs.Text.LineFeeds
import Devicetree.Proofs.Value.Spellings
import Devicetree.Source.Document

/-!
# What is written

A node is written as a block with the opening line it was read from. A document is
written as its own outline, with the blocks of the ordered nodes in the places of
the blocks. No line feed gets into a line, so the text that is written has the
lines that were meant.
-/

namespace Devicetree

/-! ## Bodies -/

namespace Block

/-- The outline of what stands between the opening and the closing line. -/
def outline (b : Block) : Outline :=
  Outline.ofLines b.body

/-- The lines of the properties of a block. -/
def propertyLines (b : Block) : List Line :=
  b.outline.freeLines.filter fun l => Line.kind l != .blank

/-- The records of the properties of a block. -/
def records (b : Block) : List Text :=
  Record.join b.propertyLines

end Block

theorem Record.IsWhole.kind_ne_blank {l : Line} (h : IsWhole l) : Line.kind l ≠ .blank := by
  rw [ne_eq, Line.kind_eq_blank_iff]
  intro hnil
  rw [IsWhole, hnil] at h
  cases h

/-- Properties are in the order of their records. -/
theorem Property.sortByKey_map_ofRecord (f : Filter) (rs : List Text) :
    Node.sortByKey key (rs.map (ofRecord f)) =
      (Node.sortByKey Line.propertyKey rs).map (ofRecord f) :=
  (Node.map_sortByKey rs fun _ _ => rfl).symm

/-- The line of a property under the line that opens its block. -/
def Property.line (opening : Line) (p : Property) : Line :=
  Node.propertyIndent opening ++ Text.trim p.spelling

/-! ## Nodes -/

namespace Node

theorem levelsFrom_of_le {depth : Int} (h : depth ≤ maxDepth) :
    levelsFrom depth = levelsFrom (depth + 1) + 1 := by
  rw [levelsFrom, levelsFrom]
  omega

/-- The block that a node is written as. -/
def block (n : Node) : Block :=
  ⟨n.opening, n.lines.tail⟩

@[simp] theorem opening_block (n : Node) : n.block.opening = n.opening := rfl

theorem lines_block (n : Node) : n.block.lines = n.lines := by
  cases n <;> simp [block, Block.lines, lines, opening]

theorem linesOfAll_eq_flatMap (ns : List Node) : linesOfAll ns = ns.flatMap lines := by
  induction ns with
  | nil => rfl
  | cons n ns ih => rw [linesOfAll, ih, List.flatMap_cons]

@[simp] theorem opening_build (f : Filter) (levels : Nat) (depth : Int) (b : Block) :
    (build f levels depth b).opening = b.opening := by
  cases levels with
  | zero => rfl
  | succ levels =>
    simp only [build]
    split
    · rfl
    · split <;> rfl

@[simp] theorem key_build (f : Filter) (levels : Nat) (depth : Int) (b : Block) :
    (build f levels depth b).key = Line.blockKey b.opening := by
  rw [key, opening_build]

theorem opening_ofBlock (f : Filter) (depth : Int) (b : Block) :
    (ofBlock f depth b).opening = b.opening :=
  opening_build f _ depth b

theorem key_ofBlock (f : Filter) (depth : Int) (b : Block) :
    (ofBlock f depth b).key = Line.blockKey b.opening :=
  key_build f _ depth b

/-- A block of one line is kept. -/
theorem build_of_rest_eq_nil (f : Filter) (levels : Nat) (depth : Int) {b : Block}
    (h : b.rest = []) : build f levels depth b = .verbatim depth b := by
  cases levels with
  | zero => rfl
  | succ levels => simp [build, h]

/-- Where the filter sorts, a block is written with its properties and then its children,
    both in the order of their keys. -/
theorem lines_build {f : Filter} (hsort : f.sortProperties) (levels : Nat) (depth : Int)
    {b : Block} (h : b.rest ≠ []) :
    (build f (levels + 1) depth b).lines =
      b.opening ::
        ((sortByKey Property.key (Property.ofLines f b.propertyLines)).map
            (Property.line b.opening)
          ++ (sortByKey key (b.outline.blocks.map (build f levels (depth + 1)))).flatMap lines
          ++ [b.closing]) := by
  have hempty : b.rest.isEmpty = false := by simpa using h
  simp only [build, hempty, hsort, Bool.false_eq_true, if_false, if_true, lines,
    linesOfAll_eq_flatMap, List.cons_append, Block.propertyLines, Block.outline]
  rfl

/-- The lines of a node in some order: those of the block, of its properties and of its
    children. -/
theorem lines_build_perm {f : Filter} (hsort : f.sortProperties) (levels : Nat) (depth : Int)
    {b : Block} (h : b.rest ≠ []) :
    (build f (levels + 1) depth b).lines.Perm
      ([b.opening] ++ ((Property.ofLines f b.propertyLines).map (Property.line b.opening) ++
        b.outline.blocks.flatMap (fun c => (build f levels (depth + 1) c).lines) ++
          [b.closing])) := by
  rw [lines_build hsort levels depth h, List.singleton_append]
  refine List.Perm.cons _ (List.Perm.append_right _ (List.Perm.append ?_ ?_))
  · exact (sortByKey_perm _ _).map _
  · refine ((sortByKey_perm _ _).flatMap_right _).trans ?_
    rw [List.flatMap_map]

end Node

/-- The lines of an outline in some order: its free lines, and those of its blocks. -/
theorem Outline.lines_perm (o : Outline) :
    o.lines.Perm (o.freeLines ++ o.blocks.flatMap Block.lines) := by
  induction o with
  | nil => exact .refl _
  | cons s o ih =>
    cases s with
    | free l => exact ih.cons l
    | block b =>
      refine (ih.append_left b.lines).trans ?_
      rw [freeLines_block, blocks_block, List.flatMap_cons, ← List.append_assoc,
        ← List.append_assoc]
      exact List.perm_append_comm.append_right _

/-! ## Documents -/

namespace Document

/-- The outline that a document is written as. -/
def emitted (f : Filter) (ls : List Line) : Outline :=
  let outline := Outline.ofLines ls
  Outline.refill ((orderedNodes f outline).map Node.block) outline

theorem fill_eq_lines (ns : List Node) (o : Outline) :
    fill ns o = Outline.lines (Outline.refill (ns.map Node.block) o) := by
  induction o generalizing ns with
  | nil => simp [fill, Outline.refill]
  | cons s o ih =>
    cases s with
    | free l => simp [fill, Outline.refill, ih, Segment.lines]
    | block b =>
      cases ns with
      | nil => simpa [fill, Outline.refill] using ih []
      | cons n ns => simp [fill, Outline.refill, ih, Segment.lines, Node.lines_block]

/-- A document is written as the lines of that outline. -/
theorem canonicalLines_eq_lines (f : Filter) (ls : List Line) :
    canonicalLines f ls = Outline.lines (emitted f ls) :=
  fill_eq_lines _ _

@[simp] theorem length_orderedNodes (f : Filter) (o : Outline) :
    (orderedNodes f o).length = o.blocks.length := by
  simp [orderedNodes]

theorem blocks_emitted (f : Filter) (ls : List Line) :
    (emitted f ls).blocks = (orderedNodes f (Outline.ofLines ls)).map Node.block :=
  Outline.blocks_refill (by simp)

/-- The lines of a document in canonical order are, in some order, its free lines and those
    of its nodes. -/
theorem canonicalLines_perm (f : Filter) (ls : List Line) :
    (canonicalLines f ls).Perm ((Outline.ofLines ls).freeLines ++
      (Outline.ofLines ls).blocks.flatMap fun b => (Node.ofBlock f 0 b).lines) := by
  have hblocks : ((emitted f ls).blocks.flatMap Block.lines).Perm
      ((Outline.ofLines ls).blocks.flatMap fun b => (Node.ofBlock f 0 b).lines) := by
    rw [blocks_emitted, List.flatMap_map]
    simp only [Node.lines_block]
    refine ((Node.sortByKey_perm _ _).flatMap_right _).trans ?_
    rw [List.flatMap_map]
  have hfree : (emitted f ls).freeLines = (Outline.ofLines ls).freeLines :=
    Outline.freeLines_refill _ _
  rw [canonicalLines_eq_lines]
  refine (Outline.lines_perm _).trans ?_
  rw [hfree]
  exact hblocks.append_left _

theorem mem_orderedNodes {f : Filter} {o : Outline} {n : Node} :
    n ∈ orderedNodes f o ↔ ∃ b ∈ o.blocks, Node.ofBlock f 0 b = n := by
  simp [orderedNodes]

/-- The outline that is written is read back if its blocks are closed. -/
theorem ofLines_emitted {f : Filter} {ls : List Line}
    (h : ∀ b ∈ (emitted f ls).blocks, b.IsClosed) :
    Outline.ofLines (emitted f ls).lines = emitted f ls := by
  refine Outline.ofLines_lines fun s hs => ?_
  rcases Outline.mem_refill hs with ⟨l, rfl, hl⟩ | ⟨b, hb, rfl⟩
  · exact Outline.isSound_of_mem_ofLines hl
  · refine ⟨?_, h b (by rwa [blocks_emitted])⟩
    obtain ⟨n, hn, rfl⟩ := List.mem_map.1 hb
    obtain ⟨b, hblock, rfl⟩ := mem_orderedNodes.1 hn
    rw [Node.opening_block, Node.opening_ofBlock]
    exact Outline.kind_of_mem_blocks hblock

end Document

/-! ## Characters -/

/-- A character that writing does not add: neither a space nor a digit. -/
def IsForeign (c : Char) : Prop :=
  c ≠ ' ' ∧ ¬ Hex.isDigit c

namespace Outline

theorem mem_lines_of_mem_freeLines {o : Outline} {l : Line} (h : l ∈ o.freeLines) :
    l ∈ o.lines := by
  obtain ⟨s, hs, hl⟩ := List.mem_filterMap.1 h
  refine List.mem_flatMap.2 ⟨s, hs, ?_⟩
  cases s with
  | free k =>
    cases hl
    simp [Segment.lines]
  | block b => cases hl

theorem mem_lines_of_mem_blocks {o : Outline} {b : Block} (h : b ∈ o.blocks) {l : Line}
    (hl : l ∈ b.lines) : l ∈ o.lines := by
  obtain ⟨s, hs, hb⟩ := List.mem_filterMap.1 h
  refine List.mem_flatMap.2 ⟨s, hs, ?_⟩
  cases s with
  | free k => cases hb
  | block b' =>
    cases hb
    exact hl

end Outline

theorem Block.mem_lines_of_mem_body {b : Block} {l : Line} (h : l ∈ b.body) : l ∈ b.lines :=
  List.mem_cons_of_mem _ (List.dropLast_subset _ h)

theorem Block.closing_mem_lines (b : Block) : b.closing ∈ b.lines := by
  rw [closing]
  cases h : b.rest.getLast? with
  | none => simp [lines]
  | some l => simpa [lines] using .inr (List.mem_of_getLast? h)

theorem Block.mem_lines_of_mem_outline {b : Block} {l : Line} (h : l ∈ b.outline.lines) :
    l ∈ b.lines := by
  rw [outline, Outline.lines_ofLines] at h
  exact mem_lines_of_mem_body h

theorem Node.of_mem_propertyIndent {opening : Line} {c : Char} (h : c ∈ propertyIndent opening) :
    isBlank c ∧ (c ∈ opening ∨ c = ' ') := by
  rcases List.mem_append.1 h with h | h
  · exact ⟨List.mem_takeWhile_imp h, .inl ((List.takeWhile_prefix _).subset h)⟩
  · rw [List.eq_of_mem_replicate h]
    exact ⟨by decide, .inr rfl⟩

/-- A foreign character in the line of a property is one of the record, or indents it. -/
theorem Property.of_mem_line {f : Filter} {opening : Line} {r : Text} {c : Char}
    (hc : IsForeign c) (h : c ∈ line opening (ofRecord f r)) :
    (isBlank c ∧ c ∈ opening) ∨ c ∈ r := by
  rcases List.mem_append.1 h with h | h
  · obtain ⟨hblank, hmem⟩ := Node.of_mem_propertyIndent h
    exact .inl ⟨hblank, hmem.resolve_right hc.1⟩
  · rcases Value.of_mem_spell (Text.mem_of_mem_trim h) with hmem | hspace | hdigit
    · exact .inr hmem
    · exact absurd hspace hc.1
    · exact absurd hdigit hc.2

theorem Block.not_mem_of_mem_records {b : Block} {r : Text} {c : Char} (hc : c ≠ ' ')
    (hb : ∀ l ∈ b.lines, c ∉ l) (hr : r ∈ b.records) : c ∉ r := by
  intro hmem
  rcases Record.of_mem_join hr hmem with hspace | ⟨l, hl, hmem⟩
  · exact hc hspace
  · have hfree := Outline.mem_lines_of_mem_freeLines (List.mem_filter.1 hl).1
    exact hb l (mem_lines_of_mem_outline hfree) hmem

/-- Writing a node adds no foreign character. -/
theorem Node.not_mem_lines_build {f : Filter} (hsort : f.sortProperties) {c : Char}
    (hc : IsForeign c) {levels : Nat} {depth : Int} {b : Block} (hb : ∀ l ∈ b.lines, c ∉ l) :
    ∀ l ∈ (build f levels depth b).lines, c ∉ l := by
  induction levels generalizing depth b with
  | zero => exact hb
  | succ levels ih =>
    by_cases hrest : b.rest = []
    · rw [build_of_rest_eq_nil f _ _ hrest]
      exact hb
    · intro l hl
      rw [lines_build hsort levels depth hrest, List.mem_cons, List.mem_append, List.mem_append,
        List.mem_map, List.mem_flatMap, List.mem_singleton] at hl
      rcases hl with rfl | (⟨p, hp, rfl⟩ | ⟨n, hn, hl⟩) | rfl
      · exact hb _ (by simp [Block.lines])
      · rw [mem_sortByKey] at hp
        obtain ⟨r, hr, rfl⟩ := List.mem_map.1 hp
        intro hmem
        rcases Property.of_mem_line hc hmem with ⟨-, hmem⟩ | hmem
        · exact hb _ (by simp [Block.lines]) hmem
        · exact Block.not_mem_of_mem_records hc.1 hb (List.mem_filter.1 hr).1 hmem
      · rw [mem_sortByKey] at hn
        obtain ⟨b', hb', rfl⟩ := List.mem_map.1 hn
        refine ih (fun k hk => hb k ?_) l hl
        exact Block.mem_lines_of_mem_outline (Outline.mem_lines_of_mem_blocks hb' hk)
      · exact hb _ b.closing_mem_lines

/-- Writing a document adds no foreign character. -/
theorem Document.not_mem_canonicalLines {f : Filter} (hsort : f.sortProperties) {c : Char}
    (hc : IsForeign c) {ls : List Line} (h : ∀ l ∈ ls, c ∉ l) :
    ∀ l ∈ canonicalLines f ls, c ∉ l := by
  intro l hl
  have hlines : ∀ k, k ∈ (Outline.ofLines ls).lines → c ∉ k := by
    intro k hk
    rw [Outline.lines_ofLines] at hk
    exact h k hk
  rw [canonicalLines_eq_lines, Outline.lines, List.mem_flatMap] at hl
  obtain ⟨s, hs, hl⟩ := hl
  rcases Outline.mem_refill hs with ⟨k, rfl, hk⟩ | ⟨b, hb, rfl⟩
  · rw [Segment.lines, List.mem_singleton] at hl
    subst hl
    exact hlines l (List.mem_flatMap.2 ⟨_, hk, by simp [Segment.lines]⟩)
  · obtain ⟨n, hn, rfl⟩ := List.mem_map.1 hb
    obtain ⟨b, hblock, rfl⟩ := mem_orderedNodes.1 hn
    rw [Segment.lines, Node.lines_block] at hl
    refine Node.not_mem_lines_build hsort hc (fun k hk => hlines k ?_) l hl
    exact Outline.mem_lines_of_mem_blocks hblock hk

theorem Document.canonicalLines_ne_nil (f : Filter) {ls : List Line} (h : ls ≠ []) :
    canonicalLines f ls ≠ [] := by
  intro hnil
  have hempty : ∀ s ∈ emitted f ls, s.lines = [] := by
    rw [canonicalLines_eq_lines, Outline.lines, List.flatMap_eq_nil_iff] at hnil
    exact hnil
  have hsegment : ∀ s : Segment, s.lines ≠ [] := by
    intro s
    cases s <;> simp [Segment.lines, Block.lines]
  have hemitted : emitted f ls = [] := by
    cases he : emitted f ls with
    | nil => rfl
    | cons s o => exact absurd (hempty s (by simp [he])) (hsegment s)
  have hfree : (Outline.ofLines ls).freeLines = [] := by
    rw [← Outline.freeLines_refill, ← emitted, hemitted]
    rfl
  have hblocks : (Outline.ofLines ls).blocks = [] := by
    have hlength : (emitted f ls).blocks.length = (Outline.ofLines ls).blocks.length := by
      rw [blocks_emitted, List.length_map, length_orderedNodes]
    rw [hemitted] at hlength
    exact List.length_eq_zero_iff.1 hlength.symm
  cases ho : Outline.ofLines ls with
  | nil =>
    have hlines := Outline.lines_ofLines ls
    rw [ho] at hlines
    exact h hlines.symm
  | cons s o => cases s <;> simp [ho] at hfree hblocks

/-- The lines of the text that is written are the lines that were put in order. -/
theorem Document.lines_normalize {f : Filter} (hsort : f.sortProperties) (t : Text) :
    Text.lines (normalize f t) = canonicalLines f (Text.lines t) := by
  have hfeed : IsForeign '\n' := ⟨by decide, by decide⟩
  rw [normalize, if_pos hsort]
  exact Text.lines_unlines (canonicalLines_ne_nil f (Text.lines_ne_nil t))
    (not_mem_canonicalLines hsort hfeed fun l hl => Text.newline_not_mem_of_mem_lines hl)

/-! ## Lines of properties -/

namespace Property

variable {f : Filter} {opening : Line} {r : Text}

theorem trim_line (opening : Line) (p : Property) :
    Text.trim (line opening p) = Text.trim p.spelling := by
  rw [line, Text.trim_append_of_blank fun c hc => (Node.of_mem_propertyIndent hc).1,
    Text.trim_trim]

/-- The line of a property whose record ends in a semicolon is a record of its own. -/
theorem isWhole_line (hr : r.getLast? = some ';') : Record.IsWhole (line opening (ofRecord f r)) := by
  rw [Record.IsWhole, trim_line]
  exact Text.getLast?_trim (Value.getLast?_spell f ⟨by decide, by decide⟩ hr) (by decide)

/-- A property read back from its line is written as that line. -/
theorem line_ofRecord_trim (hr : r.getLast? = some ';') :
    line opening (ofRecord f (Text.trim (ofRecord f r).spelling)) = line opening (ofRecord f r) := by
  simp only [line, ofRecord, Value.trim_spell_trim f hr]

theorem isBareCloser_iff : isBareCloser r ↔ r = ['}'] ∨ r = ['}', ';'] := by
  rw [isBareCloser, Bool.or_eq_true, beq_iff_eq, beq_iff_eq]

theorem not_isBareCloser (hr : '}' ∉ r) : isBareCloser r = false := by
  rw [Bool.eq_false_iff, ne_eq, isBareCloser_iff]
  rintro (rfl | rfl)
  · simp at hr
  · simp at hr

/-- Lines that are records of their own, and hold no closing brace, are a property each. -/
theorem ofLines_eq_map {ls : List Line} (hwhole : ∀ l ∈ ls, Record.IsWhole l)
    (hplain : ∀ l ∈ ls, '}' ∉ l) : ofLines f ls = ls.map fun l => ofRecord f (Text.trim l) := by
  rw [ofLines, Record.join_eq_map_trim hwhole, List.filter_eq_self.2, List.map_map]
  · rfl
  · intro r hr
    obtain ⟨l, hl, rfl⟩ := List.mem_map.1 hr
    rw [not_isBareCloser fun hmem => hplain l hl (Text.mem_of_mem_trim hmem)]
    rfl

end Property

end Devicetree
