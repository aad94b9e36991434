-- SUMMARY: Putting a well-formed document in canonical order twice is doing it once.
import Devicetree.Proofs.Source.Nodes

/-!
# Canonical order

A document is well-formed if its blocks are: the braces of each are balanced at its
last line and not before, its property lines hold no brace and end in a semicolon
record by record, and spelling a property does not change its key. Blocks that are
not parsed need no more than balanced braces.

What a well-formed block is written as is read back as the same properties and the
same children. Their spellings are fixed points of the spelling rules, and their
keys ascend already, so they are written the same way again.
-/

namespace Devicetree

/-! ## Well-formed blocks -/

namespace Block

/-- The braces of a block are balanced at its last line and not before; of several lines,
    the first opens one brace and the last closes one. -/
structure Balanced (b : Block) : Prop where
  closed : b.IsClosed
  opening : b.rest ≠ [] → Line.braceBalance b.opening = 1
  closing : b.rest ≠ [] → Line.braceBalance b.closing = -1

/-- The properties of a block are read back from the way they are written. -/
structure Settled (f : Filter) (b : Block) : Prop where
  plain : ∀ l ∈ b.outline.freeLines, '{' ∉ l ∧ '}' ∉ l
  whole : ∀ r ∈ b.records, r.getLast? = some ';'
  keyed : ∀ r ∈ b.records,
    Line.propertyKey (Text.trim (Value.spell f r)) = Line.propertyKey r

/-- A block is well-formed, with all the blocks in it that are parsed. -/
def WellFormed (f : Filter) : (levels : Nat) → Block → Prop
  | 0, b => b.Balanced
  | levels + 1, b =>
    b.Balanced ∧ (b.rest ≠ [] → b.Settled f ∧ ∀ c ∈ b.outline.blocks, WellFormed f levels c)

instance (b : Block) : Decidable b.Balanced :=
  decidable_of_iff (b.IsClosed ∧
      (b.rest ≠ [] → Line.braceBalance b.opening = 1) ∧
      (b.rest ≠ [] → Line.braceBalance b.closing = -1))
    ⟨fun ⟨closed, opening, closing⟩ => ⟨closed, opening, closing⟩,
      fun ⟨closed, opening, closing⟩ => ⟨closed, opening, closing⟩⟩

instance (f : Filter) (b : Block) : Decidable (b.Settled f) :=
  decidable_of_iff ((∀ l ∈ b.outline.freeLines, '{' ∉ l ∧ '}' ∉ l) ∧
      (∀ r ∈ b.records, r.getLast? = some ';') ∧
      ∀ r ∈ b.records, Line.propertyKey (Text.trim (Value.spell f r)) = Line.propertyKey r)
    ⟨fun ⟨plain, whole, keyed⟩ => ⟨plain, whole, keyed⟩,
      fun ⟨plain, whole, keyed⟩ => ⟨plain, whole, keyed⟩⟩

instance instDecidableWellFormed (f : Filter) :
    (levels : Nat) → (b : Block) → Decidable (b.WellFormed f levels)
  | 0, b => inferInstanceAs (Decidable b.Balanced)
  | levels + 1, b =>
    have := instDecidableWellFormed f levels
    inferInstanceAs (Decidable (b.Balanced ∧
      (b.rest ≠ [] → b.Settled f ∧ ∀ c ∈ b.outline.blocks, c.WellFormed f levels)))

theorem WellFormed.balanced {f : Filter} {levels : Nat} {b : Block} (h : b.WellFormed f levels) :
    b.Balanced := by
  cases levels with
  | zero => exact h
  | succ levels => exact h.1

end Block

/-! ## Properties -/

namespace Block

variable {f : Filter} {b : Block}

/-- The properties of a settled block in the order in which they are written. -/
def orderedProperties (f : Filter) (b : Block) : List Property :=
  Node.sortByKey Property.key (Property.ofLines f b.propertyLines)

theorem mem_orderedProperties {p : Property} (h : p ∈ b.orderedProperties f) :
    ∃ r ∈ b.records, p = Property.ofRecord f r := by
  rw [orderedProperties, Node.mem_sortByKey] at h
  obtain ⟨r, hr, rfl⟩ := List.mem_map.1 h
  exact ⟨r, (List.mem_filter.1 hr).1, rfl⟩

theorem Settled.not_mem_records (h : b.Settled f) {c : Char} (hc : c = '{' ∨ c = '}') {r : Text}
    (hr : r ∈ b.records) : c ∉ r := by
  intro hmem
  rcases Record.of_mem_join hr hmem with hspace | ⟨l, hl, hmem⟩
  · rw [hspace] at hc
    exact absurd hc (by decide)
  · have hplain := h.plain l (List.mem_filter.1 hl).1
    rcases hc with rfl | rfl
    · exact hplain.1 hmem
    · exact hplain.2 hmem

/-- The lines of the properties, as they are written, hold no brace. -/
theorem Settled.plain_line (h : b.Settled f) {p : Property} (hp : p ∈ b.orderedProperties f) :
    '{' ∉ Property.line b.opening p ∧ '}' ∉ Property.line b.opening p := by
  obtain ⟨r, hr, rfl⟩ := mem_orderedProperties hp
  refine ⟨fun hmem => ?_, fun hmem => ?_⟩
  · rcases Property.of_mem_line ⟨by decide, by decide⟩ hmem with ⟨hblank, -⟩ | hmem
    · exact absurd hblank (by decide)
    · exact h.not_mem_records (.inl rfl) hr hmem
  · rcases Property.of_mem_line ⟨by decide, by decide⟩ hmem with ⟨hblank, -⟩ | hmem
    · exact absurd hblank (by decide)
    · exact h.not_mem_records (.inr rfl) hr hmem

theorem Settled.isWhole_line (h : b.Settled f) {p : Property} (hp : p ∈ b.orderedProperties f) :
    Record.IsWhole (Property.line b.opening p) := by
  obtain ⟨r, hr, rfl⟩ := mem_orderedProperties hp
  exact Property.isWhole_line (h.whole r hr)

/-- The properties read back from the lines of a settled block are written as these lines,
    and in this order. -/
theorem Settled.read_properties (h : b.Settled f) :
    let lines := (b.orderedProperties f).map (Property.line b.opening)
    (Node.sortByKey Property.key (Property.ofLines f lines)).map (Property.line b.opening) =
      lines := by
  intro lines
  let again := fun p : Property => Property.ofRecord f (Text.trim p.spelling)
  have hread : Property.ofLines f lines = (b.orderedProperties f).map again := by
    have hwhole : ∀ l ∈ lines, Record.IsWhole l := by
      intro l hl
      obtain ⟨p, hp, rfl⟩ := List.mem_map.1 hl
      exact h.isWhole_line hp
    have hplain : ∀ l ∈ lines, '}' ∉ l := by
      intro l hl
      obtain ⟨p, hp, rfl⟩ := List.mem_map.1 hl
      exact (h.plain_line hp).2
    rw [Property.ofLines_eq_map hwhole hplain, List.map_map]
    refine List.map_congr_left fun p _ => ?_
    rw [Function.comp_apply, Property.trim_line]
  have hkey : ∀ p ∈ b.orderedProperties f, (again p).key = p.key := by
    intro p hp
    obtain ⟨r, hr, rfl⟩ := mem_orderedProperties hp
    exact h.keyed r hr
  have hsorted : Node.Ascending Property.key ((b.orderedProperties f).map again) := by
    rw [Node.ascending_map hkey]
    exact Node.ascending_sortByKey _ _
  rw [hread, Node.sortByKey_eq_self hsorted, List.map_map]
  refine List.map_congr_left fun p hp => ?_
  obtain ⟨r, hr, rfl⟩ := mem_orderedProperties hp
  exact Property.line_ofRecord_trim (h.whole r hr)

end Block

/-! ## Blocks -/

namespace Node

/-- What a block is written as when its own lines are read back: its opening line opens a
    closed block, which is written the same way. -/
structure Stable (f : Filter) (levels : Nat) (depth : Int) (b : Block) : Prop where
  closed : (build f levels depth b).block.IsClosed
  lines_eq : (build f levels depth (build f levels depth b).block).lines =
    (build f levels depth b).lines

/-- The outline that the body of a block is written as. -/
def emittedBody (f : Filter) (levels : Nat) (depth : Int) (b : Block) : Outline :=
  (b.orderedProperties f).map (fun p => .free (Property.line b.opening p)) ++
    (sortByKey key (b.outline.blocks.map (build f levels depth))).map (fun n => .block n.block)

variable {f : Filter} {levels : Nat} {depth : Int} {b : Block}

theorem freeLines_emittedBody :
    (emittedBody f levels depth b).freeLines =
      (b.orderedProperties f).map (Property.line b.opening) := by
  simp [emittedBody, Outline.freeLines, List.filterMap_append, List.filterMap_map,
    Function.comp_def, Segment.free?]

theorem blocks_emittedBody :
    (emittedBody f levels depth b).blocks =
      (sortByKey key (b.outline.blocks.map (build f levels depth))).map block := by
  simp [emittedBody, Outline.blocks, List.filterMap_append, List.filterMap_map,
    Function.comp_def, Segment.block?]

theorem block_build (hsort : f.sortProperties) (hrest : b.rest ≠ []) :
    (build f (levels + 1) depth b).block =
      ⟨b.opening, (emittedBody f levels (depth + 1) b).lines ++ [b.closing]⟩ := by
  have hchildren : ∀ ns : List Node, Outline.lines (ns.map fun n => .block n.block) =
      ns.flatMap lines := by
    intro ns
    induction ns with
    | nil => rfl
    | cons n ns ih => simp [ih, Segment.lines, lines_block]
  have hproperties : ∀ ps : List Property,
      Outline.lines (ps.map fun p => .free (Property.line b.opening p)) =
        ps.map (Property.line b.opening) := by
    intro ps
    induction ps with
    | nil => rfl
    | cons p ps ih => simp [ih, Segment.lines]
  rw [block, lines_build hsort levels depth hrest, opening_build, List.tail_cons, emittedBody,
    Outline.lines_append, hchildren, hproperties]
  rfl

/-- The nodes of children in order, and the children they are built from. -/
theorem mem_orderedChildren {n : Node}
    (h : n ∈ sortByKey key (b.outline.blocks.map (build f levels depth))) :
    ∃ c ∈ b.outline.blocks, n = build f levels depth c := by
  rw [mem_sortByKey] at h
  obtain ⟨c, hc, rfl⟩ := List.mem_map.1 h
  exact ⟨c, hc, rfl⟩

/-- What the body of a settled block is written as is read back. -/
theorem ofLines_emittedBody (hb : b.Settled f)
    (hchildren : ∀ c ∈ b.outline.blocks, Stable f levels depth c) :
    Outline.ofLines (emittedBody f levels depth b).lines = emittedBody f levels depth b := by
  refine Outline.ofLines_lines fun s hs => ?_
  rcases List.mem_append.1 hs with hs | hs
  · obtain ⟨p, hp, rfl⟩ := List.mem_map.1 hs
    exact Line.kind_ne_opener (hb.plain_line hp).1
  · obtain ⟨n, hn, rfl⟩ := List.mem_map.1 hs
    obtain ⟨c, hc, rfl⟩ := mem_orderedChildren hn
    refine ⟨?_, (hchildren c hc).closed⟩
    rw [opening_block, opening_build]
    exact Outline.kind_of_mem_blocks hc

/-- The children read back are written as they were, and in the same order. -/
theorem read_children (hchildren : ∀ c ∈ b.outline.blocks, Stable f levels depth c) :
    let nodes := sortByKey key (b.outline.blocks.map (build f levels depth))
    (sortByKey key ((nodes.map block).map (build f levels depth))).flatMap lines =
      nodes.flatMap lines := by
  intro nodes
  have hkey : ∀ n ∈ nodes, (build f levels depth n.block).key = n.key := by
    intro n _
    rw [key_build, opening_block]
    rfl
  have hsorted : Ascending key (nodes.map (build f levels depth ∘ block)) :=
    (ascending_map hkey).2 (ascending_sortByKey _ _)
  rw [List.map_map, sortByKey_eq_self hsorted, List.flatMap_map]
  refine List.flatMap_congr fun n hn => ?_
  obtain ⟨c, hc, rfl⟩ := mem_orderedChildren hn
  exact (hchildren c hc).lines_eq

/-- A settled block with stable children is stable. -/
theorem stable_of_children (hsort : f.sortProperties) (hrest : b.rest ≠ [])
    (hbalanced : b.Balanced) (hb : b.Settled f)
    (hchildren : ∀ c ∈ b.outline.blocks, Stable f levels (depth + 1) c) :
    Stable f (levels + 1) depth b := by
  have hwritten : (build f (levels + 1) depth b).block =
      ⟨b.opening, (emittedBody f levels (depth + 1) b).lines ++ [b.closing]⟩ :=
    block_build hsort hrest
  have hplain : ∀ l ∈ (emittedBody f levels (depth + 1) b).freeLines, Line.braceBalance l = 0 := by
    intro l hl
    rw [freeLines_emittedBody] at hl
    obtain ⟨p, hp, rfl⟩ := List.mem_map.1 hl
    exact Line.braceBalance_eq_zero (hb.plain_line hp).1 (hb.plain_line hp).2
  have hclosed : ∀ c ∈ (emittedBody f levels (depth + 1) b).blocks, c.IsClosed := by
    intro c hc
    rw [blocks_emittedBody] at hc
    obtain ⟨n, hn, rfl⟩ := List.mem_map.1 hc
    obtain ⟨c, hchild, rfl⟩ := mem_orderedChildren hn
    exact (hchildren c hchild).closed
  refine ⟨?_, ?_⟩
  · -- One brace is open throughout the body, and the closing line closes it.
    rw [hwritten, Block.IsClosed, hbalanced.opening hrest,
      Outline.closes_append (by decide) hplain hclosed, Block.Closes, Block.Closes,
      hbalanced.closing hrest]
    decide
  · rw [hwritten]
    generalize hagain : (⟨b.opening, (emittedBody f levels (depth + 1) b).lines ++ [b.closing]⟩ :
      Block) = again
    have hopening : again.opening = b.opening := by rw [← hagain]
    have hrest' : again.rest ≠ [] := by simp [← hagain]
    have hclosing : again.closing = b.closing := by simp [← hagain, Block.closing]
    have houtline : again.outline = emittedBody f levels (depth + 1) b := by
      rw [← ofLines_emittedBody hb hchildren, Block.outline, ← hagain, Block.body,
        List.dropLast_concat]
    have hproperties : again.propertyLines =
        (b.orderedProperties f).map (Property.line b.opening) := by
      rw [Block.propertyLines, houtline, freeLines_emittedBody, List.filter_eq_self]
      intro l hl
      obtain ⟨p, hp, rfl⟩ := List.mem_map.1 hl
      simpa using (hb.isWhole_line hp).kind_ne_blank
    rw [lines_build hsort levels depth hrest', lines_build hsort levels depth hrest, hopening,
      hclosing, hproperties, houtline, blocks_emittedBody, read_children hchildren,
      hb.read_properties]
    rfl

/-- A well-formed block is stable: by induction on the levels that are parsed. -/
theorem stable_of_wellFormed (hsort : f.sortProperties) (hb : b.WellFormed f levels) :
    Stable f levels depth b := by
  induction levels generalizing depth b with
  | zero => exact ⟨hb.closed, rfl⟩
  | succ levels ih =>
    obtain ⟨hbalanced, hinner⟩ := hb
    by_cases hrest : b.rest = []
    · constructor
      · rw [build_of_rest_eq_nil f _ _ hrest]
        exact hbalanced.closed
      · rw [build_of_rest_eq_nil f _ _ hrest, build_of_rest_eq_nil]
        · rfl
        · simp [block, lines, Block.lines, hrest]
    · obtain ⟨hsettled, hchildren⟩ := hinner hrest
      exact stable_of_children hsort hrest hbalanced hsettled fun c hc => ih (hchildren c hc)

end Node

/-! ## Documents -/

namespace Document

variable {f : Filter}

/-- A document is well-formed if all its blocks are. -/
def WellFormed (f : Filter) (t : Text) : Prop :=
  ∀ b ∈ (Outline.ofLines (Text.lines t)).blocks, b.WellFormed f (Node.levelsFrom 0)

instance (f : Filter) (t : Text) : Decidable (WellFormed f t) :=
  inferInstanceAs (Decidable (∀ b ∈ (Outline.ofLines (Text.lines t)).blocks,
    b.WellFormed f (Node.levelsFrom 0)))

/-- The blocks that a well-formed document is written with are closed. -/
theorem isClosed_of_wellFormed (hsort : f.sortProperties) {ls : List Line}
    (h : ∀ b ∈ (Outline.ofLines ls).blocks, b.WellFormed f (Node.levelsFrom 0)) :
    ∀ b ∈ (emitted f ls).blocks, b.IsClosed := by
  intro b hb
  rw [blocks_emitted] at hb
  obtain ⟨n, hn, rfl⟩ := List.mem_map.1 hb
  obtain ⟨b, hblock, rfl⟩ := mem_orderedNodes.1 hn
  exact (Node.stable_of_wellFormed hsort (h b hblock)).closed

/-- What a well-formed document is written as is read back. -/
theorem ofLines_emitted_of_wellFormed (hsort : f.sortProperties) {ls : List Line}
    (h : ∀ b ∈ (Outline.ofLines ls).blocks, b.WellFormed f (Node.levelsFrom 0)) :
    Outline.ofLines (emitted f ls).lines = emitted f ls :=
  ofLines_emitted (isClosed_of_wellFormed hsort h)

/-- The lines of a well-formed document in canonical order are in canonical order. -/
theorem canonicalLines_canonicalLines (hsort : f.sortProperties) {ls : List Line}
    (h : ∀ b ∈ (Outline.ofLines ls).blocks, b.WellFormed f (Node.levelsFrom 0)) :
    canonicalLines f (canonicalLines f ls) = canonicalLines f ls := by
  let nodes := orderedNodes f (Outline.ofLines ls)
  let again := fun n : Node => Node.ofBlock f 0 n.block
  have hread := ofLines_emitted_of_wellFormed hsort h
  have hblocks : (emitted f ls).blocks = nodes.map Node.block := blocks_emitted f ls
  have hkey : ∀ n ∈ nodes, (again n).key = n.key := by
    intro n _
    rw [Node.key_ofBlock, Node.opening_block]
    rfl
  have hsorted : Node.Ascending Node.key (nodes.map again) := by
    rw [Node.ascending_map hkey]
    exact Node.ascending_sortByKey _ _
  have hnodes : orderedNodes f (emitted f ls) = nodes.map again := by
    rw [orderedNodes, hblocks, List.map_map]
    exact Node.sortByKey_eq_self hsorted
  have hsame : (nodes.map again).map Node.block = nodes.map Node.block := by
    rw [List.map_map]
    refine List.map_congr_left fun n hn => ?_
    obtain ⟨b, hb, rfl⟩ := mem_orderedNodes.1 hn
    apply Block.lines_injective
    rw [Function.comp_apply, Node.lines_block, Node.lines_block]
    exact (Node.stable_of_wellFormed hsort (h b hb)).lines_eq
  have hlength : (nodes.map Node.block).length = (Outline.ofLines ls).blocks.length := by
    simp [nodes]
  rw [canonicalLines_eq_lines f ls, canonicalLines_eq_lines, emitted, hread]
  simp only [hnodes, hsame]
  rw [emitted, Outline.refill_refill hlength]

/-- Putting a well-formed document in canonical order twice is doing it once. -/
theorem normalize_idempotent_of_wellFormed {t : Text} (h : WellFormed f t) :
    normalize f (normalize f t) = normalize f t := by
  by_cases hsort : f.sortProperties
  · rw [normalize, if_pos hsort, lines_normalize hsort, canonicalLines_canonicalLines hsort h,
      normalize, if_pos hsort]
  · simp [normalize, hsort]

/-- A document with blocks and free lines side by side, a block in a block, and a property
    over two lines. -/
def serialBus : Text :=
  Text.unlines (
    ["/ \x7b", "serial: uart@1 \x7b", "\treg = <0x1  0xAB>,", "\t\t<2>;", "", "\tb \x7b", "\t\tx;",
      "\t\x7d;", "\ta = \"ok\" ,\"no\";", "\x7d;", "\x7d;", "&aux \x7b", "\x7d;", "aa \x7b",
      "\x7d;", ""].map String.toList)

theorem normalize_idempotent_serialBus :
    WellFormed .semantic serialBus ∧
      normalize .semantic (normalize .semantic serialBus) = normalize .semantic serialBus := by
  have h : WellFormed .semantic serialBus := by decide +kernel
  exact ⟨h, normalize_idempotent_of_wellFormed h⟩

end Document

end Devicetree
