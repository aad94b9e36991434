-- SUMMARY: Documents that differ in the order and the indentation of their parts alone are written alike.
import Devicetree.Proofs.Source.Nodes

/-!
# Reorderings

A block that is built from blank lines, properties of one line each and other blocks
can be reordered: its properties and children change places, properties are indented
anew, blank lines come and go, and the same happens within its children. What is
written depends on the keys and the contents of properties and children only, not on
their order, so it stays the same if keys are distinct among siblings.
-/

namespace Devicetree

/-! ## Items -/

/-- A part of the body of a block. -/
inductive Item where
  | blank (l : Line)
  | property (l : Line)
  /-- A block of one line. -/
  | single (opening : Line)
  | nest (opening : Line) (body : List Item) (closing : Line)

namespace Item

mutual

/-- The lines of an item. -/
def lines : Item → List Line
  | blank l => [l]
  | property l => [l]
  | single opening => [opening]
  | nest opening body closing => opening :: (linesOfAll body ++ [closing])

/-- The lines of items one behind the other. -/
def linesOfAll : List Item → List Line
  | [] => []
  | i :: is => lines i ++ linesOfAll is

end

/-- The block of an item, if it is one. -/
def block? : Item → Option Block
  | blank _ => none
  | property _ => none
  | single opening => some ⟨opening, []⟩
  | nest opening body closing => some ⟨opening, linesOfAll body ++ [closing]⟩

/-- The line of an item that is a property. -/
def propertyLine? : Item → Option Line
  | property l => some l
  | _ => none

/-- The blocks among items, in order. -/
def blocks (is : List Item) : List Block :=
  is.filterMap block?

/-- The records of the properties among items, in order. -/
def records (is : List Item) : List Text :=
  (is.filterMap propertyLine?).map Text.trim

/-- No two properties among items have the same key, and no two blocks. -/
structure Distinct (is : List Item) : Prop where
  properties : ((records is).map Line.propertyKey).Nodup
  blocks : ((blocks is).map fun b => Line.blockKey b.opening).Nodup

/-- A part of a well-built block at some depth. Properties hold no brace and end in a
    semicolon, a block opens one brace with its first line and closes it with its last or
    does neither, keys are distinct among siblings, and no block lies too deep. -/
inductive Valid : (depth : Int) → Item → Prop where
  | blank {depth : Int} {l : Line} : Line.kind l = .blank → Valid depth (blank l)
  | property {depth : Int} {l : Line} :
      Line.kind l = .property → '{' ∉ l → '}' ∉ l → Record.IsWhole l → Valid depth (property l)
  | single {depth : Int} {opening : Line} :
      depth ≤ Node.maxDepth → Line.kind opening = .opener → Line.braceBalance opening = 0 →
        Valid depth (single opening)
  | nest {depth : Int} {opening closing : Line} {body : List Item} :
      depth ≤ Node.maxDepth → Line.kind opening = .opener → Line.braceBalance opening = 1 →
        Line.braceBalance closing = -1 → Distinct body → (∀ i ∈ body, Valid (depth + 1) i) →
          Valid depth (nest opening body closing)

/-- Items reordered: blank lines come and go, properties are indented anew, blocks are
    reordered within, and neighbours change places. -/
inductive Reordered : List Item → List Item → Prop where
  | nil : Reordered [] []
  | blank_left {l : Line} {is js : List Item} :
      Reordered is js → Reordered (.blank l :: is) js
  | blank_right {l : Line} {is js : List Item} :
      Line.kind l = .blank → Reordered is js → Reordered is (.blank l :: js)
  | property {l k : Line} {is js : List Item} :
      Text.trim l = Text.trim k → Reordered is js → Reordered (.property l :: is) (.property k :: js)
  | single {opening : Line} {is js : List Item} :
      Reordered is js → Reordered (.single opening :: is) (.single opening :: js)
  | nest {opening closing : Line} {body body' is js : List Item} :
      Reordered body body' → Reordered is js →
        Reordered (.nest opening body closing :: is) (.nest opening body' closing :: js)
  | swap (i j : Item) (is : List Item) : Reordered (i :: j :: is) (j :: i :: is)
  | trans {is js ks : List Item} : Reordered is js → Reordered js ks → Reordered is ks

/-! ## Reading items -/

/-- The segment that an item is read as. -/
def segment : Item → Segment
  | blank l => .free l
  | property l => .free l
  | single opening => .block ⟨opening, []⟩
  | nest opening body closing => .block ⟨opening, linesOfAll body ++ [closing]⟩

theorem lines_segment (i : Item) : i.segment.lines = i.lines := by
  cases i <;> simp [segment, lines, Segment.lines, Block.lines]

theorem linesOfAll_eq_lines (is : List Item) :
    linesOfAll is = Outline.lines (is.map segment) := by
  induction is with
  | nil => rfl
  | cons i is ih => rw [linesOfAll, ih, List.map_cons, Outline.lines_cons, lines_segment]

theorem blocks_segments (is : List Item) : Outline.blocks (is.map segment) = blocks is := by
  rw [Outline.blocks, blocks, List.filterMap_map]
  congr 1
  funext i
  cases i <;> rfl

theorem braceBalance_of_kind_eq_blank {l : Line} (h : Line.kind l = .blank) :
    Line.braceBalance l = 0 := by
  have hblank := Text.trim_eq_nil_iff.1 (Line.kind_eq_blank_iff.1 h)
  exact Line.braceBalance_eq_zero (fun hmem => absurd (hblank _ hmem) (by decide))
    fun hmem => absurd (hblank _ hmem) (by decide)

/-- The free lines of valid items hold no brace. -/
theorem braceBalance_of_mem_freeLines {depth : Int} {is : List Item}
    (h : ∀ i ∈ is, i.Valid depth) :
    ∀ l ∈ Outline.freeLines (is.map segment), Line.braceBalance l = 0 := by
  intro l hl
  obtain ⟨s, hs, hfree⟩ := List.mem_filterMap.1 hl
  obtain ⟨i, hi, rfl⟩ := List.mem_map.1 hs
  cases h i hi with
  | blank hkind =>
    cases hfree
    exact braceBalance_of_kind_eq_blank hkind
  | property _ hopen hclose =>
    cases hfree
    exact Line.braceBalance_eq_zero hopen hclose
  | single => cases hfree
  | nest => cases hfree

/-- A valid item is read as what it is: by induction on blocks within blocks. -/
theorem Valid.isProper {depth : Int} {i : Item} (h : i.Valid depth) : i.segment.IsProper := by
  induction h with
  | blank hkind => exact fun heq => absurd (hkind.symm.trans heq) (by decide)
  | property hkind => exact fun heq => absurd (hkind.symm.trans heq) (by decide)
  | single _ hkind hbalance => exact ⟨hkind, hbalance⟩
  | @nest depth opening closing body _ hkind hopen hclose _ hbody ih =>
    have hblocks : ∀ b ∈ Outline.blocks (body.map segment), b.IsClosed := by
      intro b hb
      obtain ⟨s, hs, hblock⟩ := List.mem_filterMap.1 hb
      obtain ⟨i, hi, rfl⟩ := List.mem_map.1 hs
      have hproper := ih i hi
      cases hsegment : i.segment with
      | free l =>
        rw [hsegment] at hblock
        cases hblock
      | block b' =>
        rw [hsegment] at hblock hproper
        cases hblock
        exact hproper.2
    refine ⟨hkind, ?_⟩
    rw [Block.IsClosed, hopen, linesOfAll_eq_lines,
      Outline.closes_append (by decide) (braceBalance_of_mem_freeLines hbody) hblocks,
      Block.Closes, Block.Closes, hclose]
    decide

/-- Valid items are read back. -/
theorem ofLines_linesOfAll {depth : Int} {is : List Item} (h : ∀ i ∈ is, i.Valid depth) :
    Outline.ofLines (linesOfAll is) = is.map segment := by
  rw [linesOfAll_eq_lines]
  refine Outline.ofLines_lines fun s hs => ?_
  obtain ⟨i, hi, rfl⟩ := List.mem_map.1 hs
  exact (h i hi).isProper

/-- The lines of properties are what is left of the free lines without the blank ones. -/
theorem filter_freeLines {depth : Int} {is : List Item} (h : ∀ i ∈ is, i.Valid depth) :
    (Outline.freeLines (is.map segment)).filter (fun l => Line.kind l != .blank) =
      is.filterMap propertyLine? := by
  induction is with
  | nil => rfl
  | cons i is ih =>
    have hrest := ih fun j hj => h j (by simp [hj])
    cases h i (by simp) with
    | blank hkind => simpa [segment, propertyLine?, hkind, List.filterMap_cons] using hrest
    | property hkind => simpa [segment, propertyLine?, hkind, List.filterMap_cons] using hrest
    | single => simpa [segment, propertyLine?, List.filterMap_cons] using hrest
    | nest => simpa [segment, propertyLine?, List.filterMap_cons] using hrest

theorem of_mem_propertyLines {depth : Int} {is : List Item} (h : ∀ i ∈ is, i.Valid depth)
    {l : Line} (hl : l ∈ is.filterMap propertyLine?) : Record.IsWhole l ∧ '}' ∉ l := by
  obtain ⟨i, hi, hline⟩ := List.mem_filterMap.1 hl
  cases h i hi with
  | blank => cases hline
  | property _ _ hclose hwhole =>
    cases hline
    exact ⟨hwhole, hclose⟩
  | single => cases hline
  | nest => cases hline

/-! ## Writing items -/

/-- The keys and the lines that the blocks among items are written with. -/
def written (f : Filter) (depth : Int) (is : List Item) : List (Text × List Line) :=
  (blocks is).map fun b => (Line.blockKey b.opening, Node.canonicalLines f depth b)

/-- Written blocks are in order as their nodes are. -/
theorem sortByKey_written (f : Filter) (depth : Int) (is : List Item) :
    Node.sortByKey Prod.fst (written f depth is) =
      (Node.sortByKey Node.key ((blocks is).map (Node.ofBlock f depth))).map
        fun n => (n.key, n.lines) := by
  have hpairs : written f depth is =
      ((blocks is).map (Node.ofBlock f depth)).map fun n => (n.key, n.lines) := by
    rw [written, List.map_map]
    refine List.map_congr_left fun b _ => ?_
    rw [Function.comp_apply, Node.key_ofBlock]
    rfl
  rw [hpairs]
  exact (Node.map_sortByKey _ fun _ _ => rfl).symm

/-- A valid block is written with its records and its children in the order of their keys;
    nothing else of its body is left. -/
theorem canonicalLines_nest {f : Filter} (hsort : f.sortProperties) {depth : Int}
    {opening closing : Line} {body : List Item} (h : (nest opening body closing).Valid depth) :
    Node.canonicalLines f depth ⟨opening, linesOfAll body ++ [closing]⟩ =
      opening ::
        ((Node.sortByKey Line.propertyKey (records body)).map
            (fun r => Property.line opening (Property.ofRecord f r))
          ++ (Node.sortByKey Prod.fst (written f (depth + 1) body)).flatMap Prod.snd
          ++ [closing]) := by
  cases h with
  | nest hdepth _ _ _ _ hbody =>
    generalize hb : (⟨opening, linesOfAll body ++ [closing]⟩ : Block) = b
    have hrest : b.rest ≠ [] := by simp [← hb]
    have hopening : b.opening = opening := by rw [← hb]
    have hclosing : b.closing = closing := by simp [← hb, Block.closing]
    have houtline : b.outline = body.map segment := by
      rw [← ofLines_linesOfAll hbody, Block.outline, ← hb, Block.body, List.dropLast_concat]
    have hproperties : Property.ofLines f b.propertyLines =
        (records body).map (Property.ofRecord f) := by
      rw [Block.propertyLines, houtline, filter_freeLines hbody, Property.ofLines_eq_map, records,
        List.map_map]
      · rfl
      · exact fun l hl => (of_mem_propertyLines hbody hl).1
      · exact fun l hl => (of_mem_propertyLines hbody hl).2
    have hsorted : (Node.sortByKey Property.key ((records body).map (Property.ofRecord f))).map
        (Property.line opening) = (Node.sortByKey Line.propertyKey (records body)).map
          fun r => Property.line opening (Property.ofRecord f r) := by
      rw [Property.sortByKey_map_ofRecord, List.map_map]
      rfl
    have hchildren : (Node.sortByKey Node.key
        ((blocks body).map (Node.build f (Node.levelsFrom (depth + 1)) (depth + 1)))).flatMap
          Node.lines = (Node.sortByKey Prod.fst (written f (depth + 1) body)).flatMap Prod.snd := by
      rw [sortByKey_written, List.flatMap_map]
      rfl
    rw [Node.canonicalLines, Node.ofBlock, Node.levelsFrom_of_le hdepth,
      Node.lines_build hsort _ _ hrest, hopening, hclosing, hproperties, houtline,
      blocks_segments, hsorted, hchildren]

/-! ## Reordered items -/

/-- Items that are written alike: the records are the same but for their order, and so are
    the blocks in the way they are written. -/
structure Alike (f : Filter) (depth : Int) (is js : List Item) : Prop where
  valid : ∀ j ∈ js, j.Valid depth
  records : (records is).Perm (records js)
  written : (written f depth is).Perm (written f depth js)

section Alike

variable {f : Filter} {depth : Int} {is js : List Item}

theorem map_fst_written (f : Filter) (depth : Int) (is : List Item) :
    (written f depth is).map Prod.fst = (blocks is).map fun b => Line.blockKey b.opening := by
  rw [written, List.map_map]
  rfl

theorem Distinct.of_alike (h : Distinct is) (halike : Alike f depth is js) : Distinct js where
  properties := (halike.records.map Line.propertyKey).nodup_iff.1 h.properties
  blocks := by
    rw [← map_fst_written f depth]
    apply (halike.written.map Prod.fst).nodup_iff.1
    rw [map_fst_written]
    exact h.blocks

/-- Items that are written alike are written the same once they are in order. -/
theorem Alike.sorted (halike : Alike f depth is js) (h : Distinct is) :
    Node.sortByKey Line.propertyKey (Item.records is) =
        Node.sortByKey Line.propertyKey (Item.records js) ∧
      Node.sortByKey Prod.fst (Item.written f depth is) =
        Node.sortByKey Prod.fst (Item.written f depth js) := by
  refine ⟨Node.sortByKey_eq_of_perm halike.records h.properties,
    Node.sortByKey_eq_of_perm halike.written ?_⟩
  rw [map_fst_written]
  exact h.blocks

/-- The bodies of a block may be exchanged for one another if they are written alike. -/
theorem Alike.canonicalLines_eq (hsort : f.sortProperties) {opening closing : Line}
    (halike : Alike f (depth + 1) is js) (h : (nest opening is closing).Valid depth) :
    (nest opening js closing).Valid depth ∧
      Node.canonicalLines f depth ⟨opening, linesOfAll is ++ [closing]⟩ =
        Node.canonicalLines f depth ⟨opening, linesOfAll js ++ [closing]⟩ := by
  have hvalid : (nest opening js closing).Valid depth := by
    cases h with
    | nest hdepth hkind hopen hclose hdistinct _ =>
      exact .nest hdepth hkind hopen hclose (hdistinct.of_alike halike) halike.valid
  refine ⟨hvalid, ?_⟩
  cases h with
  | nest hdepth hkind hopen hclose hdistinct hbody =>
    obtain ⟨hrecords, hwritten⟩ := halike.sorted hdistinct
    rw [canonicalLines_nest hsort (.nest hdepth hkind hopen hclose hdistinct hbody),
      canonicalLines_nest hsort hvalid, hrecords, hwritten]

end Alike

theorem mem_of_trim_eq {l k : Line} (h : Text.trim l = Text.trim k) {c : Char}
    (hc : ¬ isBlank c) (hmem : c ∈ k) : c ∈ l := by
  apply Text.mem_of_mem_trim
  rw [h]
  exact Text.mem_trim hmem hc

/-- Reordered items are written alike: by induction on how they are reordered, and the
    bodies of blocks with them. -/
theorem Reordered.alike {f : Filter} (hsort : f.sortProperties) {depth : Int}
    {is js : List Item} (h : Reordered is js) (hvalid : ∀ i ∈ is, i.Valid depth) :
    Alike f depth is js := by
  induction h generalizing depth with
  | nil => exact ⟨hvalid, .refl _, .refl _⟩
  | blank_left _ ih =>
    obtain ⟨hjs, hrecords, hwritten⟩ := ih fun i hi => hvalid i (by simp [hi])
    exact ⟨hjs, hrecords, hwritten⟩
  | blank_right hkind _ ih =>
    obtain ⟨hjs, hrecords, hwritten⟩ := ih hvalid
    exact ⟨List.forall_mem_cons.2 ⟨.blank hkind, hjs⟩, hrecords, hwritten⟩
  | @property l k is js htrim _ ih =>
    obtain ⟨hl, his⟩ := List.forall_mem_cons.1 hvalid
    obtain ⟨hjs, hrecords, hwritten⟩ := ih his
    have hk : (Item.property k).Valid depth := by
      cases hl with
      | property hkind hopen hclose hwhole =>
        refine .property ?_ ?_ ?_ ?_
        · rw [← Line.kind_congr htrim, hkind]
        · exact fun hmem => hopen (mem_of_trim_eq htrim (by decide) hmem)
        · exact fun hmem => hclose (mem_of_trim_eq htrim (by decide) hmem)
        · rw [Record.IsWhole, ← htrim]
          exact hwhole
    refine ⟨List.forall_mem_cons.2 ⟨hk, hjs⟩, ?_, hwritten⟩
    have hcons : ∀ (m : Line) (ks : List Item),
        Item.records (Item.property m :: ks) = Text.trim m :: Item.records ks := fun _ _ => rfl
    rw [hcons, hcons, htrim]
    exact hrecords.cons _
  | @single opening is js _ ih =>
    obtain ⟨hopening, his⟩ := List.forall_mem_cons.1 hvalid
    obtain ⟨hjs, hrecords, hwritten⟩ := ih his
    exact ⟨List.forall_mem_cons.2 ⟨hopening, hjs⟩, hrecords, hwritten.cons _⟩
  | @nest opening closing body body' is js _ _ ihbody ih =>
    obtain ⟨hnest, his⟩ := List.forall_mem_cons.1 hvalid
    obtain ⟨hjs, hrecords, hwritten⟩ := ih his
    have hbody : Alike f (depth + 1) body body' := by
      cases hnest with
      | nest _ _ _ _ _ hbody => exact ihbody hbody
    obtain ⟨hnest', heq⟩ := hbody.canonicalLines_eq hsort hnest
    refine ⟨List.forall_mem_cons.2 ⟨hnest', hjs⟩, hrecords, ?_⟩
    have hcons : ∀ (inner ks : List Item),
        Item.written f depth (Item.nest opening inner closing :: ks) =
          (Line.blockKey opening,
              Node.canonicalLines f depth ⟨opening, linesOfAll inner ++ [closing]⟩)
            :: Item.written f depth ks := fun _ _ => rfl
    rw [hcons, hcons, heq]
    exact hwritten.cons _
  | swap i j is =>
    have hperm : (i :: j :: is).Perm (j :: i :: is) := .swap _ _ _
    exact ⟨fun k hk => hvalid k (hperm.mem_iff.2 hk), (hperm.filterMap _).map _,
      (hperm.filterMap _).map _⟩
  | trans _ _ ih ih' =>
    obtain ⟨hjs, hrecords, hwritten⟩ := ih hvalid
    obtain ⟨hks, hrecords', hwritten'⟩ := ih' hjs
    exact ⟨hks, hrecords.trans hrecords', hwritten.trans hwritten'⟩

end Item

/-! ## Documents -/

namespace Document

open Item

/-- Blocks with lines behind each of them. -/
def alternate : List Block → List (List Line) → Outline
  | b :: bs, gap :: gaps => .block b :: (gap.map .free ++ alternate bs gaps)
  | _, _ => []

/-- A text whose outermost blocks are the given items, with free lines in front of the first
    and a gap of free lines behind each. -/
structure IsLaidOut (leading : List Line) (gaps : List (List Line)) (is : List Item)
    (t : Text) : Prop where
  lines_eq : Text.lines t = leading ++ (alternate (blocks is) gaps).lines
  isBlock : ∀ i ∈ is, (block? i).isSome
  length_eq : is.length = gaps.length
  kind_leading : ∀ l ∈ leading, Line.kind l ≠ .opener
  kind_gaps : ∀ gap ∈ gaps, ∀ l ∈ gap, Line.kind l ≠ .opener

theorem lines_map_free (ls : List Line) : Outline.lines (ls.map .free) = ls := by
  induction ls with
  | nil => rfl
  | cons l ls ih => simp [Segment.lines, ih]

theorem blocks_append_map_free (ls : List Line) (o : Outline) :
    Outline.blocks (ls.map .free ++ o) = o.blocks := by
  induction ls with
  | nil => rfl
  | cons l ls ih => simp [ih]

theorem refill_append_map_free (bs : List Block) (ls : List Line) (o : Outline) :
    Outline.refill bs (ls.map .free ++ o) = ls.map .free ++ Outline.refill bs o := by
  induction ls with
  | nil => rfl
  | cons l ls ih => simp [Outline.refill, ih]

theorem blocks_alternate {bs : List Block} {gaps : List (List Line)}
    (h : bs.length = gaps.length) : (alternate bs gaps).blocks = bs := by
  induction bs generalizing gaps with
  | nil => rfl
  | cons b bs ih =>
    cases gaps with
    | nil => simp at h
    | cons gap gaps =>
      rw [alternate, Outline.blocks_block, blocks_append_map_free, ih (by simpa using h)]

/-- Other blocks go between the same gaps. -/
theorem refill_alternate {bs cs : List Block} {gaps : List (List Line)}
    (hb : bs.length = gaps.length) (hc : cs.length = gaps.length) :
    Outline.refill cs (alternate bs gaps) = alternate cs gaps := by
  induction gaps generalizing bs cs with
  | nil =>
    rw [List.length_eq_zero_iff.1 hb, List.length_eq_zero_iff.1 hc]
    rfl
  | cons gap gaps ih =>
    cases bs with
    | nil => simp at hb
    | cons b bs =>
      cases cs with
      | nil => simp at hc
      | cons c cs =>
        rw [alternate, Outline.refill, refill_append_map_free,
          ih (by simpa using hb) (by simpa using hc), alternate]

variable {f : Filter} {leading : List Line} {gaps : List (List Line)} {is js : List Item}

theorem mem_alternate {bs : List Block} {s : Segment} (h : s ∈ alternate bs gaps) :
    (∃ gap ∈ gaps, ∃ l ∈ gap, s = .free l) ∨ ∃ b ∈ bs, s = .block b := by
  induction bs generalizing gaps with
  | nil => cases h
  | cons b bs ih =>
    cases gaps with
    | nil => cases h
    | cons gap gaps =>
      rw [alternate, List.mem_cons, List.mem_append, List.mem_map] at h
      rcases h with rfl | ⟨l, hl, rfl⟩ | h
      · exact .inr ⟨b, by simp, rfl⟩
      · exact .inl ⟨gap, by simp, l, hl, rfl⟩
      · rcases ih h with ⟨gap', hgap, hl⟩ | ⟨c, hc, rfl⟩
        · exact .inl ⟨gap', by simp [hgap], hl⟩
        · exact .inr ⟨c, by simp [hc], rfl⟩

/-- The blocks of a text that is laid out are as many as there are gaps. -/
theorem IsLaidOut.length_blocks {t : Text} (h : IsLaidOut leading gaps is t) :
    (blocks is).length = gaps.length := by
  rw [← h.length_eq, blocks, List.length_filterMap_eq_countP, List.countP_eq_length]
  exact h.isBlock

/-- A text that is laid out with valid blocks is read as it is laid out. -/
theorem IsLaidOut.ofLines_eq {t : Text} (h : IsLaidOut leading gaps is t)
    (hvalid : ∀ i ∈ is, i.Valid 0) :
    Outline.ofLines (Text.lines t) = leading.map .free ++ alternate (blocks is) gaps := by
  have hlines : Text.lines t =
      Outline.lines (leading.map .free ++ alternate (blocks is) gaps) := by
    rw [Outline.lines_append, lines_map_free, h.lines_eq]
  rw [hlines]
  refine Outline.ofLines_lines fun s hs => ?_
  rcases List.mem_append.1 hs with hs | hs
  · obtain ⟨l, hl, rfl⟩ := List.mem_map.1 hs
    exact h.kind_leading l hl
  · rcases mem_alternate hs with ⟨gap, hgap, l, hl, rfl⟩ | ⟨b, hb, rfl⟩
    · exact h.kind_gaps gap hgap l hl
    · obtain ⟨i, hi, hblock⟩ := List.mem_filterMap.1 hb
      have hproper := (hvalid i hi).isProper
      cases i with
      | blank => cases hblock
      | property => cases hblock
      | single => cases hblock; exact hproper
      | nest => cases hblock; exact hproper

/-- What a laid out text is written as: its own free lines, and the nodes of its blocks
    between them in order. -/
theorem IsLaidOut.canonicalLines_eq {t : Text} (h : IsLaidOut leading gaps is t)
    (hvalid : ∀ i ∈ is, i.Valid 0) :
    ∃ bs : List Block, bs.map Block.lines =
        (Node.sortByKey Prod.fst (written f 0 is)).map Prod.snd ∧
      canonicalLines f (Text.lines t) = leading ++ (alternate bs gaps).lines := by
  have houtline := h.ofLines_eq hvalid
  have hblocks : (Outline.ofLines (Text.lines t)).blocks = blocks is := by
    rw [houtline, blocks_append_map_free, blocks_alternate h.length_blocks]
  refine ⟨(orderedNodes f (Outline.ofLines (Text.lines t))).map Node.block, ?_, ?_⟩
  · rw [sortByKey_written, orderedNodes, hblocks, List.map_map, List.map_map]
    exact List.map_congr_left fun n _ => n.lines_block
  · rw [canonicalLines_eq_lines, emitted]
    rw [houtline] at hblocks ⊢
    rw [refill_append_map_free, Outline.lines_append, lines_map_free, refill_alternate]
    · exact h.length_blocks
    · rw [List.length_map, length_orderedNodes, hblocks, h.length_blocks]

/-- Blocks that are reordered within, and texts whose outermost blocks are reordered between
    the same free lines, are written the same. -/
theorem canonical_eq_of_reordered (hsort : f.sortProperties) :
    (∀ (depth : Int) (opening closing : Line) (body body' : List Item),
      (nest opening body closing).Valid depth → Reordered body body' →
        Node.canonicalLines f depth ⟨opening, linesOfAll body ++ [closing]⟩ =
          Node.canonicalLines f depth ⟨opening, linesOfAll body' ++ [closing]⟩) ∧
      ∀ (leading : List Line) (gaps : List (List Line)) (is js : List Item) (t t' : Text),
        IsLaidOut leading gaps is t → IsLaidOut leading gaps js t' →
          (∀ i ∈ is, i.Valid 0) → Distinct is → Reordered is js →
            normalize f t = normalize f t' := by
  refine ⟨?_, ?_⟩
  · intro depth opening closing body body' hvalid h
    have hbody : ∀ i ∈ body, i.Valid (depth + 1) := by
      cases hvalid with
      | nest _ _ _ _ _ hbody => exact hbody
    exact ((h.alike hsort hbody).canonicalLines_eq hsort hvalid).2
  · intro leading gaps is js t t' ht ht' hvalid hdistinct h
    have halike := h.alike hsort hvalid
    obtain ⟨bs, hbs, hlines⟩ := ht.canonicalLines_eq (f := f) hvalid
    obtain ⟨cs, hcs, hlines'⟩ := ht'.canonicalLines_eq (f := f) halike.valid
    have hsame : bs = cs := by
      apply List.map_injective_iff.2 (fun _ _ heq => Block.lines_injective heq)
      rw [hbs, hcs, (halike.sorted hdistinct).2]
    rw [normalize, if_pos hsort, normalize, if_pos hsort, hlines, hlines', hsame]

/-- A node with a property and a child. -/
def socBody : List Item :=
  [.property "  reg = <0x1>;".toList,
    .nest "uart@1 \x7b".toList [.property "x;".toList] "\x7d;".toList]

/-- The same node with both exchanged, indented anew, and with a blank line. -/
def socBodyReordered : List Item :=
  [.nest "uart@1 \x7b".toList [.blank [], .property "\tx;".toList] "\x7d;".toList,
    .property "reg = <0x1>;".toList]

theorem reordered_socBody : Reordered socBody socBodyReordered :=
  .trans (.swap _ _ _)
    (.nest (.blank_right (by decide) (.property (by decide) .nil)) (.property (by decide) .nil))

theorem valid_soc : (Item.nest "soc \x7b".toList socBody "\x7d;".toList).Valid 0 := by
  refine .nest (by decide) (by decide) (by decide) (by decide) ⟨by decide, by decide⟩ ?_
  intro i hi
  rcases List.mem_pair.1 hi with rfl | rfl
  · exact .property (by decide) (by decide) (by decide) (by decide)
  · refine .nest (by decide) (by decide) (by decide) (by decide) ⟨by decide, by decide⟩ ?_
    intro i hi
    rw [List.mem_singleton.1 hi]
    exact .property (by decide) (by decide) (by decide) (by decide)

theorem canonical_eq_of_reordered_soc :
    Node.canonicalLines .semantic 0 ⟨"soc \x7b".toList, linesOfAll socBody ++ ["\x7d;".toList]⟩ =
        Node.canonicalLines .semantic 0
          ⟨"soc \x7b".toList, linesOfAll socBodyReordered ++ ["\x7d;".toList]⟩ ∧
      normalize .semantic (Text.unlines (["/ \x7b", "soc \x7b", "  reg = <0x1>;", "uart@1 \x7b", "x;",
          "\x7d;", "\x7d;", "", "aux \x7b \x7d;", "\x7d;"].map String.toList)) =
        normalize .semantic (Text.unlines (["/ \x7b", "aux \x7b \x7d;", "", "soc \x7b", "uart@1 \x7b", "",
          "\tx;", "\x7d;", "reg = <0x1>;", "\x7d;", "\x7d;"].map String.toList)) := by
  obtain ⟨hblock, hdocument⟩ := canonical_eq_of_reordered (f := .semantic) rfl
  have hvalid : ∀ i ∈ [.nest "soc \x7b".toList socBody "\x7d;".toList,
      .single "aux \x7b \x7d;".toList], Item.Valid 0 i := by
    intro i hi
    rcases List.mem_pair.1 hi with rfl | rfl
    · exact valid_soc
    · exact .single (by decide) (by decide) (by decide)
  refine ⟨hblock 0 _ _ socBody socBodyReordered valid_soc reordered_socBody, ?_⟩
  refine hdocument ["/ \x7b".toList] [[[]], ["\x7d;".toList]] _
    [.single "aux \x7b \x7d;".toList, .nest "soc \x7b".toList socBodyReordered "\x7d;".toList]
    _ _ ⟨?_, ?_, ?_, ?_, ?_⟩ ⟨?_, ?_, ?_, ?_, ?_⟩ hvalid ⟨?_, ?_⟩
    (.trans (.swap _ _ _) (.single (.nest reordered_socBody .nil)))
  all_goals decide

end Document

end Devicetree
