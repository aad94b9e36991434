-- SUMMARY: What the outermost blocks of a document stand in, before and after they are ordered.
import Devicetree.Proofs.Document.Canonical

/-!
# Enclosing lines

Free lines such as `/ {` open a brace that a later free line closes. The outermost
blocks between the two stand inside it. Ordering moves blocks and leaves free lines
in their slots, so what a slot stands in never changes, whichever block it holds.
A block that takes the slot of another one may come to stand in something else: only
where no two blocks that stand in different lines change their order does each keep
what it stands in.
-/

namespace Devicetree

/-! ## Slots -/

/-- Read a free line under the lines that are open, the last one first: each opening brace
    of the line opens it, each closing one closes the last line that is open. -/
def Line.enter (stack : List Line) (l : Line) : List Line :=
  l.foldl (fun stack c =>
    if c = '{' then l :: stack else if c = '}' then stack.tail else stack) stack

/-- A slot of an outermost block: the free lines that are open around it, the last one
    first, and the line that opens the block. -/
structure Slot where
  enclosing : List Line
  declaration : Line
deriving DecidableEq, Repr

namespace Slot

/-- The key that orders the block at a slot. -/
def key (p : Slot) : Text :=
  Line.blockKey p.declaration

/-- No slot comes before one with a smaller key that stands in something else. -/
def Uncrossed (ps : List Slot) : Prop :=
  ps.Pairwise fun p q => Text.le p.key q.key ∨ p.enclosing = q.enclosing

instance (ps : List Slot) : Decidable (Uncrossed ps) :=
  inferInstanceAs (Decidable (ps.Pairwise fun p q =>
    Text.le p.key q.key ∨ p.enclosing = q.enclosing))

theorem ext_maps {ps qs : List Slot} (henclosing : ps.map enclosing = qs.map enclosing)
    (hdeclaration : ps.map declaration = qs.map declaration) : ps = qs := by
  induction ps generalizing qs with
  | nil =>
    cases qs with
    | nil => rfl
    | cons q qs => cases henclosing
  | cons p ps ih =>
    cases qs with
    | nil => cases henclosing
    | cons q qs =>
      rw [List.map_cons, List.map_cons, List.cons.injEq] at henclosing hdeclaration
      have hpq : p = q := by
        cases p
        cases q
        simpa using ⟨henclosing.1, hdeclaration.1⟩
      rw [hpq, ih henclosing.2 hdeclaration.2]

/-- Where no slots cross, sorting does not change what the first, the second and every
    further slot stands in. -/
theorem Uncrossed.map_enclosing {ps : List Slot} (h : Uncrossed ps) :
    (Node.sortByKey key ps).map enclosing = ps.map enclosing := by
  have hmove : ∀ (us vs : List Slot) (p : Slot), (∀ u ∈ us, u.enclosing = p.enclosing) →
      (us ++ p :: vs).map enclosing = p.enclosing :: (us ++ vs).map enclosing := by
    intro us vs p hus
    induction us with
    | nil => rfl
    | cons u us ih =>
      rw [List.cons_append, List.map_cons, ih fun u' hu' => hus u' (by simp [hu']),
        List.cons_append, List.map_cons, hus u (by simp)]
  induction ps with
  | nil => rw [Node.sortByKey_eq_self List.Pairwise.nil]
  | cons p ps ih =>
    obtain ⟨hp, hps⟩ := List.pairwise_cons.1 h
    obtain ⟨us, vs, hcons, hrest, hsmaller⟩ := Node.sortByKey_cons key p ps
    have hus : ∀ u ∈ us, u.enclosing = p.enclosing := by
      intro u hu
      have hsorted : u ∈ Node.sortByKey key ps := by
        rw [hrest]
        simp [hu]
      have hmem : u ∈ ps := Node.mem_sortByKey.1 hsorted
      exact ((hp u hmem).resolve_left (hsmaller u hu)).symm
    rw [hcons, hmove us vs p hus, ← hrest, ih hps, List.map_cons]

end Slot

namespace Outline

/-- The slots of the blocks of an outline, under the lines that are open in front of it. -/
def slotsFrom : (stack : List Line) → Outline → List Slot
  | _, [] => []
  | stack, .free l :: o => slotsFrom (Line.enter stack l) o
  | stack, .block b :: o => ⟨stack, b.opening⟩ :: slotsFrom stack o

/-- The slots of the outermost blocks. -/
def slots (o : Outline) : List Slot :=
  slotsFrom [] o

theorem map_declaration_slotsFrom (stack : List Line) (o : Outline) :
    (slotsFrom stack o).map Slot.declaration = o.blocks.map Block.opening := by
  induction o generalizing stack with
  | nil => rfl
  | cons s o ih => cases s <;> simp [slotsFrom, ih]

/-- What the slots of an outline stand in does not depend on the blocks that fill them. -/
theorem map_enclosing_slotsFrom_refill {bs : List Block} {o : Outline}
    (h : bs.length = o.blocks.length) (stack : List Line) :
    (slotsFrom stack (refill bs o)).map Slot.enclosing =
      (slotsFrom stack o).map Slot.enclosing := by
  induction o generalizing bs stack with
  | nil => rfl
  | cons s o ih =>
    cases s with
    | free l => exact ih h _
    | block b =>
      cases bs with
      | nil => simp at h
      | cons b' bs =>
        have hrest : (slotsFrom stack (refill bs o)).map Slot.enclosing =
            (slotsFrom stack o).map Slot.enclosing := ih (by simpa using h) stack
        rw [refill, slotsFrom, List.map_cons, hrest, slotsFrom, List.map_cons]

end Outline

/-! ## Documents -/

namespace Document

/-- Ordering leaves what each slot stands in as it was. -/
theorem map_enclosing_slots (f : Filter) (ls : List Line) :
    (emitted f ls).slots.map Slot.enclosing =
      (Outline.ofLines ls).slots.map Slot.enclosing :=
  Outline.map_enclosing_slotsFrom_refill (by simp) []

/-- Ordering puts the blocks into the slots in the order of their keys. -/
theorem map_declaration_slots (f : Filter) (ls : List Line) :
    (emitted f ls).slots.map Slot.declaration =
      Node.sortByKey Line.blockKey ((Outline.ofLines ls).slots.map Slot.declaration) := by
  have hnodes : (orderedNodes f (Outline.ofLines ls)).map Node.opening =
      Node.sortByKey Line.blockKey ((Outline.ofLines ls).blocks.map Block.opening) := by
    have hmap : ((Outline.ofLines ls).blocks.map (Node.ofBlock f 0)).map Node.opening =
        (Outline.ofLines ls).blocks.map Block.opening := by
      rw [List.map_map]
      exact List.map_congr_left fun b _ => Node.opening_ofBlock f 0 b
    rw [← hmap]
    exact Node.map_sortByKey _ fun _ _ => rfl
  rw [Outline.slots, Outline.slots, Outline.map_declaration_slotsFrom,
    Outline.map_declaration_slotsFrom, blocks_emitted, List.map_map, ← hnodes]
  rfl

/-- Where no slots cross, ordering puts the slots themselves in order. -/
theorem slots_emitted {f : Filter} {ls : List Line}
    (h : Slot.Uncrossed (Outline.ofLines ls).slots) :
    (emitted f ls).slots = Node.sortByKey Slot.key (Outline.ofLines ls).slots := by
  refine Slot.ext_maps ?_ ?_
  · rw [h.map_enclosing, map_enclosing_slots]
  · rw [map_declaration_slots]
    exact (Node.map_sortByKey (g := Slot.declaration) _ fun _ _ => rfl).symm

/-- A document is written as an outline whose slots stand in what they stood in before,
    with the blocks put into them in the order of their keys. So the blocks keep what they
    stand in if no slots cross. The outline is read back from the text if the blocks in it
    are closed. -/
theorem normalize_slots {f : Filter} (hsort : f.sortProperties) (t : Text) :
    Text.lines (normalize f t) = (emitted f (Text.lines t)).lines ∧
      ((∀ b ∈ (emitted f (Text.lines t)).blocks, b.IsClosed) →
        Outline.ofLines (Text.lines (normalize f t)) = emitted f (Text.lines t)) ∧
      (emitted f (Text.lines t)).slots.map Slot.enclosing =
        (Outline.ofLines (Text.lines t)).slots.map Slot.enclosing ∧
      (emitted f (Text.lines t)).slots.map Slot.declaration =
        Node.sortByKey Line.blockKey
          ((Outline.ofLines (Text.lines t)).slots.map Slot.declaration) ∧
      (Slot.Uncrossed (Outline.ofLines (Text.lines t)).slots →
        (emitted f (Text.lines t)).slots.Perm (Outline.ofLines (Text.lines t)).slots) := by
  refine ⟨?_, ?_, map_enclosing_slots f _, map_declaration_slots f _, ?_⟩
  · rw [lines_normalize hsort, canonicalLines_eq_lines]
  · intro hclosed
    rw [lines_normalize hsort, canonicalLines_eq_lines, ofLines_emitted hclosed]
  · intro h
    rw [slots_emitted h]
    exact Node.sortByKey_perm _ _

/-- Two nodes in one block, one of them behind the other by its key. -/
def oneRoot : Text :=
  Text.unlines (["/ \x7b", "b \x7b", "\x7d;", "a \x7b", "x;", "\x7d;", "\x7d;"].map String.toList)

/-- The slots of a document in which no slots cross are the same before and after. -/
theorem normalize_slots_oneRoot :
    (Outline.ofLines (Text.lines (normalize .semantic oneRoot))).slots.Perm
      (Outline.ofLines (Text.lines oneRoot)).slots := by
  have hwell : WellFormed .semantic oneRoot := by decide +kernel
  have hslots : Slot.Uncrossed (Outline.ofLines (Text.lines oneRoot)).slots := by
    decide +kernel
  obtain ⟨-, hread, -, -, hperm⟩ := normalize_slots (f := .semantic) rfl oneRoot
  rw [hread (isClosed_of_wellFormed rfl hwell)]
  exact hperm hslots

/-- Two nodes, each in a block of its own. -/
def twoRoots : Text :=
  Text.unlines (["/ \x7b", "b \x7b", "\x7d;", "\x7d;", "&x \x7b", "a \x7b", "\x7d;",
    "\x7d;"].map String.toList)

/-- Slots that cross exchange their blocks: the nodes of two roots come to stand in one
    another's. -/
theorem normalize_exchanges_twoRoots :
    ¬ (Outline.ofLines (Text.lines (normalize .semantic twoRoots))).slots.Perm
      (Outline.ofLines (Text.lines twoRoots)).slots := by
  have hwell : WellFormed .semantic twoRoots := by decide +kernel
  have hread : Outline.ofLines (Text.lines (normalize .semantic twoRoots)) =
      emitted .semantic (Text.lines twoRoots) := by
    rw [lines_normalize rfl, canonicalLines_eq_lines, ofLines_emitted_of_wellFormed rfl hwell]
  have hsorted : Node.sortByKey Line.blockKey
      ((Outline.ofLines (Text.lines twoRoots)).slots.map Slot.declaration) =
        ["a \x7b".toList, "b \x7b".toList] :=
    Node.sortByKey_eq_of_ascending (by decide +kernel) (by decide +kernel) (by decide +kernel)
  have hslots : (emitted .semantic (Text.lines twoRoots)).slots =
      [⟨["/ \x7b".toList], "a \x7b".toList⟩, ⟨["&x \x7b".toList], "b \x7b".toList⟩] := by
    refine Slot.ext_maps ?_ ?_
    · rw [map_enclosing_slots]
      decide +kernel
    · rw [map_declaration_slots, hsorted]
      rfl
  rw [hread, hslots]
  decide +kernel

end Document

end Devicetree
