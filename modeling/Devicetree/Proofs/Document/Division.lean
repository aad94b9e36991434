-- SUMMARY: A document is divided into blocks and gaps, and written with its blocks in order between the same gaps.
import Mathlib.Data.List.OfFn
import Devicetree.Proofs.Source.Nodes

/-!
# Divisions

A document consists of free lines in front and of blocks, each with a gap of free
lines behind it. Ordering keeps what stands in front and every gap where it is, and
puts the blocks between them in the order of their keys. Nothing else happens to the
lines of a document: the `k`-th gap comes behind the block that is `k`-th in order.
-/

namespace Devicetree

/-- Lines as the free lines in front and the blocks, each with the free lines behind it. -/
structure Division where
  leading : List Line
  parts : List (Block × List Line)

namespace Division

/-- The lines of blocks and of the gaps behind them. -/
def linesOfParts (ps : List (Block × List Line)) : List Line :=
  ps.flatMap fun p => p.1.lines ++ p.2

def lines (d : Division) : List Line :=
  d.leading ++ linesOfParts d.parts

/-- The block at a place. -/
def block (d : Division) (i : Fin d.parts.length) : Block :=
  (d.parts.get i).1

/-- The free lines behind the block at a place. -/
def gap (d : Division) (i : Fin d.parts.length) : List Line :=
  (d.parts.get i).2

/-- The lines behind the block at a place. -/
def behind (d : Division) (i : Fin d.parts.length) : List Line :=
  d.gap i ++ linesOfParts (d.parts.drop (i + 1))

/-- Each block starts where a line opens one and reaches as far as its braces say, and no other
line opens a block. -/
structure IsSound (d : Division) : Prop where
  leading : ∀ l ∈ d.leading, Line.kind l ≠ .opener
  opening : ∀ i, Line.kind (d.block i).opening = .opener
  gap : ∀ i, ∀ l ∈ d.gap i, Line.kind l ≠ .opener
  shortest : ∀ i, (d.block i).IsShortest (d.behind i)

/-- The key of a block with a gap behind it. -/
def partKey (p : Block × List Line) : Text :=
  Line.blockKey p.1.opening

/-- The lines of a document with the blocks of other places between its gaps, each of them in
canonical order. -/
def written (f : Filter) (d : Division) (s : Equiv.Perm (Fin d.parts.length)) : List Line :=
  d.leading ++ (List.ofFn fun i => Node.canonicalLines f 0 (d.block (s i)) ++ d.gap i).flatten

end Division

/-! ## Outlines divided -/

namespace Outline

/-- The free lines in front of the first block. -/
def leading : Outline → List Line
  | .free l :: o => l :: leading o
  | _ => []

/-- The blocks, each with the free lines up to the next one. -/
def parts : Outline → List (Block × List Line)
  | [] => []
  | .free _ :: o => parts o
  | .block b :: o => (b, leading o) :: parts o

/-- The division of an outline. -/
def division (o : Outline) : Division :=
  ⟨o.leading, o.parts⟩

theorem lines_division (o : Outline) : o.division.lines = o.lines := by
  induction o with
  | nil => rfl
  | cons s o ih =>
    rw [lines_cons, ← ih]
    cases s with
    | free l => rfl
    | block b => simp [division, Division.lines, Division.linesOfParts, leading, parts, Segment.lines]

@[simp] theorem map_fst_parts (o : Outline) : o.parts.map Prod.fst = o.blocks := by
  induction o with
  | nil => rfl
  | cons s o ih => cases s <;> simp [parts, ih]

theorem free_mem_of_mem_leading {o : Outline} {l : Line} (h : l ∈ o.leading) : .free l ∈ o := by
  induction o with
  | nil => cases h
  | cons s o ih =>
    cases s with
    | block b => cases h
    | free k =>
      rcases List.mem_cons.1 h with rfl | h
      · exact List.mem_cons_self
      · exact List.mem_cons_of_mem _ (ih h)

theorem free_mem_of_mem_gap {o : Outline} {p : Block × List Line} (hp : p ∈ o.parts) {l : Line}
    (h : l ∈ p.2) : .free l ∈ o := by
  induction o with
  | nil => cases hp
  | cons s o ih =>
    apply List.mem_cons_of_mem
    cases s with
    | free k => exact ih hp
    | block b =>
      rcases List.mem_cons.1 hp with rfl | hp
      · exact free_mem_of_mem_leading h
      · exact ih hp

/-- Each block of an outline is the shortest range in front of the lines behind it. -/
theorem isShortest_of_parts {ls : List Line} {ps qs : List (Block × List Line)}
    {p : Block × List Line} (h : (ofLines ls).parts = ps ++ p :: qs) :
    p.1.IsShortest (p.2 ++ Division.linesOfParts qs) := by
  -- A block takes several lines at once, so the induction is on how many there are.
  induction hn : ls.length using Nat.strong_induction_on generalizing ls ps with
  | _ n ih =>
  subst hn
  cases ls with
  | nil =>
    have hnil : (ofLines []).parts = [] := rfl
    simp [hnil] at h
  | cons l ls =>
    by_cases hkind : Line.kind l = .opener
    · rw [ofLines_cons_opener hkind, parts] at h
      cases ps with
      | nil =>
        obtain ⟨rfl, rfl⟩ := List.cons.inj h
        have hbehind := lines_division (ofLines (ls.drop (Block.openedBy l ls).rest.length))
        rw [lines_ofLines] at hbehind
        have hshortest := Block.isShortest_openedBy l ls
        rwa [← hbehind] at hshortest
      | cons q ps =>
        refine ih _ ?_ (List.cons.inj h).2 rfl
        rw [List.length_drop, List.length_cons]
        omega
    · rw [ofLines_cons_free hkind, parts] at h
      exact ih ls.length (by simp) h rfl

theorem isSound_division (ls : List Line) : (ofLines ls).division.IsSound where
  leading l hl := isSound_of_mem_ofLines (free_mem_of_mem_leading hl)
  opening i := by
    have hmem : (ofLines ls).division.block i ∈ (ofLines ls).blocks := by
      rw [← map_fst_parts]
      exact List.mem_map_of_mem (List.get_mem _ i)
    exact kind_of_mem_blocks hmem
  gap i l hl := isSound_of_mem_ofLines (free_mem_of_mem_gap (List.get_mem _ i) hl)
  shortest i := by
    apply isShortest_of_parts
    rw [List.get_eq_getElem, ← List.drop_eq_getElem_cons i.isLt]
    exact (List.take_append_drop i _).symm

end Outline

/-! ## Documents -/

namespace Document

/-- Nodes are written one by one in front of the gaps. -/
theorem fill_eq_zipWith {ns : List Node} {o : Outline} (h : ns.length = o.blocks.length) :
    fill ns o = o.leading ++
      (List.zipWith (fun n p => n.lines ++ p.2) ns o.parts).flatten := by
  induction o generalizing ns with
  | nil => simp [fill, Outline.leading, Outline.parts]
  | cons s o ih =>
    cases s with
    | free l => simpa [fill, Outline.leading, Outline.parts] using ih h
    | block b =>
      cases ns with
      | nil => simp at h
      | cons n ns =>
        have hrest := @ih ns (by simpa using h)
        simp [fill, Outline.leading, Outline.parts, hrest]

theorem fill_ofFn (o : Outline) (node : Fin o.parts.length → Node) :
    fill (List.ofFn node) o =
      o.leading ++ (List.ofFn fun i => (node i).lines ++ (o.parts.get i).2).flatten := by
  have hlength : (List.ofFn node).length = o.blocks.length := by
    simp [← Outline.map_fst_parts]
  rw [fill_eq_zipWith hlength]
  congr 2
  apply List.ext_getElem
  · simp
  · intro n hn hn'
    simp

/-- The blocks of a document are written in the order of their keys. -/
theorem exists_fill_eq_written (f : Filter) (o : Outline) :
    ∃ s, Node.Arranges Division.partKey o.division.parts s ∧
      fill (orderedNodes f o) o = o.division.written f s := by
  obtain ⟨s, hs, hsorted⟩ := Node.exists_arranges Division.partKey o.division.parts
  have hnodes : orderedNodes f o =
      List.ofFn fun i => Node.ofBlock f 0 (o.division.block (s i)) := by
    have hmap : (Node.sortByKey Division.partKey o.parts).map (fun p => Node.ofBlock f 0 p.1) =
        Node.sortByKey Node.key (o.parts.map fun p => Node.ofBlock f 0 p.1) :=
      Node.map_sortByKey _ fun p _ => Node.key_ofBlock f 0 p.1
    calc orderedNodes f o
      _ = Node.sortByKey Node.key (o.parts.map fun p => Node.ofBlock f 0 p.1) := by
        rw [orderedNodes, ← Outline.map_fst_parts, List.map_map]
        rfl
      _ = (List.ofFn fun i => o.division.parts.get (s i)).map fun p => Node.ofBlock f 0 p.1 := by
        rw [← hmap, ← hsorted]
        rfl
      _ = _ := List.map_ofFn
  refine ⟨s, hs, ?_⟩
  rw [hnodes]
  exact fill_ofFn o _

/-- Ordering a document puts its blocks, each in canonical order, between its free lines. -/
theorem normalize_division {f : Filter} (hsort : f.sortProperties) (t : Text) :
    ∃ d : Division, d.lines = Text.lines t ∧ d.IsSound ∧
      ∃ s, Node.Arranges Division.partKey d.parts s ∧
        Text.lines (normalize f t) = d.written f s := by
  obtain ⟨s, hs, hlines⟩ := exists_fill_eq_written f (Outline.ofLines (Text.lines t))
  refine ⟨(Outline.ofLines (Text.lines t)).division, ?_, Outline.isSound_division _, s, hs, ?_⟩
  · rw [Outline.lines_division, Outline.lines_ofLines]
  · rw [lines_normalize hsort]
    exact hlines

/-- A line in front, two blocks of the same key with a line between them, and one that is never
closed. -/
def tornBus : Text :=
  Text.unlines (["/ \x7b", "b \x7b", "x;", "\x7d;", "y;", "b \x7b", "\x7d;",
    "a \x7b"].map String.toList)

theorem normalize_division_tornBus :
    Filter.semantic.sortProperties ∧
      ∃ d : Division, d.lines = Text.lines tornBus ∧ d.IsSound ∧
        ∃ s, Node.Arranges Division.partKey d.parts s ∧
          Text.lines (normalize .semantic tornBus) = d.written .semantic s :=
  ⟨rfl, normalize_division rfl tornBus⟩

end Document

end Devicetree
