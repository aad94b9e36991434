-- SUMMARY: Reading a source by the numbers of its lines, and that no line is asked for that is not there.
import Devicetree.Proofs.Document.Division
import Devicetree.Proofs.Source.NodeTrees

/-!
# Lines by number

A source can be read by the numbers of its lines: a loop asks for one line after the other, a
block is walked up to the line that balances its braces, and the lines that it takes are handed
on to be read in the same way. Here whatever asks for a line that is not there fails. Nothing
does: the walk ends behind the first line that leaves no brace open, or at the end, and each
step comes to what the outline of the lines says.
-/

namespace Devicetree

/-! ## Blocks -/

namespace Block

/-- Walk along a block from the line of a number on, with `balance` braces open in front of it:
the number of the line behind the block. -/
def walk? (ls : List Line) (balance : Int) (index : Nat) : Option Nat := do
  let l ← ls[index]?
  let balance := balance + Line.braceBalance l
  if balance ≤ 0 ∨ ls.length ≤ index + 1 then return index + 1
  else walk? ls balance (index + 1)
termination_by ls.length - index

variable {ls rest : List Line} {l : Line} {index : Nat}

theorem getElem?_of_drop (h : ls.drop index = l :: rest) : ls[index]? = some l := by
  rw [← List.head?_drop, h, List.head?_cons]

theorem drop_succ_of_drop (h : ls.drop index = l :: rest) : ls.drop (index + 1) = rest := by
  rw [← List.drop_drop, h, List.drop_succ_cons, List.drop_zero]

theorem lt_length_of_drop (h : ls.drop index = l :: rest) : index < ls.length := by
  rw [← not_le, ← List.drop_eq_nil_iff, h]
  exact List.cons_ne_nil l rest

theorem extent_le_length (balance : Int) (ls : List Line) : extent balance ls ≤ ls.length := by
  induction ls generalizing balance with
  | nil => exact Nat.le_refl 0
  | cons l ls ih =>
    unfold extent
    split
    · exact Nat.zero_le _
    · exact Nat.succ_le_succ (ih _)

@[simp] theorem length_rest_openedBy (l : Line) (ls : List Line) :
    (openedBy l ls).rest.length = extent (Line.braceBalance l) ls := by
  rw [openedBy, List.length_take, Nat.min_eq_left (extent_le_length _ _)]

/-- A walk goes as far as the braces say. -/
theorem walk?_eq_extent (h : ls.drop index = l :: rest) (balance : Int) :
    walk? ls balance index = some (index + 1 + extent (balance + Line.braceBalance l) rest) := by
  induction rest generalizing l index balance with
  | nil =>
    have hend : ls.length ≤ index + 1 := List.drop_eq_nil_iff.1 (drop_succ_of_drop h)
    rw [walk?, getElem?_of_drop h]
    simp [hend, extent]
  | cons k rest ih =>
    have hbehind := drop_succ_of_drop h
    have hmore : ¬ ls.length ≤ index + 1 := by
      intro hend
      rw [List.drop_eq_nil_of_le hend] at hbehind
      cases hbehind
    rw [walk?, getElem?_of_drop h]
    by_cases hclosed : balance + Line.braceBalance l ≤ 0
    · simp [hclosed, extent]
    · simp only [Option.bind_eq_bind, Option.bind_some, hclosed, hmore, or_self, if_false, extent]
      rw [ih hbehind, Nat.add_right_comm, Nat.add_assoc]

/-- The lines of a block that is walked are those that its opening line takes. -/
theorem walk?_openedBy (h : ls.drop index = l :: rest) :
    ∃ stop, walk? ls 0 index = some stop ∧ index < stop ∧ stop ≤ ls.length ∧
      ls.extract index stop = (openedBy l rest).lines ∧
      ls.drop stop = rest.drop (openedBy l rest).rest.length := by
  have hlength : ls.length - index = rest.length + 1 := by
    simpa using congrArg List.length h
  have hextent := extent_le_length (Line.braceBalance l) rest
  refine ⟨index + 1 + extent (Line.braceBalance l) rest, ?_, by omega, by omega, ?_, ?_⟩
  · rw [walk?_eq_extent h, Int.zero_add]
  · rw [List.extract_eq_take_drop, h, Nat.add_assoc, Nat.add_sub_cancel_left, Nat.add_comm 1,
      List.take_succ_cons]
    rfl
  · rw [length_rest_openedBy, Nat.add_assoc, ← List.drop_drop, h, Nat.add_comm 1,
      List.drop_succ_cons]

theorem lt_of_walk? {balance : Int} {stop : Nat} (h : walk? ls balance index = some stop) :
    index < stop := by
  cases hls : ls.drop index with
  | nil =>
    rw [walk?, List.getElem?_eq_none (List.drop_eq_nil_iff.1 hls)] at h
    cases h
  | cons l rest =>
    rw [walk?_eq_extent hls] at h
    cases h
    omega

/-- A walk from any number comes to the end of the block that starts there, and fails if there is
no such line. -/
theorem walk?_eq_endOf? (ls : List Line) (start : Nat) : walk? ls 0 start = endOf? ls start := by
  rw [endOf?]
  cases hls : ls.drop start with
  | nil =>
    rw [walk?, List.getElem?_eq_none (List.drop_eq_nil_iff.1 hls)]
    rfl
  | cons l rest =>
    rw [walk?_eq_extent hls, Int.zero_add]
    simp [lines, Nat.add_assoc, Nat.add_comm 1]

end Block

/-! ## Records -/

namespace Record

/-- The line behind one that ends in a comma, if there is one. -/
def lookahead? (ls : List Line) (index : Nat) (text : Text) : Option (Option Line) :=
  if text.getLast? = some ',' ∧ index + 1 < ls.length then ls[index + 1]?.map some
  else some none

/-- Join lines into records from the line of a number on; `current` is what has been read of the
first. -/
def walk? (ls : List Line) (index : Nat) (current : Text) : Option (List Text) :=
  if index < ls.length then do
    let l ← ls[index]?
    let text := Text.trim l
    if text.isEmpty then walk? ls (index + 1) current
    else
      let next ← lookahead? ls index text
      if endsAt text next then return extend current text :: (← walk? ls (index + 1) [])
      else walk? ls (index + 1) (extend current text)
  else some (if current.isEmpty then [] else [current])
termination_by ls.length - index

theorem endsAt_of_ne_comma {text : Text} (h : text.getLast? ≠ some ',') (next : Option Line) :
    endsAt text next = endsAt text none := by
  unfold endsAt
  split
  · rfl
  · exact absurd ‹_› h
  · rfl

/-- The line behind is found where it is asked for, and does not matter elsewhere. -/
theorem exists_lookahead (ls : List Line) (index : Nat) (text : Text) :
    ∃ next, lookahead? ls index text = some next ∧
      endsAt text next = endsAt text ls[index + 1]? := by
  rw [lookahead?]
  by_cases hcomma : text.getLast? = some ','
  · by_cases hmore : index + 1 < ls.length
    · exact ⟨some ls[index + 1], by simp [hcomma, hmore], by simp [hmore]⟩
    · exact ⟨none, by simp [hmore], by rw [List.getElem?_eq_none (not_lt.1 hmore)]⟩
  · exact ⟨none, by simp [hcomma], (endsAt_of_ne_comma hcomma _).symm⟩

/-- The lines from a number on are joined as they are without numbers. -/
theorem walk?_eq (ls : List Line) (index : Nat) (current : Text) :
    walk? ls index current = some (joinFrom current (ls.drop index)) := by
  rw [walk?]
  by_cases hindex : index < ls.length
  · obtain ⟨next, hnext, hends⟩ := exists_lookahead ls index (Text.trim ls[index])
    rw [List.drop_eq_getElem_cons hindex, joinFrom, List.head?_drop, if_pos hindex,
      List.getElem?_eq_getElem hindex, ← hends]
    simp only [Option.bind_eq_bind, Option.bind_some, hnext, walk?_eq ls (index + 1)]
    split
    · rfl
    · split
      · rfl
      · rfl
  · rw [if_neg hindex, List.drop_eq_nil_of_le (not_lt.1 hindex), joinFrom]
termination_by ls.length - index

end Record

/-! ## Nodes -/

namespace Node

/-- Read the body of a block from the line of a number on: the lines that belong to properties,
and what the ranges of lines that blocks take are read as. -/
def walk? (read : List Line → Option Node) (ls : List Line) (index : Nat) :
    Option (List Line × List Node) :=
  if index < ls.length then do
    let l ← ls[index]?
    match Line.kind l with
    | .blank => walk? read ls (index + 1)
    | .opener =>
      match _h : Block.walk? ls 0 index with
      | none => none
      | some stop =>
        let child ← read (ls.extract index stop)
        let (candidates, children) ← walk? read ls stop
        return (candidates, child :: children)
    | .property =>
      let (candidates, children) ← walk? read ls (index + 1)
      return (l :: candidates, children)
  else some ([], [])
termination_by ls.length - index
decreasing_by
  all_goals try have := Block.lt_of_walk? ‹_›
  all_goals omega

/-- Read a range of lines as a node. The first line and the last one have to be there. -/
def ofLines? (f : Filter) (depth : Int) (ls : List Line) : Option Node := do
  let opening ← ls[0]?
  let closing ← ls[ls.length - 1]?
  if ls.length < 2 ∨ maxDepth < depth then return verbatim depth ⟨opening, ls.drop 1⟩
  else
    let (candidates, children) ← walk? (fun range => ofLines? f (depth + 1) range)
      (ls.extract 1 (ls.length - 1)) 0
    let records ← Record.walk? candidates 0 []
    let properties := (records.filter (!Property.isBareCloser ·)).map (Property.ofRecord f)
    return parsed depth opening closing (inOrder f Property.key properties)
      (inOrder f key children)
termination_by (maxDepth + 1 - depth).toNat

/-- The body of a block is read as the outline of its lines, whatever nodes its blocks are
read as. -/
theorem walk?_eq {read : List Line → Option Node} {node : Block → Node}
    (hread : ∀ b : Block, read b.lines = some (node b)) (ls : List Line) (index : Nat) :
    walk? read ls index =
      some ((Outline.ofLines (ls.drop index)).freeLines.filter (Line.kind · != .blank),
        (Outline.ofLines (ls.drop index)).blocks.map node) := by
  cases hls : ls.drop index with
  | nil =>
    rw [walk?, if_neg (not_lt.2 (List.drop_eq_nil_iff.1 hls))]
    rfl
  | cons l rest =>
    have hindex := Block.lt_length_of_drop hls
    rw [walk?, if_pos hindex, Block.getElem?_of_drop hls]
    simp only [Option.bind_eq_bind, Option.bind_some]
    cases hkind : Line.kind l with
    | blank =>
      rw [walk?_eq hread ls (index + 1), Block.drop_succ_of_drop hls,
        Outline.ofLines_cons_free (by simp [hkind])]
      simp [hkind]
    | property =>
      rw [walk?_eq hread ls (index + 1), Block.drop_succ_of_drop hls,
        Outline.ofLines_cons_free (by simp [hkind])]
      simp [hkind]
    | opener =>
      obtain ⟨stop, hstop, hlt, -, hrange, hbehind⟩ := Block.walk?_openedBy hls
      dsimp only
      split
      · rename_i hnone
        rw [hstop] at hnone
        cases hnone
      · rename_i stop' hsome
        obtain rfl := Option.some.inj (hstop.symm.trans hsome)
        rw [hrange, hread, walk?_eq hread ls stop, hbehind, Outline.ofLines_cons_opener hkind]
        rfl
termination_by ls.length - index

theorem getElem?_opening (b : Block) : b.lines[0]? = some b.opening :=
  rfl

theorem getElem?_closing (b : Block) : b.lines[b.lines.length - 1]? = some b.closing := by
  rw [← List.getLast?_eq_getElem?, Block.lines, List.getLast?_cons]
  rfl

theorem extract_body (b : Block) : b.lines.extract 1 (b.lines.length - 1) = b.body := by
  rw [List.extract_eq_take_drop, Block.body, List.dropLast_eq_take, Block.lines]
  rfl

/-- The lines of a block are read as its node. -/
theorem ofLines?_eq (f : Filter) (depth : Int) (b : Block) :
    ofLines? f depth b.lines = some (ofBlock f depth b) := by
  have hshort : b.lines.length < 2 ↔ b.rest = [] := by
    rw [Block.lines, List.length_cons, ← List.length_eq_zero_iff]
    omega
  rw [ofLines?, getElem?_opening, getElem?_closing, extract_body]
  by_cases hkept : b.rest = [] ∨ maxDepth < depth
  · rw [ofBlock_of_kept hkept]
    simp only [hshort, hkept]
    rfl
  · obtain ⟨hlines, hdepth⟩ := not_or.1 hkept
    have hchild : ∀ c : Block, ofLines? f (depth + 1) c.lines = some (ofBlock f (depth + 1) c) :=
      fun c => ofLines?_eq f (depth + 1) c
    rw [ofBlock_of_parsed (not_lt.1 hdepth) hlines]
    simp only [hshort, hkept, walk?_eq hchild, Record.walk?_eq]
    rfl
termination_by (maxDepth + 1 - depth).toNat

end Node

/-! ## Documents -/

namespace Document

/-- Read a document from the line of a number on: the free lines up to the next block, and what
the ranges of lines that blocks take are read as, each with the free lines behind it. -/
def walk? (read : List Line → Option Node) (ls : List Line) (index : Nat) :
    Option (List Line × List Node × List (List Line)) :=
  if index < ls.length then do
    let l ← ls[index]?
    if Line.kind l = .opener then
      match _h : Block.walk? ls 0 index with
      | none => none
      | some stop =>
        let node ← read (ls.extract index stop)
        let (gap, nodes, gaps) ← walk? read ls stop
        return ([], node :: nodes, gap :: gaps)
    else
      let (leading, nodes, gaps) ← walk? read ls (index + 1)
      return (l :: leading, nodes, gaps)
  else some ([], [], [])
termination_by ls.length - index
decreasing_by
  all_goals try have := Block.lt_of_walk? ‹_›
  all_goals omega

/-- Put a document in canonical order, with its lines asked for by number. -/
def normalize? (f : Filter) (t : Text) : Option Text :=
  if f.sortProperties then do
    let (leading, nodes, gaps) ← walk? (Node.ofLines? f 0) (Text.lines t) 0
    let written := List.zipWith (fun n gap => n.lines ++ gap) (Node.sortByKey Node.key nodes) gaps
    return Text.unlines (leading ++ written.flatten)
  else some t

/-- A document is read as the outline of its lines, whatever nodes its blocks are read as. -/
theorem walk?_eq {read : List Line → Option Node} {node : Block → Node}
    (hread : ∀ b : Block, read b.lines = some (node b)) (ls : List Line) (index : Nat) :
    walk? read ls index =
      some ((Outline.ofLines (ls.drop index)).leading,
        (Outline.ofLines (ls.drop index)).blocks.map node,
        (Outline.ofLines (ls.drop index)).parts.map Prod.snd) := by
  cases hls : ls.drop index with
  | nil =>
    rw [walk?, if_neg (not_lt.2 (List.drop_eq_nil_iff.1 hls))]
    rfl
  | cons l rest =>
    have hindex := Block.lt_length_of_drop hls
    rw [walk?, if_pos hindex, Block.getElem?_of_drop hls]
    simp only [Option.bind_eq_bind, Option.bind_some]
    by_cases hkind : Line.kind l = .opener
    · obtain ⟨stop, hstop, hlt, -, hrange, hbehind⟩ := Block.walk?_openedBy hls
      rw [if_pos hkind]
      split
      · rename_i hnone
        rw [hstop] at hnone
        cases hnone
      · rename_i stop' hsome
        obtain rfl := Option.some.inj (hstop.symm.trans hsome)
        rw [hrange, hread, walk?_eq hread ls stop, hbehind, Outline.ofLines_cons_opener hkind]
        rfl
    · rw [if_neg hkind, walk?_eq hread ls (index + 1), Block.drop_succ_of_drop hls,
        Outline.ofLines_cons_free hkind]
      rfl
termination_by ls.length - index

/-- Putting a document in canonical order asks for no line that is not there. -/
theorem normalize?_eq (f : Filter) (t : Text) : normalize? f t = some (normalize f t) := by
  rw [normalize?, normalize]
  split
  · rw [walk?_eq (Node.ofLines?_eq f 0), List.drop_zero]
    simp only [Option.bind_eq_bind, Option.bind_some, List.zipWith_map_right]
    rw [canonicalLines, fill_eq_zipWith (by simp [orderedNodes])]
    rfl
  · rfl

/-- A block that is walked from a line that is there ends behind that line and not behind the
last one. It is the shortest range that leaves no brace open: each shorter one opens more braces
than it closes, and it does not itself unless it reaches to the end. No reading by number asks
for a line that is not there, and a block and a document are read as they are without numbers. -/
theorem walks_within_lines :
    (∀ (ls : List Line) (start : Nat), start < ls.length →
      ∃ stop, Block.walk? ls 0 start = some stop ∧ Block.endOf? ls start = some stop ∧
        start < stop ∧ stop ≤ ls.length ∧
        (∀ n, start < n → n < stop → 0 < Line.balanceOfAll (ls.extract start n)) ∧
        (Line.balanceOfAll (ls.extract start stop) ≤ 0 ∨ stop = ls.length)) ∧
    (∀ (f : Filter) (depth : Int) (b : Block),
      Node.ofLines? f depth b.lines = some (Node.ofBlock f depth b)) ∧
    ∀ (f : Filter) (t : Text), normalize? f t = some (normalize f t) := by
  refine ⟨fun ls start hstart => ?_, Node.ofLines?_eq, normalize?_eq⟩
  have hls := List.drop_eq_getElem_cons hstart
  obtain ⟨stop, hstop, hlt, hle, hrange, hbehind⟩ := Block.walk?_openedBy hls
  obtain ⟨hopens, hends⟩ := Block.isShortest_openedBy ls[start] (ls.drop (start + 1))
  rw [← hrange] at hopens hends
  refine ⟨stop, hstop, Block.walk?_eq_endOf? ls start ▸ hstop, hlt, hle, fun n hn hnstop => ?_, ?_⟩
  · have hshorter := hopens (n - start) (by omega)
      (by rw [List.extract_eq_take_drop, List.length_take, List.length_drop]; omega)
    rw [List.extract_eq_take_drop] at hshorter ⊢
    rwa [List.take_take, Nat.min_eq_left (by omega)] at hshorter
  · rw [← hbehind] at hends
    exact hends.imp_right fun hend => Nat.le_antisymm hle (List.drop_eq_nil_iff.1 hend)

/-- A block with another one in it, inside an outermost one that is not closed. -/
def tornLines : List Line :=
  ["/ \x7b", "b \x7b", "a \x7b x;", "\x7d;", "y;", "\x7d;", "c;"].map String.toList

theorem walks_within_lines_torn :
    1 < tornLines.length ∧ Block.walk? tornLines 0 1 = some 6 ∧
      (∀ n, 1 < n → n < 6 → 0 < Line.balanceOfAll (tornLines.extract 1 n)) ∧
      0 < tornLines.length ∧ Block.walk? tornLines 0 0 = some 7 := by
  obtain ⟨stop, hstop, hend, -, -, hopens, -⟩ := walks_within_lines.1 tornLines 1 (by decide)
  obtain ⟨last, hlast, hlastEnd, -⟩ := walks_within_lines.1 tornLines 0 (by decide)
  obtain rfl : stop = 6 := Option.some.inj (hend.symm.trans (by decide))
  obtain rfl : last = 7 := Option.some.inj (hlastEnd.symm.trans (by decide))
  exact ⟨by decide, hstop, hopens, by decide, hlast⟩

end Document

end Devicetree
