-- SUMMARY: An outline of closed blocks is read back from its lines; other blocks in place of its own.
import Devicetree.Proofs.Text.Trimming
import Devicetree.Source.Outline

/-!
# Outlines read back

A block is closed if the line that balances its braces is its last one. Lines that
consist of closed blocks and of free lines that open none have an outline that is
just these blocks and lines: however far the reader looks, it stops where a block
was meant to end. What is written in place of the blocks of an outline does not
touch its free lines.
-/

namespace Devicetree

/-! ## Lines without braces -/

namespace Line

theorem goesOnWith_of_mem {c : Char} {t : Text} (h : goesOnWith c t) : c ∈ t := by
  rw [goesOnWith, beq_iff_eq] at h
  exact (List.dropWhile_suffix _).subset (List.mem_of_head? h)

theorem mem_of_bracedBehindLabel {t : Text} (h : bracedBehindLabel t) : '{' ∈ t := by
  have hsub : ∀ c, c ∈ (t.dropWhile isBlank).takeWhile (· != '\n') → c ∈ t := fun c hc =>
    (List.dropWhile_suffix _).subset ((List.takeWhile_prefix _).subset hc)
  simp only [bracedBehindLabel] at h
  split at h
  · cases h
  · rename_i c cs heq
    rw [heq] at hsub
    simp only [Bool.or_eq_true, List.contains_iff_mem, Bool.and_eq_true, beq_iff_eq] at h
    rcases h with hmem | ⟨rfl, -⟩
    · exact hsub _ (by simp [hmem])
    · exact hsub _ (by simp)

/-- A line that opens a block holds an opening brace. -/
theorem mem_of_kind_eq_opener {l : Line} (h : kind l = .opener) : '{' ∈ l := by
  apply Text.mem_of_mem_trim
  simp only [kind] at h
  split at h
  · cases h
  · split at h
    · rename_i hopener
      rw [Bool.or_eq_true] at hopener
      rcases hopener with hname | hlabel
      · simp only [blockName?] at hname
        split at hname
        · rename_i hgoes
          rw [Bool.and_eq_true] at hgoes
          exact List.mem_of_mem_drop (goesOnWith_of_mem hgoes.2)
        · cases hname
      · simp only [isLabeledOpener] at hlabel
        split at hlabel
        · cases hlabel
        · have hmem := List.mem_of_mem_drop (mem_of_bracedBehindLabel hlabel)
          exact List.mem_of_mem_drop ((List.dropWhile_suffix _).subset hmem)
    · cases h

theorem kind_ne_opener {l : Line} (h : '{' ∉ l) : kind l ≠ .opener :=
  fun heq => h (mem_of_kind_eq_opener heq)

/-- Blanks around a line do not change what it is. -/
theorem kind_congr {l k : Line} (h : Text.trim l = Text.trim k) : kind l = kind k := by
  simp only [kind, h]

theorem kind_eq_blank_iff {l : Line} : kind l = .blank ↔ Text.trim l = [] := by
  simp only [kind]
  split
  · rename_i hempty
    exact iff_of_true rfl (List.isEmpty_iff.1 hempty)
  · rename_i hempty
    rw [List.isEmpty_iff] at hempty
    refine iff_of_false ?_ hempty
    split <;> simp

theorem braceBalance_eq_zero {l : Line} (hopen : '{' ∉ l) (hclose : '}' ∉ l) :
    braceBalance l = 0 := by
  rw [braceBalance, List.count_eq_zero.2 hopen, List.count_eq_zero.2 hclose]
  rfl

/-- How many more braces lines open than they close. -/
def balanceOfAll : List Line → Int
  | [] => 0
  | l :: ls => braceBalance l + balanceOfAll ls

@[simp] theorem balanceOfAll_nil : balanceOfAll [] = 0 := rfl

@[simp] theorem balanceOfAll_cons (l : Line) (ls : List Line) :
    balanceOfAll (l :: ls) = braceBalance l + balanceOfAll ls := rfl

end Line

/-! ## How far a block reaches -/

namespace Block

/-- In front of others, the block is the shortest range from its opening line that leaves no
brace open, or else all the lines there are. -/
structure IsShortest (b : Block) (more : List Line) : Prop where
  opens : ∀ n, 0 < n → n < b.lines.length → 0 < Line.balanceOfAll (b.lines.take n)
  ends : Line.balanceOfAll b.lines ≤ 0 ∨ more = []

/-- The lines of a block but the last leave braces open; the last one leaves none, if lines
are left. -/
theorem extent_spec (balance : Int) (ls : List Line) :
    (∀ n < extent balance ls, 0 < balance + Line.balanceOfAll (ls.take n)) ∧
      (balance + Line.balanceOfAll (ls.take (extent balance ls)) ≤ 0 ∨
        ls.drop (extent balance ls) = []) := by
  induction ls generalizing balance with
  | nil => simp [extent]
  | cons l ls ih =>
    obtain ⟨hopens, hends⟩ := ih (balance + Line.braceBalance l)
    unfold extent
    split
    · rename_i hbalance
      exact ⟨by simp, .inl (by simpa using hbalance)⟩
    · rename_i hbalance
      constructor
      · intro n hn
        cases n with
        | zero => simpa using hbalance
        | succ n => simpa [Int.add_assoc] using hopens n (by omega)
      · simpa [Int.add_assoc] using hends

theorem isShortest_openedBy (l : Line) (ls : List Line) :
    (openedBy l ls).IsShortest (ls.drop (openedBy l ls).rest.length) := by
  obtain ⟨hopens, hends⟩ := extent_spec (Line.braceBalance l) ls
  constructor
  · intro n hpos hn
    obtain ⟨n, rfl⟩ := Nat.exists_eq_succ_of_ne_zero (Nat.pos_iff_ne_zero.1 hpos)
    have hn : n < extent (Line.braceBalance l) ls := by
      have hmin : n < min (extent (Line.braceBalance l) ls) ls.length := by
        simpa [lines, openedBy] using hn
      exact (Nat.lt_min.1 hmin).1
    simpa [lines, openedBy, List.take_take, Nat.min_eq_left hn.le] using hopens n hn
  · rcases hends with hends | hends
    · exact .inl (by simpa [lines, openedBy] using hends)
    · right
      have hall : ls.length ≤ extent (Line.braceBalance l) ls := by simpa using hends
      simp [openedBy, Nat.min_eq_right hall]

end Block

/-! ## Closed blocks -/

namespace Block

/-- Some braces are open in front of each line, and none behind the last. -/
def Closes (balance : Int) : List Line → Prop
  | [] => balance = 0
  | l :: ls => 0 < balance ∧ Closes (balance + Line.braceBalance l) ls

/-- A block whose braces are balanced behind its last line, and not before. -/
def IsClosed (b : Block) : Prop :=
  Closes (Line.braceBalance b.opening) b.rest

instance instDecidableCloses (balance : Int) : (ls : List Line) → Decidable (Closes balance ls)
  | [] => inferInstanceAs (Decidable (balance = 0))
  | l :: ls =>
    have := instDecidableCloses (balance + Line.braceBalance l) ls
    inferInstanceAs (Decidable (0 < balance ∧ Closes (balance + Line.braceBalance l) ls))

instance (b : Block) : Decidable b.IsClosed :=
  inferInstanceAs (Decidable (Closes (Line.braceBalance b.opening) b.rest))

/-- Lines that close `balance` braces close as many of any more, and leave the others open. -/
theorem closes_append {balance n : Int} {ls : List Line} (h : Closes balance ls) (hn : 0 < n)
    (more : List Line) : Closes (n + balance) (ls ++ more) ↔ Closes n more := by
  induction ls generalizing balance with
  | nil =>
    rw [Closes] at h
    rw [h, Int.add_zero, List.nil_append]
  | cons l ls ih =>
    obtain ⟨hpos, hrest⟩ := h
    rw [List.cons_append, Closes, Int.add_assoc, ih hrest]
    exact and_iff_right (by omega)

/-- A closed block among other lines leaves as many braces open as there were. -/
theorem IsClosed.closes_append {b : Block} (hb : b.IsClosed) {n : Int} (hn : 0 < n)
    (more : List Line) : Closes n (b.lines ++ more) ↔ Closes n more := by
  rw [lines, List.cons_append, Closes, Block.closes_append hb hn]
  exact and_iff_right hn

theorem extent_append {balance : Int} {ls : List Line} (h : Closes balance ls)
    (more : List Line) : extent balance (ls ++ more) = ls.length := by
  induction ls generalizing balance with
  | nil =>
    rw [Closes] at h
    subst h
    cases more <;> simp [extent]
  | cons l ls ih =>
    obtain ⟨hpos, hrest⟩ := h
    rw [List.cons_append, extent, if_neg (by omega), ih hrest, List.length_cons]

/-- A closed block is found whatever stands behind it. -/
theorem IsClosed.openedBy_append {b : Block} (hb : b.IsClosed) (more : List Line) :
    openedBy b.opening (b.rest ++ more) = b := by
  rw [openedBy, extent_append hb, List.take_left]

theorem lines_injective {a b : Block} (h : a.lines = b.lines) : a = b := by
  cases a
  cases b
  simpa [lines] using h

end Block

/-! ## Reading back -/

namespace Segment

/-- A block whose first line opens one, or a free line that opens none. -/
def IsSound : Segment → Prop
  | free l => Line.kind l ≠ .opener
  | block b => Line.kind b.opening = .opener

/-- A sound segment that is closed if it is a block. -/
def IsProper : Segment → Prop
  | free l => Line.kind l ≠ .opener
  | block b => Line.kind b.opening = .opener ∧ b.IsClosed

end Segment

namespace Outline

theorem ofLines_cons_free {l : Line} (h : Line.kind l ≠ .opener) (ls : List Line) :
    ofLines (l :: ls) = .free l :: ofLines ls := by
  rw [ofLines, ofLinesFrom]
  split
  · rename_i heq
    exact absurd heq h
  · rfl

theorem ofLines_cons_opener {l : Line} (h : Line.kind l = .opener) (ls : List Line) :
    ofLines (l :: ls) =
      .block (Block.openedBy l ls) :: ofLines (ls.drop (Block.openedBy l ls).rest.length) := by
  rw [ofLines, ofLinesFrom, ← ofLinesFrom_eq_drop]
  split
  · rfl
  · rename_i hne
    exact absurd h (by simpa using hne)

@[simp] theorem lines_nil : lines [] = [] := rfl

@[simp] theorem lines_cons (s : Segment) (o : Outline) : lines (s :: o) = s.lines ++ lines o := rfl

@[simp] theorem lines_append (o o' : Outline) : lines (o ++ o') = lines o ++ lines o' :=
  List.flatMap_append

@[simp] theorem blocks_nil : blocks [] = [] := rfl

@[simp] theorem blocks_free (l : Line) (o : Outline) : blocks (.free l :: o) = blocks o := rfl

@[simp] theorem blocks_block (b : Block) (o : Outline) :
    blocks (.block b :: o) = b :: blocks o := rfl

@[simp] theorem freeLines_nil : freeLines [] = [] := rfl

@[simp] theorem freeLines_free (l : Line) (o : Outline) :
    freeLines (.free l :: o) = l :: freeLines o := rfl

@[simp] theorem freeLines_block (b : Block) (o : Outline) :
    freeLines (.block b :: o) = freeLines o := rfl

/-- Proper segments are read back, whatever stands behind them. -/
theorem ofLines_append {o : Outline} (h : ∀ s ∈ o, s.IsProper) (ls : List Line) :
    ofLines (lines o ++ ls) = o ++ ofLines ls := by
  induction o with
  | nil => rfl
  | cons s o ih =>
    have hs := h s (by simp)
    have hrest := ih fun s' hs' => h s' (by simp [hs'])
    rw [lines_cons, List.append_assoc]
    cases s with
    | free l =>
      rw [Segment.lines, List.singleton_append, ofLines_cons_free hs, hrest, List.cons_append]
    | block b =>
      obtain ⟨hkind, hclosed⟩ := hs
      rw [Segment.lines, Block.lines, List.cons_append, ofLines_cons_opener hkind,
        hclosed.openedBy_append, List.drop_left, hrest, List.cons_append]

/-- Brace-free lines and closed blocks leave as many braces open as there were. -/
theorem closes_append {o : Outline} {n : Int} (hn : 0 < n)
    (hfree : ∀ l ∈ o.freeLines, Line.braceBalance l = 0) (hblocks : ∀ b ∈ o.blocks, b.IsClosed)
    (more : List Line) : Block.Closes n (lines o ++ more) ↔ Block.Closes n more := by
  induction o with
  | nil => rfl
  | cons s o ih =>
    rw [lines_cons, List.append_assoc]
    cases s with
    | free l =>
      rw [freeLines_free] at hfree
      rw [Segment.lines, List.singleton_append, Block.Closes, hfree l (by simp), Int.add_zero,
        ih (fun k hk => hfree k (by simp [hk])) hblocks]
      exact and_iff_right hn
    | block b =>
      rw [blocks_block] at hblocks
      rw [Segment.lines, (hblocks b (by simp)).closes_append hn,
        ih hfree fun c hc => hblocks c (by simp [hc])]

theorem ofLines_lines {o : Outline} (h : ∀ s ∈ o, s.IsProper) : ofLines (lines o) = o := by
  have hread := ofLines_append h []
  have hnil : ofLines [] = [] := rfl
  rwa [List.append_nil, hnil, List.append_nil] at hread

theorem isSound_of_mem_ofLinesFrom {n : Nat} {ls : List Line} {s : Segment}
    (h : s ∈ ofLinesFrom n ls) : s.IsSound := by
  induction ls generalizing n with
  | nil => simp [ofLinesFrom] at h
  | cons l ls ih =>
    cases n with
    | succ n => exact ih h
    | zero =>
      rw [ofLinesFrom] at h
      split at h
      · rename_i hkind
        rcases List.mem_cons.1 h with rfl | h
        · exact hkind
        · exact ih h
      · rename_i hkind
        rcases List.mem_cons.1 h with rfl | h
        · exact hkind
        · exact ih h

/-- An outline holds blocks where lines open them, and free lines where not. -/
theorem isSound_of_mem_ofLines {ls : List Line} {s : Segment} (h : s ∈ ofLines ls) :
    s.IsSound :=
  isSound_of_mem_ofLinesFrom h

theorem kind_of_mem_blocks {ls : List Line} {b : Block} (h : b ∈ (ofLines ls).blocks) :
    Line.kind b.opening = .opener := by
  obtain ⟨s, hs, hb⟩ := List.mem_filterMap.1 h
  cases s with
  | free k => cases hb
  | block b' =>
    cases hb
    exact isSound_of_mem_ofLines hs

/-! ## Other blocks in the same places -/

/-- Put blocks in the places of those of an outline, one after the other. -/
def refill : List Block → Outline → Outline
  | _, [] => []
  | bs, .free l :: o => .free l :: refill bs o
  | b :: bs, .block _ :: o => .block b :: refill bs o
  | [], .block _ :: o => refill [] o

@[simp] theorem freeLines_refill (bs : List Block) (o : Outline) :
    (refill bs o).freeLines = o.freeLines := by
  induction o generalizing bs with
  | nil => rfl
  | cons s o ih =>
    cases s with
    | free l => simp [refill, ih]
    | block b => cases bs <;> simp [refill, ih]

theorem blocks_refill {bs : List Block} {o : Outline} (h : bs.length = o.blocks.length) :
    (refill bs o).blocks = bs := by
  induction o generalizing bs with
  | nil =>
    have hnil : bs = [] := List.length_eq_zero_iff.1 h
    rw [hnil]
    rfl
  | cons s o ih =>
    cases s with
    | free l => simpa [refill] using ih h
    | block b =>
      cases bs with
      | nil => simp at h
      | cons b' bs => simpa [refill] using ih (by simpa using h)

/-- Only the blocks put in last count. -/
theorem refill_refill {bs cs : List Block} {o : Outline} (hb : bs.length = o.blocks.length) :
    refill cs (refill bs o) = refill cs o := by
  induction o generalizing bs cs with
  | nil => rfl
  | cons s o ih =>
    cases s with
    | free l => rw [refill, refill, refill, ih hb]
    | block b =>
      cases bs with
      | nil => simp at hb
      | cons b' bs =>
        have hrest : bs.length = (blocks o).length := by simpa using hb
        cases cs <;> simp [refill, ih hrest]

theorem mem_refill {bs : List Block} {o : Outline} {s : Segment} (h : s ∈ refill bs o) :
    (∃ l, s = .free l ∧ .free l ∈ o) ∨ ∃ b ∈ bs, s = .block b := by
  induction o generalizing bs with
  | nil => cases h
  | cons s' o ih =>
    cases s' with
    | free l =>
      rw [refill] at h
      rcases List.mem_cons.1 h with rfl | h
      · exact .inl ⟨l, rfl, by simp⟩
      · rcases ih h with ⟨k, rfl, hk⟩ | hb
        · exact .inl ⟨k, rfl, by simp [hk]⟩
        · exact .inr hb
    | block b =>
      cases bs with
      | nil =>
        rw [refill] at h
        rcases ih h with ⟨k, rfl, hk⟩ | hb
        · exact .inl ⟨k, rfl, by simp [hk]⟩
        · exact .inr hb
      | cons b' bs =>
        rw [refill] at h
        rcases List.mem_cons.1 h with rfl | h
        · exact .inr ⟨b', by simp, rfl⟩
        · rcases ih h with ⟨k, rfl, hk⟩ | ⟨c, hc, rfl⟩
          · exact .inl ⟨k, rfl, by simp [hk]⟩
          · exact .inr ⟨c, by simp [hc], rfl⟩

end Outline

end Devicetree
