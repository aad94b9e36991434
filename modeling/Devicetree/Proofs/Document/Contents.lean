-- SUMMARY: Putting a document in order keeps every character but blanks and bare closers.
import Mathlib.Tactic.Abel
import Devicetree.Proofs.Source.Nodes
import Devicetree.Proofs.Text.Tallies

/-!
# Contents

Ordering a document moves its lines about, joins some of them and respells values. Of
the characters that no spelling rule changes it loses those of the records of which no
property is made, and nothing else: it does not matter whether braces are balanced, or
how deep blocks lie. The records it loses are closing braces on their own.
-/

namespace Devicetree

open Text (tally tallies)

variable {f : Filter} {p : Char → Bool}

/-! ## Characters that are kept -/

/-- A class of characters that no rule of the filter changes: it holds no blanks and, where
    literals are respelled, nothing that stands in a literal. -/
structure Filter.Keeps (f : Filter) (p : Char → Bool) : Prop where
  ink : ∀ c, p c → ¬ isBlank c
  apart : f.normalizeHexValues → ∀ c, p c → HexLiteral.IsApart c

theorem Filter.Keeps.not_blank (hp : f.Keeps p) {c : Char} (hc : isBlank c) : ¬ p c :=
  fun hpc => hp.ink c hpc hc

theorem Filter.keeps_char {c : Char} (hblank : ¬ isBlank c) (hapart : HexLiteral.IsApart c) :
    f.Keeps (· == c) where
  ink d hd := by
    rw [beq_iff_eq.1 hd]
    exact hblank
  apart _ d hd := by
    rw [beq_iff_eq.1 hd]
    exact hapart

/-- What keeps all that is no blank keeps every class without blanks. -/
theorem Text.filter_eq_of_filter_ink {u v : Text} (hp : ∀ c, p c → ¬ isBlank c)
    (h : u.filter (!isBlank ·) = v.filter (!isBlank ·)) : u.filter p = v.filter p := by
  have hclass : ∀ c, (p c && !isBlank c) = p c := by
    intro c
    cases hc : p c with
    | false => rfl
    | true => simp [hp c hc]
  have hagain := congrArg (List.filter p) h
  simpa only [List.filter_filter, hclass] using hagain

/-- A spelling keeps the characters that no rule changes. -/
theorem Value.tally_spell (hp : f.Keeps p) (t : Text) : tally p (spell f t) = tally p t := by
  have hliterals : (if f.normalizeHexValues then HexLiteral.normalize t else t).filter p =
      t.filter p := by
    split
    · rename_i hhex
      exact HexLiteral.filter_normalize (hp.apart hhex) t
    · rfl
  apply Text.tally_congr
  rw [spell]
  split
  · rw [normalizeLists, Text.filter_eq_of_filter_ink hp.ink (StringList.filter_normalize _),
      Text.filter_eq_of_filter_ink hp.ink (CellArray.filter_normalize _), hliterals]
  · exact hliterals

/-! ## Records -/

namespace Record

theorem tally_extend (hp : ¬ p ' ') (current text : Text) :
    tally p (extend current text) = tally p current + tally p text := by
  rw [extend]
  split
  · rename_i hempty
    simp [List.isEmpty_iff.1 hempty]
  · rw [Text.tally_append, Text.tally_cons_of_not hp]

/-- Records hold what was begun of the first and what is in the lines, but for blanks. -/
theorem tallies_joinFrom (hp : ∀ c, p c → ¬ isBlank c) (current : Text) (ls : List Line) :
    tallies p (joinFrom current ls) = tally p current + tallies p ls := by
  have hspace : ¬ p ' ' := fun hc => hp ' ' hc (by decide)
  induction ls generalizing current with
  | nil =>
    rw [joinFrom]
    split
    · rename_i hempty
      simp [List.isEmpty_iff.1 hempty]
    · simp
  | cons l ls ih =>
    have hl := Text.tally_trim hp l
    simp only [joinFrom]
    split
    · rename_i hempty
      rw [List.isEmpty_iff.1 hempty, Text.tally_nil] at hl
      rw [ih, Text.tallies_cons, ← hl, zero_add]
    · split
      · rw [Text.tallies_cons, ih, tally_extend hspace, hl, Text.tally_nil, zero_add,
          Text.tallies_cons, add_assoc]
      · rw [ih, tally_extend hspace, hl, Text.tallies_cons, add_assoc]

/-- Joining lines into records keeps all but blanks. -/
theorem tallies_join (hp : ∀ c, p c → ¬ isBlank c) (ls : List Line) :
    tallies p (join ls) = tallies p ls := by
  rw [join, tallies_joinFrom hp, Text.tally_nil, zero_add]

end Record

/-! ## Records of which no property is made -/

/-- The records of a block of which no property is made. -/
def Block.dropped (f : Filter) (b : Block) : List Text :=
  b.records.filter fun r => r ∉ (Property.ofLines f b.propertyLines).map Property.source

/-- The records that are dropped where a block is parsed, those of the blocks in it included. -/
def Node.dropped (f : Filter) : (levels : Nat) → Block → List Text
  | 0, _ => []
  | levels + 1, b =>
    if b.rest.isEmpty then []
    else b.dropped f ++ b.outline.blocks.flatMap (Node.dropped f levels)

/-- The records that are dropped where a document is put in order. -/
def Document.dropped (f : Filter) (t : Text) : List Text :=
  (Outline.ofLines (Text.lines t)).blocks.flatMap (Node.dropped f (Node.levelsFrom 0))

namespace Block

variable {b : Block}

theorem sources_properties (f : Filter) (b : Block) :
    (Property.ofLines f b.propertyLines).map Property.source =
      b.records.filter (!Property.isBareCloser ·) := by
  rw [Property.ofLines, List.map_map]
  exact List.map_id _

/-- The dropped records are the closing braces on their own. -/
theorem dropped_eq_filter (f : Filter) (b : Block) :
    b.dropped f = b.records.filter Property.isBareCloser := by
  rw [dropped, sources_properties]
  refine List.filter_congr fun r hr => ?_
  simp [hr]

theorem isBareCloser_of_mem_dropped {r : Text} (h : r ∈ b.dropped f) :
    Property.isBareCloser r := by
  rw [dropped_eq_filter] at h
  exact (List.mem_filter.1 h).2

/-- Every record is the source of a property, or is dropped. -/
theorem tallies_records (f : Filter) (b : Block) :
    tallies p b.records =
      tallies p ((Property.ofLines f b.propertyLines).map Property.source) +
        tallies p (b.dropped f) := by
  rw [sources_properties, dropped_eq_filter, ← Text.tallies_append]
  refine Text.tallies_perm ?_
  exact ((List.filter_append_perm Property.isBareCloser b.records).symm.trans
    List.perm_append_comm)

/-- A block of several lines is its opening line, its body and its closing line. -/
theorem lines_eq_body (h : b.rest ≠ []) : b.lines = b.opening :: (b.body ++ [b.closing]) := by
  have hlast : b.closing = b.rest.getLast h := by
    rw [closing, List.getLast?_eq_some_getLast h, Option.getD_some]
  rw [lines, body, hlast, List.dropLast_concat_getLast]

end Block

/-! ## Nodes -/

namespace Property

/-- A property is written with what its record holds, but for blanks. -/
theorem tally_line (hp : f.Keeps p) (opening : Line) (r : Text) :
    tally p (line opening (ofRecord f r)) = tally p r := by
  have hindent : tally p (Node.propertyIndent opening) = 0 :=
    Text.tally_eq_zero fun c hc => hp.not_blank (Node.of_mem_propertyIndent hc).1
  rw [line, Text.tally_append, hindent, zero_add, Text.tally_trim hp.ink]
  exact Value.tally_spell hp r

end Property

namespace Node

/-- Blank lines of a body are no loss. -/
theorem tallies_propertyLines (hp : ∀ c, p c → ¬ isBlank c) (b : Block) :
    tallies p b.propertyLines = tallies p b.outline.freeLines := by
  rw [Block.propertyLines]
  induction b.outline.freeLines with
  | nil => rfl
  | cons l ls ih =>
    by_cases hl : Line.kind l = .blank
    · have hblank : tally p l = 0 :=
        Text.tally_eq_zero fun c hc hpc =>
          hp c hpc (Text.trim_eq_nil_iff.1 (Line.kind_eq_blank_iff.1 hl) c hc)
      rw [List.filter_cons_of_neg (by simpa using hl), ih, Text.tallies_cons, hblank, zero_add]
    · rw [List.filter_cons_of_pos (by simpa using hl), Text.tallies_cons, ih, Text.tallies_cons]

/-- What a block holds is what it is written with, and what is dropped: by induction on the
    levels that are parsed. -/
theorem tallies_lines_build (hp : f.Keeps p) (hsort : f.sortProperties) (levels : Nat)
    (depth : Int) (b : Block) :
    tallies p b.lines = tallies p (build f levels depth b).lines + tallies p (dropped f levels b) := by
  induction levels generalizing depth b with
  | zero => rw [dropped, Text.tallies_nil, add_zero]; rfl
  | succ levels ih =>
    by_cases hrest : b.rest = []
    · rw [build_of_rest_eq_nil f _ _ hrest, dropped, if_pos (by simp [hrest]), Text.tallies_nil,
        add_zero]
      rfl
    · have hproperties :
          tallies p ((Property.ofLines f b.propertyLines).map (Property.line b.opening)) =
          tallies p ((Property.ofLines f b.propertyLines).map Property.source) := by
        refine Text.tallies_congr fun q hq => ?_
        obtain ⟨r, -, rfl⟩ := List.mem_map.1 hq
        exact Property.tally_line hp b.opening r
      have hchildren :
          tallies p (b.outline.blocks.flatMap Block.lines) =
          tallies p (b.outline.blocks.flatMap fun c => (build f levels (depth + 1) c).lines) +
            tallies p (b.outline.blocks.flatMap (dropped f levels)) := by
        simp only [Text.tallies_flatMap, ← List.sum_map_add]
        exact congrArg List.sum (List.map_congr_left fun c _ => ih (depth + 1) c)
      have hbody : tallies p b.body =
          tallies p b.records + tallies p (b.outline.blocks.flatMap Block.lines) := by
        rw [Block.records, Record.tallies_join hp.ink, tallies_propertyLines hp.ink,
          ← Text.tallies_append, ← Text.tallies_perm (Outline.lines_perm _), Block.outline,
          Outline.lines_ofLines]
      rw [Block.lines_eq_body hrest, Text.tallies_perm (lines_build_perm hsort levels depth hrest),
        dropped, if_neg (by simpa using hrest)]
      simp only [Text.tallies_cons, Text.tallies_append, Text.tallies_nil, hbody,
        Block.tallies_records f b, hproperties, hchildren]
      abel

theorem isBareCloser_of_mem_dropped {levels : Nat} {b : Block} {r : Text}
    (h : r ∈ dropped f levels b) : Property.isBareCloser r := by
  induction levels generalizing b with
  | zero => cases h
  | succ levels ih =>
    rw [dropped] at h
    split at h
    · cases h
    · rcases List.mem_append.1 h with h | h
      · exact Block.isBareCloser_of_mem_dropped h
      · obtain ⟨c, -, hc⟩ := List.mem_flatMap.1 h
        exact ih hc

end Node

/-! ## Documents -/

/-- A block opens as many braces as it closes, and so do the blocks in it as far as they are
    parsed. -/
def Block.EvenThroughout : (levels : Nat) → Block → Prop
  | 0, b => (b.lines.map Line.braceBalance).sum = 0
  | levels + 1, b =>
    (b.lines.map Line.braceBalance).sum = 0 ∧ ∀ c ∈ b.outline.blocks, EvenThroughout levels c

instance Block.instDecidableEvenThroughout :
    (levels : Nat) → (b : Block) → Decidable (b.EvenThroughout levels)
  | 0, b => inferInstanceAs (Decidable ((b.lines.map Line.braceBalance).sum = 0))
  | levels + 1, b =>
    have := instDecidableEvenThroughout levels
    inferInstanceAs (Decidable ((b.lines.map Line.braceBalance).sum = 0 ∧
      ∀ c ∈ b.outline.blocks, c.EvenThroughout levels))

namespace Document

theorem eq_of_mem_dropped {t r : Text} (h : r ∈ dropped f t) : r = ['}'] ∨ r = ['}', ';'] := by
  obtain ⟨b, -, hr⟩ := List.mem_flatMap.1 h
  exact Property.isBareCloser_iff.1 (Node.isBareCloser_of_mem_dropped hr)

/-- What a document holds is what it is written with, and what is dropped. -/
theorem tally_normalize (hp : f.Keeps p) (hsort : f.sortProperties) (t : Text) :
    tally p t = tally p (normalize f t) + tallies p (dropped f t) := by
  have hfeed : ¬ p '\n' := hp.not_blank (by decide)
  have hblocks : tallies p ((Outline.ofLines (Text.lines t)).blocks.flatMap Block.lines) =
      tallies p ((Outline.ofLines (Text.lines t)).blocks.flatMap
          fun b => (Node.ofBlock f 0 b).lines) +
        tallies p (dropped f t) := by
    rw [dropped]
    simp only [Text.tallies_flatMap, ← List.sum_map_add]
    exact congrArg List.sum
      (List.map_congr_left fun b _ => Node.tallies_lines_build hp hsort _ 0 b)
  calc tally p t
      = tallies p (Outline.ofLines (Text.lines t)).lines := by
        rw [Outline.lines_ofLines, ← Text.tally_unlines hfeed, Text.unlines_lines]
    _ = tallies p (canonicalLines f (Text.lines t)) + tallies p (dropped f t) := by
        rw [Text.tallies_perm (Outline.lines_perm _), Text.tallies_perm (canonicalLines_perm f _),
          Text.tallies_append, Text.tallies_append, hblocks, add_assoc]
    _ = tally p (normalize f t) + tallies p (dropped f t) := by
        rw [normalize, if_pos hsort, Text.tally_unlines hfeed]

/-- How often a character that no rule changes occurs in a document and in what it is written
    with. -/
theorem count_normalize {c : Char} (hc : f.Keeps (· == c)) (hsort : f.sortProperties) (t : Text) :
    t.count c = (normalize f t).count c + (tallies (· == c) (dropped f t)).card := by
  rw [← Text.card_tally, tally_normalize hc hsort, Multiset.card_add, Text.card_tally]

/-- A character that no rule changes, and that stands in no bare closer, is neither added nor
    lost. -/
theorem count_normalize_of_ne {c : Char} (hc : f.Keeps (· == c)) (hclose : c ≠ '}')
    (hsemicolon : c ≠ ';') (hsort : f.sortProperties) (t : Text) :
    (normalize f t).count c = t.count c := by
  have hnone : ∀ r ∈ dropped f t, r.count c = 0 := by
    intro r hr
    rw [List.count_eq_zero]
    rcases eq_of_mem_dropped hr with rfl | rfl
    · simpa using hclose
    · simpa using ⟨hclose, hsemicolon⟩
  rw [count_normalize hc hsort t, Text.card_tallies_of_count hnone, Nat.zero_mul, Nat.add_zero]

/-- One closing brace is lost with each dropped record. -/
theorem count_close_normalize (hsort : f.sortProperties) (t : Text) :
    (normalize f t).count '}' + (dropped f t).length = t.count '}' := by
  have hone : ∀ r ∈ dropped f t, r.count '}' = 1 := by
    intro r hr
    rcases eq_of_mem_dropped hr with rfl | rfl
    · decide
    · decide
  rw [count_normalize (Filter.keeps_char (by decide) ⟨by decide, by decide⟩) hsort t,
    Text.card_tallies_of_count hone, Nat.one_mul]

/-- A node whose name holds a comma opens no block: its lines are properties of the node
    around it, and the brace that closes it is a record on its own. -/
def commaNode : Text :=
  Text.unlines (["soc \x7b", "fsl,mu \x7b", "x;", "\x7d;", "a \x7b", "\x7d;", "\x7d;"].map
    String.toList)

/-- Ordering keeps every opening brace. It loses one closing brace with each record that is
    dropped, which is such a brace on its own, and so keeps them all if and only if nothing is
    dropped. -/
theorem count_braces_normalize (hsort : f.sortProperties) (t : Text) :
    (normalize f t).count '{' = t.count '{' ∧
      (normalize f t).count '}' + (dropped f t).length = t.count '}' ∧
      (∀ r ∈ dropped f t, r = ['}'] ∨ r = ['}', ';']) ∧
      ((normalize f t).count '}' = t.count '}' ↔ dropped f t = []) := by
  have hopen : (normalize f t).count '{' = t.count '{' :=
    count_normalize_of_ne (Filter.keeps_char (by decide) ⟨by decide, by decide⟩) (by decide)
      (by decide) hsort t
  have hclose := count_close_normalize hsort t
  refine ⟨hopen, hclose, fun r hr => eq_of_mem_dropped hr, ?_⟩
  rw [← List.length_eq_zero_iff]
  omega

theorem count_braces_normalize_commaNode :
    Filter.semantic.sortProperties ∧ (dropped .semantic commaNode).length = 1 ∧
      (normalize .semantic commaNode).count '{' = commaNode.count '{' ∧
      (normalize .semantic commaNode).count '}' + 1 = commaNode.count '}' := by
  have hsort : Filter.semantic.sortProperties := rfl
  have hdropped : (dropped .semantic commaNode).length = 1 := by decide +kernel
  obtain ⟨hopen, hclose, -, -⟩ := count_braces_normalize hsort commaNode
  rw [hdropped] at hclose
  exact ⟨hsort, hdropped, hopen, hclose⟩

/-- A document in which every block has as many opening as closing braces, and so have the
    blocks in it, loses a closing brace. -/
theorem normalize_loses_brace_commaNode :
    Filter.semantic.sortProperties ∧
      (∀ b ∈ (Outline.ofLines (Text.lines commaNode)).blocks,
        b.EvenThroughout (Node.levelsFrom 0)) ∧
      (normalize .semantic commaNode).count '}' ≠ commaNode.count '}' := by
  have hsort : Filter.semantic.sortProperties := rfl
  have hdropped : (dropped .semantic commaNode).length = 1 := by decide +kernel
  have hclose := count_close_normalize hsort commaNode
  refine ⟨hsort, by decide +kernel, ?_⟩
  omega

/-- Where literals are not respelled, the characters of a document other than blanks are those
    it is written with and those of the dropped records, each of which is a closing brace on
    its own. -/
theorem ink_normalize (hsort : f.sortProperties) (hhex : ¬ f.normalizeHexValues) (t : Text) :
    tally (!isBlank ·) t =
        tally (!isBlank ·) (normalize f t) + tallies (!isBlank ·) (dropped f t) ∧
      ∀ r ∈ dropped f t, r = ['}'] ∨ r = ['}', ';'] := by
  have hkeeps : f.Keeps (!isBlank ·) := ⟨fun c hc => by simpa using hc, fun h => absurd h hhex⟩
  exact ⟨tally_normalize hkeeps hsort t, fun r hr => eq_of_mem_dropped hr⟩

/-- A block that is never closed, with a closing brace on its own and a block cut short in it. -/
def tornNode : Text :=
  Text.unlines (["n \x7b \x7b", "x = <1  2>;", "", "\x7d", "m \x7b", "\"a\" ,"].map String.toList)

theorem ink_normalize_tornNode :
    let f : Filter := { sortProperties := true, normalizeArrays := true }
    f.sortProperties ∧ ¬ f.normalizeHexValues ∧ dropped f tornNode = [['}']] ∧
      tally (!isBlank ·) tornNode =
        tally (!isBlank ·) (normalize f tornNode) + tally (!isBlank ·) ['}'] := by
  intro f
  have hdropped : dropped f tornNode = [['}']] := by decide +kernel
  have hcontents := (ink_normalize (f := f) rfl (by decide) tornNode).1
  rw [hdropped, Text.tallies_cons, Text.tallies_nil, add_zero] at hcontents
  exact ⟨rfl, by decide, hdropped, hcontents⟩

end Document

end Devicetree
