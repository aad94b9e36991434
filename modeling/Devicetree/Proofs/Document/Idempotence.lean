-- SUMMARY: For which filters processing is idempotent, and for which texts where it is not.
import Devicetree.Proofs.Document.Canonical
import Devicetree.Proofs.Source.PlainTexts

/-!
# Processing twice

A filter that orders never makes processing idempotent: the record that ends a body
needs no semicolon, and where sorting puts it in front of another the two are read
as one. A filter that does not order cleans only, and cleaning is idempotent as far
as no comment that is dropped leaves something behind for the scanner to find.
-/

namespace Devicetree

/-! ## What cleaning reads of a filter -/

namespace Filter

/-- The lexical switches alone. -/
def lexical (f : Filter) : Filter where
  stripLineComments := f.stripLineComments
  stripBlockComments := f.stripBlockComments
  preserveStringLiterals := f.preserveStringLiterals
  normalizeWhitespace := f.normalizeWhitespace

/-- Whether blocks are put in order. -/
def orders (f : Filter) : Bool :=
  f.semanticComparison && f.sortProperties

end Filter

namespace Scanner

theorem run_lexical (f : Filter) (s : State) (t : Text) : run f.lexical s t = run f s t := by
  induction t generalizing s with
  | nil => rfl
  | cons c cs ih =>
    have hstep : step f.lexical s c cs.head? = step f s c cs.head? := rfl
    rw [run_cons, run_cons, hstep, ih]

end Scanner

namespace Source

theorem clean_lexical (f : Filter) (t : Text) : clean f.lexical t = clean f t := by
  rw [clean, Scanner.run_lexical, clean]

/-! ## Cleaned texts that are not clean -/

/-- A line comment that a lone carriage return ends, which stays and is no line feed. -/
def loneReturn : Text :=
  "//\rx".toList

/-- A block comment behind a slash, with a star behind it. -/
def joinedMark : Text :=
  "//**/*x".toList

/-- A block comment behind a backslash, with a literal behind it that holds a mark. -/
def joinedEscape : Text :=
  "\\/**/\"//\"".toList

theorem clean_loneReturn_ne {f : Filter} (hline : f.stripLineComments)
    (hevens : f.normalizeWhitespace) :
    clean f (clean f loneReturn) ≠ clean f loneReturn := by
  have h : ∀ line block preserve even : Bool, line → even →
      let g : Filter := ⟨line, block, preserve, even, false, false, false, false⟩
      clean g (clean g loneReturn) ≠ clean g loneReturn := by
    decide
  have hf : clean f.lexical (clean f.lexical loneReturn) ≠ clean f.lexical loneReturn :=
    h _ f.stripBlockComments f.preserveStringLiterals _ hline hevens
  rwa [clean_lexical, clean_lexical] at hf

theorem clean_joinedMark_ne {f : Filter} (hblock : f.stripBlockComments)
    (hline : ¬ f.stripLineComments) :
    clean f (clean f joinedMark) ≠ clean f joinedMark := by
  have h : ∀ line block preserve even : Bool, block → ¬ line →
      let g : Filter := ⟨line, block, preserve, even, false, false, false, false⟩
      clean g (clean g joinedMark) ≠ clean g joinedMark := by
    decide
  have hf : clean f.lexical (clean f.lexical joinedMark) ≠ clean f.lexical joinedMark :=
    h _ _ f.preserveStringLiterals f.normalizeWhitespace hblock hline
  rwa [clean_lexical, clean_lexical] at hf

theorem clean_joinedEscape_ne {f : Filter} (hblock : f.stripBlockComments)
    (hline : f.stripLineComments) (hliteral : f.preserveStringLiterals) :
    clean f (clean f joinedEscape) ≠ clean f joinedEscape := by
  have h : ∀ line block preserve even : Bool, block → line → preserve →
      let g : Filter := ⟨line, block, preserve, even, false, false, false, false⟩
      clean g (clean g joinedEscape) ≠ clean g joinedEscape := by
    decide
  have hf : clean f.lexical (clean f.lexical joinedEscape) ≠ clean f.lexical joinedEscape :=
    h _ _ _ f.normalizeWhitespace hblock hline hliteral
  rwa [clean_lexical, clean_lexical] at hf

end Source

/-! ## An ordered document that is not in order -/

namespace Document

variable {f : Filter}

/-- A document that is one block of properties has their records put in order and spelled. -/
theorem canonicalLines_of_records (hsort : f.sortProperties) {ls : List Line} (b : Block)
    (rs rs' : List Text) (hls : Outline.ofLines ls = [.block b]) (hrest : b.rest ≠ [])
    (hbody : b.outline.blocks = [])
    (hrecords : b.records.filter (!Property.isBareCloser ·) = rs)
    (hsorted : Node.sortByKey Line.propertyKey rs = rs') :
    canonicalLines f ls =
      b.opening :: rs'.map (fun r => Property.line b.opening (.ofRecord f r)) ++ [b.closing] := by
  have hordered : Node.sortByKey Property.key (Property.ofLines f b.propertyLines) =
      rs'.map (Property.ofRecord f) := by
    rw [Property.ofLines, ← Block.records, hrecords, Property.sortByKey_map_ofRecord, hsorted]
  have hnode : (Node.ofBlock f 0 b).lines =
      b.opening :: rs'.map (fun r => Property.line b.opening (.ofRecord f r)) ++ [b.closing] := by
    rw [Node.ofBlock, show Node.levelsFrom 0 = 5 + 1 from rfl, Node.lines_build hsort 5 0 hrest,
      hordered, hbody]
    simp [Node.sortByKey, Function.comp_def]
  simp [canonicalLines, orderedNodes, hls, Node.sortByKey, fill, hnode]

/-- Records that are spelled already are put in order. -/
theorem canonicalLines_of_properties (hsort : f.sortProperties) {ls : List Line} (b : Block)
    (rs rs' : List Text) (hls : Outline.ofLines ls = [.block b]) (hrest : b.rest ≠ [])
    (hbody : (Outline.ofLines b.body).blocks = [])
    (hrecords : (Record.join ((Outline.ofLines b.body).freeLines.filter
      fun l => Line.kind l != .blank)).filter (!Property.isBareCloser ·) = rs)
    (hsorted : Node.sortByKey Line.propertyKey rs = rs')
    (hspelled : ∀ r ∈ rs, HexLiteral.normalize r = r ∧ Value.normalizeLists r = r) :
    canonicalLines f ls =
      b.opening :: rs'.map (fun r => Node.propertyIndent b.opening ++ Text.trim r)
        ++ [b.closing] := by
  have hspell : ∀ r ∈ rs', Value.spell f r = r := by
    intro r hr
    rw [← hsorted] at hr
    obtain ⟨hhex, hlists⟩ := hspelled r ((Node.sortByKey_perm _ _).mem_iff.1 hr)
    rw [Value.spell]
    by_cases hf : f.normalizeHexValues <;> simp [hf, hhex, hlists]
  rw [canonicalLines_of_records hsort b rs rs' hls hrest hbody hrecords hsorted]
  congr 2
  refine List.map_congr_left fun r hr => ?_
  rw [Property.line, Property.ofRecord, hspell r hr]

/-- A block whose last record has no semicolon and comes first by its key. -/
def openRecord : Text :=
  Text.unlines (["n \x7b", "c;", "b", "\x7d;"].map String.toList)

/-- The block in order: its first record does not end with its line. -/
def orderedRecord : Text :=
  Text.unlines (["n \x7b", "    b", "    c;", "\x7d;"].map String.toList)

/-- The block in order again: the two records are one. -/
def mergedRecord : Text :=
  Text.unlines (["n \x7b", "    b c;", "\x7d;"].map String.toList)

theorem normalize_openRecord (hsort : f.sortProperties) :
    normalize f openRecord = orderedRecord := by
  rw [normalize, if_pos hsort, canonicalLines_of_properties hsort
    ⟨"n \x7b".toList, ["c;".toList, "b".toList, "\x7d;".toList]⟩
    ["c;".toList, "b".toList] ["b".toList, "c;".toList]]
  · decide
  · decide
  · simp
  · decide
  · decide
  · exact Node.sortByKey_eq_of_ascending (by decide) (by decide) (by decide)
  · decide

theorem normalize_orderedRecord (hsort : f.sortProperties) :
    normalize f orderedRecord = mergedRecord := by
  rw [normalize, if_pos hsort, canonicalLines_of_properties hsort
    ⟨"n \x7b".toList, ["    b".toList, "    c;".toList, "\x7d;".toList]⟩
    ["b c;".toList] ["b c;".toList]]
  · decide
  · decide
  · simp
  · decide
  · decide
  · exact Node.sortByKey_eq_of_ascending (by decide) (by decide) (by decide)
  · decide

end Document

/-! ## Processing -/

namespace Source

variable {f : Filter}

theorem process_of_not_orders (h : ¬ f.orders) (t : Text) : process f t = clean f t := by
  simp only [Filter.orders, Bool.and_eq_true, not_and] at h
  unfold process
  split
  · rename_i hsemantic
    rw [Document.normalize, if_neg (h hsemantic)]
  · rfl

theorem process_of_orders (h : f.orders) (t : Text) :
    process f t = Document.normalize f (clean f t) := by
  simp only [Filter.orders, Bool.and_eq_true] at h
  rw [process, if_pos h.1]

theorem process_openRecord_ne (h : f.orders) :
    process f (process f Document.openRecord) ≠ process f Document.openRecord := by
  have hclean : ∀ line block preserve even : Bool,
      let g : Filter := ⟨line, block, preserve, even, false, false, false, false⟩
      clean g Document.openRecord = Document.openRecord ∧
        clean g Document.orderedRecord = Document.orderedRecord := by
    decide
  have hf : clean f.lexical Document.openRecord = Document.openRecord ∧
      clean f.lexical Document.orderedRecord = Document.orderedRecord :=
    hclean f.stripLineComments f.stripBlockComments f.preserveStringLiterals f.normalizeWhitespace
  rw [clean_lexical, clean_lexical] at hf
  have hsort : f.sortProperties := by
    simp only [Filter.orders, Bool.and_eq_true] at h
    exact h.2
  rw [process_of_orders h, process_of_orders h, hf.1, Document.normalize_openRecord hsort, hf.2,
    Document.normalize_orderedRecord hsort]
  decide

/-- Where every text is plain. -/
theorem plain_of_switches (hreturns : ¬ (f.stripLineComments ∧ f.normalizeWhitespace))
    (hmarks : f.stripBlockComments → f.stripLineComments ∧ ¬ f.preserveStringLiterals) (t : Text) :
    Scanner.Plain f t where
  returns hline hevens := absurd ⟨hline, hevens⟩ hreturns
  escapes hblock hliteral := absurd hliteral (hmarks hblock).2
  slashes hblock hline := absurd (hmarks hblock).1 hline

/-- Processing is idempotent on every text for those filters that do not order and never
    join anything by dropping a comment. A filter that does not order is idempotent on the
    texts of which it leaves something quiet, among them the plain ones. One that orders is
    on those that are well-formed once cleaned, if what it writes is clean. -/
theorem process_process_iff (f : Filter) :
    ((∀ t, process f (process f t) = process f t) ↔
      ¬ f.orders ∧ ¬ (f.stripLineComments ∧ f.normalizeWhitespace) ∧
        (f.stripBlockComments → f.stripLineComments ∧ ¬ f.preserveStringLiterals)) ∧
      (¬ f.orders → ∀ t,
        (process f (process f t) = process f t ↔
          Scanner.Quiet f (.atLine none) (process f t)) ∧
        (Scanner.Plain f t → process f (process f t) = process f t)) ∧
      (f.orders → ∀ t, Document.WellFormed f (clean f t) →
        clean f (process f t) = process f t → process f (process f t) = process f t) := by
  refine ⟨⟨fun h => ?_, fun h t => ?_⟩, fun horders t => ?_, fun horders t hwell hclean => ?_⟩
  · have horders : ¬ f.orders := fun horders => process_openRecord_ne horders (h _)
    have hclean : ∀ t, clean f (clean f t) = clean f t := by
      intro t
      have ht := h t
      rwa [process_of_not_orders horders, process_of_not_orders horders] at ht
    refine ⟨horders, fun hswitches => ?_, fun hblock => ?_⟩
    · exact clean_loneReturn_ne hswitches.1 hswitches.2 (hclean _)
    · have hline : f.stripLineComments := by
        by_contra hline
        exact clean_joinedMark_ne hblock hline (hclean _)
      exact ⟨hline, fun hliteral => clean_joinedEscape_ne hblock hline hliteral (hclean _)⟩
  · rw [process_of_not_orders h.1, process_of_not_orders h.1]
    exact clean_clean_of_plain (plain_of_switches h.2.1 h.2.2 t)
  · rw [process_of_not_orders horders, process_of_not_orders horders]
    exact ⟨clean_clean_iff, clean_clean_of_plain⟩
  · rw [process_of_orders horders, hclean, process_of_orders horders]
    exact Document.normalize_idempotent_of_wellFormed hwell

/-- A node with comments of both kinds, and with its properties out of order. -/
def commented : Text :=
  Text.unlines (["n \x7b", "\tb; // x", "  /* y */ a;", "\x7d;"].map String.toList)

theorem process_process_commented :
    (∀ t, process { preserveStringLiterals := false, normalizeWhitespace := false }
        (process { preserveStringLiterals := false, normalizeWhitespace := false } t) =
      process { preserveStringLiterals := false, normalizeWhitespace := false } t) ∧
      process {} (process {} commented) = process {} commented ∧
      process .semantic (process .semantic commented) = process .semantic commented := by
  have hplain : Scanner.Plain {} commented := by
    refine ⟨fun _ _ u v heq => ?_, fun _ _ => by decide +kernel, fun _ hline => absurd rfl hline⟩
    have hmem : '\r' ∈ commented := heq ▸ by simp
    exact absurd hmem (by decide +kernel)
  have hsort : Filter.semantic.sortProperties := rfl
  have hordered : process .semantic commented =
      Text.unlines (["n \x7b", "    a;", "    b;", "\x7d;"].map String.toList) := by
    rw [process_of_orders rfl, Document.normalize, if_pos hsort,
      Document.canonicalLines_of_properties hsort
        ⟨"n \x7b".toList, ["    b;".toList, "  a;".toList, "\x7d;".toList]⟩
        ["b;".toList, "a;".toList] ["a;".toList, "b;".toList]]
    · decide +kernel
    · decide +kernel
    · simp
    · decide +kernel
    · decide +kernel
    · exact Node.sortByKey_eq_of_ascending (by decide +kernel) (by decide +kernel)
        (by decide +kernel)
    · decide +kernel
  refine ⟨(process_process_iff _).1.2 ⟨by decide, by decide, fun _ => ⟨rfl, by decide⟩⟩,
    ((process_process_iff {}).2.1 (by decide) commented).2 hplain,
    (process_process_iff .semantic).2.2 rfl commented (by decide +kernel) ?_⟩
  rw [hordered]
  decide +kernel

/-- With the switches that are on from the start, a lone carriage return that ends a
    comment is a line feed the second time. -/
theorem process_process_loneReturn :
    process {} (process {} loneReturn) ≠ process {} loneReturn := by
  decide +kernel

end Source

end Devicetree
