-- SUMMARY: Ordering shows a change inside a literal, unless its values are spelled alike.
import Devicetree.Proofs.Document.Contents
import Devicetree.Proofs.Document.Idempotence
import Devicetree.Proofs.Source.Variants

/-!
# Variants of a document

Documents that differ in one literal are cleaned into such documents. Where the
literals hold as many braces, they are ordered with one line that differs: the line
itself, or that of the property whose record it is part of. In the line of a
property the change can be lost, because the rules that spell literals and arrays
do not ask whether what they respell is quoted.

Braces that are quoted count as braces. Literals that differ in them may cut a
document into other blocks, and what is written for the two is then compared by the
braces it holds.
-/

namespace Devicetree

open Text (Varies SameMarks withLiteral)

variable {f : Filter} {s t : Text}

/-! ## Records -/

/-- A literal is respelled as if it stood alone. -/
theorem HexLiteral.normalize_withLiteral (u v s : Text) :
    normalize (withLiteral u v s) = withLiteral (normalize u) (normalize v) (normalize s) := by
  have hquote : ∀ w : Text, ∀ c ∈ ('"' :: w).head?, IsApart c := by
    intro w c hc
    obtain rfl : '"' = c := by simpa using hc
    exact ⟨by decide, by decide⟩
  rw [withLiteral, normalize_append (hquote _), normalize_cons (by decide),
    normalize_append (hquote _), normalize_cons (by decide), ← withLiteral]

/-- The records of the properties of a block, and of the blocks in it as far as they are parsed. -/
def Node.records : (levels : Nat) → Block → List Text
  | 0, _ => []
  | levels + 1, b =>
    if b.rest.isEmpty then []
    else b.records ++ b.outline.blocks.flatMap (Node.records levels)

/-- The records that properties of a document are made of, and those that are dropped. -/
def Document.records (t : Text) : List Text :=
  (Outline.ofLines (Text.lines t)).blocks.flatMap (Node.records (Node.levelsFrom 0))

/-- Two lines that are written for variants: variants again, or lines of properties whose
    records are variants. -/
inductive Line.Rewritten (f : Filter) (s t : Text) (rs qs : List Text) : Line → Line → Prop
  | line {l k : Line} (h : Varies s t l k) : Rewritten f s t rs qs l k
  | property (opening : Line) {r q : Text} (hr : r ∈ rs) (hq : q ∈ qs) (h : Varies s t r q) :
      Rewritten f s t rs qs (Property.line opening (.ofRecord f r))
        (Property.line opening (.ofRecord f q))

theorem Line.Rewritten.mono {rs rs' qs qs' : List Text} {l k : Line} (hrs : rs ⊆ rs')
    (hqs : qs ⊆ qs') (h : Rewritten f s t rs qs l k) : Rewritten f s t rs' qs' l k := by
  cases h with
  | line h => exact .line h
  | property opening hr hq h => exact .property opening (hrs hr) (hqs hq) h

/-- If such lines are the same, the records of a property are spelled the same. -/
theorem Line.Rewritten.of_eq {rs qs : List Text} {l k : Line} (h : Rewritten f s t rs qs l k)
    (hne : s ≠ t) (heq : l = k) :
    ∃ r ∈ rs, ∃ q ∈ qs, Varies s t r q ∧
      Text.trim (Value.spell f r) = Text.trim (Value.spell f q) := by
  cases h with
  | line h =>
    subst heq
    exact absurd h.eq_of_self hne
  | property opening hr hq h => exact ⟨_, hr, _, hq, h, List.append_cancel_left heq⟩

/-! ## Blocks -/

namespace Block

theorem Differs.length_rest {b c : Block} (h : Differs s t b c) :
    b.rest.length = c.rest.length := by
  simpa [lines] using h.length_eq

/-- The line that varies opens the block, is one of its body, or closes it. -/
theorem Differs.split {b c : Block} (h : Differs s t b c) (hb : b.rest ≠ []) (hc : c.rest ≠ []) :
    Varies s t b.opening c.opening ∧ b.body = c.body ∧ b.closing = c.closing ∨
      b.opening = c.opening ∧ OneApart (Varies s t) b.body c.body ∧ b.closing = c.closing ∨
      b.opening = c.opening ∧ b.body = c.body ∧ Varies s t b.closing c.closing := by
  rw [Differs, lines_eq_body hb, lines_eq_body hc] at h
  rcases h.of_cons with ⟨hopening, hrest⟩ | ⟨hopening, hrest⟩
  · have hbody := List.append_inj' hrest rfl
    exact .inl ⟨hopening, hbody.1, by simpa using hbody.2⟩
  · rcases hrest.of_concat with ⟨hbody, hclosing⟩ | ⟨hbody, hclosing⟩
    · exact .inr (.inl ⟨hopening, hbody, hclosing⟩)
    · exact .inr (.inr ⟨hopening, hbody, hclosing⟩)

theorem propertyLines_oneApart {b c : Block}
    (h : OneApart (Varies s t) b.outline.freeLines c.outline.freeLines) :
    OneApart (Varies s t) b.propertyLines c.propertyLines := by
  refine h.filter fun l k h => ?_
  obtain ⟨hl, hk⟩ := Line.kind_ne_blank h
  exact ⟨by simpa using hl, by simpa using hk⟩

/-- A block that is kept as it is has one line that differs. -/
theorem Differs.lines_upToOrder {b c : Block} (h : Differs s t b c) (rs qs : List Text) :
    OneApart.UpToOrder (Line.Rewritten f s t rs qs) b.lines c.lines :=
  h.upToOrder.mono fun _ _ h => .line h

end Block

/-- What is written for an outline of which one segment varies differs in one line, if it does
    for its free lines and for each of its blocks. -/
theorem Outline.upToOrder_append {o o' : Outline} (h : OneApart (Segment.Differs s t) o o')
    {R : Line → Line → Prop} {ls ks : List Line} {write : Block → List Line}
    (hsame : o.freeLines = o'.freeLines → ls = ks)
    (hfree : OneApart (Varies s t) o.freeLines o'.freeLines → OneApart.UpToOrder R ls ks)
    (hblocks : ∀ b ∈ o.blocks, ∀ c ∈ o'.blocks, Block.Differs s t b c →
      OneApart.UpToOrder R (write b) (write c)) :
    OneApart.UpToOrder R (ls ++ o.blocks.flatMap write) (ks ++ o'.blocks.flatMap write) := by
  rcases split_oneApart h with ⟨hlines, heq⟩ | ⟨heq, hdiffer⟩
  · rw [heq]
    exact (hfree hlines).append_right _
  · rw [hsame heq]
    exact (OneApart.UpToOrder.flatMap hdiffer hblocks).append_left _

namespace Property

theorem isBareCloser_eq_false {r : Text} (h : '"' ∈ r) : isBareCloser r = false := by
  rw [Bool.eq_false_iff, ne_eq, isBareCloser_iff]
  rintro (rfl | rfl)
  · simp at h
  · simp at h

theorem propertyIndent_eq {l k : Line} (h : Varies s t l k) :
    Node.propertyIndent l = Node.propertyIndent k := by
  obtain ⟨u, v, rfl, rfl⟩ := h
  simp only [Node.propertyIndent, withLiteral,
    Line.takeWhile_append_quote (p := isBlank) (by decide)]

/-- Property lines of which one varies are written with one line that differs. -/
theorem lines_upToOrder (hst : SameMarks s t) (opening : Line) {ls ks : List Line}
    (h : OneApart (Varies s t) ls ks) :
    OneApart.UpToOrder (Line.Rewritten f s t (Record.join ls) (Record.join ks))
      ((ofLines f ls).map (line opening)) ((ofLines f ks).map (line opening)) := by
  have hrecords := (Record.join_oneApart hst h).with_mem
  have hkept := hrecords.filter (p := (!isBareCloser ·)) fun r q ⟨h, _, _⟩ => by
    simp [isBareCloser_eq_false h.quote_mem.1, isBareCloser_eq_false h.quote_mem.2]
  have hproperties := hkept.map (g := fun r => line opening (ofRecord f r))
    (S := Line.Rewritten f s t (Record.join ls) (Record.join ks))
    fun r q ⟨h, hr, hq⟩ => .property opening hr hq h
  rw [ofLines, ofLines, List.map_map, List.map_map]
  exact hproperties.upToOrder

end Property

namespace Node

theorem records_succ (levels : Nat) {b : Block} (hrest : b.rest ≠ []) :
    records (levels + 1) b = b.records ++ b.outline.blocks.flatMap (records levels) := by
  rw [records, if_neg (by simpa using hrest)]

/-- A block of which one line varies is written with one line that differs: by induction on
    the levels that are parsed. -/
theorem build_upToOrder (hst : SameMarks s t) (hsort : f.sortProperties) {levels : Nat}
    {depth : Int} {b c : Block} (h : Block.Differs s t b c) :
    OneApart.UpToOrder (Line.Rewritten f s t (records levels b) (records levels c))
      (build f levels depth b).lines (build f levels depth c).lines := by
  induction levels generalizing depth b c with
  | zero => exact h.lines_upToOrder _ _
  | succ levels ih =>
    by_cases hb : b.rest = []
    · have hc : c.rest = [] := by
        rw [← List.length_eq_zero_iff, ← h.length_rest, hb, List.length_nil]
      rw [build_of_rest_eq_nil f _ _ hb, build_of_rest_eq_nil f _ _ hc]
      exact h.lines_upToOrder _ _
    · have hc : c.rest ≠ [] := by
        rwa [ne_eq, ← List.length_eq_zero_iff, ← h.length_rest, List.length_eq_zero_iff]
      refine OneApart.UpToOrder.of_perm ?_ (lines_build_perm hsort levels depth hb)
        (lines_build_perm hsort levels depth hc)
      rcases h.split hb hc with ⟨hopening, hbody, hclosing⟩ | ⟨hopening, hbody, hclosing⟩ |
        ⟨hopening, hbody, hclosing⟩
      · have hsame : Property.line b.opening = Property.line c.opening := by
          funext p
          rw [Property.line, Property.line, Property.propertyIndent_eq hopening]
        rw [Block.propertyLines, Block.outline, hbody, hclosing, hsame]
        exact (OneApart.here (.line hopening) _).upToOrder
      · have houtline : OneApart (Segment.Differs s t) b.outline c.outline :=
          Outline.ofLines_oneApart hst hbody
        rw [hopening, hclosing, records_succ levels hb, records_succ levels hc]
        refine .append_left _ (.append_right ?_ _)
        refine Outline.upToOrder_append houtline (fun heq => ?_) (fun hfree => ?_)
          fun d hd e he hde => ?_
        · rw [Block.propertyLines, heq, Block.propertyLines]
        · exact (Property.lines_upToOrder hst _ (Block.propertyLines_oneApart hfree)).mono
            fun l k h => h.mono (List.subset_append_left _ _) (List.subset_append_left _ _)
        · refine (ih hde).mono fun l k h => h.mono ?_ ?_
          · exact List.subset_append_of_subset_right _ fun r hr => List.mem_flatMap.2 ⟨d, hd, hr⟩
          · exact List.subset_append_of_subset_right _ fun r hr => List.mem_flatMap.2 ⟨e, he, hr⟩
      · rw [hopening, Block.propertyLines, Block.outline, hbody, ← Block.outline, ← Block.propertyLines]
        exact .append_left _ (OneApart.append_left _ (.here (.line hclosing) [])).upToOrder

end Node

/-! ## Documents -/

namespace Document

/-- Documents of which one line varies are written with one line that differs. -/
theorem canonicalLines_upToOrder (hst : SameMarks s t) (hsort : f.sortProperties) {a b : Text}
    (h : Varies s t a b) :
    OneApart.UpToOrder (Line.Rewritten f s t (records a) (records b))
      (canonicalLines f (Text.lines a)) (canonicalLines f (Text.lines b)) := by
  have houtline := Outline.ofLines_oneApart hst (h.lines hst.newline.1 hst.newline.2)
  refine OneApart.UpToOrder.of_perm ?_ (canonicalLines_perm f _) (canonicalLines_perm f _)
  refine Outline.upToOrder_append houtline id (fun hfree => ?_) fun c hc d hd hcd => ?_
  · exact hfree.upToOrder.mono fun _ _ h => .line h
  · refine (Node.build_upToOrder hst hsort hcd).mono fun l k h => h.mono ?_ ?_
    · exact fun r hr => List.mem_flatMap.2 ⟨c, hc, hr⟩
    · exact fun r hr => List.mem_flatMap.2 ⟨d, hd, hr⟩

/-- A record with the one literal and one with the other that the rules for values, and trimming,
    leave no different. -/
def SpelledAlike (f : Filter) (s t a b : Text) : Prop :=
  ∃ r ∈ records a, ∃ q ∈ records b, Varies s t r q ∧
    Text.trim (Value.spell f r) = Text.trim (Value.spell f q)

/-- Where arrays are left as they are, a change is lost in a spelling only if the two literals
    hold the same numbers. -/
theorem not_spelledAlike {a b : Text} (harrays : ¬ f.normalizeArrays) (hne : s ≠ t)
    (hhex : f.normalizeHexValues → HexLiteral.normalize s ≠ HexLiteral.normalize t) :
    ¬ SpelledAlike f s t a b := by
  rintro ⟨r, -, q, -, ⟨u, v, rfl, rfl⟩, heq⟩
  have hspell : ∃ x y, ∃ spelled : Text → Text, spelled s ≠ spelled t ∧
      ∀ w, Value.spell f (withLiteral u v w) = withLiteral x y (spelled w) := by
    by_cases hf : f.normalizeHexValues
    · refine ⟨HexLiteral.normalize u, HexLiteral.normalize v, HexLiteral.normalize, hhex hf,
        fun w => ?_⟩
      rw [Value.spell, if_pos hf, if_neg harrays, HexLiteral.normalize_withLiteral]
    · exact ⟨u, v, id, hne, fun w => by simp [Value.spell, hf, harrays]⟩
  obtain ⟨x, y, spelled, hdiffer, hspell⟩ := hspell
  have hvaries : Varies (spelled s) (spelled t) (Text.trim (Value.spell f (withLiteral u v s)))
      (Text.trim (Value.spell f (withLiteral u v t))) :=
    Varies.trim ⟨x, y, hspell s, hspell t⟩
  rw [heq] at hvaries
  exact hdiffer hvaries.eq_of_self

/-- Documents that are the same but for one literal are ordered differently, unless the literal
    gets lost in the spelling of a property, or a brace in it is made up for by dropped ones. -/
theorem normalize_ne_of_varies (hsort : f.sortProperties) (hne : s ≠ t)
    (hs : '\n' ∉ s) (ht : '\n' ∉ t) {a b : Text} (h : Varies s t a b)
    (hspelled : ¬ SpelledAlike f s t a b)
    (hclosers : s.count '}' + (dropped f b).length = t.count '}' + (dropped f a).length →
      s.count '}' = t.count '}') :
    normalize f a ≠ normalize f b := by
  intro heq
  have hcount : ∀ c, f.Keeps (· == c) → c ≠ '}' → c ≠ ';' → s.count c = t.count c := by
    intro c hc hclose hsemicolon
    have ha := count_normalize_of_ne hc hclose hsemicolon hsort a
    have hb := count_normalize_of_ne hc hclose hsemicolon hsort b
    have hvaries := h.count_add c
    rw [heq] at ha
    omega
  have hopening : s.count '{' = t.count '{' :=
    hcount _ (Filter.keeps_char (by decide) ⟨by decide, by decide⟩) (by decide) (by decide)
  have hequals : s.count '=' = t.count '=' :=
    hcount _ (Filter.keeps_char (by decide) ⟨by decide, by decide⟩) (by decide) (by decide)
  have hclosing : s.count '}' = t.count '}' := by
    refine hclosers ?_
    have ha := count_close_normalize hsort a
    have hb := count_close_normalize hsort b
    have hvaries := h.count_add '}'
    rw [heq] at ha
    omega
  have hst : SameMarks s t :=
    { newline := ⟨hs, ht⟩
      opening := hopening
      closing := hclosing
      equals := by rw [← List.count_pos_iff, hequals, List.count_pos_iff] }
  have hlines := canonicalLines_upToOrder hst hsort h
  rw [← lines_normalize hsort, ← lines_normalize hsort, heq] at hlines
  obtain ⟨l, hl⟩ := hlines.exists_self
  exact hspelled (hl.of_eq hne rfl)

end Document

namespace Source

/-- A change inside a literal shows: the canonical texts of two sources that are the same but
    for what one literal holds are different. The filter has to preserve literals, and the
    literal to begin outside of any other and of comments. Where the filter orders, there are
    two ways for the change to get lost: a rule for values spells a property with the one
    literal as it spells it with the other, or as many more closing braces are dropped as there
    are more in the literal. -/
theorem process_ne_of_literal (hkeep : f.preserveStringLiterals) {u : Text}
    (houtside : (Scanner.stateAfter f (some '"') .start u).isOutside)
    (hescaped : (Scanner.stateAfter f (some '"') .start u).escaped = false) (v : Text)
    (hs : s.IsContent) (ht : t.IsContent) (hne : s ≠ t)
    (hspelled : f.orders →
      f.normalizeArrays ∨ f.normalizeHexValues ∧ HexLiteral.normalize s = HexLiteral.normalize t →
      ¬ Document.SpelledAlike f s t (clean f (withLiteral u v s)) (clean f (withLiteral u v t)))
    (hclosers : f.orders →
      s.count '}' + (Document.dropped f (clean f (withLiteral u v t))).length =
        t.count '}' + (Document.dropped f (clean f (withLiteral u v s))).length →
      s.count '}' = t.count '}') :
    process f (withLiteral u v s) ≠ process f (withLiteral u v t) := by
  have hclean := varies_clean hkeep houtside hescaped v hs ht
  by_cases horders : f.orders
  · have hsort : f.sortProperties := by
      simp only [Filter.orders, Bool.and_eq_true] at horders
      exact horders.2
    have hdiffer : ¬ Document.SpelledAlike f s t (clean f (withLiteral u v s))
        (clean f (withLiteral u v t)) := by
      by_cases hrules : f.normalizeArrays ∨
          f.normalizeHexValues ∧ HexLiteral.normalize s = HexLiteral.normalize t
      · exact hspelled horders hrules
      · rw [not_or, not_and] at hrules
        exact Document.not_spelledAlike hrules.1 hne hrules.2
    rw [process_of_orders horders, process_of_orders horders]
    exact Document.normalize_ne_of_varies hsort hne hs.newline_not_mem ht.newline_not_mem hclean
      hdiffer (hclosers horders)
  · rw [process_of_not_orders horders, process_of_not_orders horders]
    intro heq
    rw [heq] at hclean
    exact hne hclean.eq_of_self

/-- A node with one property, up to the literal that the property holds. -/
def beforeStatus : Text :=
  "n \x7b /* one */\n\tstatus = ".toList

/-- What stands behind the literal. -/
def behindStatus : Text :=
  "; // two\n\x7d;".toList

theorem process_ne_of_literal_status :
    let a := withLiteral beforeStatus behindStatus "okay".toList
    let b := withLiteral beforeStatus behindStatus "0x1\x7d".toList
    Filter.semantic.preserveStringLiterals ∧
      (Scanner.stateAfter .semantic (some '"') .start beforeStatus).isOutside ∧
      (Scanner.stateAfter .semantic (some '"') .start beforeStatus).escaped = false ∧
      ¬ Document.SpelledAlike .semantic "okay".toList "0x1\x7d".toList (clean .semantic a)
        (clean .semantic b) ∧
      process .semantic a ≠ process .semantic b := by
  intro a b
  have hspelled : ¬ Document.SpelledAlike .semantic "okay".toList "0x1\x7d".toList
      (clean .semantic a) (clean .semantic b) := by
    have hrecords : ∀ r ∈ Document.records (clean .semantic a),
        ∀ q ∈ Document.records (clean .semantic b),
          Text.trim (Value.spell .semantic r) ≠ Text.trim (Value.spell .semantic q) := by
      decide +kernel
    rintro ⟨r, hr, q, hq, -, heq⟩
    exact hrecords r hr q hq heq
  refine ⟨rfl, by decide +kernel, by decide +kernel, hspelled, ?_⟩
  exact process_ne_of_literal rfl (by decide +kernel) (by decide +kernel) behindStatus
    (by decide +kernel) (by decide +kernel) (by decide +kernel) (fun _ _ => hspelled)
    fun _ => by decide +kernel

/-- The rule for literals does not ask whether a number is quoted: two different labels are
    made one. -/
theorem process_eq_of_labels :
    let u := "n \x7b\nlabel = ".toList
    let v := ";\n\x7d;".toList
    let s := "0x1".toList
    let t := "0x01".toList
    Filter.semantic.preserveStringLiterals ∧
      (Scanner.stateAfter .semantic (some '"') .start u).isOutside ∧
      (Scanner.stateAfter .semantic (some '"') .start u).escaped = false ∧
      Text.IsContent s ∧ Text.IsContent t ∧ s ≠ t ∧
      process .semantic (withLiteral u v s) = process .semantic (withLiteral u v t) := by
  intro u v s t
  have hsort : Filter.semantic.sortProperties := rfl
  have hordered : ∀ r : Text, r = s ∨ r = t →
      process .semantic (withLiteral u v r) =
        Text.unlines ["n \x7b".toList, "    label = \"0x01\";".toList, "\x7d;".toList] := by
    intro r hr
    have hclean : clean .semantic (withLiteral u v r) = withLiteral u v r := by
      rcases hr with rfl | rfl
      · decide +kernel
      · decide +kernel
    rw [process_of_orders rfl, hclean, Document.normalize, if_pos hsort]
    have hlines : Document.canonicalLines .semantic (Text.lines (withLiteral u v r)) =
        ["n \x7b".toList] ++ [Property.line "n \x7b".toList
          (.ofRecord .semantic (withLiteral "label = ".toList ";".toList r))] ++ ["\x7d;".toList] := by
      rw [Document.canonicalLines_of_records hsort
        ⟨"n \x7b".toList, [withLiteral "label = ".toList ";".toList r, "\x7d;".toList]⟩
        [withLiteral "label = ".toList ";".toList r] [withLiteral "label = ".toList ";".toList r]]
      · rfl
      · rcases hr with rfl | rfl <;> decide +kernel
      · simp
      · rcases hr with rfl | rfl <;> decide +kernel
      · rcases hr with rfl | rfl <;> decide +kernel
      · exact List.mergeSort_singleton _
    rw [hlines]
    rcases hr with rfl | rfl
    · decide +kernel
    · decide +kernel
  refine ⟨rfl, by decide +kernel, by decide +kernel, by decide +kernel, by decide +kernel,
    by decide +kernel, ?_⟩
  rw [hordered s (.inl rfl), hordered t (.inr rfl)]

end Source

end Devicetree
