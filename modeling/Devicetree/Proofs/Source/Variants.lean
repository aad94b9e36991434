-- SUMMARY: Sources that differ in one literal are cleaned, cut into blocks and joined into records alike.
import Devicetree.Proofs.Source.Literals
import Devicetree.Proofs.Source.Nodes
import Devicetree.Proofs.Text.Variants

/-!
# Variants of a source

The scanner copies what a literal holds and goes on as if it had held nothing, so a
change inside a literal stays one. What reads the lines behind it counts braces,
wherever they stand, and looks for a sign of equality. Literals that agree in these
are in the same block and the same record, whatever else they hold.
-/

namespace Devicetree

/-! ## Cleaning -/

/-- What a literal may hold that neither ends it, nor escapes a character, nor breaks the line. -/
def Text.IsContent (s : Text) : Prop :=
  ∀ c ∈ s, c ≠ '"' ∧ c ≠ '\\' ∧ c ≠ '\n'

instance (s : Text) : Decidable s.IsContent :=
  List.decidableBAll (fun c => c ≠ '"' ∧ c ≠ '\\' ∧ c ≠ '\n') s

theorem Text.IsContent.newline_not_mem {s : Text} (h : s.IsContent) : '\n' ∉ s :=
  fun hmem => (h _ hmem).2.2 rfl

theorem Text.IsContent.fits {s : Text} (h : s.IsContent) : Scanner.Fits '"' s where
  escaped x y hs := absurd rfl (h '"' (by simp [hs])).1
  closed := by
    rcases List.eq_nil_or_concat' s with rfl | ⟨v, c, rfl⟩
    · rfl
    · exact escapes_concat_of_ne (h c (by simp)).2.1 v

namespace Scanner

variable {f : Filter}

/-- A literal that begins outside of literals and comments is copied, and what is written
    around it does not depend on what it holds. -/
theorem run_withLiteral (hkeep : f.preserveStringLiterals) {u : Text}
    (houtside : (stateAfter f (some '"') .start u).isOutside)
    (hescaped : (stateAfter f (some '"') .start u).escaped = false) (v : Text) :
    ∃ x y, ∀ s : Text, s.IsContent →
      run f .start (Text.withLiteral u v s) = Text.withLiteral x y s := by
  generalize hσ : stateAfter f (some '"') .start u = σ at houtside hescaped
  refine ⟨runBefore f (some '"') .start u, run f σ.ended v, fun s hs => ?_⟩
  obtain ⟨hliteral, hended⟩ :=
    literal_spec hkeep houtside hescaped (q := '"') rfl hs.fits v.head?
  have hrun : run f σ ('"' :: (s ++ '"' :: v)) = '"' :: (s ++ '"' :: run f σ.ended v) := by
    have happend := run_append f σ ('"' :: (s ++ ['"'])) v
    rw [hliteral, hended] at happend
    simpa using happend
  rw [Text.withLiteral, run_append, List.head?_cons, hσ, hrun]
  rfl

end Scanner

namespace BlankLines

open Text

variable {s t a b : Text}

theorem thin_oneApart {edge : Bool} {ls ks : List Line} (h : OneApart (Varies s t) ls ks) :
    OneApart (Varies s t) (thin edge ls) (thin edge ks) := by
  induction h generalizing edge with
  | here h ls =>
    rw [thin, thin, h.isEmpty.1, h.isEmpty.2]
    exact .here h _
  | @later l ls ks h ih =>
    have hnext : ls.head?.any List.isEmpty = ks.head?.any List.isEmpty :=
      h.head?_any fun _ _ h => h.isEmpty.1.trans h.isEmpty.2.symm
    rw [thin, thin, hnext]
    split
    · exact ih
    · exact .later l ih

theorem varies_squeeze (hs : '\n' ∉ s) (ht : '\n' ∉ t) (h : Varies s t a b) (n : Nat) :
    Varies s t (squeeze n a) (squeeze n b) := by
  obtain ⟨u, v, rfl, rfl⟩ := h
  induction u generalizing n with
  | nil =>
    have hliteral : ∀ r : Text, '\n' ∉ r →
        squeeze n (withLiteral [] v r) = withLiteral [] (squeeze 0 v) r := by
      intro r hr
      have hline : '\n' ∉ '"' :: (r ++ ['"']) := by simpa using hr
      rw [withLiteral_nil, squeeze_append (by simp) hline, ← withLiteral_nil]
    exact ⟨[], squeeze 0 v, hliteral s hs, hliteral t ht⟩
  | cons c cs ih =>
    rw [withLiteral_cons, withLiteral_cons, squeeze, squeeze]
    split
    · split
      · exact ih n
      · exact (ih _).cons c
    · exact (ih 0).cons c

/-- Reducing blank lines keeps what a literal holds. -/
theorem varies_reduce (hs : '\n' ∉ s) (ht : '\n' ∉ t) (h : Varies s t a b) :
    Varies s t (reduce a) (reduce b) :=
  varies_squeeze hs ht
    (varies_unlines (thin_oneApart ((h.lines hs ht).map fun _ _ h => h.trimEnd))) 0

end BlankLines

/-- Sources that differ in one literal differ in it still when they are clean. -/
theorem Source.varies_clean {f : Filter} (hkeep : f.preserveStringLiterals) {u : Text}
    (houtside : (Scanner.stateAfter f (some '"') .start u).isOutside)
    (hescaped : (Scanner.stateAfter f (some '"') .start u).escaped = false) (v : Text) {s t : Text}
    (hs : s.IsContent) (ht : t.IsContent) :
    Text.Varies s t (clean f (Text.withLiteral u v s)) (clean f (Text.withLiteral u v t)) := by
  obtain ⟨x, y, hrun⟩ := Scanner.run_withLiteral hkeep houtside hescaped v
  exact BlankLines.varies_reduce hs.newline_not_mem ht.newline_not_mem
    ⟨x, y, hrun s hs, hrun t ht⟩

/-! ## Lines -/

/-- Texts that agree in what a reader of lines counts, and in what it looks for. -/
structure Text.SameMarks (s t : Text) : Prop where
  newline : '\n' ∉ s ∧ '\n' ∉ t
  opening : s.count '{' = t.count '{'
  closing : s.count '}' = t.count '}'
  equals : '=' ∈ s ↔ '=' ∈ t

namespace Line

open Text

variable {s t : Text} {l k : Line}

theorem takeWhile_append_quote {p : Char → Bool} (hp : ¬ p '"') (u r : Text) :
    (u ++ '"' :: r).takeWhile p = u.takeWhile p := by
  induction u with
  | nil => exact List.takeWhile_cons_of_neg hp
  | cons c cs ih =>
    rw [List.cons_append, List.takeWhile_cons, List.takeWhile_cons, ih]

/-- What a reader has taken of a text before the quote, it takes away before the quote. -/
theorem drop_append_quote {u w : Text} (hw : w <+: u) (r : Text) :
    (u ++ '"' :: r).drop w.length = u.drop w.length ++ '"' :: r :=
  List.drop_append_of_le_length hw.length_le

theorem goesOnWith_append_quote (c : Char) (u r r' : Text) :
    goesOnWith c (u ++ '"' :: r) = goesOnWith c (u ++ '"' :: r') := by
  rw [goesOnWith, goesOnWith, trimStart_append_quote, trimStart_append_quote]
  cases trimStart u <;> rfl

theorem unitAddress_append_quote (u r : Text) :
    unitAddress (u ++ '"' :: r) = unitAddress u := by
  cases u with
  | nil => rfl
  | cons c cs =>
    by_cases hc : c = '@'
    · subst hc
      rw [List.cons_append, unitAddress, unitAddress, takeWhile_append_quote (by decide)]
    · unfold unitAddress
      split <;> split <;> simp_all

theorem unitAddress_prefix (u : Text) : unitAddress u <+: u := by
  unfold unitAddress
  split
  · rename_i cs
    split
    · exact List.nil_prefix
    · rename_i heq
      rw [List.cons_prefix_cons]
      exact ⟨rfl, List.takeWhile_prefix _⟩
  · exact List.nil_prefix

/-- What is read of a label and a block name ends before a quote. -/
theorem label?_append_quote (u r r' : Text) :
    label? (u ++ '"' :: r) = label? (u ++ '"' :: r') := by
  have hname : u.takeWhile isNameChar <+: u := List.takeWhile_prefix _
  simp only [label?]
  rw [takeWhile_append_quote (by decide), takeWhile_append_quote (by decide),
    drop_append_quote hname, drop_append_quote hname, goesOnWith_append_quote]

/-- A label in front of a quote, and the colon behind it, are in front of the quote. -/
theorem of_label?_append_quote {u r name : Text} (h : label? (u ++ '"' :: r) = some name) :
    name <+: u ∧ trimStart (u.drop name.length) ≠ [] := by
  simp only [label?] at h
  rw [takeWhile_append_quote (by decide)] at h
  split at h
  · rename_i hcolon
    cases h
    refine ⟨List.takeWhile_prefix _, fun hnil => ?_⟩
    rw [drop_append_quote (List.takeWhile_prefix _), goesOnWith, trimStart_append_quote, hnil]
      at hcolon
    simp at hcolon
  · cases h

theorem blockName?_append_quote (u r r' : Text) :
    blockName? (u ++ '"' :: r) = blockName? (u ++ '"' :: r') := by
  have hname : u.takeWhile isNameChar <+: u := List.takeWhile_prefix _
  have hfull : u.takeWhile isNameChar ++
      unitAddress (u.drop (u.takeWhile isNameChar).length) <+: u := by
    generalize u.takeWhile isNameChar = name at hname ⊢
    obtain ⟨w, rfl⟩ := hname
    rw [List.drop_left, List.prefix_append_right_inj]
    exact unitAddress_prefix w
  simp only [blockName?]
  rw [takeWhile_append_quote (by decide), takeWhile_append_quote (by decide),
    drop_append_quote hname, drop_append_quote hname, unitAddress_append_quote,
    unitAddress_append_quote, drop_append_quote hfull, drop_append_quote hfull,
    goesOnWith_append_quote]

/-- Literals hold a brace both or neither, and so do the texts up to the end of the line. -/
theorem contains_takeWhile_withLiteral (hst : SameMarks s t) (u v : Text) :
    ((withLiteral u v s).takeWhile (· != '\n')).contains '{' =
      ((withLiteral u v t).takeWhile (· != '\n')).contains '{' := by
  induction u with
  | nil =>
    have hcut : ∀ r : Text, '\n' ∉ r → (withLiteral [] v r).takeWhile (· != '\n') =
        ('"' :: r) ++ ('"' :: v).takeWhile (· != '\n') := by
      intro r hr
      have hall : ∀ c ∈ '"' :: r, (c != '\n') = true := by
        intro c hc
        rcases List.mem_cons.1 hc with rfl | hc
        · rfl
        · simpa using fun heq : c = '\n' => hr (heq ▸ hc)
      exact List.takeWhile_append_of_pos hall
    have hbrace : '{' ∈ s ↔ '{' ∈ t := by
      rw [← List.count_pos_iff, hst.opening, List.count_pos_iff]
    rw [hcut s hst.newline.1, hcut t hst.newline.2, Bool.eq_iff_iff, List.contains_iff_mem,
      List.contains_iff_mem, List.mem_append, List.mem_append, List.mem_cons, List.mem_cons, hbrace]
  | cons c cs ih =>
    rw [withLiteral_cons, withLiteral_cons, List.takeWhile_cons, List.takeWhile_cons]
    split
    · rw [List.contains_cons, List.contains_cons, ih]
    · rfl

/-- Whether a brace follows a label can depend on what a literal holds, but only on whether
    there is a brace in it. -/
theorem bracedBehindLabel_withLiteral (hst : SameMarks s t) (u v : Text) :
    bracedBehindLabel (withLiteral u v s) = bracedBehindLabel (withLiteral u v t) := by
  have hblanks : ∀ r, (withLiteral u v r).takeWhile isBlank = u.takeWhile isBlank :=
    fun r => takeWhile_append_quote (by decide) u _
  have hrest : ∀ r, (withLiteral u v r).dropWhile isBlank = withLiteral (trimStart u) v r :=
    fun r => trimStart_append_quote u _
  simp only [bracedBehindLabel, hblanks, hrest]
  cases trimStart u with
  | nil =>
    have hcons : ∀ r, (withLiteral [] v r).takeWhile (· != '\n') =
        '"' :: (r ++ '"' :: v).takeWhile (· != '\n') := fun r => rfl
    have hcontains := contains_takeWhile_withLiteral hst [] v
    rw [hcons, hcons, List.contains_cons, List.contains_cons] at hcontains
    simpa [hcons] using hcontains
  | cons c cs =>
    rw [withLiteral_cons, withLiteral_cons, List.takeWhile_cons, List.takeWhile_cons]
    by_cases hc : c = '\n'
    · simp [hc]
    · simp only [bne_iff_ne, ne_eq, hc, not_false_eq_true, if_true,
        contains_takeWhile_withLiteral hst cs v]

theorem isLabeledOpener_withLiteral (hst : SameMarks s t) (u v : Text) :
    isLabeledOpener (withLiteral u v s) = isLabeledOpener (withLiteral u v t) := by
  have hlabel : label? (withLiteral u v s) = label? (withLiteral u v t) :=
    label?_append_quote u _ _
  simp only [isLabeledOpener, hlabel]
  split
  · rfl
  · rename_i name hsome
    obtain ⟨hname, hcolon⟩ := of_label?_append_quote (hlabel ▸ hsome)
    have hbehind : ∀ r, (trimStart ((withLiteral u v r).drop name.length)).drop 1 =
        withLiteral ((trimStart (u.drop name.length)).drop 1) v r := by
      intro r
      rw [withLiteral, drop_append_quote hname, trimStart_append_quote]
      cases htrim : trimStart (u.drop name.length) with
      | nil => exact absurd htrim hcolon
      | cons c cs => rfl
    rw [hbehind, hbehind, bracedBehindLabel_withLiteral hst]

/-- Variants of a line are of one kind, and hold something other than blanks. -/
theorem kind_eq (hst : SameMarks s t) (h : Varies s t l k) : kind l = kind k := by
  obtain ⟨u, v, hl, hk⟩ := h.trim
  have hempty := h.trim.isEmpty
  have hname : blockName? (trim l) = blockName? (trim k) := by
    rw [hl, hk]
    exact blockName?_append_quote _ _ _
  have hlabel : isLabeledOpener (trim l) = isLabeledOpener (trim k) := by
    rw [hl, hk]
    exact isLabeledOpener_withLiteral hst u v
  simp only [kind, hempty.1, hempty.2, hname, hlabel]

theorem kind_ne_blank (h : Varies s t l k) : kind l ≠ .blank ∧ kind k ≠ .blank := by
  have hempty := h.trim.isEmpty
  refine ⟨fun hl => ?_, fun hk => ?_⟩
  · rw [kind_eq_blank_iff.1 hl] at hempty
    exact absurd hempty.1 (by decide)
  · rw [kind_eq_blank_iff.1 hk] at hempty
    exact absurd hempty.2 (by decide)

theorem braceBalance_eq (hst : SameMarks s t) (h : Varies s t l k) :
    braceBalance l = braceBalance k := by
  obtain ⟨u, v, rfl, rfl⟩ := h
  simp [braceBalance, withLiteral, hst.opening, hst.closing]

end Line

/-! ## Blocks -/

namespace Block

open Text

variable {s t : Text}

/-- How far a block reaches depends on nothing but the balance of its lines. -/
theorem extent_congr {ls ks : List Line} (h : ls.map Line.braceBalance = ks.map Line.braceBalance)
    (balance : Int) : extent balance ls = extent balance ks := by
  induction ls generalizing ks balance with
  | nil =>
    rw [List.map_nil, eq_comm, List.map_eq_nil_iff] at h
    rw [h]
  | cons l ls ih =>
    cases ks with
    | nil => simp at h
    | cons k ks =>
      rw [List.map_cons, List.map_cons, List.cons.injEq] at h
      rw [extent, extent, h.1, ih h.2]

/-- The lines behind the opening one are the first of those it stands in front of. -/
theorem take_openedBy (l : Line) (ls : List Line) :
    ls.take (openedBy l ls).rest.length = (openedBy l ls).rest := by
  have hsplit := congrArg (List.take (openedBy l ls).rest.length) (rest_append_drop l ls)
  rw [List.take_left] at hsplit
  exact hsplit.symm

/-- Two blocks of which one line varies. -/
def Differs (s t : Text) (b c : Block) : Prop :=
  OneApart (Varies s t) b.lines c.lines

end Block

/-- Two free lines that are variants, or two blocks of which one line varies. -/
inductive Segment.Differs (s t : Text) : Segment → Segment → Prop
  | free {l k : Line} (h : Text.Varies s t l k) : Differs s t (.free l) (.free k)
  | block {b c : Block} (h : Block.Differs s t b c) : Differs s t (.block b) (.block c)

namespace Outline

open Text

variable {s t : Text}

/-- Lines of which one varies have outlines of which one segment does. -/
theorem ofLines_oneApart (hst : SameMarks s t) {ls ks : List Line}
    (h : OneApart (Varies s t) ls ks) :
    OneApart (Segment.Differs s t) (ofLines ls) (ofLines ks) := by
  -- A block takes several lines at once, so the induction is on how many there are.
  induction hn : ls.length using Nat.strong_induction_on generalizing ls ks with
  | _ n ih =>
  subst hn
  cases h with
  | @here l k h ls =>
    by_cases hkind : Line.kind l = .opener
    · have hrest : (Block.openedBy l ls).rest = (Block.openedBy k ls).rest := by
        rw [Block.openedBy, Block.openedBy, Line.braceBalance_eq hst h]
      rw [ofLines_cons_opener hkind, ofLines_cons_opener (Line.kind_eq hst h ▸ hkind), hrest]
      refine .here (.block ?_) _
      rw [Block.Differs, Block.lines, Block.lines, hrest]
      exact .here h _
    · rw [ofLines_cons_free hkind, ofLines_cons_free (Line.kind_eq hst h ▸ hkind)]
      exact .here (.free h) _
  | @later l ls ks h =>
    by_cases hkind : Line.kind l = .opener
    · have hextent : Block.extent (Line.braceBalance l) ls = Block.extent (Line.braceBalance l) ks :=
        Block.extent_congr (h.map_eq fun _ _ => Line.braceBalance_eq hst) _
      have hlength : (Block.openedBy l ls).rest.length = (Block.openedBy l ks).rest.length := by
        simp [Block.openedBy, hextent, h.length_eq]
      have hcut := h.take_drop (Block.openedBy l ls).rest.length
      rw [Block.take_openedBy, hlength, Block.take_openedBy] at hcut
      rw [ofLines_cons_opener hkind, ofLines_cons_opener hkind, hlength]
      rcases hcut with ⟨hrest, hdrop⟩ | ⟨hrest, hdrop⟩
      · rw [hdrop]
        exact .here (.block (.later l hrest)) _
      · have hblock : Block.openedBy l ls = Block.openedBy l ks :=
          Block.lines_injective (congrArg (l :: ·) hrest)
        rw [hblock]
        exact .later _ (ih _ (by rw [List.length_drop, List.length_cons]; omega) hdrop rfl)
    · rw [ofLines_cons_free hkind, ofLines_cons_free hkind]
      exact .later _ (ih ls.length (by simp) h rfl)

/-- Either a free line varies, or a line of a block. -/
theorem split_oneApart {o o' : Outline} (h : OneApart (Segment.Differs s t) o o') :
    OneApart (Varies s t) o.freeLines o'.freeLines ∧ o.blocks = o'.blocks ∨
      o.freeLines = o'.freeLines ∧
        OneApart (Block.Differs s t) o.blocks o'.blocks := by
  induction h with
  | here h o =>
    cases h with
    | free h => exact .inl ⟨.here h _, rfl⟩
    | block h => exact .inr ⟨rfl, .here h _⟩
  | later seg _ ih =>
    cases seg with
    | free l =>
      exact ih.imp (fun ⟨hfree, hblocks⟩ => ⟨.later l hfree, hblocks⟩)
        fun ⟨hfree, hblocks⟩ => ⟨congrArg (l :: ·) hfree, hblocks⟩
    | block b =>
      exact ih.imp (fun ⟨hfree, hblocks⟩ => ⟨hfree, congrArg (b :: ·) hblocks⟩)
        fun ⟨hfree, hblocks⟩ => ⟨hfree, .later b hblocks⟩

end Outline

/-! ## Records -/

namespace Record

open Text

variable {s t : Text}

theorem goesOnInto_eq (hst : SameMarks s t) {l k : Line} (h : Varies s t l k) :
    goesOnInto l = goesOnInto k := by
  have hequals : (trim l).contains '=' = (trim k).contains '=' := by
    obtain ⟨u, v, hl, hk⟩ := h.trim
    rw [hl, hk, Bool.eq_iff_iff, List.contains_iff_mem, List.contains_iff_mem]
    simp [withLiteral, hst.equals]
  simp only [goesOnInto, h.trim.head?_eq, hequals]

theorem varies_extend {text text' : Text} (h : Varies s t text text') (current : Text) :
    Varies s t (extend current text) (extend current text') := by
  rw [extend, extend]
  split
  · exact h
  · exact (h.cons ' ').append_left current

/-- A variant of what has been read of a record becomes a variant of the record. -/
theorem joinFrom_varies {current current' : Text} (h : Varies s t current current')
    (ls : List Line) :
    OneApart (Varies s t) (joinFrom current ls) (joinFrom current' ls) := by
  induction ls generalizing current current' with
  | nil =>
    rw [joinFrom, joinFrom, h.isEmpty.1, h.isEmpty.2]
    exact .here h []
  | cons l ls ih =>
    have hextend : ∀ text, Varies s t (extend current text) (extend current' text) := by
      intro text
      rw [extend, extend, h.isEmpty.1, h.isEmpty.2]
      exact h.append_right _
    simp only [joinFrom]
    split
    · exact ih h
    · split
      · exact .here (hextend _) _
      · exact ih (hextend _)

theorem joinFrom_oneApart (hst : SameMarks s t) {ls ks : List Line}
    (h : OneApart (Varies s t) ls ks) (current : Text) :
    OneApart (Varies s t) (joinFrom current ls) (joinFrom current ks) := by
  induction h generalizing current with
  | @here l k h ls =>
    have hends : endsAt (trim l) ls.head? = endsAt (trim k) ls.head? := by
      simp only [endsAt, h.trim.getLast?_eq]
    have hextend := varies_extend h.trim current
    simp only [joinFrom, h.trim.isEmpty.1, h.trim.isEmpty.2, Bool.false_eq_true, if_false, hends]
    split
    · exact .here hextend _
    · exact joinFrom_varies hextend ls
  | @later l ls ks h ih =>
    have hends : endsAt (trim l) ls.head? = endsAt (trim l) ks.head? := by
      have hnext := h.head?_any (p := goesOnInto) fun _ _ => goesOnInto_eq hst
      simp only [endsAt, hnext]
    simp only [joinFrom, hends]
    split
    · exact ih current
    · split
      · exact .later _ (ih [])
      · exact ih _

/-- Lines of which one varies are joined into records of which one does. -/
theorem join_oneApart (hst : SameMarks s t) {ls ks : List Line} (h : OneApart (Varies s t) ls ks) :
    OneApart (Varies s t) (join ls) (join ks) :=
  joinFrom_oneApart hst h []

end Record

end Devicetree
