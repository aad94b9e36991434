-- SUMMARY: White space evened out in one pass is white space evened out line by line.
import Devicetree.Proofs.Source.LineEnds
import Devicetree.Proofs.Source.States

/-!
# Evening out

The scanner evens out white space on its way through a source, with one character in
view. Where it meets neither literals nor comments, the lines of the source could as
well be evened out one by one, once all their ends have become line feeds: each
indentation to spaces of the same width, each other run of gaps to one space.

Only a run of gaps at the very end of the source makes a difference. The scanner drops
it, and so does the reduction of blank lines, which is the last step of cleaning.
-/

namespace Devicetree

/-! ## Line by line -/

/-- A text with one space for each run of gaps. -/
def Text.oneSpaced : Text → Text
  | [] => []
  | c :: cs =>
    if isGap c then if cs.head?.any isGap then oneSpaced cs else ' ' :: oneSpaced cs
    else c :: oneSpaced cs

/-- A line with its indentation in spaces, and one space for each other run of gaps. -/
def Line.evened (l : Line) : Line :=
  List.replicate (Scanner.gapsWidth (l.takeWhile isGap)) ' ' ++ Text.oneSpaced (l.dropWhile isGap)

/-- A text with its lines evened out and line feeds between them. -/
def Text.evened (t : Text) : Text :=
  unlines ((lines (universalNewlines t)).map Line.evened)

theorem Text.oneSpaced_cons {c : Char} (hc : ¬ isGap c) (t : Text) :
    oneSpaced (c :: t) = c :: oneSpaced t := by
  rw [oneSpaced, if_neg hc]

theorem Text.oneSpaced_append {w : Text} (hne : w ≠ []) (hw : ∀ c ∈ w, isGap c) {t : Text}
    (ht : ¬ Scanner.gapAhead t.head?) : oneSpaced (w ++ t) = ' ' :: oneSpaced t := by
  induction w with
  | nil => exact absurd rfl hne
  | cons c cs ih =>
    have hc : isGap c := hw c (by simp)
    rw [List.cons_append, oneSpaced, if_pos hc]
    cases cs with
    | nil => exact if_neg ht
    | cons d ds =>
      have hd : isGap d := hw d (by simp)
      exact (if_pos hd).trans (ih (by simp) fun e he => hw e (List.mem_cons_of_mem c he))

namespace Line

/-- The rest of a line evened out, from its start or from behind its indentation on. -/
def evenedFrom (start : Bool) (l : Line) : Line :=
  if start then l.evened else Text.oneSpaced l

theorem evenedFrom_cons (start : Bool) {c : Char} (hc : ¬ isGap c) (l : Line) :
    evenedFrom start (c :: l) = c :: evenedFrom false l := by
  cases start with
  | false => exact Text.oneSpaced_cons hc l
  | true =>
    have hevened : evened (c :: l) = Text.oneSpaced (c :: l) := by
      simp [evened, hc, Scanner.gapsWidth]
    exact hevened.trans (Text.oneSpaced_cons hc l)

theorem evenedFrom_append (start : Bool) {w : Text} (hne : w ≠ []) (hw : ∀ c ∈ w, isGap c)
    {l : Line} (hl : ¬ Scanner.gapAhead l.head?) :
    evenedFrom start (w ++ l) =
      List.replicate (if start then Scanner.gapsWidth w else 1) ' ' ++ evenedFrom false l := by
  cases start with
  | false => exact Text.oneSpaced_append hne hw hl
  | true =>
    have htake : l.takeWhile isGap = [] := by
      cases l with
      | nil => rfl
      | cons c cs => exact List.takeWhile_cons_of_neg hl
    have hdrop : l.dropWhile isGap = l := by
      cases l with
      | nil => rfl
      | cons c cs => exact List.dropWhile_cons_of_neg hl
    simp [evenedFrom, evened, List.takeWhile_append_of_pos hw, List.dropWhile_append_of_pos hw,
      htake, hdrop]

end Line

namespace Text

/-- The rest of a text evened out, from the start of a line or from behind an indentation on. -/
def evenedFrom (start : Bool) (t : Text) : Text :=
  match lines (universalNewlines t) with
  | [] => []
  | l :: ls => unlines (l.evenedFrom start :: ls.map Line.evened)

theorem evenedFrom_start (t : Text) : evenedFrom true t = evened t := by
  unfold evenedFrom evened
  cases lines (universalNewlines t) with
  | nil => rfl
  | cons l ls => rfl

theorem evenedFrom_eq {start : Bool} {t : Text} {l : Line} {ls : List Line}
    (h : lines (universalNewlines t) = l :: ls) :
    evenedFrom start t = unlines (l.evenedFrom start :: ls.map Line.evened) := by
  rw [evenedFrom, h]

theorem evenedFrom_nil (start : Bool) : evenedFrom start [] = [] := by
  cases start <;> rfl

theorem evenedFrom_break {c : Char} (hc : c = '\n' ∨ c = '\r') (start : Bool) (t : Text) :
    evenedFrom start (c :: t) =
      '\n' :: evenedFrom true (if c == '\r' && t.head? == some '\n' then t.tail else t) := by
  generalize hrest : (if c == '\r' && t.head? == some '\n' then t.tail else t) = u
  have hlines : lines (universalNewlines (c :: t)) = [] :: lines (universalNewlines u) := by
    rw [universalNewlines_break hc, hrest, lines, if_pos rfl]
  have hne : (lines (universalNewlines u)).map Line.evened ≠ [] := by
    simpa using lines_ne_nil (universalNewlines u)
  have hempty : Line.evenedFrom start [] = [] := by
    cases start <;> rfl
  rw [evenedFrom_eq hlines, unlines.eq_3 _ _ hne, hempty, evenedFrom_start]
  rfl

/-- The first line starts with what the text starts with, unless that ends the line. -/
theorem head?_of_lines {t : Text} {l : Line} {ls : List Line}
    (h : lines (universalNewlines t) = l :: ls) {c : Char} (hc : c ∈ l.head?) : c ∈ t.head? := by
  obtain ⟨ks, hks⟩ := exists_lines_eq_cons (universalNewlines t)
  obtain ⟨rfl, -⟩ := List.cons.inj (h.symm.trans hks)
  cases t with
  | nil => simp [universalNewlines] at hc
  | cons d ds =>
    by_cases hd : d = '\n' ∨ d = '\r'
    · simp [universalNewlines_break hd] at hc
    · obtain ⟨hfeed, hreturn⟩ := not_or.1 hd
      have hkeep := universalNewlines_append (w := [d]) (by simpa using Ne.symm hreturn) ds
      rw [List.singleton_append, List.singleton_append] at hkeep
      simpa [hkeep, hfeed] using hc

theorem unlines_append_cons (w l : Line) (ls : List Line) :
    unlines ((w ++ l) :: ls) = w ++ unlines (l :: ls) := by
  cases ls with
  | nil => rfl
  | cons k ks => simp [unlines]

/-- What is evened out on its own in front of a line is so in front of a text. -/
theorem evenedFrom_append_of_line {start : Bool} (w w' : Text) {t : Text} (hfeed : '\n' ∉ w)
    (hreturn : '\r' ∉ w)
    (hline : ∀ l : Line, (∀ c ∈ l.head?, c ∈ t.head?) →
      Line.evenedFrom start (w ++ l) = w' ++ Line.evenedFrom false l) :
    evenedFrom start (w ++ t) = w' ++ evenedFrom false t := by
  obtain ⟨l, ls, ht, hlines⟩ := exists_lines_append hfeed (universalNewlines t)
  rw [← universalNewlines_append hreturn] at hlines
  rw [evenedFrom_eq hlines, evenedFrom_eq ht, hline l fun _ => head?_of_lines ht,
    unlines_append_cons]

theorem evenedFrom_cons (start : Bool) {c : Char} (hc : ¬ isGap c) (hbreak : c ≠ '\n' ∧ c ≠ '\r')
    (t : Text) : evenedFrom start (c :: t) = c :: evenedFrom false t :=
  evenedFrom_append_of_line [c] [c] (by simpa using hbreak.1.symm) (by simpa using hbreak.2.symm)
    fun l _ => Line.evenedFrom_cons start hc l

theorem evenedFrom_gaps_append (start : Bool) {w : Text} (hne : w ≠ []) (hw : ∀ c ∈ w, isGap c)
    {t : Text} (ht : ¬ Scanner.gapAhead t.head?) :
    evenedFrom start (w ++ t) =
      List.replicate (if start then Scanner.gapsWidth w else 1) ' ' ++ evenedFrom false t := by
  have hgap : ∀ c, isGap c = false → c ∉ w := fun c hc hmem => by simp [hw c hmem] at hc
  refine evenedFrom_append_of_line w _ (hgap _ (by decide)) (hgap _ (by decide)) fun l hl => ?_
  refine Line.evenedFrom_append start hne hw fun hahead => ht ?_
  cases hhead : l.head? with
  | none => simp [hhead, Scanner.gapAhead] at hahead
  | some c => rwa [hl c hhead, ← hhead]

end Text

namespace Scanner

variable {f : Filter} {s : State}

/-! ## One pass -/

/-- The scanner is in code in front of each character of a text and behind the last: it opens
    neither a literal nor a comment. -/
def StaysInCode (f : Filter) : State → Text → Prop
  | s, [] => s.mode = .code
  | s, c :: cs => s.mode = .code ∧ StaysInCode f (step f s c cs.head?).2 cs

theorem StaysInCode.mode {t : Text} (h : StaysInCode f s t) : s.mode = .code := by
  cases t with
  | nil => exact h
  | cons c cs => exact h.1

/-- The scanner does so where none of the marks that it heeds stands in the text. -/
theorem staysInCode_of_no_marks {t : Text} (hmode : s.mode = .code)
    (hquote : f.preserveStringLiterals → ∀ c ∈ t, ¬ isQuote c)
    (hblock : f.stripBlockComments → ¬ ['/', '*'] <:+: t)
    (hline : f.stripLineComments → ¬ ['/', '/'] <:+: t) : StaysInCode f s t := by
  induction t generalizing s with
  | nil => exact hmode
  | cons c cs ih =>
    have hmark : ∀ d, c = '/' → cs.head? = some d → ['/', d] <:+: c :: cs := by
      rintro d rfl hd
      obtain ⟨ds, rfl⟩ := List.head?_eq_some_iff.1 hd
      exact (List.prefix_append ['/', d] ds).isInfix
    have hrest : ∀ {s' : State}, s'.mode = .code → StaysInCode f s' cs := fun hmode' =>
      ih hmode' (fun hopens d hd => hquote hopens d (List.mem_cons_of_mem c hd))
        (fun hdrops hmem => hblock hdrops (hmem.trans (List.suffix_cons c cs).isInfix))
        fun hdrops hmem => hline hdrops (hmem.trans (List.suffix_cons c cs).isInfix)
    refine ⟨hmode, hrest ?_⟩
    rw [step]
    split
    · exact hmode
    · rw [hmode]
      dsimp only
      have hcase := codeCase f s c cs.head?
      generalize Scanner.codeStep f s c cs.head? = r at hcase ⊢
      cases hcase with
      | literal hopens hc => exact absurd hc (hquote hopens c List.mem_cons_self)
      | block hdrops hc hnext => exact absurd (hmark '*' hc hnext) (hblock hdrops)
      | line hdrops hc hnext => exact absurd (hmark '/' hc hnext) (hline hdrops)
      | newline | held | lost | space | written => exact hmode

theorem StaysInCode.append {u v : Text} (h : StaysInCode f s (u ++ v)) :
    StaysInCode f (stateAfter f v.head? s u) v := by
  induction u generalizing s with
  | nil => exact h
  | cons c cs ih =>
    have hrest : StaysInCode f (step f s c (cs ++ v).head?).2 (cs ++ v) := h.2
    rw [List.head?_append] at hrest
    exact ih hrest

/-- The second character of a mark is passed over. -/
theorem StaysInCode.settled {t : Text} (h : StaysInCode f s t) :
    StaysInCode f s.settled (s.ahead t) := by
  unfold State.ahead
  split
  · rename_i hpassing
    cases t with
    | nil => exact h
    | cons c cs =>
      have hrest := h.2
      rwa [step, if_pos hpassing] at hrest
  · rename_i hpassing
    rwa [State.settled_eq_self (by simpa using hpassing)]

/-- The next character is read as code. -/
theorem StaysInCode.codeStep {c : Char} {cs : Text} (h : StaysInCode f s (c :: cs))
    (hpassing : s.passing = false) :
    step f s c cs.head? = Scanner.codeStep f s c cs.head? := by
  rw [step, hpassing, if_neg (by simp), h.1]

/-- A pass that does not even out white space does nothing. -/
theorem StaysInCode.run_eq_self {t : Text} (h : StaysInCode f s t) (hpassing : s.passing = false)
    (hkeeps : ¬ f.normalizeWhitespace) : run f s t = t := by
  induction t generalizing s with
  | nil => rfl
  | cons c cs ih =>
    have hmode := h.2.mode
    have hrest := h.2
    rw [run_cons]
    rw [h.codeStep hpassing] at hmode hrest ⊢
    have hcase := codeCase f s c cs.head?
    generalize Scanner.codeStep f s c cs.head? = r at hcase hmode hrest ⊢
    cases hcase with
    | literal => simp at hmode
    | block => simp at hmode
    | line => simp at hmode
    | newline hevens => exact absurd hevens hkeeps
    | held hevens => exact absurd hevens hkeeps
    | lost hevens => exact absurd hevens hkeeps
    | space hevens => exact absurd hevens hkeeps
    | written => exact congrArg (c :: ·) (ih hrest hpassing)

/-- A pass that evens out white space does so line by line, but for gaps at the very end. -/
theorem StaysInCode.run_evens {t : Text} (h : StaysInCode f s t) (hpassing : s.passing = false)
    (hwidth : s.width = 0) (hevens : f.normalizeWhitespace) :
    ∃ k, run f s t ++ List.replicate k ' ' = t.evenedFrom s.lineStart := by
  induction hn : t.length using Nat.strong_induction_on generalizing s t with
  | _ n ih =>
    cases t with
    | nil => exact ⟨0, by simp [run, runBefore, Text.evenedFrom_nil]⟩
    | cons c cs =>
      by_cases hc : isGap c
      -- A run of gaps is taken as a whole: what it ends as depends on what follows it.
      · obtain ⟨w, v, hsplit, hne, hw, hv⟩ :
            ∃ w v, c :: cs = w ++ v ∧ w ≠ [] ∧ (∀ d ∈ w, isGap d) ∧ ¬ gapAhead v.head? := by
          refine ⟨c :: cs.takeWhile isGap, cs.dropWhile isGap, ?_, List.cons_ne_nil _ _,
            isGap_of_mem_run hc cs, not_gapAhead_dropWhile cs⟩
          rw [List.cons_append, List.takeWhile_append_dropWhile]
        rw [hsplit] at h hn ⊢
        have hrest := h.append
        rw [(gaps_spec hevens h.mode hpassing hne hw hv).2] at hrest
        have hshorter : v.length < n := by
          have hpos := List.length_pos_of_ne_nil hne
          rw [List.length_append] at hn
          omega
        obtain ⟨k, hk⟩ := ih v.length hshorter hrest hpassing rfl rfl
        rw [run_gaps_append hevens h.mode hpassing hne hw hv, hwidth, Nat.zero_add,
          Text.evenedFrom_gaps_append _ hne hw hv, ← hk]
        by_cases hend : v = []
        -- The scanner drops a run that ends the text, and the lines keep it.
        · subst hend
          refine ⟨(if s.lineStart then gapsWidth w else 1) + k, ?_⟩
          rw [List.replicate_add]
          rfl
        · exact ⟨k, by simp [hend]⟩
      · have hlength : cs.length < n := by
          rw [← hn, List.length_cons]
          exact Nat.lt_succ_self _
        have hnext := h.2
        rw [h.codeStep hpassing] at hnext
        have hcase := codeCase f s c cs.head?
        rw [run_cons, h.codeStep hpassing]
        generalize Scanner.codeStep f s c cs.head? = r at hcase hnext ⊢
        have hmode := hnext.mode
        cases hcase with
        | literal => simp at hmode
        | block => simp at hmode
        | line => simp at hmode
        | newline _ hbreak =>
          have hshorter : ∀ σ : State, (σ.ahead cs).length < n := fun σ =>
            (σ.ahead_suffix cs).length_le.trans_lt hlength
          obtain ⟨k, hk⟩ := ih _ (hshorter _) hnext.settled rfl hwidth rfl
          rw [run_settled, Text.evenedFrom_break hbreak]
          exact ⟨k, congrArg ('\n' :: ·) hk⟩
        | held _ hgap => exact absurd hgap hc
        | lost _ hgap => exact absurd hgap hc
        | space _ hgap => exact absurd hgap hc
        | written _ _ _ hplain =>
          obtain ⟨hfeed, hreturn, -⟩ := hplain hevens
          have hstart : (s.written c).lineStart = false := by simpa [State.written] using hfeed
          obtain ⟨k, hk⟩ := ih cs.length hlength hnext hpassing hwidth rfl
          rw [Text.evenedFrom_cons _ hc ⟨hfeed, hreturn⟩, ← hstart, ← hk]
          exact ⟨k, rfl⟩

end Scanner

namespace Source

/-- Cleaning a text that the scanner reads as code throughout is reducing the blank lines: of the
    text as it is, or of the text with its lines evened out. -/
theorem clean_of_staysInCode {f : Filter} {t : Text} (h : Scanner.StaysInCode f .start t) :
    clean f t = BlankLines.reduce (if f.normalizeWhitespace then t.evened else t) := by
  rw [clean]
  by_cases hevens : f.normalizeWhitespace
  · obtain ⟨k, hk⟩ := h.run_evens rfl rfl hevens
    have hstart : Text.evenedFrom Scanner.State.start.lineStart t = t.evened :=
      Text.evenedFrom_start t
    have hend := BlankLines.reduce_spaces_of_startsBlank (y := []) (by simp [Text.StartsBlank])
      (Scanner.run f .start t) k
    rw [List.append_nil, List.append_nil, hk, hstart] at hend
    rw [if_pos hevens, hend]
  · rw [if_neg hevens, h.run_eq_self rfl hevens]

/-- Tabs and spaces in indentations, within lines, around another blank and at the end, and all
    three ways to end a line. -/
def raggedNode : Text :=
  "\tsoc \x7b\r\n \t reg =\t \u00a0  <1>;\r\t\x7d;\n \t".toList

theorem clean_of_staysInCode_raggedNode :
    Scanner.StaysInCode {} .start raggedNode ∧
      raggedNode.evened = "    soc \x7b\n      reg = \u00a0 <1>;\n    \x7d;\n     ".toList ∧
      clean {} raggedNode = BlankLines.reduce raggedNode.evened := by
  have hall : raggedNode.all (!Scanner.isQuote ·) := by decide +kernel
  have hquote : ∀ c ∈ raggedNode, ¬ Scanner.isQuote c := by simpa using hall
  have hblock : ¬ ['/', '*'] <:+: raggedNode := by decide +kernel
  have hline : ¬ ['/', '/'] <:+: raggedNode := by decide +kernel
  have hstays : Scanner.StaysInCode {} .start raggedNode :=
    Scanner.staysInCode_of_no_marks rfl (fun _ => hquote) (fun _ => hblock) fun _ => hline
  exact ⟨hstays, by decide +kernel, clean_of_staysInCode hstays⟩

end Source

end Devicetree
