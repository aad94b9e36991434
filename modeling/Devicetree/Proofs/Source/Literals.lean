-- SUMMARY: The literals of a source are found in the cleaned source, in their order and as they were.
import Devicetree.Proofs.Source.States

/-!
# Literals

A literal reaches from a quote in code to the next quote of the same kind. A quote
that an odd run of backslashes stands in front of is passed over on both occasions.
The scanner copies what it reads between the two quotes, whatever it looks like, and
goes on behind the literal as if nothing had been in it.

The reduction of blank lines knows nothing of literals. But it takes away line feeds
and the blanks at the end of a line only, and a literal that stands on one line ends
in a quote.
-/

namespace Devicetree

namespace Text

/-! ## Backslashes -/

/-- An odd run of backslashes stands at the end of the text, and escapes what comes next. -/
def escapes (t : Text) : Bool :=
  (t.rtakeWhile (· == '\\')).length % 2 == 1

theorem escapes_concat (t : Text) (c : Char) : escapes (t ++ [c]) = (c == '\\' && !t.escapes) := by
  unfold escapes
  by_cases hc : c = '\\'
  · subst hc
    rw [List.rtakeWhile_concat_pos _ _ _ (by simp), List.length_append, List.length_singleton]
    rcases Nat.mod_two_eq_zero_or_one (t.rtakeWhile (· == '\\')).length with h | h
    · simp [Nat.add_mod, h]
    · simp [Nat.add_mod, h]
  · rw [List.rtakeWhile_concat_neg _ _ _ (by simpa using hc)]
    simp [hc]

theorem escapes_concat_of_ne {c : Char} (hc : c ≠ '\\') (t : Text) :
    escapes (t ++ [c]) = false := by
  rw [escapes_concat, beq_eq_false_iff_ne.2 hc, Bool.false_and]

/-- A run of backslashes starts behind any other character. -/
theorem escapes_append_cons {c : Char} (hc : c ≠ '\\') (u v : Text) :
    escapes (u ++ c :: v) = escapes v := by
  induction v using List.reverseRecOn with
  | nil => exact escapes_concat_of_ne hc u
  | append_singleton v d ih =>
    have hassoc : u ++ c :: (v ++ [d]) = (u ++ c :: v) ++ [d] := by simp
    rw [hassoc, escapes_concat, escapes_concat, ih]

/-! ## Occurrences -/

/-- The given texts occur in a text one behind the other, without overlap. -/
inductive OccurInOrder : List Text → Text → Prop where
  | nil (t : Text) : OccurInOrder [] t
  | cons (x : Text) {w t : Text} {ws : List Text} :
      OccurInOrder ws t → OccurInOrder (w :: ws) (x ++ (w ++ t))

end Text

namespace Scanner

variable {f : Filter} {s : State} {c : Char} {next : Option Char} {u : Text}

theorem isQuote_ne {q : Char} (hq : isQuote q) : q ≠ '\\' := by
  rcases eq_of_isQuote hq with rfl | rfl <;> decide

/-! ## What a step can do -/

/-- What can happen to a character, wherever the scanner stands. -/
inductive StepCase (f : Filter) (s : State) (c : Char) (next : Option Char) :
    Text × State → Prop where
  | passed (hpassing : s.passing) : StepCase f s c next ([], { s with passing := false })
  | code (houtside : s.isOutside) : StepCase f s c next (codeStep f { s with mode := .code } c next)
  | literal (q : Char) (hmode : s.mode = .literal q) (hpassing : s.passing = false) :
      StepCase f s c next (literalStep s q c)
  /-- A carriage return that ends a comment and stays. -/
  | loneReturn (hmode : s.mode = .lineComment) (hc : c = '\r') :
      StepCase f s c next ([c], { s with mode := .code, lineStart := true })
  /-- The end of a line that ends a comment and is read as code. -/
  | lineEnd (hmode : s.mode = .lineComment) (hc : c = '\n' ∨ c = '\r')
      (hpassing : s.passing = false) :
      StepCase f s c next (codeStep f { s with mode := .code, lineStart := true } c next)
  | comment (m : Mode) (passing : Bool) (hmode : s.mode.isComment) (hm : m.isComment) :
      StepCase f s c next ([], { s with mode := m, passing })

theorem stepCase (f : Filter) (s : State) (c : Char) (next : Option Char) :
    StepCase f s c next (step f s c next) := by
  obtain ⟨mode, lineStart, escaped, passing, width⟩ := s
  cases passing with
  | true => exact .passed rfl
  | false =>
    rw [step, if_neg Bool.false_ne_true]
    cases mode with
    | code => exact .code (s := ⟨.code, _, _, _, _⟩) rfl
    | literal q => exact .literal q rfl rfl
    | lineComment =>
      dsimp only
      unfold lineCommentStep
      split
      · rename_i hlone
        obtain ⟨hc, -⟩ : c = '\r' ∧ ¬ next = some '\n' := by simpa using hlone
        exact .loneReturn rfl hc
      · split
        · rename_i hbreak
          exact .lineEnd rfl (by simpa using hbreak) rfl
        · exact .comment (s := ⟨.lineComment, _, _, _, _⟩) .lineComment false rfl rfl
    | blockComment =>
      dsimp only
      unfold blockCommentStep
      split
      · exact .comment (s := ⟨.blockComment, _, _, _, _⟩) .blockComment true rfl rfl
      · split
        · exact .comment (s := ⟨.blockComment, _, _, _, _⟩) .afterComment true rfl rfl
        · exact .comment (s := ⟨.blockComment, _, _, _, _⟩) .blockComment false rfl rfl
    | afterComment =>
      dsimp only
      split
      · exact .comment (s := ⟨.afterComment, _, _, _, _⟩) .afterComment false rfl rfl
      · exact .code (s := ⟨.afterComment, _, _, _, _⟩) rfl

/-! ## What the scanner knows of backslashes -/

/-- The flag of the scanner tells whether the text behind it escapes what comes next. -/
structure Heeds (u : Text) (s : State) : Prop where
  escaped : ¬ s.mode.isComment → s.escaped = u.escapes
  passing : s.passing → s.escaped = false

theorem heeds_codeStep (hpassing : s.passing = false)
    (hescaped : c = '\\' → s.escaped = u.escapes) :
    Heeds (u ++ [c]) (codeStep f s c next).2 := by
  have hplain : ∀ {b : Bool}, c ≠ '\\' → b = false → b = (u ++ [c]).escapes :=
    fun hc hb => hb.trans (Text.escapes_concat_of_ne hc u).symm
  have hcase := codeCase f s c next
  generalize codeStep f s c next = r at hcase ⊢
  cases hcase with
  | literal _ hc => exact ⟨fun _ => hplain (isQuote_ne hc) rfl, fun _ => rfl⟩
  | block _ hc => exact ⟨fun hcode => absurd rfl hcode, fun _ => rfl⟩
  | line _ hc => exact ⟨fun hcode => absurd rfl hcode, fun _ => rfl⟩
  | newline _ hc => exact ⟨fun _ => hplain (by rintro rfl; simp at hc) rfl, fun _ => rfl⟩
  | held _ hc => exact ⟨fun _ => hplain (by rintro rfl; cases hc) rfl, fun _ => rfl⟩
  | lost _ hc => exact ⟨fun _ => hplain (by rintro rfl; cases hc) rfl, fun _ => rfl⟩
  | space _ hc => exact ⟨fun _ => hplain (by rintro rfl; cases hc) rfl, fun _ => rfl⟩
  | written =>
    refine ⟨fun _ => ?_, fun h => absurd h (by simp [State.written, hpassing])⟩
    by_cases hc : c = '\\'
    · rw [Text.escapes_concat, ← hescaped hc]
      rfl
    · exact hplain hc (by simp [State.written, hc])

/-- Behind a block comment, and the gaps behind it, nothing is escaped. -/
theorem escapes_of_behind (h : (u.rdropWhile isGap).getLast? = some '/') : u.escapes = false := by
  rcases List.eq_nil_or_concat' u with rfl | ⟨v, d, rfl⟩
  · rfl
  · refine Text.escapes_concat_of_ne ?_ v
    rintro rfl
    rw [List.rdropWhile_concat_neg _ _ _ (by decide)] at h
    simp at h

theorem Heeds.step (h : Heeds u s) (hreads : Reads f u (some c) s) :
    Heeds (u ++ [c]) (Scanner.step f s c next).2 := by
  have hcase := stepCase f s c next
  generalize Scanner.step f s c next = r at hcase ⊢
  cases hcase with
  | passed hpassing =>
    obtain ⟨d, hd, hmark, -⟩ := hreads.passing hpassing
    obtain rfl : c = d := by simpa using hd
    have hslash : c ≠ '\\' := by
      rintro rfl
      cases hmode : s.mode <;> simp [hmode, Mode.endsMark] at hmark
    exact ⟨fun _ => (h.passing hpassing).trans (Text.escapes_concat_of_ne hslash u).symm, by simp⟩
  | code houtside =>
    obtain ⟨hmode, hpassing⟩ := isOutside_iff.1 houtside
    refine heeds_codeStep hpassing fun _ => ?_
    rcases hmode with hmode | hmode
    · exact h.escaped (by simp [hmode, Mode.isComment])
    · have hunescaped := hreads.unescaped (by simp [hmode, Mode.isComment])
      exact hunescaped.trans (escapes_of_behind (hreads.behind hmode hpassing)).symm
  | literal q hmode hpassing =>
    have hescaped := h.escaped (by simp [hmode, Mode.isComment])
    unfold literalStep
    split
    · rename_i hends
      obtain ⟨hc, -⟩ : isQuote c ∧ s.escaped = false := by simpa using hends
      exact ⟨fun _ => (Text.escapes_concat_of_ne (isQuote_ne hc) u).symm, fun _ => rfl⟩
    · refine ⟨fun _ => ?_, fun hp => absurd hp (by simp [State.written, hpassing])⟩
      rw [Text.escapes_concat, ← hescaped]
      rfl
  | loneReturn hmode hc =>
    subst hc
    have hunescaped := hreads.unescaped (by simp [hmode, Mode.isComment])
    exact ⟨fun _ => hunescaped.trans (Text.escapes_concat_of_ne (by decide) u).symm,
      fun _ => hunescaped⟩
  -- The comment itself may end in a backslash, but it is not the character read here.
  | lineEnd _ hc hpassing => exact heeds_codeStep hpassing (by rintro rfl; simp at hc)
  | comment m _ hmode hm => exact ⟨fun hcode => absurd hm hcode, fun _ => hreads.unescaped hmode⟩

/-- The flag of the scanner is right in code and in literals, behind every text. -/
theorem heeds_stateAfter (f : Filter) (next : Option Char) (u : Text) :
    Heeds u (stateAfter f next .start u) := by
  induction u using List.reverseRecOn generalizing next with
  | nil => exact ⟨fun _ => rfl, fun _ => rfl⟩
  | append_singleton u c ih =>
    rw [stateAfter_concat]
    exact (ih (some c)).step (reads_stateAfter f (some c) u)

/-! ## Reading a literal -/

/-- A text fits between two quotes of a kind: every such quote in it is escaped, and the one
    behind it is not. -/
structure Fits (q : Char) (t : Text) : Prop where
  escaped : ∀ x y, t = x ++ q :: y → x.escapes
  closed : t.escapes = false

/-- A character of a literal is copied. It ends the literal if it is the quote that the literal
    began with, and not escaped. -/
theorem step_literal (f : Filter) {q : Char} (hq : isQuote q) (hmode : s.mode = .literal q)
    (hpassing : s.passing = false) (hescaped : s.escaped = u.escapes) (c : Char) :
    ∃ start, ∀ next, step f s c next = ([c], { s with
      mode := if c = q ∧ u.escapes = false then .code else .literal q
      lineStart := start
      escaped := (u ++ [c]).escapes }) := by
  have hstep : ∀ next, step f s c next = literalStep s q c := by
    intro next
    rw [step, hpassing, if_neg (by simp), hmode]
  simp only [hstep, forall_const]
  unfold literalStep
  split
  · rename_i hends
    obtain ⟨hc, hopen⟩ : isQuote c ∧ u.escapes = false := by simpa [hescaped] using hends
    refine ⟨false, ?_⟩
    simp [hopen, Text.escapes_concat_of_ne (isQuote_ne hc)]
  · rename_i hgoes
    have hgoes : ¬ (c = q ∧ u.escapes = false) := by
      rintro ⟨rfl, hopen⟩
      exact hgoes (by simp [hq, hescaped, hopen])
    refine ⟨c == '\n', ?_⟩
    rw [if_neg hgoes, Text.escapes_concat, ← hescaped, ← hmode]
    rfl

theorem fits_iff {q : Char} {t : Text} :
    Fits q t ↔
      (∀ i < t.length, t[i]? = some q → Text.escapes (t.take i)) ∧ t.escapes = false := by
  constructor
  · rintro ⟨hescaped, hclosed⟩
    refine ⟨fun i _ hi => ?_, hclosed⟩
    obtain ⟨hlt, hi⟩ := List.getElem?_eq_some_iff.1 hi
    apply hescaped _ (t.drop (i + 1))
    rw [← hi, ← List.drop_eq_getElem_cons, List.take_append_drop]
  · rintro ⟨hescaped, hclosed⟩
    refine ⟨?_, hclosed⟩
    rintro x y rfl
    simpa using hescaped x.length (by simp) (by simp)

instance (q : Char) (t : Text) : Decidable (Fits q t) :=
  decidable_of_iff _ fits_iff.symm

/-- The content of a literal is copied, and leaves the scanner in the literal. -/
theorem content_spec (f : Filter) {q : Char} (hq : isQuote q) (hmode : s.mode = .literal q)
    (hpassing : s.passing = false) (hescaped : s.escaped = u.escapes) {t : Text}
    (ht : ∀ x y, t = x ++ q :: y → (u ++ x).escapes) (next : Option Char) :
    runBefore f next s t = t ∧ ∃ start,
      stateAfter f next s t = { s with lineStart := start, escaped := (u ++ t).escapes } := by
  induction t generalizing s u with
  | nil => exact ⟨rfl, s.lineStart, by simp [stateAfter, ← hescaped]⟩
  | cons c cs ih =>
    have hopen : ¬ (c = q ∧ u.escapes = false) := by
      rintro ⟨rfl, hu⟩
      have hfirst := ht [] cs rfl
      simp [hu] at hfirst
    obtain ⟨start, hstep⟩ := step_literal f hq hmode hpassing hescaped c
    rw [if_neg hopen, ← hmode] at hstep
    obtain ⟨hrun, start', hstate⟩ := ih
      (s := { s with lineStart := start, escaped := (u ++ [c]).escapes }) (u := u ++ [c]) hmode
      hpassing rfl fun x y hcs => by simpa using ht (c :: x) y (by simp [hcs])
    refine ⟨?_, start', ?_⟩
    · rw [runBefore, hstep]
      exact congrArg (c :: ·) hrun
    · rw [stateAfter, hstep, hstate, List.append_assoc, List.singleton_append]

/-- The scanner right behind a quote that it takes for the start of a literal. -/
def State.opened (s : State) (q : Char) : State :=
  { s with mode := .literal q, lineStart := false, escaped := false }

/-- The scanner right behind the quote that ends a literal. -/
def State.ended (s : State) : State :=
  { s with mode := .code, lineStart := false, escaped := false }

theorem step_opens (hkeep : f.preserveStringLiterals) (houtside : s.isOutside)
    (hescaped : s.escaped = false) {q : Char} (hq : isQuote q) (next : Option Char) :
    step f s q next = ([q], s.opened q) := by
  have hgap := not_isGap_of_isQuote hq
  obtain ⟨hmode | hmode, hpassing⟩ := isOutside_iff.1 houtside
  · simp [step, hpassing, hmode, codeStep, hkeep, hq, hescaped, State.opened]
  · simp [step, hpassing, hmode, hgap, codeStep, hkeep, hq, hescaped, State.opened]

/-- What has been read of a literal is copied, and the scanner is in the literal. -/
theorem opened_spec (hkeep : f.preserveStringLiterals) (houtside : s.isOutside)
    (hescaped : s.escaped = false) {q : Char} (hq : isQuote q) {t : Text}
    (ht : ∀ x y, t = x ++ q :: y → x.escapes) (next : Option Char) :
    runBefore f next s (q :: t) = q :: t ∧ ∃ start,
      stateAfter f next s (q :: t) = { s.opened q with lineStart := start, escaped := t.escapes } := by
  have hpassing : (s.opened q).passing = false := (isOutside_iff.1 houtside).2
  obtain ⟨hrun, start, hstate⟩ :=
    content_spec f (s := s.opened q) (u := []) hq rfl hpassing rfl ht next
  rw [runBefore, stateAfter, step_opens hkeep houtside hescaped hq, hstate]
  exact ⟨congrArg (q :: ·) hrun, start, rfl⟩

/-- A literal is copied, and the scanner goes on as if nothing had been in it. -/
theorem literal_spec (hkeep : f.preserveStringLiterals) (houtside : s.isOutside)
    (hescaped : s.escaped = false) {q : Char} (hq : isQuote q) {t : Text} (ht : Fits q t)
    (next : Option Char) :
    runBefore f next s (q :: (t ++ [q])) = q :: (t ++ [q]) ∧
      stateAfter f next s (q :: (t ++ [q])) = s.ended := by
  obtain ⟨hrun, start, hstate⟩ := opened_spec hkeep houtside hescaped hq ht.escaped (some q)
  have hcloses : ∀ n, step f { s.opened q with lineStart := start, escaped := false } q n =
      ([q], s.ended) := by
    intro n
    have hpassing := (isOutside_iff.1 houtside).2
    simp [step, State.opened, State.ended, literalStep, hq, hpassing]
  rw [ht.closed] at hstate
  rw [← List.cons_append, runBefore_concat, stateAfter_concat, hrun, hstate, hcloses]
  exact ⟨rfl, rfl⟩

/-! ## The literals of a text -/

/-- A literal as the scanner finds it: from a quote that stands outside of literals and comments
    and is not escaped, to the next quote of its kind that is not escaped. -/
structure Literal (f : Filter) (t : Text) where
  before : Text
  quote : Char
  content : Text
  behind : Text
  text_eq : t = before ++ quote :: (content ++ quote :: behind)
  isQuote : Scanner.isQuote quote
  fits : Fits quote content
  outside : (stateAfter f (some quote) .start before).isOutside
  unescaped : before.escapes = false

/-- A literal with its two quotes. -/
def Literal.text {t : Text} (l : Literal f t) : Text :=
  l.quote :: (l.content ++ [l.quote])

/-- What is written for a text behind another. -/
def runBehind (f : Filter) (u v : Text) : Text :=
  run f (stateAfter f v.head? .start u) v

theorem runBehind_append (f : Filter) (u w v : Text) :
    ∃ x, runBehind f u (w ++ v) = x ++ runBehind f (u ++ w) v := by
  rw [runBehind, run_append, runBehind, stateAfter_append, List.head?_append]
  exact ⟨_, rfl⟩

/-- Outside of literals and comments the flag is right about the text behind. -/
theorem escaped_eq_escapes (houtside : (stateAfter f next .start u).isOutside) :
    (stateAfter f next .start u).escaped = u.escapes := by
  obtain ⟨hmode | hmode, hpassing⟩ := isOutside_iff.1 houtside
  · exact (heeds_stateAfter f next u).escaped (by simp [hmode, Mode.isComment])
  · have hreads := reads_stateAfter f next u
    rw [hreads.unescaped (by simp [hmode, Mode.isComment]),
      escapes_of_behind (hreads.behind hmode hpassing)]

namespace Literal

variable {t : Text}

theorem escaped_before (l : Literal f t) :
    (stateAfter f (some l.quote) .start l.before).escaped = false :=
  (escaped_eq_escapes l.outside).trans l.unescaped

theorem getLast?_text (l : Literal f t) : l.text.getLast? = some l.quote := by
  rw [text, ← List.cons_append, List.getLast?_concat]

theorem text_eq_append (l : Literal f t) : t = l.before ++ (l.text ++ l.behind) := by
  simpa [text] using l.text_eq

theorem runBehind_before (hkeep : f.preserveStringLiterals) (l : Literal f t) :
    runBehind f l.before (l.text ++ l.behind) =
      l.text ++ runBehind f (l.before ++ l.text) l.behind := by
  obtain ⟨hrun, hstate⟩ := literal_spec hkeep l.outside l.escaped_before l.isQuote
    l.fits l.behind.head?
  have hhead : l.text.head?.or l.behind.head? = some l.quote := rfl
  rw [runBehind, run_append, runBehind, stateAfter_append, List.head?_append, hhead]
  unfold text
  rw [hrun, hstate]

/-- No literal begins inside another. -/
theorem length_before_le (hkeep : f.preserveStringLiterals) {l k : Literal f t}
    (h : l.before.length < k.before.length) :
    l.before.length + l.text.length ≤ k.before.length := by
  -- Where the second began, the scanner would be in the first.
  by_contra hlt
  obtain ⟨z, hz⟩ : l.before <+: k.before :=
    List.prefix_of_prefix_length_le ⟨_, l.text_eq.symm⟩ ⟨_, k.text_eq.symm⟩ h.le
  have hsplit := l.text_eq.symm.trans k.text_eq
  rw [← hz, List.append_assoc, List.append_cancel_left_eq] at hsplit
  rw [← hz] at h hlt
  cases z with
  | nil => simp at h
  | cons d x =>
    obtain ⟨rfl, hrest⟩ := List.cons.inj hsplit
    have hlength : x.length ≤ l.content.length := by
      simp only [text, List.length_append, List.length_cons, List.length_nil] at hlt
      omega
    obtain ⟨y, hy⟩ : x <+: l.content :=
      List.prefix_of_prefix_length_le ⟨_, hrest.symm⟩ (List.prefix_append _ _) hlength
    obtain ⟨-, start, hstate⟩ := opened_spec hkeep l.outside l.escaped_before l.isQuote
      (t := x) (fun a b hx => l.fits.escaped a (b ++ y) (by simp [← hy, hx])) (some k.quote)
    have hinside : (stateAfter f (some k.quote) .start k.before).mode = .literal l.quote := by
      rw [← hz, stateAfter_append, List.head?_cons, Option.some_or, hstate]
      rfl
    obtain ⟨hmode | hmode, -⟩ := isOutside_iff.1 k.outside
    · simp [hinside] at hmode
    · simp [hinside] at hmode

end Literal

/-- The literals of a text are written one behind the other, each as it is. -/
theorem occurInOrder_runBehind (hkeep : f.preserveStringLiterals) {t : Text}
    {ls : List (Literal f t)}
    (hsorted : ls.Pairwise fun l k => l.before.length < k.before.length) {u v : Text}
    (ht : t = u ++ v) (hu : ∀ l ∈ ls, u.length ≤ l.before.length) :
    Text.OccurInOrder (ls.map Literal.text) (runBehind f u v) := by
  induction ls generalizing u v with
  | nil => exact .nil _
  | cons l ls ih =>
    obtain ⟨hfirst, hsorted⟩ := List.pairwise_cons.1 hsorted
    obtain ⟨w, hw⟩ : u <+: l.before :=
      List.prefix_of_prefix_length_le ⟨v, ht.symm⟩ ⟨_, l.text_eq.symm⟩ (hu l List.mem_cons_self)
    obtain rfl : v = w ++ (l.text ++ l.behind) := by
      have hsplit := ht.symm.trans l.text_eq_append
      rwa [← hw, List.append_assoc, List.append_cancel_left_eq] at hsplit
    have hbehind : t = (l.before ++ l.text) ++ l.behind := by
      rw [List.append_assoc]
      exact l.text_eq_append
    have hrest := ih hsorted hbehind fun k hk => by
      rw [List.length_append]
      exact l.length_before_le hkeep (hfirst k hk)
    obtain ⟨x, hx⟩ := runBehind_append f u w (l.text ++ l.behind)
    rw [hx, hw, l.runBehind_before hkeep]
    exact .cons x hrest

/-! ## Nothing else is a literal -/

theorem of_codeStep_mode {q : Char} (hmode : s.mode = .code)
    (h : (codeStep f s c next).2.mode = .literal q) : c = q ∧ isQuote q ∧ s.escaped = false := by
  have hcase := codeCase f s c next
  generalize codeStep f s c next = r at hcase h
  cases hcase with
  | literal _ hc hescaped =>
    obtain rfl : c = q := by simpa using h
    exact ⟨rfl, hc, hescaped⟩
  | block => cases h
  | line => cases h
  | newline | held | lost | space | written => simp [State.written, hmode] at h

/-- A literal is opened by a quote that stands outside of literals and comments. -/
theorem of_step_mode {q : Char} (hmode : ∀ p, s.mode ≠ .literal p)
    (h : (step f s c next).2.mode = .literal q) :
    c = q ∧ isQuote q ∧ s.isOutside ∧ s.escaped = false := by
  have hcase := stepCase f s c next
  generalize step f s c next = r at hcase h
  cases hcase with
  | passed => exact absurd h (hmode q)
  | code houtside =>
    obtain ⟨hc, hq, hescaped⟩ := of_codeStep_mode rfl h
    exact ⟨hc, hq, houtside, hescaped⟩
  | literal p hp => exact absurd hp (hmode p)
  | loneReturn => cases h
  | lineEnd _ hc =>
    obtain ⟨rfl, hq, -⟩ := of_codeStep_mode rfl h
    exact absurd hc (by rcases eq_of_isQuote hq with rfl | rfl <;> decide)
  | comment m _ _ hm =>
    obtain rfl : m = .literal q := h
    cases hm

/-- In a literal the next character is copied, and only the quote of the literal can end it. -/
theorem mode_concat (next : Option Char) {q : Char} (hq : isQuote q)
    (hmode : (stateAfter f (some c) .start u).mode = .literal q) :
    (stateAfter f next .start (u ++ [c])).mode =
      if c = q ∧ u.escapes = false then .code else .literal q := by
  have hpassing : (stateAfter f (some c) .start u).passing = false := by
    by_contra hpassing
    obtain ⟨d, -, hmark, -⟩ := (reads_stateAfter f (some c) u).passing (by simpa using hpassing)
    simp [hmode, Mode.endsMark] at hmark
  have hescaped := (heeds_stateAfter f (some c) u).escaped (by simp [hmode, Mode.isComment])
  obtain ⟨start, hstep⟩ := step_literal f hq hmode hpassing hescaped c
  rw [stateAfter_concat, hstep]

/-- Where the scanner is in a literal, a quote has opened it that none has closed. -/
theorem exists_opening (f : Filter) (next : Option Char) (u : Text) {q : Char}
    (h : (stateAfter f next .start u).mode = .literal q) :
    ∃ w x : Text, u = w ++ q :: x ∧ isQuote q ∧ (stateAfter f (some q) .start w).isOutside ∧
      w.escapes = false ∧ ∀ y z : Text, x = y ++ q :: z → y.escapes := by
  induction u using List.reverseRecOn generalizing next q with
  | nil => cases h
  | append_singleton u c ih =>
    by_cases hmode : ∃ p, (stateAfter f (some c) .start u).mode = .literal p
    · obtain ⟨p, hmode⟩ := hmode
      obtain ⟨w, x, hu, hp, houtside, hunescaped, hescaped⟩ := ih (some c) hmode
      rw [mode_concat next hp hmode] at h
      split at h
      · cases h
      · rename_i hopen
        obtain rfl : p = q := by simpa using h
        refine ⟨w, x ++ [c], by simp [hu], hp, houtside, hunescaped, fun y z hyz => ?_⟩
        rcases List.eq_nil_or_concat' z with rfl | ⟨z, d, rfl⟩
        -- The last character is a quote of the kind. It has not closed the literal.
        · obtain ⟨rfl, hc⟩ := List.append_inj' hyz rfl
          rw [hu, Text.escapes_append_cons (isQuote_ne hp)] at hopen
          simpa [List.singleton_inj.1 hc] using hopen
        · rw [← List.cons_append, ← List.append_assoc] at hyz
          exact hescaped y z (List.append_inj' hyz rfl).1
    · rw [stateAfter_concat] at h
      obtain ⟨rfl, hq, houtside, hescaped⟩ :=
        of_step_mode (fun p hp => hmode ⟨p, hp⟩) h
      exact ⟨u, [], rfl, hq, houtside, (escaped_eq_escapes houtside).symm.trans hescaped, by simp⟩

/-- Every quote that ends a literal for the scanner is the last character of one. -/
theorem exists_literal_of_closes {t v : Text} {q : Char} (ht : t = u ++ c :: v)
    (hinside : (stateAfter f (some c) .start u).mode = .literal q)
    (hcloses : (stateAfter f v.head? .start (u ++ [c])).mode ≠ .literal q) :
    ∃ l : Literal f t, u = l.before ++ l.quote :: l.content ∧ c = l.quote := by
  obtain ⟨w, x, rfl, hq, houtside, hunescaped, hescaped⟩ := exists_opening f (some c) u hinside
  rw [mode_concat _ hq hinside, Text.escapes_append_cons (isQuote_ne hq)] at hcloses
  obtain ⟨rfl, hclosed⟩ : c = q ∧ x.escapes = false := by
    by_contra hopen
    exact hcloses (if_neg hopen)
  exact ⟨⟨w, c, x, v, by simp [ht], hq, ⟨hescaped, hclosed⟩, houtside, hunescaped⟩, rfl, rfl⟩

end Scanner

/-! ## Literals in the cleaned source -/

namespace BlankLines

/-- Reduction keeps what stands on one line and ends in no blank. -/
theorem Shortened.occurInOrder {x y : Text} {ws : List Text} (h : Shortened x y)
    (hx : Text.OccurInOrder ws x) (hfeed : ∀ w ∈ ws, '\n' ∉ w)
    (hlast : ∀ w ∈ ws, ∃ c ∈ w.getLast?, ¬ isBlank c) : Text.OccurInOrder ws y := by
  induction hx generalizing y with
  | nil => exact .nil y
  | @cons z w t ws _ ih =>
    obtain ⟨z', y', rfl, hbehind⟩ := h.of_append
    obtain ⟨c, hc, hblank⟩ := hlast w List.mem_cons_self
    obtain ⟨t', rfl, ht⟩ := hbehind.of_solid_append (hfeed w List.mem_cons_self) hc hblank
    exact .cons z' (ih ht (fun v hv => hfeed v (List.mem_cons_of_mem w hv))
      fun v hv => hlast v (List.mem_cons_of_mem w hv))

end BlankLines

namespace Source

open Scanner

/-- Where literals are kept, those that hold no line feed are found in the cleaned source one
    behind the other, in the order of the source, with everything that stands in them. -/
theorem literals_occurInOrder_clean {f : Filter} (hkeep : f.preserveStringLiterals) {t : Text}
    {ls : List (Literal f t)}
    (hsorted : ls.Pairwise fun l k => l.before.length < k.before.length)
    (hfeed : ∀ l ∈ ls, '\n' ∉ l.text) : Text.OccurInOrder (ls.map Literal.text) (clean f t) := by
  have hrun := occurInOrder_runBehind hkeep hsorted (u := []) (v := t) rfl (by simp)
  apply (BlankLines.shortened_reduce _).occurInOrder hrun
  · simpa using hfeed
  · intro w hw
    obtain ⟨l, -, rfl⟩ := List.mem_map.1 hw
    refine ⟨l.quote, l.getLast?_text, ?_⟩
    rcases eq_of_isQuote l.isQuote with hq | hq
    · rw [hq]
      decide
    · rw [hq]
      decide

/-- Literals with both marks of comments, an escaped quote, a quote of the other kind and runs of
    gaps in them, and quotes in a comment between them. -/
def markedNode : Text :=
  "model = \"a/*b\\\"//c\"; // \"x\"\n\tname = 'x  \t\"y';".toList

def markedLiterals : List (Literal {} markedNode) :=
  [{ before := "model = ".toList
     quote := '"'
     content := "a/*b\\\"//c".toList
     behind := "; // \"x\"\n\tname = 'x  \t\"y';".toList
     text_eq := by decide +kernel
     isQuote := rfl
     fits := by decide +kernel
     outside := by decide +kernel
     unescaped := by decide +kernel },
   { before := "model = \"a/*b\\\"//c\"; // \"x\"\n\tname = ".toList
     quote := '\''
     content := "x  \t\"y".toList
     behind := ";".toList
     text_eq := by decide +kernel
     isQuote := rfl
     fits := by decide +kernel
     outside := by decide +kernel
     unescaped := by decide +kernel }]

theorem literals_occurInOrder_clean_marked :
    (({} : Filter).preserveStringLiterals ∧
      (markedLiterals.Pairwise fun l k => l.before.length < k.before.length) ∧
      ∀ l ∈ markedLiterals, '\n' ∉ l.text) ∧
    Text.OccurInOrder (markedLiterals.map Literal.text) (clean {} markedNode) ∧
    clean {} markedNode = "model = \"a/*b\\\"//c\";\n    name = 'x  \t\"y';".toList := by
  have hsorted : markedLiterals.Pairwise fun l k => l.before.length < k.before.length := by
    decide +kernel
  have hfeed : ∀ l ∈ markedLiterals, '\n' ∉ l.text := by
    decide +kernel
  exact ⟨⟨rfl, hsorted, hfeed⟩, literals_occurInOrder_clean rfl hsorted hfeed, by decide +kernel⟩

end Source

end Devicetree
