-- SUMMARY: Words and numbers of JSON texts are read in the same way whatever stands behind them.
import Devicetree.Json.Reader
import Devicetree.Text.Numeral

/-!
# Words and numbers

A word or a number ends in front of a character that cannot belong to it. Inside an indented
text a comma or a line feed stands behind each value, so a word or a number is read there as
it is read on its own.
-/

namespace Devicetree

open Except (ok error)

namespace Json

/-- What stands behind a value of an indented text. -/
inductive Behind : Text → Prop
  | nil : Behind []
  | comma (cs : Text) : Behind (',' :: cs)
  | lineFeed (cs : Text) : Behind ('\n' :: cs)

variable {rest : Text}

/-- Characters of different kinds are different. -/
theorem ne_of_kind {p : Char → Bool} {c d : Char} (hc : p c) (hd : p d = false) : c ≠ d := by
  rintro rfl
  rw [hc] at hd
  cases hd

/-- Characters of a kind without blanks are no blanks. -/
theorem isSpace_of_kind {p : Char → Bool} {c : Char} (hc : p c) (hblank : p ' ' = false)
    (htab : p '\t' = false) (hfeed : p '\n' = false) (hreturn : p '\r' = false) :
    isSpace c = false := by
  simp [isSpace, ne_of_kind hc hblank, ne_of_kind hc htab, ne_of_kind hc hfeed,
    ne_of_kind hc hreturn]

/-! ## What is read of a longer text -/

theorem Behind.takeWhile (h : Behind rest) {p : Char → Bool} (hcomma : p ',' = false)
    (hfeed : p '\n' = false) (cs : Text) : (cs ++ rest).takeWhile p = cs.takeWhile p := by
  induction cs with
  | nil =>
    cases h with
    | nil => rfl
    | comma cs => simp [hcomma]
    | lineFeed cs => simp [hfeed]
  | cons c cs ih => rw [List.cons_append, List.takeWhile_cons, List.takeWhile_cons, ih]

theorem Behind.dropWhile (h : Behind rest) {p : Char → Bool} (hcomma : p ',' = false)
    (hfeed : p '\n' = false) (cs : Text) :
    (cs ++ rest).dropWhile p = cs.dropWhile p ++ rest := by
  induction cs with
  | nil =>
    cases h with
    | nil => rfl
    | comma cs => simp [hcomma]
    | lineFeed cs => simp [hfeed]
  | cons c cs ih =>
    rw [List.cons_append, List.dropWhile_cons, List.dropWhile_cons, ih]
    split
    · rfl
    · rfl

theorem Behind.takeWhile_isDigit (h : Behind rest) (cs : Text) :
    (cs ++ rest).takeWhile Char.isDigit = cs.takeWhile Char.isDigit :=
  h.takeWhile (by decide) (by decide) cs

theorem Behind.dropWhile_isDigit (h : Behind rest) (cs : Text) :
    (cs ++ rest).dropWhile Char.isDigit = cs.dropWhile Char.isDigit ++ rest :=
  h.dropWhile (by decide) (by decide) cs

/-! ## Words -/

theorem Behind.prefix_append_iff (h : Behind rest) {word cs : Text} (hcomma : ',' ∉ word)
    (hfeed : '\n' ∉ word) : word <+: cs ++ rest ↔ word <+: cs := by
  refine ⟨fun hword => ?_, fun hword => hword.trans (List.prefix_append cs rest)⟩
  rcases List.prefix_or_prefix_of_prefix hword (List.prefix_append cs rest) with hshort | hlong
  · exact hshort
  · -- A longer word would go on with what stands behind.
    obtain ⟨more, rfl⟩ := hlong
    rw [List.prefix_append_right_inj] at hword
    cases more with
    | nil => simp
    | cons c more =>
      obtain ⟨last, rfl⟩ := hword
      cases h with
      | comma => simp at hcomma
      | lineFeed => simp at hfeed

theorem Behind.afterWord (h : Behind rest) {word : String} (cs : Text)
    (hcomma : ',' ∉ word.toList) (hfeed : '\n' ∉ word.toList) :
    Json.afterWord word (cs ++ rest) = (Json.afterWord word cs).map (· ++ rest) := by
  simp only [Json.afterWord, List.isPrefixOf_iff_prefix, h.prefix_append_iff hcomma hfeed]
  split
  · rename_i hword
    have hlength : word.length ≤ cs.length := by
      simpa only [String.length_toList] using hword.length_le
    rw [Option.map_some, List.drop_append_of_le_length hlength]
  · rfl

/-! ## Numbers -/

theorem Behind.wholeDigits (h : Behind rest) (cs : Text) :
    Json.wholeDigits (cs ++ rest) = Json.wholeDigits cs := by
  match cs with
  | [] =>
    cases h with
    | nil => rfl
    | comma cs => rfl
    | lineFeed cs => rfl
  | c :: cs =>
    by_cases hzero : c = '0'
    · subst hzero
      rfl
    · rw [List.cons_append, Json.wholeDigits, Json.wholeDigits, ← List.cons_append,
        h.takeWhile_isDigit]
      · simpa using hzero
      · simpa using hzero

theorem wholeDigits_starts (cs : Text) : wholeDigits cs <+: cs := by
  unfold wholeDigits
  split
  · exact ⟨_, rfl⟩
  · exact List.takeWhile_prefix _

theorem Behind.fractionDigits (h : Behind rest) (cs : Text) :
    Json.fractionDigits (cs ++ rest) =
      ((Json.fractionDigits cs).1, (Json.fractionDigits cs).2 ++ rest) := by
  match cs with
  | [] =>
    cases h with
    | nil => rfl
    | comma cs => rfl
    | lineFeed cs => rfl
  | c :: cs =>
    by_cases hpoint : c = '.'
    · subst hpoint
      rw [List.cons_append, Json.fractionDigits, Json.fractionDigits, h.takeWhile_isDigit,
        h.dropWhile_isDigit]
      cases cs.takeWhile Char.isDigit with
      | nil => rfl
      | cons d ds => rfl
    · rw [List.cons_append, Json.fractionDigits, Json.fractionDigits]
      · rfl
      · simpa using hpoint
      · simpa using hpoint

/-- The digits of an exponent at the start of `ds`, which stands behind its letter and its sign
    in `cs`. -/
def exponentDigits (negative : Bool) (cs ds : Text) : Option Int × Text :=
  match ds.takeWhile Char.isDigit with
  | [] => (none, cs)
  | digits =>
    let n : Int := Decimal.natural digits
    (some (if negative then -n else n), ds.dropWhile Char.isDigit)

theorem exponentPart_cons (e : Char) (cs : Text) :
    exponentPart (e :: cs) =
      if e == 'e' || e == 'E' then
        exponentDigits (Numeral.signed cs).1 (e :: cs) (Numeral.signed cs).2
      else (none, e :: cs) :=
  rfl

theorem Behind.signed (h : Behind rest) (cs : Text) :
    Numeral.signed (cs ++ rest) = ((Numeral.signed cs).1, (Numeral.signed cs).2 ++ rest) := by
  match cs with
  | [] =>
    cases h with
    | nil => rfl
    | comma cs => rfl
    | lineFeed cs => rfl
  | c :: cs =>
    rw [List.cons_append]
    by_cases hminus : c = '-'
    · subst hminus
      rfl
    · by_cases hplus : c = '+'
      · subst hplus
        rfl
      · rw [Numeral.signed, Numeral.signed]
        · rfl
        all_goals simpa

theorem Behind.exponentPart (h : Behind rest) (cs : Text) :
    Json.exponentPart (cs ++ rest) =
      ((Json.exponentPart cs).1, (Json.exponentPart cs).2 ++ rest) := by
  cases cs with
  | nil =>
    cases h with
    | nil => rfl
    | comma cs => rfl
    | lineFeed cs => rfl
  | cons e cs =>
    rw [List.cons_append, exponentPart_cons, exponentPart_cons]
    split
    · rw [h.signed, Json.exponentDigits, Json.exponentDigits, h.takeWhile_isDigit,
        h.dropWhile_isDigit]
      cases (Numeral.signed cs).2.takeWhile Char.isDigit with
      | nil => rfl
      | cons d ds => rfl
    · rfl

/-- A number is read as it is on its own. -/
theorem Behind.number (h : Behind rest) {negative : Bool} {signed signed' cs left : Text}
    {v : Json} (hread : Json.number negative signed cs = ok (v, left)) :
    Json.number negative signed' (cs ++ rest) = ok (v, left ++ rest) := by
  have hlength := (wholeDigits_starts cs).length_le
  rw [Json.number] at hread ⊢
  rw [h.wholeDigits]
  generalize Json.wholeDigits cs = whole at hread hlength ⊢
  cases whole with
  | nil => cases hread
  | cons d ds =>
    simp only [List.drop_append_of_le_length hlength, h.fractionDigits, h.exponentPart]
      at hread ⊢
    split
    · rw [if_pos ‹_›] at hread
      split
      · rw [if_pos ‹_›] at hread
        cases hread
      · rw [if_neg ‹_›] at hread
        cases hread
        rfl
    · rw [if_neg ‹_›] at hread
      cases hread
      rfl

/-! ## Words or numbers -/

/-- The words of JSON texts and what they stand for. -/
def words : List (String × Json) :=
  [("null", null), ("true", bool true), ("false", bool false), ("NaN", real (0.0 / 0.0)),
    ("Infinity", real (1.0 / 0.0)), ("-Infinity", real (-1.0 / 0.0))]

/-- Read a number and the sign in front of it. -/
def signedNumber (cs : Text) : Read Json :=
  match cs with
  | '-' :: digits => number true cs digits
  | _ => number false cs cs

theorem atom_eq (cs : Text) :
    atom cs = match words.findSome? fun w => (afterWord w.1 cs).map (w.2, ·) with
      | some r => ok r
      | none => signedNumber cs := by
  unfold atom
  simp only [words, List.findSome?_cons]
  cases afterWord "null" cs
  · cases afterWord "true" cs
    · cases afterWord "false" cs
      · cases afterWord "NaN" cs
        · cases afterWord "Infinity" cs
          · cases afterWord "-Infinity" cs
            · rfl
            · rfl
          · rfl
        · rfl
      · rfl
    · rfl
  · rfl

theorem Behind.words (h : Behind rest) (cs : Text) :
    (Json.words.findSome? fun w => (Json.afterWord w.1 (cs ++ rest)).map (w.2, ·)) =
      (Json.words.findSome? fun w => (Json.afterWord w.1 cs).map (w.2, ·)).map
        fun r => (r.1, r.2 ++ rest) := by
  have hwords : ∀ w ∈ Json.words, ',' ∉ w.1.toList ∧ '\n' ∉ w.1.toList := by
    simp only [Json.words, List.forall_mem_cons]
    decide
  generalize Json.words = ws at hwords ⊢
  induction ws with
  | nil => rfl
  | cons w ws ih =>
    rw [List.forall_mem_cons] at hwords
    rw [List.findSome?_cons, List.findSome?_cons, h.afterWord cs hwords.1.1 hwords.1.2,
      ih hwords.2]
    cases Json.afterWord w.1 cs with
    | none => rfl
    | some left => rfl

theorem signedNumber_cons {c : Char} (hminus : c ≠ '-') (cs : Text) :
    signedNumber (c :: cs) = number false (c :: cs) (c :: cs) := by
  unfold signedNumber
  split
  · exact absurd (List.cons.inj ‹_›).1 hminus
  · rfl

theorem Behind.signedNumber (h : Behind rest) {cs left : Text} {v : Json}
    (hread : Json.signedNumber cs = ok (v, left)) :
    Json.signedNumber (cs ++ rest) = ok (v, left ++ rest) := by
  cases cs with
  | nil => cases hread
  | cons c cs =>
    by_cases hminus : c = '-'
    · subst hminus
      exact h.number hread
    · rw [signedNumber_cons hminus] at hread
      rw [List.cons_append, signedNumber_cons hminus]
      exact h.number hread

/-- A word or a number is read as it is on its own. -/
theorem Behind.atom (h : Behind rest) {cs left : Text} {v : Json}
    (hread : Json.atom cs = ok (v, left)) : Json.atom (cs ++ rest) = ok (v, left ++ rest) := by
  rw [atom_eq] at hread ⊢
  rw [h.words]
  cases hword : Json.words.findSome? fun w => (Json.afterWord w.1 cs).map (w.2, ·) with
  | some r =>
    rw [hword] at hread
    cases hread
    rfl
  | none =>
    rw [hword] at hread
    exact h.signedNumber hread

/-- The characters with which a word or a number starts. -/
def startsAtom (c : Char) : Bool :=
  c.isDigit || ['n', 't', 'f', 'N', 'I', '-'].contains c

/-- Every word or number starts with a character of its own. -/
theorem exists_startsAtom {cs left : Text} {v : Json} (hread : atom cs = ok (v, left)) :
    ∃ c more, cs = c :: more ∧ startsAtom c := by
  cases cs with
  | nil => cases hread
  | cons c more =>
    refine ⟨c, more, rfl, Decidable.byContradiction fun hstart => ?_⟩
    simp only [startsAtom, List.contains_cons, List.contains_nil, Bool.or_eq_true, not_or,
      Bool.not_eq_true, beq_eq_false_iff_ne] at hstart
    obtain ⟨hdigit, hn, ht, hf, hN, hI, hminus, -⟩ := hstart
    have hword : words.findSome? (fun w => (afterWord w.1 (c :: more)).map (w.2, ·)) = none := by
      simp [words, afterWord, Ne.symm hn, Ne.symm ht, Ne.symm hf, Ne.symm hN, Ne.symm hI,
        Ne.symm hminus]
    have hzero : c ≠ '0' := by
      rintro rfl
      cases hdigit
    have hwhole : wholeDigits (c :: more) = [] := by
      rw [wholeDigits, List.takeWhile_cons, hdigit]
      · rfl
      · simpa using hzero
    rw [atom_eq, hword] at hread
    simp only [signedNumber_cons hminus, number, hwhole] at hread
    cases hread

/-! ## What is left -/

theorem fractionDigits_suffix (cs : Text) : (fractionDigits cs).2 <:+ cs := by
  unfold fractionDigits
  split
  · split
    · exact List.suffix_refl _
    · exact (List.dropWhile_suffix _).trans (List.suffix_cons _ _)
  · exact List.suffix_refl _

theorem exponentPart_suffix (cs : Text) : (exponentPart cs).2 <:+ cs := by
  cases cs with
  | nil => exact List.suffix_refl _
  | cons e cs =>
    have hsigned : (Numeral.signed cs).2 <:+ cs := by
      unfold Numeral.signed
      split
      · exact List.suffix_cons _ _
      · exact List.suffix_cons _ _
      · exact List.suffix_refl _
    rw [exponentPart_cons]
    split
    · rw [exponentDigits]
      split
      · exact List.suffix_refl _
      · exact ((List.dropWhile_suffix _).trans hsigned).trans (List.suffix_cons _ _)
    · exact List.suffix_refl _

theorem number_suffix {negative : Bool} {signed cs left : Text} {v : Json}
    (hread : number negative signed cs = ok (v, left)) : left <:+ cs := by
  have hrest : ∀ whole : Text,
      (exponentPart (fractionDigits (cs.drop whole.length)).2).2 <:+ cs := fun whole =>
    ((exponentPart_suffix _).trans (fractionDigits_suffix _)).trans (List.drop_suffix _ _)
  rw [number] at hread
  cases hwhole : wholeDigits cs with
  | nil =>
    rw [hwhole] at hread
    cases hread
  | cons d ds =>
    simp only [hwhole] at hread
    split at hread
    · split at hread
      · cases hread
      · cases hread
        exact hrest _
    · cases hread
      exact hrest _

/-- What is left behind a word or a number is an end of the text. -/
theorem atom_suffix {cs left : Text} {v : Json} (hread : atom cs = ok (v, left)) :
    left <:+ cs := by
  rw [atom_eq] at hread
  split at hread
  · rename_i r hr
    cases hread
    obtain ⟨w, -, hw⟩ := List.exists_of_findSome?_eq_some hr
    obtain ⟨left', hleft, heq⟩ := Option.map_eq_some_iff.1 hw
    cases heq
    simp only [afterWord, Option.ite_none_right_eq_some, Option.some.injEq] at hleft
    exact hleft.2 ▸ List.drop_suffix _ _
  · unfold signedNumber at hread
    split at hread
    · exact (number_suffix hread).trans (List.suffix_cons _ _)
    · exact number_suffix hread

end Json

end Devicetree
