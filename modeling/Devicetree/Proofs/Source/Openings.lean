-- SUMMARY: Which lines open blocks, told by patterns, and that each of them gives its block a key.
import Mathlib.Computability.Language
import Devicetree.Proofs.Source.NodeTrees
import Devicetree.Proofs.Source.Variants
import Devicetree.Proofs.Value.HexLiterals

/-!
# Opening lines

A line is called an opening one by what it is like between its blanks, while the key of
its block is read off the line as it stands. Both are told here by patterns, which are
sets of texts: a pattern says how a text can be put together, and nothing about how it
is searched. A line has at most one key in the sense of these patterns, every opening
line has one, and so the key for unnamed blocks is never resorted to in a document.
-/

namespace Devicetree

/-! ## Patterns -/

namespace Pattern

/-- The texts of characters of a class, the empty text too. -/
def anyOf (p : Char → Bool) : Language Char := {t | ∀ c ∈ t, p c}

/-- The texts of at least one character, all of a class. -/
def someOf (p : Char → Bool) : Language Char := {t | t ≠ [] ∧ ∀ c ∈ t, p c}

/-- The text of one character. -/
def sign (c : Char) : Language Char := {[c]}

/-- Names of blocks, and labels. -/
def name : Language Char := someOf Line.isNameChar

/-- What may stand behind the name of a block: nothing, or a unit address. -/
def address : Language Char := 1 + sign '@' * someOf Hex.isDigit

/-- Texts that go on, behind blanks, with a character. -/
def goingOn (c : Char) : Language Char := anyOf isBlank * sign c * ⊤

/-- Texts with an opening brace behind at least one character of the same line. -/
def braced : Language Char := anyOf isBlank * someOf (· != '\n') * sign '{' * ⊤

/-- The trimmed lines that open a block without a label. -/
def plainOpening : Language Char := name * address * goingOn '{'

/-- The trimmed lines that open a block with a label. -/
def labelledOpening : Language Char := name * anyOf isBlank * sign ':' * braced

variable {c d : Char} {t r k : Text}

theorem takeWhile_mem_anyOf (p : Char → Bool) (t : Text) : t.takeWhile p ∈ anyOf p :=
  fun _ hc => List.mem_takeWhile_imp hc

theorem takeWhile_mem_someOf {p : Char → Bool} (h : t.takeWhile p ≠ []) :
    t.takeWhile p ∈ someOf p :=
  ⟨h, takeWhile_mem_anyOf p t⟩

theorem mem_goingOn : t ∈ goingOn c ↔ ∃ gap ∈ anyOf isBlank, ∃ rest, t = gap ++ c :: rest := by
  constructor
  · rintro ⟨_, ⟨gap, hgap, _, rfl, rfl⟩, rest, -, rfl⟩
    exact ⟨gap, hgap, rest, by simp⟩
  · rintro ⟨gap, hgap, rest, rfl⟩
    exact ⟨gap ++ [c], ⟨gap, hgap, [c], rfl, rfl⟩, rest, trivial, by simp⟩

theorem mem_braced :
    t ∈ braced ↔ ∃ gap ∈ anyOf isBlank, ∃ line ∈ someOf (· != '\n'), ∃ rest,
      t = gap ++ line ++ '{' :: rest := by
  constructor
  · rintro ⟨_, ⟨_, ⟨gap, hgap, line, hline, rfl⟩, _, rfl, rfl⟩, rest, -, rfl⟩
    exact ⟨gap, hgap, line, hline, rest, by simp⟩
  · rintro ⟨gap, hgap, line, hline, rest, rfl⟩
    exact ⟨gap ++ line ++ ['{'], ⟨gap ++ line, ⟨gap, hgap, line, hline, rfl⟩, ['{'], rfl, rfl⟩,
      rest, trivial, by simp⟩

theorem mem_labelledOpening :
    t ∈ labelledOpening ↔ ∃ n ∈ name, ∃ gap ∈ anyOf isBlank, ∃ rest ∈ braced,
      t = n ++ (gap ++ ':' :: rest) := by
  constructor
  · rintro ⟨_, ⟨_, ⟨n, hn, gap, hgap, rfl⟩, _, rfl, rfl⟩, rest, hrest, rfl⟩
    exact ⟨n, hn, gap, hgap, rest, hrest, by simp⟩
  · rintro ⟨n, hn, gap, hgap, rest, hrest, rfl⟩
    exact ⟨n ++ gap ++ [':'], ⟨n ++ gap, ⟨n, hn, gap, hgap, rfl⟩, [':'], rfl, rfl⟩,
      rest, hrest, by simp⟩

theorem mem_address : t ∈ address ↔ t = [] ∨ ∃ ds ∈ someOf Hex.isDigit, t = '@' :: ds := by
  constructor
  · rintro (rfl | ⟨_, rfl, ds, hds, rfl⟩)
    · exact .inl rfl
    · exact .inr ⟨ds, hds, rfl⟩
  · rintro (rfl | ⟨ds, hds, rfl⟩)
    · exact .inl rfl
    · exact .inr ⟨['@'], rfl, ds, hds, rfl⟩

/-- A given text with something of a pattern behind it. -/
theorem mem_singleton_mul {p : Language Char} :
    t ∈ ({k} : Language Char) * p ↔ ∃ r ∈ p, t = k ++ r := by
  constructor
  · rintro ⟨_, rfl, r, hr, rfl⟩
    exact ⟨r, hr, rfl⟩
  · rintro ⟨r, hr, rfl⟩
    exact ⟨k, rfl, r, hr, rfl⟩

theorem mem_mul_of_singleton_mul {p q : Language Char} (hk : k ∈ q)
    (h : t ∈ ({k} : Language Char) * p) : t ∈ q * p := by
  obtain ⟨r, hr, rfl⟩ := mem_singleton_mul.1 h
  exact Language.append_mem_mul hk hr

/-- What reads a text of one pattern in front of another answers where the text has both. -/
theorem isSome_iff_mem_mul {o : Option Text} {p q : Language Char}
    (h : ∀ k, o = some k ↔ k ∈ p ∧ t ∈ ({k} : Language Char) * q) : o.isSome ↔ t ∈ p * q := by
  rw [Option.isSome_iff_exists]
  constructor
  · rintro ⟨k, hk⟩
    obtain ⟨hmem, ht⟩ := (h k).1 hk
    exact mem_mul_of_singleton_mul hmem ht
  · rintro ⟨k, hk, r, hr, rfl⟩
    exact ⟨k, (h k).2 ⟨hk, mem_singleton_mul.2 ⟨r, hr, rfl⟩⟩⟩

/-- How a text goes on is told before its end. -/
theorem append_mem_goingOn (h : t ∈ goingOn c) (w : Text) : t ++ w ∈ goingOn c := by
  obtain ⟨gap, hgap, rest, rfl⟩ := mem_goingOn.1 h
  exact mem_goingOn.2 ⟨gap, hgap, rest ++ w, by simp⟩

theorem head?_trimStart_of_mem_goingOn (hc : ¬ isBlank c) (h : t ∈ goingOn c) :
    (Text.trimStart t).head? = some c := by
  obtain ⟨gap, hgap, rest, rfl⟩ := mem_goingOn.1 h
  rw [Text.trimStart_append_of_blank hgap, Text.trimStart, List.dropWhile_cons_of_neg hc]
  rfl

theorem goesOnWith_iff (hc : ¬ isBlank c) : Line.goesOnWith c t ↔ t ∈ goingOn c := by
  rw [Line.goesOnWith, beq_iff_eq]
  constructor
  · intro h
    obtain ⟨rest, hrest⟩ := List.head?_eq_some_iff.1 h
    refine mem_goingOn.2 ⟨t.takeWhile isBlank, takeWhile_mem_anyOf _ _, rest, ?_⟩
    rw [← hrest, Text.trimStart, List.takeWhile_append_dropWhile]
  · exact head?_trimStart_of_mem_goingOn hc

/-- A class without blanks ends where a text goes on with a character outside it. -/
theorem takeWhile_of_mem_goingOn {p : Char → Bool} (hp : ∀ d, isBlank d → ¬ p d) (hc : ¬ p c)
    (h : t ∈ goingOn c) : t.takeWhile p = [] := by
  obtain ⟨gap, hgap, rest, rfl⟩ := mem_goingOn.1 h
  cases gap with
  | nil => exact List.takeWhile_cons_of_neg hc
  | cons d gap => exact List.takeWhile_cons_of_neg (hp d (hgap d (by simp)))

end Pattern

/-! ## Names and addresses -/

namespace Line

open Pattern

variable {c : Char} {t r k n a : Text}

theorem not_isNameChar_of_isBlank (h : isBlank c) : ¬ isNameChar c := by
  intro hname
  have hrange : 45 ≤ c.toNat ∧ c.toNat ≤ 122 := by
    delta isNameChar Char.isAlphanum Char.isAlpha Char.isUpper Char.isLower Char.isDigit at hname
    simp only [Bool.or_eq_true, Bool.and_eq_true, decide_eq_true_eq, beq_iff_eq,
      UInt32.le_iff_toNat_le] at hname
    rcases hname with ((((h | h) | h) | rfl) | rfl)
    · change 65 ≤ c.toNat ∧ c.toNat ≤ 90 at h
      omega
    · change 97 ≤ c.toNat ∧ c.toNat ≤ 122 at h
      omega
    · change 48 ≤ c.toNat ∧ c.toNat ≤ 57 at h
      omega
    · decide
    · decide
  simp only [isBlank, Bool.or_eq_true, Bool.and_eq_true, decide_eq_true_eq, beq_iff_eq] at h
  omega

theorem unitAddress_mem_address (t : Text) : unitAddress t ∈ address := by
  unfold unitAddress
  split
  · rename_i cs
    split
    · exact mem_address.2 (.inl rfl)
    · rename_i hne
      exact mem_address.2 (.inr ⟨_, takeWhile_mem_someOf (by simpa using hne), rfl⟩)
  · exact mem_address.2 (.inl rfl)

theorem takeWhile_isNameChar_of_mem_address (ha : a ∈ address) (hr : r ∈ goingOn '{') :
    (a ++ r).takeWhile isNameChar = [] := by
  rcases mem_address.1 ha with rfl | ⟨ds, -, rfl⟩
  · exact takeWhile_of_mem_goingOn (fun _ => not_isNameChar_of_isBlank) (by decide) hr
  · rfl

theorem unitAddress_append (ha : a ∈ address) (hr : r ∈ goingOn '{') :
    unitAddress (a ++ r) = a := by
  rcases mem_address.1 ha with rfl | ⟨ds, ⟨hne, hds⟩, rfl⟩
  · obtain ⟨gap, hgap, rest, rfl⟩ := mem_goingOn.1 hr
    cases gap with
    | nil => rfl
    | cons d gap =>
      have hd : d ≠ '@' := by
        rintro rfl
        exact absurd (hgap '@' (by simp)) (by decide)
      unfold unitAddress
      split
      · simp_all
      · rfl
  · have hend : r.takeWhile Hex.isDigit = [] :=
      takeWhile_of_mem_goingOn (fun _ hd => (HexLiteral.isApart_of_isBlank hd).2) (by decide) hr
    have htake : (ds ++ r).takeWhile Hex.isDigit = ds := by
      rw [List.takeWhile_append_of_pos hds, hend, List.append_nil]
    rw [List.cons_append, unitAddress, htake]
    cases ds with
    | nil => exact absurd rfl hne
    | cons d ds => rfl

/-! ## Labels and block names -/

theorem label?_append (hn : n ∈ name) (hr : r ∈ goingOn ':') : label? (n ++ r) = some n := by
  have hend : r.takeWhile isNameChar = [] :=
    takeWhile_of_mem_goingOn (fun _ => not_isNameChar_of_isBlank) (by decide) hr
  have htake : (n ++ r).takeWhile isNameChar = n := by
    rw [List.takeWhile_append_of_pos hn.2, hend, List.append_nil]
  have hcolon : goesOnWith ':' r := (goesOnWith_iff (by decide)).2 hr
  simp [label?, htake, hn.1, hcolon]

/-- A label is a name with a colon behind it. -/
theorem label?_eq_some_iff :
    label? t = some k ↔ k ∈ name ∧ t ∈ ({k} : Language Char) * goingOn ':' := by
  rw [mem_singleton_mul]
  constructor
  · intro h
    simp only [label?] at h
    split at h
    · rename_i hcolon
      cases h
      rw [Bool.and_eq_true, goesOnWith_iff (by decide)] at hcolon
      have hsplit : t = t.takeWhile isNameChar ++ t.drop (t.takeWhile isNameChar).length :=
        (List.prefix_iff_eq_append.1 (List.takeWhile_prefix _)).symm
      exact ⟨takeWhile_mem_someOf (by simpa using hcolon.1), _, hcolon.2, hsplit⟩
    · cases h
  · rintro ⟨hk, r, hr, rfl⟩
    exact label?_append hk hr

theorem isSome_label?_iff : (label? t).isSome ↔ t ∈ name * goingOn ':' :=
  isSome_iff_mem_mul fun _ => label?_eq_some_iff

theorem takeWhile_isNameChar_append (hn : n ∈ name) (ha : a ∈ address) (hr : r ∈ goingOn '{') :
    (n ++ (a ++ r)).takeWhile isNameChar = n := by
  rw [List.takeWhile_append_of_pos hn.2, takeWhile_isNameChar_of_mem_address ha hr,
    List.append_nil]

theorem blockName?_append (hn : n ∈ name) (ha : a ∈ address) (hr : r ∈ goingOn '{') :
    blockName? (n ++ (a ++ r)) = some (n ++ a) := by
  have hbrace : goesOnWith '{' r := (goesOnWith_iff (by decide)).2 hr
  have hdrop : (n ++ (a ++ r)).drop (n ++ a).length = r := by
    rw [← List.append_assoc, List.drop_left]
  simp only [blockName?, takeWhile_isNameChar_append hn ha hr, List.drop_left,
    unitAddress_append ha hr, hdrop, hbrace]
  simp [hn.1]

/-- A block name is a name, perhaps with a unit address, and an opening brace behind it. -/
theorem blockName?_eq_some_iff :
    blockName? t = some k ↔ k ∈ name * address ∧ t ∈ ({k} : Language Char) * goingOn '{' := by
  rw [mem_singleton_mul]
  constructor
  · intro h
    simp only [blockName?] at h
    split at h
    · rename_i hbrace
      cases h
      rw [Bool.and_eq_true, goesOnWith_iff (by decide)] at hbrace
      have hprefix : t.takeWhile isNameChar ++
          unitAddress (t.drop (t.takeWhile isNameChar).length) <+: t := by
        conv_rhs => rw [← List.prefix_iff_eq_append.1 (List.takeWhile_prefix isNameChar (l := t))]
        rw [List.prefix_append_right_inj]
        exact unitAddress_prefix _
      have hname : t.takeWhile isNameChar ∈ name := takeWhile_mem_someOf (by simpa using hbrace.1)
      refine ⟨Language.append_mem_mul hname (unitAddress_mem_address _), _, hbrace.2, ?_⟩
      exact (List.prefix_iff_eq_append.1 hprefix).symm
    · cases h
  · rintro ⟨⟨n, hn, a, ha, rfl⟩, r, hr, rfl⟩
    rw [List.append_assoc]
    exact blockName?_append hn ha hr

/-- A line with a block name has no label: behind the name stands an address or a brace. -/
theorem label?_eq_none_of_blockName? (h : blockName? t = some k) : label? t = none := by
  obtain ⟨⟨n, hn, a, ha, rfl⟩, hmem⟩ := blockName?_eq_some_iff.1 h
  obtain ⟨r, hr, rfl⟩ := mem_singleton_mul.1 hmem
  have hhead : (Text.trimStart (a ++ r)).head? ≠ some ':' := by
    rcases mem_address.1 ha with rfl | ⟨ds, -, rfl⟩
    · rw [List.nil_append, head?_trimStart_of_mem_goingOn (by decide) hr]
      decide
    · exact Option.some_inj.not.2 (by decide)
  have hcolon : goesOnWith ':' (a ++ r) = false := by simpa [goesOnWith] using hhead
  rw [List.append_assoc, label?, takeWhile_isNameChar_append hn ha hr, List.drop_left, hcolon]
  simp

/-! ## Keys -/

/-- The key that a line gives to the block it opens, if it gives one. -/
def givenKey? (l : Line) : Option Text :=
  (label? (Text.trimStart l)).or (blockName? (Text.trimStart l))

theorem blockKey_eq_getD (l : Line) : blockKey l = (givenKey? l).getD unnamedKey := rfl

theorem blockKey_of_givenKey? {l : Line} (h : givenKey? l = some k) : blockKey l = k := by
  rw [blockKey_eq_getD, h, Option.getD_some]

/-- Blanks in front of a text that starts with a name are those that trimming drops. -/
theorem trimStart_mem_iff {l : Line} {p : Language Char}
    (hk : ∃ c cs, k = c :: cs ∧ isNameChar c) :
    Text.trimStart l ∈ ({k} : Language Char) * p ↔ l ∈ anyOf isBlank * {k} * p := by
  rw [mul_assoc, Language.mem_mul]
  constructor
  · intro h
    exact ⟨_, takeWhile_mem_anyOf isBlank l, _, h, List.takeWhile_append_dropWhile⟩
  · rintro ⟨gap, hgap, t, ht, rfl⟩
    obtain ⟨c, cs, rfl, hc⟩ := hk
    have hstart : Text.trimStart t = t := by
      obtain ⟨r, -, rfl⟩ := mem_singleton_mul.1 ht
      exact List.dropWhile_cons_of_neg fun hblank => not_isNameChar_of_isBlank hblank hc
    rwa [Text.trimStart_append_of_blank hgap, hstart]

theorem exists_cons_of_mem_name (hn : n ∈ name) (a : Text) :
    ∃ c cs, n ++ a = c :: cs ∧ isNameChar c := by
  obtain ⟨hne, hname⟩ := hn
  cases n with
  | nil => exact absurd rfl hne
  | cons c cs => exact ⟨c, cs ++ a, rfl, hname c (by simp)⟩

/-- A line gives a label as the key, or the name of the block with its unit address. -/
theorem givenKey?_eq_some_iff {l : Line} :
    givenKey? l = some k ↔
      k ∈ name ∧ l ∈ anyOf isBlank * {k} * goingOn ':' ∨
        k ∈ name * address ∧ l ∈ anyOf isBlank * {k} * goingOn '{' := by
  have hlabel : label? (Text.trimStart l) = some k ↔
      k ∈ name ∧ l ∈ anyOf isBlank * {k} * goingOn ':' := by
    rw [label?_eq_some_iff]
    refine and_congr_right fun hk => trimStart_mem_iff ?_
    simpa using exists_cons_of_mem_name hk []
  have hname : blockName? (Text.trimStart l) = some k ↔
      k ∈ name * address ∧ l ∈ anyOf isBlank * {k} * goingOn '{' := by
    rw [blockName?_eq_some_iff]
    refine and_congr_right fun hk => trimStart_mem_iff ?_
    obtain ⟨n, hn, a, -, rfl⟩ := hk
    exact exists_cons_of_mem_name hn a
  rw [← hlabel, ← hname, givenKey?, Option.or_eq_some_iff]
  constructor
  · exact Or.imp_right And.right
  · exact Or.imp_right fun h => ⟨label?_eq_none_of_blockName? h, h⟩

/-- What a line gives as the key is told between its blanks. -/
theorem mem_of_trim_mem {l : Line} {p : Language Char} (hp : ∀ r ∈ p, ∀ w, r ++ w ∈ p)
    (h : Text.trim l ∈ ({k} : Language Char) * p) : l ∈ anyOf isBlank * {k} * p := by
  obtain ⟨r, hr, hk⟩ := mem_singleton_mul.1 h
  obtain ⟨w, -, hw⟩ := Text.exists_trimEnd_append (Text.trimStart l)
  have hl : l = l.takeWhile isBlank ++ (k ++ (r ++ w)) := by
    rw [← List.append_assoc k, ← hk, Text.trim, ← hw]
    exact List.takeWhile_append_dropWhile.symm
  rw [mul_assoc, Language.mem_mul]
  have hrest : k ++ (r ++ w) ∈ ({k} : Language Char) * p :=
    mem_singleton_mul.2 ⟨_, hp r hr w, rfl⟩
  exact ⟨_, takeWhile_mem_anyOf isBlank l, _, hrest, hl.symm⟩

theorem givenKey?_of_label {l : Line} (hk : k ∈ name)
    (h : Text.trim l ∈ ({k} : Language Char) * goingOn ':') : givenKey? l = some k :=
  givenKey?_eq_some_iff.2 (.inl ⟨hk, mem_of_trim_mem (fun _ hr => append_mem_goingOn hr) h⟩)

theorem givenKey?_of_blockName {l : Line} (hk : k ∈ name * address)
    (h : Text.trim l ∈ ({k} : Language Char) * goingOn '{') : givenKey? l = some k :=
  givenKey?_eq_some_iff.2 (.inr ⟨hk, mem_of_trim_mem (fun _ hr => append_mem_goingOn hr) h⟩)

/-! ## Opening lines -/

theorem mem_braced_of_bracedBehindLabel (h : bracedBehindLabel t) : t ∈ braced := by
  have ht : t = t.takeWhile isBlank ++ t.dropWhile isBlank :=
    List.takeWhile_append_dropWhile.symm
  have hblanks : ∀ c ∈ t.takeWhile isBlank, isBlank c := takeWhile_mem_anyOf isBlank t
  simp only [bracedBehindLabel] at h
  generalize t.takeWhile isBlank = blanks at h ht hblanks
  generalize t.dropWhile isBlank = rest at h ht
  split at h
  · cases h
  · rename_i c cs hline
    obtain ⟨tail, htail⟩ : c :: cs <+: rest := hline ▸ List.takeWhile_prefix _
    have hfeed : ∀ d ∈ c :: cs, (d != '\n') = true := hline ▸ takeWhile_mem_anyOf _ rest
    rw [Bool.or_eq_true, List.contains_iff_mem, Bool.and_eq_true, beq_iff_eq] at h
    rcases h with hmem | ⟨rfl, hlast⟩
    · obtain ⟨us, vs, rfl⟩ := List.append_of_mem hmem
      have hline' : c :: us ∈ someOf (· != '\n') :=
        ⟨by simp, fun d hd => hfeed d (List.mem_append_left ('{' :: vs) hd)⟩
      exact mem_braced.2 ⟨blanks, hblanks, c :: us, hline', vs ++ tail, by simp [ht, ← htail]⟩
    · -- The blanks are all that stands before the brace, so the last of them has to do.
      obtain ⟨b, hb, hne⟩ := (Option.any_eq_true _ _).1 hlast
      obtain ⟨bs, rfl⟩ := List.getLast?_eq_some_iff.1 hb
      have hline' : [b] ∈ someOf (· != '\n') := ⟨by simp, by simpa using hne⟩
      exact mem_braced.2 ⟨bs, fun d hd => hblanks d (by simp [hd]), [b], hline', cs ++ tail,
        by simp [ht, ← htail]⟩

theorem bracedBehindLabel_of_mem_braced (h : t ∈ braced) : bracedBehindLabel t := by
  obtain ⟨gap, hgap, line, ⟨hne, hfeed⟩, rest, rfl⟩ := mem_braced.1 h
  rw [List.append_assoc]
  simp only [bracedBehindLabel, List.takeWhile_append_of_pos hgap,
    List.dropWhile_append_of_pos hgap]
  have hfirst : ('{' :: rest).takeWhile (· != '\n') = '{' :: rest.takeWhile (· != '\n') :=
    List.takeWhile_cons_of_pos (by decide)
  cases hline : line.dropWhile isBlank with
  | nil =>
    have hblank : ∀ c ∈ line, isBlank c := by simpa [List.dropWhile_eq_nil_iff] using hline
    have hlast : (line.getLast hne != '\n') = true := hfeed _ (List.getLast_mem hne)
    have htake : ('{' :: rest).takeWhile isBlank = [] := List.takeWhile_cons_of_neg (by decide)
    have hdrop : ('{' :: rest).dropWhile isBlank = '{' :: rest :=
      List.dropWhile_cons_of_neg (by decide)
    rw [List.takeWhile_append_of_pos hblank, List.dropWhile_append_of_pos hblank, htake, hdrop,
      hfirst]
    simp [List.getLast?_append, List.getLast?_eq_some_getLast hne, bne_iff_ne.1 hlast]
  | cons c cs =>
    have hsub : ∀ d ∈ c :: cs, (d != '\n') = true := fun d hd =>
      hfeed d ((List.dropWhile_suffix _).subset (hline ▸ hd))
    have hdrop : (line ++ '{' :: rest).dropWhile isBlank = c :: cs ++ '{' :: rest := by
      rw [List.dropWhile_append, hline]
      rfl
    rw [hdrop, List.takeWhile_append_of_pos hsub, hfirst, List.cons_append]
    simp

theorem bracedBehindLabel_iff : bracedBehindLabel t ↔ t ∈ braced :=
  ⟨mem_braced_of_bracedBehindLabel, bracedBehindLabel_of_mem_braced⟩

/-- A labelled line opens a block if a brace follows on the text behind its colon. -/
theorem isLabeledOpener_iff : isLabeledOpener t ↔ t ∈ labelledOpening := by
  have hbehind : ∀ {n gap rest : Text}, (∀ c ∈ gap, isBlank c) →
      (Text.trimStart ((n ++ (gap ++ ':' :: rest)).drop n.length)).drop 1 = rest := by
    intro n gap rest hgap
    rw [List.drop_left, Text.trimStart_append_of_blank hgap]
    rfl
  rw [mem_labelledOpening]
  constructor
  · intro h
    simp only [isLabeledOpener] at h
    split at h
    · cases h
    · rename_i n hlabel
      obtain ⟨hn, hmem⟩ := label?_eq_some_iff.1 hlabel
      obtain ⟨r, hr, rfl⟩ := mem_singleton_mul.1 hmem
      obtain ⟨gap, hgap, rest, rfl⟩ := mem_goingOn.1 hr
      rw [hbehind hgap, bracedBehindLabel_iff] at h
      exact ⟨n, hn, gap, hgap, rest, h, rfl⟩
  · rintro ⟨n, hn, gap, hgap, rest, hrest, rfl⟩
    have hlabel := label?_append hn (mem_goingOn.2 ⟨gap, hgap, rest, rfl⟩)
    simp only [isLabeledOpener, hlabel]
    rw [hbehind hgap]
    exact bracedBehindLabel_iff.2 hrest

theorem isSome_blockName?_iff : (blockName? t).isSome ↔ t ∈ plainOpening :=
  isSome_iff_mem_mul fun _ => blockName?_eq_some_iff

/-- A line opens a block if it follows one of two patterns when it is trimmed. -/
theorem kind_eq_opener_iff {l : Line} :
    kind l = .opener ↔ Text.trim l ∈ plainOpening + labelledOpening := by
  rw [Language.mem_add, ← isSome_blockName?_iff, ← isLabeledOpener_iff, ← Bool.or_eq_true]
  simp only [kind]
  split
  · rename_i hempty
    rw [List.isEmpty_iff.1 hempty]
    decide
  · split <;> simp_all

/-- What the key of a line that opens a block is: its label if it has one, or else what it
names in front of the first brace. -/
structure IsKeyed (l : Line) : Prop where
  given : givenKey? l = some (blockKey l)
  of_label : ∀ n ∈ name, Text.trim l ∈ ({n} : Language Char) * goingOn ':' → blockKey l = n
  of_name : Text.trim l ∉ name * goingOn ':' →
    ∃ n ∈ name, ∃ a ∈ address, ∃ gap ∈ anyOf isBlank, ∃ rest,
      Text.trim l = n ++ a ++ gap ++ '{' :: rest ∧ '{' ∉ n ++ a ++ gap ∧ blockKey l = n ++ a

/-- No brace comes before the one that a block name is followed by. -/
theorem brace_notMem {gap : Text} (hn : n ∈ name) (ha : a ∈ address) (hgap : gap ∈ anyOf isBlank) :
    '{' ∉ n ++ a ++ gap := by
  have haddress : '{' ∉ a := by
    rcases mem_address.1 ha with rfl | ⟨ds, hds, rfl⟩
    · exact List.not_mem_nil
    · exact List.not_mem_cons_of_ne_of_not_mem (by decide)
        fun h => absurd (hds.2 _ h) (by decide)
  simp only [List.mem_append, not_or]
  exact ⟨⟨fun h => absurd (hn.2 _ h) (by decide), haddress⟩, fun h => absurd (hgap _ h) (by decide)⟩

theorem exists_givenKey?_of_plainOpening {l : Line} (h : Text.trim l ∈ plainOpening) :
    ∃ n ∈ name, ∃ a ∈ address, ∃ gap ∈ anyOf isBlank, ∃ rest,
      Text.trim l = n ++ a ++ gap ++ '{' :: rest ∧ '{' ∉ n ++ a ++ gap ∧
        givenKey? l = some (n ++ a) := by
  obtain ⟨_, ⟨n, hn, a, ha, rfl⟩, r, hr, ht⟩ := h
  have hkey : givenKey? l = some (n ++ a) :=
    givenKey?_of_blockName (Language.append_mem_mul hn ha) (mem_singleton_mul.2 ⟨r, hr, ht.symm⟩)
  obtain ⟨gap, hgap, rest, rfl⟩ := mem_goingOn.1 hr
  refine ⟨n, hn, a, ha, gap, hgap, rest, ?_, brace_notMem hn ha hgap, hkey⟩
  rw [← ht, List.append_assoc]

theorem exists_label_of_labelledOpening (h : t ∈ labelledOpening) :
    ∃ n ∈ name, t ∈ ({n} : Language Char) * goingOn ':' := by
  obtain ⟨n, hn, gap, hgap, rest, -, rfl⟩ := mem_labelledOpening.1 h
  exact ⟨n, hn, mem_singleton_mul.2 ⟨_, mem_goingOn.2 ⟨gap, hgap, rest, rfl⟩, rfl⟩⟩

theorem isKeyed_of_plainOpening {l : Line} (h : Text.trim l ∈ plainOpening) : IsKeyed l := by
  obtain ⟨n, hn, a, ha, gap, hgap, rest, ht, hbrace, hgiven⟩ :=
    exists_givenKey?_of_plainOpening h
  have hkey : blockKey l = n ++ a := blockKey_of_givenKey? hgiven
  exact {
    given := by rw [hgiven, hkey]
    of_label := fun m hm hl => blockKey_of_givenKey? (givenKey?_of_label hm hl)
    of_name := fun _ => ⟨n, hn, a, ha, gap, hgap, rest, ht, hbrace, hkey⟩ }

theorem isKeyed_of_labelledOpening {l : Line} (h : Text.trim l ∈ labelledOpening) :
    IsKeyed l := by
  obtain ⟨n, hn, hlabel⟩ := exists_label_of_labelledOpening h
  have hgiven : givenKey? l = some n := givenKey?_of_label hn hlabel
  exact {
    given := by rw [hgiven, blockKey_of_givenKey? hgiven]
    of_label := fun m hm hl => blockKey_of_givenKey? (givenKey?_of_label hm hl)
    of_name := fun hnone => absurd (mem_mul_of_singleton_mul hn hlabel) hnone }

theorem isKeyed_of_kind {l : Line} (h : kind l = .opener) : IsKeyed l :=
  (kind_eq_opener_iff.1 h).elim isKeyed_of_plainOpening isKeyed_of_labelledOpening

/-- A reference is no name: it opens no block, and it gives no key. -/
example : kind "&uart0 \x7b".toList = .property ∧ givenKey? "&uart0 \x7b".toList = none := by
  decide

end Line

/-! ## Documents -/

namespace Block

/-- The parts of a block that a line opens are opened by lines, too. -/
theorem HasPart.kind_opening {b c : Block} {depth : Int} (hb : Line.kind b.opening = .opener)
    (h : b.HasPart depth c) : Line.kind c.opening = .opener := by
  cases h with
  | whole => exact hb
  | inner _ _ _ hd => exact Outline.kind_of_mem_blocks hd

end Block

namespace Document

theorem kind_opening_of_mem_orderedNodes {f : Filter} {ls : List Line} {tree n : Node}
    (htree : tree ∈ orderedNodes f (Outline.ofLines ls)) (hn : tree.Has n) :
    Line.kind n.opening = .opener := by
  obtain ⟨b, hb, rfl⟩ := mem_orderedNodes.1 htree
  obtain ⟨depth, c, hc, rfl⟩ := Node.has_ofBlock_iff.1 hn
  rw [Node.opening_ofBlock]
  exact hc.kind_opening (Outline.kind_of_mem_blocks hb)

/-- A line opens a block if it follows one of two patterns between its blanks, and gives a key
if it follows one of two others as it stands. Every line that opens a block gives one, namely
its label, or else what it names in front of the first brace. Such lines open all the nodes of
a document, so none of them has the key of unnamed blocks for want of its own. -/
theorem openers_keyed :
    (∀ l : Line, Line.kind l = .opener ↔
      Text.trim l ∈ Pattern.plainOpening + Pattern.labelledOpening) ∧
    (∀ l : Line, Line.blockKey l = (Line.givenKey? l).getD Line.unnamedKey ∧
      ∀ k, Line.givenKey? l = some k ↔
        k ∈ Pattern.name ∧ l ∈ Pattern.anyOf isBlank * {k} * Pattern.goingOn ':' ∨
          k ∈ Pattern.name * Pattern.address ∧
            l ∈ Pattern.anyOf isBlank * {k} * Pattern.goingOn '{') ∧
    (∀ l : Line, Line.kind l = .opener → Line.IsKeyed l) ∧
    ∀ (f : Filter) (t : Text), ∀ tree ∈ orderedNodes f (Outline.ofLines (Text.lines t)),
      ∀ n, tree.Has n → Line.kind n.opening = .opener ∧
        Line.givenKey? n.opening = some n.key := by
  refine ⟨fun l => Line.kind_eq_opener_iff,
    fun l => ⟨Line.blockKey_eq_getD l, fun k => Line.givenKey?_eq_some_iff⟩,
    fun l hl => Line.isKeyed_of_kind hl, fun f t tree htree n hn => ?_⟩
  have hopener : Line.kind n.opening = .opener := kind_opening_of_mem_orderedNodes htree hn
  exact ⟨hopener, (Line.isKeyed_of_kind hopener).given⟩

/-- A label with nothing but a blank between its colon and the brace, a unit address in front
of a wide blank and a colon behind the brace, and a block in another one. -/
theorem openers_keyed_wideBlanks :
    let labelled := "\u3000cpu_1\u00a0:\u2003\x7b".toList
    let plain := "memory@2F0b\u2003\x7b a: b".toList
    let inner : Block := ⟨" uart0: serial@10 \x7b".toList, [" \x7d;".toList]⟩
    let outer : Block := ⟨"soc \x7b".toList, inner.lines ++ ["\x7d;".toList]⟩
    let tree := Node.ofBlock .semantic 0 outer
    let n := Node.ofBlock .semantic 1 inner
    (Line.kind labelled = .opener ∧ Line.givenKey? labelled = some (Line.blockKey labelled) ∧
      "cpu_1".toList ∈ Pattern.name ∧
      Text.trim labelled ∈ ({"cpu_1".toList} : Language Char) * Pattern.goingOn ':' ∧
      Line.blockKey labelled = "cpu_1".toList) ∧
    (Line.kind plain = .opener ∧ Text.trim plain ∉ Pattern.name * Pattern.goingOn ':' ∧
      ∃ n ∈ Pattern.name, ∃ a ∈ Pattern.address, ∃ gap ∈ Pattern.anyOf isBlank, ∃ rest,
        Text.trim plain = n ++ a ++ gap ++ '{' :: rest ∧ '{' ∉ n ++ a ++ gap ∧
          Line.blockKey plain = n ++ a) ∧
    (tree ∈ orderedNodes .semantic (Outline.ofLines (Text.lines (Text.unlines outer.lines))) ∧
      tree.Has n ∧ Line.givenKey? n.opening = some n.key) := by
  intro labelled plain inner outer tree n
  obtain ⟨-, -, hkeyed, hnodes⟩ := openers_keyed
  have hlabelled : Line.kind labelled = .opener := by decide
  have hplain : Line.kind plain = .opener := by decide
  have hread : Line.label? (Text.trim labelled) = some "cpu_1".toList := by decide
  obtain ⟨hname, hcolon⟩ := Line.label?_eq_some_iff.1 hread
  have hunlabelled : Text.trim plain ∉ Pattern.name * Pattern.goingOn ':' := by
    rw [← Line.isSome_label?_iff]
    decide
  have htree : tree ∈ orderedNodes .semantic
      (Outline.ofLines (Text.lines (Text.unlines outer.lines))) :=
    mem_orderedNodes.2 ⟨outer, by decide, rfl⟩
  have hn : tree.Has n :=
    Node.has_ofBlock_iff.2 ⟨1, inner, .inner .whole (by decide) (by decide) (by decide), rfl⟩
  exact ⟨⟨hlabelled, (hkeyed labelled hlabelled).given, hname, hcolon,
      (hkeyed labelled hlabelled).of_label _ hname hcolon⟩,
    ⟨hplain, hunlabelled, (hkeyed plain hplain).of_name hunlabelled⟩,
    ⟨htree, hn, (hnodes .semantic _ tree htree n hn).2⟩⟩

end Document

end Devicetree
