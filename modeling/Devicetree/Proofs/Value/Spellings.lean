-- SUMMARY: Spelling values is idempotent, whatever rules the filter asks for, and moves no brace.
import Devicetree.Proofs.Value.CellArrays
import Devicetree.Proofs.Value.StringLists
import Devicetree.Value.Spelling

/-!
# Spellings

Each rule is idempotent, and the rule for literals may come before or after the two
others. What is left is that respelling string lists does not undo the spacing of
cell arrays: around the strings of a list it leaves a space or nothing, and between
cells that is what an array asks for. So a spelling is a fixed point of all the rules.
-/

namespace Devicetree

/-! ## Spacing inside lists -/

namespace CellArray

open StringList (AllBlank IsQuoted IsRest IsList)

/-- A character that is neither blank nor a bracket. -/
def IsSolid (c : Char) : Prop :=
  ¬ isBlank c ∧ c ≠ '<' ∧ c ≠ '>'

theorem spaced_outside_cons {c : Char} (hc : c ≠ '<') (t : Text) :
    Spaced .outside (c :: t) ↔ Spaced .outside t :=
  spaced_outside_of_none (find_eq_none hc t)

theorem spaced_cell_cons {c : Char} (hc : IsSolid c) (t : Text) :
    Spaced .cell (c :: t) ↔ Spaced .cell t := by
  simp [Spaced, hc.1, hc.2.2]

theorem spaced_gap_cons {c : Char} (hc : IsSolid c) (t : Text) :
    Spaced .gap (c :: t) ↔ Spaced .cell t := by
  simp [Spaced, hc.1, hc.2.2]

/-- Text `v` may stand for `u` behind anything that ends in no blank. -/
structure Replaces (u v : Text) : Prop where
  outside : Spaced .outside u → Spaced .outside v
  cell : Spaced .cell u → Spaced .cell v
  head : u.head? = some '>' ↔ v.head? = some '>'
  close : '>' ∈ u ↔ '>' ∈ v

namespace Replaces

variable {u v : Text} {c : Char} {b : Text}

theorem cons (hc : IsSolid c) (h : Replaces u v) : Replaces (c :: u) (c :: v) where
  outside := by
    rw [spaced_outside_cons hc.2.1, spaced_outside_cons hc.2.1]
    exact h.outside
  cell := by
    rw [spaced_cell_cons hc, spaced_cell_cons hc]
    exact h.cell
  head := by simp
  close := by simp [h.close]

/-- Blanks in front of solid text may go. -/
theorem drop_blanks (hb : AllBlank b) (hc : IsSolid c) (h : Replaces (c :: u) (c :: v)) :
    Replaces (b ++ c :: u) (c :: v) := by
  have hopen : '<' ∉ b := fun hmem => absurd (hb _ hmem) (by decide)
  have hclose : '>' ∉ b := fun hmem => absurd (hb _ hmem) (by decide)
  constructor
  · intro hspaced
    apply h.outside
    clear hclose
    induction b with
    | nil => exact hspaced
    | cons d ds ih =>
      rw [List.cons_append, spaced_outside_cons fun heq => hopen (by simp [heq])] at hspaced
      exact ih (fun e he => hb e (by simp [he])) (fun hmem => hopen (by simp [hmem])) hspaced
  · intro hspaced
    apply h.cell
    -- In an array there is at most one blank.
    cases b with
    | nil => exact hspaced
    | cons d ds =>
      rw [List.cons_append, Spaced, if_pos (hb d (by simp))] at hspaced
      cases ds with
      | nil =>
        rw [spaced_cell_cons hc, ← spaced_gap_cons hc]
        exact hspaced.2
      | cons e es =>
        have he : isBlank e := hb e (by simp)
        have hne : e ≠ '>' := fun heq => hclose (by simp [heq])
        simp [Spaced, he, hne] at hspaced
  · have hsolid : c ≠ '>' := hc.2.2
    cases b with
    | nil => simp
    | cons d ds =>
      have hne : d ≠ '>' := fun heq => hclose (by simp [heq])
      simp [hsolid, hne]
  · rw [List.mem_append, or_iff_right hclose]
    exact h.close

/-- A single space may stand for the blanks in front of solid text. -/
theorem one_blank (hb : AllBlank b) (hc : IsSolid c) (h : Replaces (c :: u) (c :: v)) :
    Replaces (b ++ c :: u) (' ' :: c :: v) := by
  have hdrop := h.drop_blanks hb hc
  have hspace : isBlank ' ' := by decide
  constructor
  · rw [spaced_outside_cons (by decide)]
    exact hdrop.outside
  · intro hspaced
    rw [Spaced, if_pos hspace, spaced_gap_cons hc, ← spaced_cell_cons hc]
    exact ⟨rfl, hdrop.cell hspaced⟩
  · have hsolid : c ≠ '>' := hc.2.2
    rw [hdrop.head]
    simp [hsolid]
  · rw [hdrop.close]
    simp

/-- Behind a solid character a text may be replaced wherever a reader stands before it, and
    whatever stands in front of that character. -/
theorem spaced_append (hc : IsSolid c) (h : Replaces u v) (s : Text) {p : Place}
    (hspaced : Spaced p (s ++ c :: u)) : Spaced p (s ++ c :: v) := by
  induction s generalizing p with
  | nil =>
    rw [List.nil_append] at hspaced ⊢
    cases p with
    | outside => exact (h.cons hc).outside hspaced
    | opened =>
      rw [Spaced] at hspaced
      exact absurd (hspaced.1 ▸ hc.1) (by decide)
    | gap =>
      rw [spaced_gap_cons hc] at hspaced ⊢
      exact h.cell hspaced
    | cell => exact (h.cons hc).cell hspaced
  | cons d ds ih =>
    have hnone : find (d :: (ds ++ c :: u)) = none ↔ find (d :: (ds ++ c :: v)) = none :=
      find_cons_eq_none_congr (by cases ds <;> simp) (by simp [h.close])
    exact Spaced.cons_congr hnone (fun _ _ => ih) hspaced

theorem isSolid_quote : IsSolid '"' := ⟨by decide, by decide, by decide⟩

theorem isSolid_comma : IsSolid ',' := ⟨by decide, by decide, by decide⟩

theorem isSolid_semicolon : IsSolid ';' := ⟨by decide, by decide, by decide⟩

theorem isSolid_equals : IsSolid '=' := ⟨by decide, by decide, by decide⟩

/-- Brackets inside a quoted string stay where they are. -/
theorem quoted (h : Replaces u v) (s : Text) :
    Replaces ('"' :: (s ++ '"' :: u)) ('"' :: (s ++ '"' :: v)) where
  outside hspaced := h.spaced_append isSolid_quote ('"' :: s) hspaced
  cell hspaced := h.spaced_append isSolid_quote ('"' :: s) hspaced
  head := by simp
  close := by simp [h.close]

/-- What stands behind a string of a list may be written anew. -/
theorem rest {w : Text} {es : List Text} (hw : IsRest w es) (h : Replaces u v) :
    Replaces (w ++ ';' :: u) (StringList.tail es ++ ';' :: v) := by
  induction hw with
  | done hb => exact (h.cons isSolid_semicolon).drop_blanks hb isSolid_semicolon
  | @more b b' e w es hb hb' he _ ih =>
    obtain ⟨s, -, rfl⟩ := he
    have hstring := (ih.quoted s).one_blank hb' isSolid_quote
    have hcomma := (hstring.cons isSolid_comma).drop_blanks hb isSolid_comma
    have htail : StringList.tail (('"' :: (s ++ ['"'])) :: es) ++ ';' :: v =
        ',' :: ' ' :: '"' :: (s ++ '"' :: (StringList.tail es ++ ';' :: v)) := by
      simp [StringList.tail]
    rw [htail]
    simpa using hcomma

/-- A list may be written anew behind its equals sign. -/
theorem list {a : Text} {es : List Text} (ha : IsList a es) (h : Replaces u v) :
    Replaces ('=' :: (a ++ ';' :: u))
      ('=' :: ' ' :: (StringList.separated es ++ ';' :: v)) := by
  cases ha with
  | @intro b e w es hb he hw =>
    obtain ⟨s, -, rfl⟩ := he
    have hstring := ((h.rest hw).quoted s).one_blank hb isSolid_quote
    have hequals := hstring.cons isSolid_equals
    rw [StringList.separated_cons]
    simpa using hequals

end Replaces

/-- A list starts with no bracket in either spelling. -/
theorem head?_normalize_lists (t : Text) :
    (StringList.normalize t).head? = some '>' ↔ t.head? = some '>' := by
  cases h : StringList.find t with
  | none =>
    cases t with
    | nil => simp [StringList.normalize]
    | cons c cs => simp [StringList.normalize_cons_of_none h]
  | some m =>
    obtain ⟨b, es, v, hb, hu, rfl, -⟩ := StringList.of_find_eq_some h
    rw [StringList.normalize_assigned hb hu]
    cases b with
    | nil => simp
    | cons c cs =>
      have hc : c ≠ '>' := StringList.ne_of_isBlank (hb c (by simp)) (by decide)
      simp [hc]

theorem mem_normalize_lists {t : Text} : '>' ∈ StringList.normalize t ↔ '>' ∈ t := by
  have hblank : ¬ isBlank '>' := by decide
  have hfilter : '>' ∈ (StringList.normalize t).filter (!isBlank ·) ↔
      '>' ∈ t.filter (!isBlank ·) := by
    rw [StringList.filter_normalize]
  simpa [hblank] using hfilter

/-- Respelling string lists keeps texts evenly spaced. A reader never stands behind a blank
    where a list starts, since the list would have started before that blank. -/
theorem spaced_normalize_lists {t : Text} {p : Place}
    (hp : p = .gap → StringList.find t = none) (h : Spaced p t) :
    Spaced p (StringList.normalize t) := by
  induction t using Piece.cut_induction StringList.find_consumes generalizing p with
  | nil => exact h
  | plain c cs hc ih =>
    rw [StringList.normalize_cons_of_none hc]
    have hgap : isBlank c → StringList.find cs = none := by
      intro hblank
      rw [StringList.find_cons_of_blank hblank, Option.map_eq_none_iff] at hc
      exact hc
    have hnone : find (c :: cs) = none ↔ find (c :: StringList.normalize cs) = none :=
      find_cons_eq_none_congr (head?_normalize_lists cs).symm mem_normalize_lists.symm
    exact Spaced.cons_congr hnone (fun q hq => ih fun heq => hgap (hq heq)) h
  | found t a n hc ih =>
    obtain ⟨b, es, v, hb, hu, rfl, rfl⟩ := StringList.of_find_eq_some hc
    rw [StringList.drop_assigned] at ih
    have hrest : Replaces v (StringList.normalize v) :=
      ⟨ih (by simp), ih (by simp), (head?_normalize_lists v).symm, mem_normalize_lists.symm⟩
    have hlist := Replaces.list hu hrest
    rw [StringList.normalize_assigned hb hu]
    cases p with
    | outside => exact (hlist.one_blank hb Replaces.isSolid_equals).outside h
    | opened =>
      -- Only a single blank may follow the bracket, so the equals sign does.
      cases b with
      | nil =>
        rw [List.nil_append, Spaced] at h
        exact absurd h.1 (by decide)
      | cons c cs =>
        rw [List.cons_append, Spaced] at h
        have hcell : Spaced .cell (c :: cs ++ '=' :: (a ++ ';' :: v)) := by
          rw [List.cons_append, Spaced, if_pos (hb c (by simp))]
          exact h
        have hspaced := (hlist.one_blank hb Replaces.isSolid_equals).cell hcell
        rw [Spaced, if_pos (by decide)] at hspaced
        rw [Spaced]
        exact hspaced
    | gap =>
      rw [hp rfl] at hc
      cases hc
    | cell => exact (hlist.one_blank hb Replaces.isSolid_equals).cell h

end CellArray

/-! ## All rules -/

namespace Value

/-- Lists leave arrays spaced. -/
theorem arrays_normalizeLists (t : Text) :
    CellArray.normalize (normalizeLists t) = normalizeLists t :=
  CellArray.normalize_eq_self
    (CellArray.spaced_normalize_lists (by simp) (CellArray.spaced_normalize t))

theorem lists_normalizeLists (t : Text) :
    StringList.normalize (normalizeLists t) = normalizeLists t :=
  StringList.normalize_normalize (CellArray.normalize t)

/-- Spacing arrays and lists twice is spacing them once. -/
theorem normalizeLists_normalizeLists (t : Text) :
    normalizeLists (normalizeLists t) = normalizeLists t := by
  calc normalizeLists (normalizeLists t)
      = StringList.normalize (normalizeLists t) := by rw [normalizeLists, arrays_normalizeLists]
    _ = normalizeLists t := lists_normalizeLists t

/-- Every array of a text reads as arrays are written, and so does every assigned list. -/
structure IsSpaced (t : Text) : Prop where
  arrays : Piece.Spelled CellArray.find CellArray.canonical t
  lists : Piece.Spelled StringList.find StringList.canonical t

/-- Spacing a text moves blanks only and does all there is to do: what it leaves alone is what
is spaced already. Brackets inside a quoted string count as any others, and a list may stand
inside an array. -/
theorem normalizeLists_canonical (t : Text) :
    (normalizeLists t).filter (!isBlank ·) = t.filter (!isBlank ·) ∧
      normalizeLists (normalizeLists t) = normalizeLists t ∧
      (normalizeLists t = t ↔ IsSpaced t) := by
  refine ⟨?_, normalizeLists_normalizeLists t, fun heq => ⟨?_, ?_⟩, fun h => ?_⟩
  · rw [normalizeLists, StringList.filter_normalize, CellArray.filter_normalize]
  · exact CellArray.stable.replaceMatches_eq_iff.1 (heq ▸ arrays_normalizeLists t)
  · exact StringList.stable.replaceMatches_eq_iff.1 (heq ▸ lists_normalizeLists t)
  · have harrays : CellArray.normalize t = t := CellArray.stable.replaceMatches_eq_iff.2 h.arrays
    have hlists : StringList.normalize t = t := StringList.stable.replaceMatches_eq_iff.2 h.lists
    rw [normalizeLists, harrays, hlists]

example : normalizeLists "a=\"<1>\" ,\"<\";".toList = "a = \"< 1 >\", \"<\";".toList := by
  decide

/-- It does not matter whether literals are respelled first or last. -/
theorem normalizeLists_literals (t : Text) :
    HexLiteral.normalize (normalizeLists t) = normalizeLists (HexLiteral.normalize t) := by
  rw [normalizeLists, StringList.normalize_literals, CellArray.normalize_literals, normalizeLists]

/-- Spelling values twice is spelling them once. -/
theorem spell_spell (f : Filter) (t : Text) : spell f (spell f t) = spell f t := by
  by_cases hhex : f.normalizeHexValues <;> by_cases hlists : f.normalizeArrays
  · simp only [spell, hhex, hlists, if_true]
    rw [normalizeLists_literals, normalizeLists_normalizeLists, HexLiteral.normalize_normalize]
  · simp [spell, hhex, hlists, HexLiteral.normalize_normalize]
  · simp [spell, hhex, hlists, normalizeLists_normalizeLists]
  · simp [spell, hhex, hlists]

/-- A spelling holds nothing but what the text held, spaces and digits. -/
theorem of_mem_spell {f : Filter} {t : Text} {c : Char} (h : c ∈ spell f t) :
    c ∈ t ∨ c = ' ' ∨ Hex.isDigit c := by
  have hliterals : ∀ {d}, d ∈ (if f.normalizeHexValues then HexLiteral.normalize t else t) →
      d ∈ t ∨ d = ' ' ∨ Hex.isDigit d := by
    intro d hd
    split at hd
    · rcases HexLiteral.of_mem_normalize hd with hdigit | hd
      · exact .inr (.inr hdigit)
      · exact .inl hd
    · exact .inl hd
  rw [spell] at h
  split at h
  · rcases StringList.of_mem_normalize h with hspace | h
    · exact .inr (.inl hspace)
    · rcases CellArray.of_mem_normalize h with hspace | h
      · exact .inr (.inl hspace)
      · exact hliterals h
  · exact hliterals h

/-- A spelling ends as the text does, unless that ends in a literal. -/
theorem getLast?_spell (f : Filter) {t : Text} {c : Char} (hc : HexLiteral.IsApart c)
    (h : t.getLast? = some c) : (spell f t).getLast? = some c := by
  have hliterals : (if f.normalizeHexValues then HexLiteral.normalize t else t).getLast? =
      some c := by
    split
    · exact HexLiteral.getLast?_normalize hc h
    · exact h
  rw [spell]
  split
  · rw [normalizeLists, StringList.getLast?_normalize, CellArray.getLast?_normalize, hliterals]
  · exact hliterals

/-- Blanks in front of a text are lost on its spelling, up to blanks. -/
theorem trimStart_spell_trimStart (f : Filter) (t : Text) :
    Text.trimStart (spell f (Text.trimStart t)) = Text.trimStart (spell f t) := by
  have hcons : ∀ c u, isBlank c →
      Text.trimStart (spell f (c :: u)) = Text.trimStart (spell f u) := by
    intro c u hc
    have hzero : c ≠ '0' := StringList.ne_of_isBlank hc (by decide)
    have hopen : c ≠ '<' := StringList.ne_of_isBlank hc (by decide)
    have hliterals : (if f.normalizeHexValues then HexLiteral.normalize (c :: u) else c :: u) =
        c :: (if f.normalizeHexValues then HexLiteral.normalize u else u) := by
      split
      · rw [HexLiteral.normalize_cons hzero]
      · rfl
    simp only [spell, hliterals]
    split
    · rw [normalizeLists, CellArray.normalize_cons hopen, StringList.trimStart_normalize_cons hc,
        normalizeLists]
    · exact Text.trimStart_append_of_blank (w := [c]) (by simpa using hc) _
  induction t with
  | nil => rfl
  | cons c cs ih =>
    by_cases hc : isBlank c
    · have hstart : Text.trimStart (c :: cs) = Text.trimStart cs := List.dropWhile_cons_of_pos hc
      rw [hstart, ih, hcons c cs hc]
    · have hstart : Text.trimStart (c :: cs) = c :: cs := List.dropWhile_cons_of_neg hc
      rw [hstart]

/-- A record's spelling, trimmed, is its own spelling. -/
theorem trim_spell_trim (f : Filter) {t : Text} (h : t.getLast? = some ';') :
    Text.trim (spell f (Text.trim (spell f t))) = Text.trim (spell f t) := by
  have hlast : (spell f t).getLast? = some ';' := getLast?_spell f ⟨by decide, by decide⟩ h
  have htrim : Text.trim (spell f t) = Text.trimStart (spell f t) :=
    Text.trim_eq_trimStart hlast (by decide)
  rw [htrim, ← Text.trim_trimStart, trimStart_spell_trimStart, spell_spell, Text.trim_trimStart,
    htrim]

end Value

end Devicetree
