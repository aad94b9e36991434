-- SUMMARY: Respelling cell arrays: idempotent, keeps all but blanks, commutes with the rule for literals.
import Devicetree.Proofs.Text.Words
import Devicetree.Proofs.Value.HexLiterals
import Devicetree.Value.CellArray

/-!
# Cell arrays respelled

An array in its new spelling has the same cells, so it is found again and spelled
the same way. The rule moves blanks only. Literals lie within cells, so it does not
matter which of the two rules comes first.
-/

namespace Devicetree

namespace CellArray

open Piece

/-! ## Finding arrays -/

/-- An array reaches up to the first closing bracket, and holds something. -/
theorem find_eq_some_iff {t content : Text} {n : Nat} :
    find t = some (content, n) ↔
      content ≠ [] ∧ '>' ∉ content ∧ n = content.length + 2 ∧
        ∃ rest, t = '<' :: (content ++ '>' :: rest) := by
  constructor
  · intro h
    obtain ⟨cs, rfl⟩ : ∃ cs, t = '<' :: cs := by
      unfold find at h
      split at h
      · exact ⟨_, rfl⟩
      · cases h
    simp only [find] at h
    split at h
    · cases h
    · cases h
    · rename_i hne hdrop
      simp only [Option.some.injEq, Prod.mk.injEq] at h
      obtain ⟨rfl, rfl⟩ := h
      obtain ⟨c, rest, hrest⟩ := List.exists_cons_of_ne_nil hdrop
      obtain rfl : c = '>' := by
        have hhead := List.head?_dropWhile_not (· != '>') cs
        rw [hrest] at hhead
        simpa using hhead
      refine ⟨hne, fun hmem => ?_, rfl, rest, ?_⟩
      · simpa using List.mem_takeWhile_imp hmem
      · rw [← hrest, List.takeWhile_append_dropWhile]
  · rintro ⟨hne, hclose, rfl, rest, rfl⟩
    have hopen : ∀ c ∈ content, (c != '>') = true := by
      intro c hc
      simpa using fun heq : c = '>' => hclose (heq ▸ hc)
    have htake : (content ++ '>' :: rest).takeWhile (· != '>') = content := by
      rw [List.takeWhile_append_of_pos hopen]
      simp
    have hdrop : (content ++ '>' :: rest).dropWhile (· != '>') = '>' :: rest := by
      rw [List.dropWhile_append_of_pos hopen]
      simp
    obtain ⟨c, cs, rfl⟩ := List.exists_cons_of_ne_nil hne
    simp only [find, htake, hdrop]

theorem find_consumes : Consumes find := by
  intro t content n h
  obtain ⟨-, -, rfl, rest, rfl⟩ := find_eq_some_iff.1 h
  simp

/-- Whether an array starts at a text: a closing bracket follows the opening one, though not
    at once. -/
theorem find_isSome_iff {c : Char} {cs : Text} :
    (find (c :: cs)).isSome ↔ c = '<' ∧ cs.head? ≠ some '>' ∧ '>' ∈ cs := by
  constructor
  · intro h
    obtain ⟨⟨content, n⟩, hsome⟩ := Option.isSome_iff_exists.1 h
    obtain ⟨hne, hclose, -, rest, heq⟩ := find_eq_some_iff.1 hsome
    obtain ⟨rfl, rfl⟩ := List.cons.inj heq
    obtain ⟨d, es, rfl⟩ := List.exists_cons_of_ne_nil hne
    exact ⟨rfl, fun hd => hclose (by simp [Option.some.inj hd]), by simp⟩
  · rintro ⟨rfl, hhead, hclose⟩
    obtain ⟨u, v, rfl, hu⟩ := List.eq_append_cons_of_mem hclose
    have hne : u ≠ [] := by
      rintro rfl
      exact hhead rfl
    exact Option.isSome_iff_exists.2 ⟨_, find_eq_some_iff.2 ⟨hne, hu, rfl, v, rfl⟩⟩

/-- Whether an array starts at a text depends on little of the text behind its bracket. -/
theorem find_cons_eq_none_congr {c : Char} {u v : Text}
    (hhead : u.head? = some '>' ↔ v.head? = some '>') (hmem : '>' ∈ u ↔ '>' ∈ v) :
    find (c :: u) = none ↔ find (c :: v) = none := by
  rw [← Option.not_isSome_iff_eq_none, ← Option.not_isSome_iff_eq_none, find_isSome_iff,
    find_isSome_iff, ne_eq, ne_eq, hhead, hmem]

/-- What does not start like an array starts none. -/
theorem find_eq_none {c : Char} (h : c ≠ '<') (cs : Text) : find (c :: cs) = none := by
  rw [← Option.not_isSome_iff_eq_none, find_isSome_iff]
  exact fun hsome => h hsome.1

/-! ## Cells -/

/-- An array written anew has the cells it had. -/
theorem cells_cells (content : Text) : cells (cells content ++ [' ']) = cells content := by
  have hword : ∀ w ∈ Text.words content, w ≠ [] ∧ ∀ d ∈ w, ¬ isBlank d :=
    fun w hw => ⟨(Text.of_mem_words hw).1, fun d hd => ((Text.of_mem_words hw).2 d hd).1⟩
  have hread := Text.words_flatMap_cons (c := ' ') (by decide) hword []
  rw [Text.words_nil, List.append_nil] at hread
  rw [cells, cells, hread]

theorem of_mem_cells {content : Text} {c : Char} (h : c ∈ cells content) :
    c = ' ' ∨ c ∈ content := by
  obtain ⟨w, hw, hc⟩ := List.mem_flatMap.1 h
  rcases List.mem_cons.1 hc with rfl | hc
  · exact .inl rfl
  · exact .inr ((Text.of_mem_words hw).2 c hc).2

theorem filter_cells (content : Text) :
    (cells content).filter (!isBlank ·) = content.filter (!isBlank ·) := by
  have hflat : ∀ ws : List Text, (ws.flatMap (' ' :: ·)).filter (!isBlank ·) =
      ws.flatten.filter (!isBlank ·) := by
    intro ws
    have hspace : isBlank ' ' = true := by decide
    induction ws with
    | nil => rfl
    | cons w ws ih => simp [hspace, ← ih]
  rw [cells, hflat, Text.flatten_words, List.filter_filter]
  simp

/-! ## Respelling -/

theorem normalize_cons_of_none {c : Char} {cs : Text} (h : find (c :: cs) = none) :
    normalize (c :: cs) = c :: normalize cs :=
  replaceMatches_cons_of_none h

theorem drop_array (content rest : Text) :
    ('<' :: (content ++ '>' :: rest)).drop (content.length + 2) = rest := by
  have hsplit : '<' :: (content ++ '>' :: rest) = ('<' :: (content ++ ['>'])) ++ rest := by simp
  rw [hsplit]
  exact List.drop_left' (by simp)

/-- An array is written anew, and the text behind it goes on by itself. -/
theorem normalize_array {content : Text} (hne : content ≠ []) (hclose : '>' ∉ content)
    (rest : Text) :
    normalize ('<' :: (content ++ '>' :: rest)) = canonical content ++ normalize rest := by
  have hfind := find_eq_some_iff.2 ⟨hne, hclose, rfl, rest, rfl⟩
  rw [normalize, replaceMatches_of_some find_consumes hfind, drop_array, normalize]

/-- What does not start like an array stays as it is. -/
theorem normalize_cons {c : Char} (h : c ≠ '<') (cs : Text) :
    normalize (c :: cs) = c :: normalize cs :=
  normalize_cons_of_none (find_eq_none h cs)

/-- Respelling arrays moves blanks only. -/
theorem filter_normalize (t : Text) :
    (normalize t).filter (!isBlank ·) = t.filter (!isBlank ·) := by
  refine filter_replaceMatches find_consumes ?_ t
  intro t content n h
  obtain ⟨-, -, rfl, rest, rfl⟩ := find_eq_some_iff.1 h
  have htake : ('<' :: (content ++ '>' :: rest)).take (content.length + 2) =
      '<' :: (content ++ ['>']) := by
    simp [List.take_append, List.take_of_length_le]
  have hspace : isBlank ' ' = true := by decide
  rw [htake, canonical, List.filter_cons, List.filter_cons, List.filter_append, List.filter_append,
    filter_cells]
  simp [hspace]

/-- An array starts with a bracket in either spelling, so no text changes its first
    character. -/
theorem head?_normalize (t : Text) : (normalize t).head? = t.head? := by
  cases t with
  | nil => rfl
  | cons c cs =>
    cases h : find (c :: cs) with
    | none => rw [normalize_cons_of_none h]; rfl
    | some m =>
      obtain ⟨content, n⟩ := m
      obtain ⟨hne, hclose, -, rest, hcs⟩ := find_eq_some_iff.1 h
      rw [hcs, normalize_array hne hclose]
      rfl

theorem mem_normalize_iff {c : Char} (hc : ¬ isBlank c) {t : Text} :
    c ∈ normalize t ↔ c ∈ t := by
  have hfilter : c ∈ (normalize t).filter (!isBlank ·) ↔ c ∈ t.filter (!isBlank ·) := by
    rw [filter_normalize]
  simpa [hc] using hfilter

theorem of_mem_normalize {t : Text} {c : Char} (h : c ∈ normalize t) : c = ' ' ∨ c ∈ t := by
  refine forall_mem_replaceMatches find_consumes (p := fun d => d = ' ' ∨ d ∈ t) ?_
    (fun d hd => .inr hd) c h
  intro t content n ht htake d hd
  obtain ⟨-, -, rfl, rest, rfl⟩ := find_eq_some_iff.1 ht
  have hsplit : '<' :: (content ++ '>' :: rest) = ('<' :: (content ++ ['>'])) ++ rest := by simp
  rw [hsplit, List.take_left' (by simp)] at htake
  simp only [canonical, List.mem_cons, List.mem_append, List.not_mem_nil, or_false] at hd
  rcases hd with rfl | hd | rfl | rfl
  · exact htake '<' (by simp)
  · rcases of_mem_cells hd with rfl | hd
    · exact .inl rfl
    · exact htake d (by simp [hd])
  · exact .inl rfl
  · exact htake '>' (by simp)

/-- A text keeps its last character, for an array ends in its bracket in either spelling. -/
theorem getLast?_normalize (t : Text) : (normalize t).getLast? = t.getLast? := by
  refine getLast?_replaceMatches find_consumes ?_ t
  intro t content n h
  obtain ⟨-, -, rfl, rest, rfl⟩ := find_eq_some_iff.1 h
  have hsplit : '<' :: (content ++ '>' :: rest) = ('<' :: content ++ ['>']) ++ rest := by simp
  have hwritten : canonical content = ('<' :: (cells content ++ [' '])) ++ ['>'] := by
    simp [canonical]
  rw [hsplit, List.take_left' (by simp), hwritten, List.getLast?_concat, List.getLast?_concat]

/-- What starts no array starts none once the text behind it is respelled. -/
theorem find_cons_normalize_eq_none {c : Char} {cs : Text} (h : find (c :: cs) = none) :
    find (c :: normalize cs) = none := by
  rwa [find_cons_eq_none_congr (v := cs) (by rw [head?_normalize])
    (mem_normalize_iff (by decide))]

theorem stable : Stable find canonical where
  consumes := find_consumes
  plain _ _ h := find_cons_normalize_eq_none h
  found t content n h := by
    obtain ⟨hne, hclose, rfl, rest, rfl⟩ := find_eq_some_iff.1 h
    refine ⟨cells content ++ [' '], find_eq_some_iff.2 ⟨by simp, ?_, ?_, ?_⟩, ?_⟩
    · intro hmem
      rcases List.mem_append.1 hmem with hmem | hmem
      · rcases of_mem_cells hmem with heq | hmem
        · exact absurd heq (by decide)
        · exact hclose hmem
      · simp at hmem
    · simp [canonical]
    · exact ⟨_, by rw [canonical]; simp; rfl⟩
    · rw [canonical, cells_cells, canonical]

/-! ## Evenly spaced texts -/

/-- Where a reader of an evenly spaced text stands. -/
inductive Place where
  | outside
  /-- Right behind the opening bracket. -/
  | opened
  /-- Behind a blank of an array. -/
  | gap
  | cell
deriving DecidableEq, Repr

/-- A text goes on with single spaces around the cells of its arrays. -/
def Spaced : Place → Text → Prop
  | .outside, [] => True
  | _, [] => False
  | .outside, c :: cs => if (find (c :: cs)).isSome then Spaced .opened cs else Spaced .outside cs
  | .opened, c :: cs => c = ' ' ∧ Spaced .gap cs
  | .gap, c :: cs => if c = '>' then Spaced .outside cs else ¬ isBlank c ∧ Spaced .cell cs
  | .cell, c :: cs => if isBlank c then c = ' ' ∧ Spaced .gap cs else c ≠ '>' ∧ Spaced .cell cs

theorem spaced_outside_of_none {c : Char} {cs : Text} (h : find (c :: cs) = none) :
    Spaced .outside (c :: cs) ↔ Spaced .outside cs := by
  simp [Spaced, h]

/-- The text behind a character may be replaced if the same arrays start there and it may be
    replaced wherever a reader stands then. Such a reader stands in a gap only behind a blank. -/
theorem Spaced.cons_congr {c : Char} {u v : Text} {p : Place}
    (hfind : find (c :: u) = none ↔ find (c :: v) = none)
    (h : ∀ q, (q = .gap → isBlank c) → Spaced q u → Spaced q v)
    (hspaced : Spaced p (c :: u)) : Spaced p (c :: v) := by
  cases p with
  | outside =>
    have hsome : (find (c :: u)).isSome ↔ (find (c :: v)).isSome := by
      rw [Option.isSome_iff_ne_none, Option.isSome_iff_ne_none, ne_eq, ne_eq, hfind]
    rw [Spaced] at hspaced ⊢
    by_cases hu : (find (c :: u)).isSome
    · rw [if_pos hu] at hspaced
      rw [if_pos (hsome.1 hu)]
      exact h .opened nofun hspaced
    · rw [if_neg hu] at hspaced
      rw [if_neg (mt hsome.2 hu)]
      exact h .outside nofun hspaced
  | opened =>
    rw [Spaced] at hspaced ⊢
    have hblank : isBlank c := by
      rw [hspaced.1]
      decide
    exact ⟨hspaced.1, h .gap (fun _ => hblank) hspaced.2⟩
  | gap =>
    rw [Spaced] at hspaced ⊢
    by_cases hclose : c = '>'
    · rw [if_pos hclose] at hspaced ⊢
      exact h .outside nofun hspaced
    · rw [if_neg hclose] at hspaced ⊢
      exact ⟨hspaced.1, h .cell nofun hspaced.2⟩
  | cell =>
    rw [Spaced] at hspaced ⊢
    by_cases hblank : isBlank c
    · rw [if_pos hblank] at hspaced ⊢
      exact ⟨hspaced.1, h .gap (fun _ => hblank) hspaced.2⟩
    · rw [if_neg hblank] at hspaced ⊢
      exact ⟨hspaced.1, h .cell nofun hspaced.2⟩

/-- What stands behind the blank of an array up to its end: cells, each with a space behind. -/
theorem spaced_cells {ws : List Text} (hws : ∀ w ∈ ws, w ≠ [] ∧ ∀ c ∈ w, ¬ isBlank c ∧ c ≠ '>')
    {p : Place} (hp : p = .opened ∨ p = .cell) {v : Text} (hv : Spaced .outside v) :
    Spaced p (ws.flatMap (' ' :: ·) ++ ' ' :: '>' :: v) := by
  have hspace : ∀ cs, Spaced .gap cs → Spaced p (' ' :: cs) := by
    have hblank : isBlank ' ' := by decide
    rcases hp with rfl | rfl <;> simp [Spaced, hblank]
  induction ws generalizing p with
  | nil => exact hspace _ (by simpa [Spaced] using hv)
  | cons w ws ih =>
    obtain ⟨hne, hw⟩ := hws w (by simp)
    have hrest := ih (fun w' hw' => hws w' (by simp [hw'])) (.inr rfl) fun cs hcs =>
      show Spaced .cell (' ' :: cs) by simpa [Spaced, show isBlank ' ' by decide] using hcs
    have hword : ∀ u : Text, (∀ c ∈ u, ¬ isBlank c ∧ c ≠ '>') →
        Spaced .cell (u ++ (ws.flatMap (' ' :: ·) ++ ' ' :: '>' :: v)) := by
      intro u hu
      induction u with
      | nil => exact hrest
      | cons c cs ihu =>
        obtain ⟨hblank, hclose⟩ := hu c (by simp)
        rw [List.cons_append, Spaced, if_neg hblank]
        exact ⟨hclose, ihu fun d hd => hu d (by simp [hd])⟩
    obtain ⟨c, cs, rfl⟩ := List.exists_cons_of_ne_nil hne
    obtain ⟨hblank, hclose⟩ := hw c (by simp)
    rw [List.flatMap_cons, List.append_assoc, List.cons_append]
    apply hspace _
    rw [List.cons_append, Spaced, if_neg hclose]
    exact ⟨hblank, hword cs fun d hd => hw d (by simp [hd])⟩

/-- Respelling arrays spaces a text evenly. -/
theorem spaced_normalize (t : Text) : Spaced .outside (normalize t) := by
  induction t using cut_induction find_consumes with
  | nil => simp [normalize, Spaced]
  | plain c cs hc ih =>
    rw [normalize_cons_of_none hc, spaced_outside_of_none (find_cons_normalize_eq_none hc)]
    exact ih
  | found t content n hc ih =>
    obtain ⟨hne, hclose, rfl, rest, rfl⟩ := find_eq_some_iff.1 hc
    rw [drop_array] at ih
    have hsome : (find ('<' :: (cells content ++ ' ' :: '>' :: normalize rest))).isSome := by
      rw [find_isSome_iff]
      refine ⟨rfl, ?_, by simp⟩
      rw [cells]
      cases Text.words content <;> simp
    have hwords : ∀ w ∈ Text.words content, w ≠ [] ∧ ∀ c ∈ w, ¬ isBlank c ∧ c ≠ '>' := by
      intro w hw
      obtain ⟨hw, hmem⟩ := Text.of_mem_words hw
      exact ⟨hw, fun c hc => ⟨(hmem c hc).1, fun heq => hclose (heq ▸ (hmem c hc).2)⟩⟩
    rw [normalize_array hne hclose, canonical, List.cons_append, List.append_assoc]
    simp only [List.cons_append, List.nil_append]
    rw [Spaced, if_pos hsome]
    exact spaced_cells hwords (.inl rfl) ih

/-- What is evenly spaced up to the end of an array is cells with a space behind each. -/
theorem of_spaced_cells {u v : Text} (hu : '>' ∉ u) :
    (Spaced .gap (u ++ '>' :: v) → Spaced .outside v ∧ ∃ ws : List Text,
      (∀ w ∈ ws, w ≠ [] ∧ ∀ c ∈ w, ¬ isBlank c) ∧ ' ' :: u = ws.flatMap (' ' :: ·) ++ [' ']) ∧
    (Spaced .cell (u ++ '>' :: v) → Spaced .outside v ∧ ∃ (w : Text) (ws : List Text),
      (∀ c ∈ w, ¬ isBlank c) ∧ (∀ w ∈ ws, w ≠ [] ∧ ∀ c ∈ w, ¬ isBlank c) ∧
        u = w ++ (ws.flatMap (' ' :: ·) ++ [' '])) := by
  induction u with
  | nil =>
    have hblank : ¬ isBlank '>' := by decide
    refine ⟨fun h => ?_, fun h => ?_⟩
    · exact ⟨by simpa [Spaced] using h, [], by simp, rfl⟩
    · simp [Spaced, hblank] at h
  | cons c cs ih =>
    have hc : c ≠ '>' := fun heq => hu (by simp [heq])
    obtain ⟨hgap, hcell⟩ := ih fun hmem => hu (by simp [hmem])
    refine ⟨fun h => ?_, fun h => ?_⟩
    · rw [List.cons_append, Spaced, if_neg hc] at h
      obtain ⟨hv, w, ws, hw, hws, rfl⟩ := hcell h.2
      refine ⟨hv, (c :: w) :: ws, ?_, by simp⟩
      intro w' hw'
      rcases List.mem_cons.1 hw' with rfl | hw'
      · exact ⟨by simp, by simpa [h.1] using hw⟩
      · exact hws w' hw'
    · rw [List.cons_append, Spaced] at h
      split at h
      · obtain ⟨rfl, hrest⟩ := h
        obtain ⟨hv, ws, hws, heq⟩ := hgap hrest
        exact ⟨hv, [], ws, by simp, hws, heq⟩
      · rename_i hblank
        obtain ⟨hv, w, ws, hw, hws, rfl⟩ := hcell h.2
        exact ⟨hv, c :: w, ws, by simpa [hblank] using hw, hws, rfl⟩

/-- An evenly spaced text is respelled as itself. -/
theorem normalize_eq_self {t : Text} (h : Spaced .outside t) : normalize t = t := by
  induction t using cut_induction find_consumes with
  | nil => rfl
  | plain c cs hc ih =>
    rw [normalize_cons_of_none hc, ih ((spaced_outside_of_none hc).1 h)]
  | found t content n hc ih =>
    obtain ⟨hne, hclose, rfl, rest, rfl⟩ := find_eq_some_iff.1 hc
    rw [drop_array] at ih
    rw [Spaced, if_pos (by simp [hc])] at h
    obtain ⟨d, es, rfl⟩ := List.exists_cons_of_ne_nil hne
    rw [List.cons_append, Spaced] at h
    obtain ⟨rfl, hgap⟩ := h
    obtain ⟨hrest, ws, hws, heq⟩ := (of_spaced_cells (u := es)
      fun hmem => hclose (by simp [hmem])).1 hgap
    have hcells : cells (' ' :: es) = ws.flatMap (' ' :: ·) := by
      rw [heq, cells, Text.words_flatMap_cons (by decide) hws, Text.words_nil, List.append_nil]
    rw [normalize_array hne hclose, ih hrest, canonical, hcells, heq]
    simp

/-! ## Literals in arrays -/

/-- Literals are respelled word by word. -/
theorem words_normalize (t : Text) :
    Text.words (HexLiteral.normalize t) = (Text.words t).map HexLiteral.normalize := by
  have hword : ∀ w : Text, (∀ c ∈ w, ¬ isBlank c) →
      Text.words (HexLiteral.normalize w) = (Text.words w).map HexLiteral.normalize := by
    intro w hw
    by_cases hne : w = []
    · subst hne
      rfl
    · rw [Text.words_eq_singleton hne hw, Text.words_eq_singleton (HexLiteral.normalize_ne_nil hne)
        (HexLiteral.not_isBlank_of_mem_normalize hw)]
      rfl
  induction t using Text.word_induction with
  | last w hw => exact hword w hw
  | more w c v hw hc ih =>
    have hapart : HexLiteral.IsApart c := HexLiteral.isApart_of_isBlank hc
    have hsplit : HexLiteral.normalize (w ++ c :: v) =
        HexLiteral.normalize w ++ c :: HexLiteral.normalize v := by
      rw [HexLiteral.normalize_append (by simpa using hapart),
        HexLiteral.normalize_cons fun heq => hapart.2 (by rw [heq]; decide)]
    rw [hsplit, Text.words_append_of_blank _ hc, Text.words_append_of_blank _ hc, List.map_append,
      hword w hw, ih]

theorem cells_normalize (content : Text) :
    cells (HexLiteral.normalize content) = HexLiteral.normalize (cells content) := by
  rw [cells, cells, words_normalize]
  induction Text.words content with
  | nil => rfl
  | cons w ws ih =>
    have hstart : ∀ c ∈ (ws.flatMap (' ' :: ·)).head?, HexLiteral.IsApart c := by
      cases ws <;> simp [HexLiteral.isApart_of_isBlank (show isBlank ' ' by decide)]
    rw [List.map_cons, List.flatMap_cons, List.flatMap_cons, List.cons_append,
      HexLiteral.normalize_append hstart, HexLiteral.normalize_cons (by decide), ih]
    rfl

theorem keepsOff : HexLiteral.KeepsOff find canonical where
  consumes := find_consumes
  start t content n h c hc := by
    obtain ⟨-, -, -, rest, rfl⟩ := find_eq_some_iff.1 h
    obtain rfl : '<' = c := by simpa using hc
    exact ⟨by decide, by decide⟩
  written _ content _ _ := ⟨'<', cells content ++ [' ', '>'], rfl, by decide, by decide⟩

/-- It does not matter whether literals or arrays are respelled first. -/
theorem normalize_literals (t : Text) :
    HexLiteral.normalize (normalize t) = normalize (HexLiteral.normalize t) := by
  have hclose : HexLiteral.IsApart '>' := ⟨by decide, by decide⟩
  refine keepsOff.normalize_replaceMatches ?_ ?_ t
  · intro t h
    cases t with
    | nil => rfl
    | cons c cs =>
      by_cases hc : c = '<'
      · subst hc
        rw [HexLiteral.normalize_cons (by decide)]
        rwa [find_cons_eq_none_congr (v := cs) (by rw [HexLiteral.head?_normalize])
          (HexLiteral.mem_normalize_iff hclose)]
      · obtain ⟨v, hv⟩ := List.head?_eq_some_iff.1 (HexLiteral.head?_normalize (c :: cs))
        rw [hv]
        exact find_eq_none hc v
  · intro t content n h
    obtain ⟨hne, hopen, rfl, rest, rfl⟩ := find_eq_some_iff.1 h
    have hread : HexLiteral.normalize ('<' :: (content ++ '>' :: rest)) =
        '<' :: (HexLiteral.normalize content ++ '>' :: HexLiteral.normalize rest) := by
      rw [HexLiteral.normalize_cons (by decide), HexLiteral.normalize_append (by simpa using hclose),
        HexLiteral.normalize_cons (by decide)]
    refine ⟨HexLiteral.normalize content, _, find_eq_some_iff.2 ⟨HexLiteral.normalize_ne_nil hne,
      fun hmem => hopen ((HexLiteral.mem_normalize_iff hclose).1 hmem), rfl, _, hread⟩, ?_, ?_⟩
    · rw [hread, drop_array, drop_array]
    · intro v
      have hspace : HexLiteral.IsApart ' ' := HexLiteral.isApart_of_isBlank (by decide)
      have hsplit : canonical content ++ v = '<' :: (cells content ++ ' ' :: '>' :: v) := by
        simp [canonical]
      rw [hsplit, HexLiteral.normalize_cons (by decide),
        HexLiteral.normalize_append (by simpa using hspace), HexLiteral.normalize_cons (by decide),
        HexLiteral.normalize_cons (by decide), ← cells_normalize, canonical]
      simp

end CellArray

end Devicetree
