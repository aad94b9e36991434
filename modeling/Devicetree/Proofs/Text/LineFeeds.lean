-- SUMMARY: Lines put together again are cut at the same places.
import Devicetree.Text.Lines

/-!
# Line feeds

Cutting at line feeds and putting line feeds between lines undo each other: the one
half is beside the definitions, the other is here. It holds for lines, that is, for
texts without line feeds, as long as there is one. Last come the carriage returns that
are read as line feeds.
-/

namespace Devicetree

namespace Text

theorem lines_append_newline {l : Line} (h : '\n' ∉ l) (t : Text) :
    lines (l ++ '\n' :: t) = l :: lines t := by
  induction l with
  | nil => simp [lines]
  | cons c cs ih =>
    have hc : c ≠ '\n' := fun heq => h (by simp [heq])
    have hcs : '\n' ∉ cs := fun hmem => h (by simp [hmem])
    rw [List.cons_append, lines, if_neg hc, ih hcs]

theorem lines_eq_singleton {l : Line} (h : '\n' ∉ l) : lines l = [l] := by
  induction l with
  | nil => rfl
  | cons c cs ih =>
    have hc : c ≠ '\n' := fun heq => h (by simp [heq])
    have hcs : '\n' ∉ cs := fun hmem => h (by simp [hmem])
    rw [lines, if_neg hc, ih hcs]

/-- Lines put together are cut at the same places. -/
theorem lines_unlines {ls : List Line} (hne : ls ≠ []) (h : ∀ l ∈ ls, '\n' ∉ l) :
    lines (unlines ls) = ls := by
  induction ls with
  | nil => exact absurd rfl hne
  | cons l ls ih =>
    cases ls with
    | nil => exact lines_eq_singleton (h l (by simp))
    | cons k ks =>
      have hrest := ih (by simp) fun m hm => h m (by simp [hm])
      rw [unlines, lines_append_newline (h l (by simp)), hrest]
      simp

/-- No line holds a line feed. -/
theorem newline_not_mem_of_mem_lines {t : Text} {l : Line} (h : l ∈ lines t) : '\n' ∉ l := by
  induction t generalizing l with
  | nil => simp_all [lines]
  | cons c cs ih =>
    rw [lines] at h
    split at h
    · rcases List.mem_cons.1 h with rfl | h
      · simp
      · exact ih h
    · rename_i hc
      cases hl : lines cs with
      | nil => exact absurd hl (lines_ne_nil cs)
      | cons k ks =>
        rw [hl] at h
        rcases List.mem_cons.1 h with rfl | h
        · have hk : '\n' ∉ k := ih (by simp [hl])
          simpa [hk] using fun heq => hc heq.symm
        · exact ih (by simp [hl, h])

/-- The character that a text ends in ends one of its lines. -/
theorem exists_mem_lines_getLast? {t : Text} {c : Char} (h : t.getLast? = some c) (hc : c ≠ '\n') :
    ∃ l ∈ lines t, l.getLast? = some c := by
  induction t with
  | nil => simp at h
  | cons d ds ih =>
    cases ds with
    | nil =>
      obtain rfl : d = c := by simpa using h
      exact ⟨[d], by simp [lines, hc], rfl⟩
    | cons e es =>
      obtain ⟨l, hl, hlast⟩ := ih (by simpa using h)
      unfold lines
      split
      · exact ⟨l, List.mem_cons_of_mem _ hl, hlast⟩
      · cases hlines : lines (e :: es) with
        | nil => exact absurd hlines (lines_ne_nil _)
        | cons k ks =>
          rw [hlines] at hl
          rcases List.mem_cons.1 hl with rfl | hl
          · exact ⟨d :: l, List.mem_cons_self, by simp [List.getLast?_cons, hlast]⟩
          · exact ⟨l, List.mem_cons_of_mem _ hl, hlast⟩

/-! ## Carriage returns -/

/-- A line feed, or a carriage return with the line feed that may follow it, becomes one
    line feed. -/
theorem universalNewlines_break {c : Char} (hc : c = '\n' ∨ c = '\r') (t : Text) :
    universalNewlines (c :: t) =
      '\n' :: universalNewlines (if c == '\r' && t.head? == some '\n' then t.tail else t) := by
  rcases hc with rfl | rfl
  · rfl
  · by_cases ht : t.head? = some '\n'
    · obtain ⟨ds, rfl⟩ := List.head?_eq_some_iff.1 ht
      rfl
    · rw [universalNewlines, if_pos rfl, if_neg (by simp [ht])]
      rintro ds - rfl
      exact ht rfl

/-- What holds no carriage return is kept. -/
theorem universalNewlines_append {w : Text} (hw : '\r' ∉ w) (t : Text) :
    universalNewlines (w ++ t) = w ++ universalNewlines t := by
  induction w with
  | nil => rfl
  | cons c cs ih =>
    obtain ⟨hc, hcs⟩ : '\r' ≠ c ∧ '\r' ∉ cs := by simpa using hw
    rw [List.cons_append, universalNewlines, if_neg hc.symm, ih hcs]
    · rfl
    · rintro ds rfl
      exact absurd rfl hc

end Text

end Devicetree
