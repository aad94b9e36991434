-- SUMMARY: Spaces put into a source stay, unless their line ends with them.
import Devicetree.Proofs.Source.BlankLines
import Devicetree.Proofs.Text.Variants

/-!
# Line ends

Reduction cuts trailing blanks off each line and otherwise drops line feeds only.
Of spaces put between two texts it therefore keeps either all or none, depending on
whether anything but blanks follows them on their line.
-/

namespace Devicetree

namespace Text

theorem exists_lines_eq_cons (t : Text) : ∃ ls, lines t = t.takeWhile (· != '\n') :: ls := by
  induction t with
  | nil => exact ⟨[], rfl⟩
  | cons c cs ih =>
    obtain ⟨ls, hls⟩ := ih
    by_cases hc : c = '\n'
    · exact ⟨lines cs, by simp [lines, hc]⟩
    · exact ⟨ls, by simp [lines, hc, hls]⟩

/-- What is put between two texts stands in one line, if it has no line feed. -/
theorem exists_lines_between (x y : Text) : ∃ ls l ks, ∀ w : Text, '\n' ∉ w →
    lines (x ++ (w ++ y)) = ls ++ (l ++ (w ++ y.takeWhile (· != '\n'))) :: ks := by
  induction x with
  | nil =>
    obtain ⟨ks, hks⟩ := exists_lines_eq_cons y
    refine ⟨[], [], ks, fun w hw => ?_⟩
    obtain ⟨l, ls, hy, hlines⟩ := exists_lines_append hw y
    obtain ⟨rfl, rfl⟩ := List.cons.inj (hks.symm.trans hy)
    exact hlines
  | cons c cs ih =>
    obtain ⟨ls, l, ks, h⟩ := ih
    by_cases hc : c = '\n'
    · refine ⟨[] :: ls, l, ks, fun w hw => ?_⟩
      rw [List.cons_append, lines, if_pos hc, h w hw, List.cons_append]
    · cases ls with
      | nil =>
        refine ⟨[], c :: l, ks, fun w hw => ?_⟩
        rw [List.cons_append, lines, if_neg hc, h w hw]
        rfl
      | cons m ls =>
        refine ⟨(c :: m) :: ls, l, ks, fun w hw => ?_⟩
        rw [List.cons_append, lines, if_neg hc, h w hw]
        rfl

end Text

namespace BlankLines

open Text

theorem reduce_congr {s t : Text} (h : (lines s).map trimEnd = (lines t).map trimEnd) :
    reduce s = reduce t := by
  rw [reduce, h, reduce]

theorem newline_not_mem_spaces (n : Nat) : '\n' ∉ List.replicate n ' ' := by
  intro hmem
  simpa using List.eq_of_mem_replicate hmem

/-- Spaces go if only blanks follow them on their line. -/
theorem reduce_spaces_of_startsBlank {y : Text} (hy : y.StartsBlank) (x : Text) (n : Nat) :
    reduce (x ++ (List.replicate n ' ' ++ y)) = reduce (x ++ y) := by
  obtain ⟨ls, l, ks, h⟩ := exists_lines_between x y
  have hline : ∀ n, trimEnd (l ++ (List.replicate n ' ' ++ y.takeWhile (· != '\n'))) =
      trimEnd l := by
    intro n
    apply trimEnd_append_of_blank
    intro c hc
    rcases List.mem_append.1 hc with hc | hc
    · rw [List.eq_of_mem_replicate hc]
      decide
    · exact hy c hc
  have hlines : ∀ n, (lines (x ++ (List.replicate n ' ' ++ y))).map trimEnd =
      ls.map trimEnd ++ trimEnd l :: ks.map trimEnd := by
    intro n
    rw [h _ (newline_not_mem_spaces n), List.map_append, List.map_cons, hline]
  exact reduce_congr ((hlines n).trans (hlines 0).symm)

/-- Spaces stay, all of them, if anything else follows. -/
theorem length_flatten_reduce_spaces {y : Text} (hy : ¬ y.StartsBlank) (x : Text) (n : Nat) :
    (lines (reduce (x ++ (List.replicate n ' ' ++ y)))).flatten.length =
      (lines (reduce (x ++ y))).flatten.length + n := by
  obtain ⟨ls, l, ks, h⟩ := exists_lines_between x y
  have hrest : trimEnd (y.takeWhile (· != '\n')) ≠ [] := fun hnil =>
    hy (trimEnd_eq_nil_iff.1 hnil)
  have hlength : ∀ n, (lines (reduce (x ++ (List.replicate n ' ' ++ y)))).flatten.length =
      (ls.map trimEnd).flatten.length +
        (l.length + (n + (trimEnd (y.takeWhile (· != '\n'))).length) +
          (ks.map trimEnd).flatten.length) := by
    intro n
    rw [(thinned_reduce _).flatten_eq, h _ (newline_not_mem_spaces n), List.map_append,
      List.map_cons, ← List.append_assoc l, trimEnd_append_of_ne_nil hrest]
    simp only [List.flatten_append, List.flatten_cons, List.length_append, List.length_replicate]
    omega
  have hzero := hlength 0
  rw [List.replicate_zero, List.nil_append] at hzero
  rw [hlength, hzero]
  omega

/-- Spaces matter only if anything but blanks follows on their line, and then their number
    matters. -/
theorem reduce_spaces_iff (x y : Text) (m n : Nat) :
    reduce (x ++ (List.replicate m ' ' ++ y)) = reduce (x ++ (List.replicate n ' ' ++ y)) ↔
      m = n ∨ y.StartsBlank := by
  constructor
  · intro heq
    by_contra hne
    obtain ⟨hmn, hy⟩ := not_or.1 hne
    have hm := length_flatten_reduce_spaces hy x m
    rw [heq, length_flatten_reduce_spaces hy x n] at hm
    omega
  · rintro (rfl | hy)
    · rfl
    · rw [reduce_spaces_of_startsBlank hy, reduce_spaces_of_startsBlank hy]

end BlankLines

end Devicetree
