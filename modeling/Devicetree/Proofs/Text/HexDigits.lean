-- SUMMARY: What rows of hexadecimal digits stand for: the same number in either case, and with zeros in front.
import Mathlib.Data.List.Induction
import Devicetree.Text.Hex

/-!
# Hexadecimal digits read

A row of digits is read from the left, so what it stands for is known from all but the
last digit and that one. A row can be read if it holds digits only. The case of its
digits does not matter, and neither does a zero in front.
-/

namespace Devicetree

namespace Hex

/-! ## Case -/

private theorem eq_of_isUpper {c : Char} (h : 'A' ≤ c && c ≤ 'F') :
    c = 'A' ∨ c = 'B' ∨ c = 'C' ∨ c = 'D' ∨ c = 'E' ∨ c = 'F' := by
  simp only [Bool.and_eq_true, decide_eq_true_eq, Char.le_def, UInt32.le_iff_toNat_le] at h
  have hlow : 65 ≤ c.toNat := h.1
  have hhigh : c.toNat ≤ 70 := h.2
  simp only [← Char.toNat_inj]
  change c.toNat = 65 ∨ c.toNat = 66 ∨ c.toNat = 67 ∨ c.toNat = 68 ∨ c.toNat = 69 ∨ c.toNat = 70
  omega

/-- Lower case changes the letters from A to F only. -/
theorem lower_cases (c : Char) :
    lower c = c ∧ ¬ ('A' ≤ c && c ≤ 'F') ∨
      c = 'A' ∨ c = 'B' ∨ c = 'C' ∨ c = 'D' ∨ c = 'E' ∨ c = 'F' := by
  by_cases hupper : 'A' ≤ c && c ≤ 'F'
  · exact .inr (eq_of_isUpper hupper)
  · exact .inl ⟨if_neg hupper, hupper⟩

theorem isDigit_lower {c : Char} (h : isDigit c) : isDigit (lower c) := by
  rcases lower_cases c with ⟨hself, -⟩ | rfl | rfl | rfl | rfl | rfl | rfl
  · rwa [hself]
  all_goals decide

theorem lower_lower (c : Char) : lower (lower c) = lower c := by
  rcases lower_cases c with ⟨hself, -⟩ | rfl | rfl | rfl | rfl | rfl | rfl
  · rw [hself, hself]
  all_goals decide

theorem value?_lower (c : Char) : value? (lower c) = value? c := by
  rcases lower_cases c with ⟨hself, -⟩ | rfl | rfl | rfl | rfl | rfl | rfl
  · rw [hself]
  all_goals decide

/-- A digit in lower case is a decimal one or a small letter. -/
theorem isLower_lower {c : Char} (h : isDigit c) :
    (lower c).isDigit ∨ 'a' ≤ lower c ∧ lower c ≤ 'f' := by
  rcases lower_cases c with ⟨hself, hupper⟩ | rfl | rfl | rfl | rfl | rfl | rfl
  · rw [hself]
    simpa [isDigit, hupper] using h
  all_goals decide

/-! ## Numbers -/

/-- The digits are the characters that have a value. -/
theorem isSome_value?_iff {c : Char} : (value? c).isSome ↔ isDigit c := by
  simp only [value?, isDigit]
  split
  · rename_i hdecimal
    simp [hdecimal]
  · rename_i hdecimal
    split
    · rename_i hsmall
      simp [hsmall]
    · rename_i hsmall
      split
      · rename_i hlarge
        simp [hlarge]
      · rename_i hlarge
        simp [hdecimal, hsmall, hlarge]

theorem read?_concat (ds : Text) (c : Char) :
    read? (ds ++ [c]) = (do return 16 * (← read? ds) + (← value? c)) := by
  simp [read?, List.foldl_append]

theorem read?_zero_cons (ds : Text) : read? ('0' :: ds) = read? ds :=
  rfl

theorem read?_map_lower (ds : Text) : read? (ds.map lower) = read? ds := by
  induction ds using List.reverseRecOn with
  | nil => rfl
  | append_singleton ds c ih =>
    rw [List.map_append, List.map_singleton, read?_concat, ih, value?_lower, read?_concat]

/-- What can be read consists of digits, and all such rows can be read. -/
theorem isSome_read?_iff {ds : Text} : (read? ds).isSome ↔ ∀ c ∈ ds, isDigit c := by
  induction ds using List.reverseRecOn with
  | nil => simp [read?]
  | append_singleton ds c ih =>
    rw [read?_concat, List.forall_mem_append, ← ih, List.forall_mem_singleton,
      ← isSome_value?_iff]
    cases read? ds <;> cases value? c <;> simp

end Hex

end Devicetree
