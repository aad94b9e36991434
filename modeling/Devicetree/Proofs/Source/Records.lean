-- SUMMARY: Records of lines that end in a semicolon each, and what records are made of.
import Devicetree.Proofs.Text.Trimming
import Devicetree.Source.Record

/-!
# Records

A line that ends in a semicolon is a record of its own. The lines of a property in
canonical order are of that kind, so they are read back one by one.
-/

namespace Devicetree

namespace Record

/-- A line that is a record of its own: its last character other than blanks is a semicolon. -/
def IsWhole (l : Line) : Prop :=
  (Text.trim l).getLast? = some ';'

instance (l : Line) : Decidable (IsWhole l) :=
  inferInstanceAs (Decidable ((Text.trim l).getLast? = some ';'))

/-- Lines that end in a semicolon each are a record each. -/
theorem join_eq_map_trim {ls : List Line} (h : ∀ l ∈ ls, IsWhole l) :
    join ls = ls.map Text.trim := by
  rw [join]
  induction ls with
  | nil => rfl
  | cons l ls ih =>
    have hl : (Text.trim l).getLast? = some ';' := h l (by simp)
    have hne : Text.trim l ≠ [] := by
      intro hnil
      rw [hnil] at hl
      cases hl
    have hends : endsAt (Text.trim l) ls.head? = true := by
      rw [endsAt, hl]
      rfl
    rw [joinFrom]
    simp only [List.isEmpty_iff, hne, if_false, hends, if_true]
    rw [ih fun k hk => h k (by simp [hk]), extend, List.map_cons]
    rfl

theorem of_mem_extend {current text : Text} {c : Char} (h : c ∈ extend current text) :
    c = ' ' ∨ c ∈ current ∨ c ∈ text := by
  rw [extend] at h
  split at h
  · exact .inr (.inr h)
  · rw [List.mem_append, List.mem_cons] at h
    rcases h with hcurrent | hspace | htext
    · exact .inr (.inl hcurrent)
    · exact .inl hspace
    · exact .inr (.inr htext)

/-- A record holds what was begun of it, what its lines hold, and spaces. -/
theorem of_mem_joinFrom {current : Text} {ls : List Line} {r : Text} {c : Char}
    (hr : r ∈ joinFrom current ls) (hc : c ∈ r) :
    c = ' ' ∨ c ∈ current ∨ ∃ l ∈ ls, c ∈ l := by
  induction ls generalizing current with
  | nil =>
    rw [joinFrom] at hr
    split at hr
    · cases hr
    · rw [List.mem_singleton.1 hr] at hc
      exact .inr (.inl hc)
  | cons l ls ih =>
    have hline : c ∈ extend current (Text.trim l) →
        c = ' ' ∨ c ∈ current ∨ ∃ k ∈ l :: ls, c ∈ k := by
      intro hmem
      rcases of_mem_extend hmem with hspace | hcurrent | htext
      · exact .inl hspace
      · exact .inr (.inl hcurrent)
      · exact .inr (.inr ⟨l, by simp, Text.mem_of_mem_trim htext⟩)
    simp only [joinFrom] at hr
    split at hr
    · rcases ih hr with hspace | hcurrent | ⟨k, hk, hmem⟩
      · exact .inl hspace
      · exact .inr (.inl hcurrent)
      · exact .inr (.inr ⟨k, by simp [hk], hmem⟩)
    · split at hr
      · rcases List.mem_cons.1 hr with rfl | hr
        · exact hline hc
        · rcases ih hr with hspace | hnone | ⟨k, hk, hmem⟩
          · exact .inl hspace
          · cases hnone
          · exact .inr (.inr ⟨k, by simp [hk], hmem⟩)
      · rcases ih hr with hspace | hextended | ⟨k, hk, hmem⟩
        · exact .inl hspace
        · exact hline hextended
        · exact .inr (.inr ⟨k, by simp [hk], hmem⟩)

/-- A record holds what its lines hold, and spaces. -/
theorem of_mem_join {ls : List Line} {r : Text} {c : Char} (hr : r ∈ join ls) (hc : c ∈ r) :
    c = ' ' ∨ ∃ l ∈ ls, c ∈ l := by
  rcases of_mem_joinFrom hr hc with hspace | hnone | hmem
  · exact .inl hspace
  · cases hnone
  · exact .inr hmem

end Record

end Devicetree
