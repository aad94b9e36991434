-- SUMMARY: What trimming keeps: the text between its first and its last character that is no blank.
import Mathlib.Data.List.DropRight
import Devicetree.Text.Blank

/-!
# Trimming

Trimming cuts blanks away at the ends of a text and changes nothing between them.
Blanks put around a text are therefore lost on it, and trimming twice is trimming
once.
-/

namespace Devicetree

namespace Text

/-! ## The end of a text -/

theorem trimEnd_concat (t : Text) (c : Char) :
    trimEnd (t ++ [c]) = if isBlank c then trimEnd t else t ++ [c] := by
  induction t with
  | nil => simp [trimEnd]
  | cons d ds ih =>
    rw [List.cons_append, trimEnd, ih]
    by_cases hc : isBlank c
    · simp [hc, trimEnd]
    · simp [hc]

/-- Trimming the end is the library's way of dropping from the right. -/
theorem trimEnd_eq_rdropWhile (t : Text) : trimEnd t = t.rdropWhile isBlank := by
  induction t using List.reverseRecOn with
  | nil => rfl
  | append_singleton t c ih => rw [trimEnd_concat, List.rdropWhile_concat, ih]

theorem trimEnd_prefix_self (t : Text) : trimEnd t <+: t := by
  rw [trimEnd_eq_rdropWhile]
  exact List.rdropWhile_prefix _ _

/-- What trimming cuts off at the end is blank. -/
theorem exists_trimEnd_append (t : Text) : ∃ w, (∀ c ∈ w, isBlank c) ∧ t = trimEnd t ++ w := by
  refine ⟨t.rtakeWhile isBlank, fun c hc => List.mem_rtakeWhile_imp hc, ?_⟩
  rw [trimEnd_eq_rdropWhile, List.rdropWhile_append_rtakeWhile]

theorem trimEnd_eq_nil_iff {t : Text} : trimEnd t = [] ↔ ∀ c ∈ t, isBlank c := by
  rw [trimEnd_eq_rdropWhile, List.rdropWhile_eq_nil_iff]

@[simp] theorem trimEnd_trimEnd (t : Text) : trimEnd (trimEnd t) = trimEnd t := by
  rw [trimEnd_eq_rdropWhile, trimEnd_eq_rdropWhile, List.rdropWhile_idempotent]

theorem trimEnd_append_of_blank {w : Text} (hw : ∀ c ∈ w, isBlank c) (t : Text) :
    trimEnd (t ++ w) = trimEnd t := by
  induction w using List.reverseRecOn with
  | nil => rw [List.append_nil]
  | append_singleton w c ih =>
    have hc : isBlank c := hw c (by simp)
    rw [← List.append_assoc, trimEnd_concat, if_pos hc, ih fun d hd => hw d (by simp [hd])]

theorem trimEnd_append_of_ne_nil {w : Text} (hw : trimEnd w ≠ []) (t : Text) :
    trimEnd (t ++ w) = t ++ trimEnd w := by
  induction t with
  | nil => rfl
  | cons c cs ih =>
    rw [List.cons_append, trimEnd, ih]
    cases hcs : cs ++ trimEnd w with
    | nil => exact absurd (List.append_eq_nil_iff.1 hcs).2 hw
    | cons d ds => simp [hcs]

/-- A text that keeps anything keeps the character it starts with. -/
theorem head?_trimEnd {t : Text} (h : trimEnd t ≠ []) : (trimEnd t).head? = t.head? := by
  obtain ⟨w, hw⟩ := trimEnd_prefix_self t
  cases ht : trimEnd t with
  | nil => exact absurd ht h
  | cons c cs => rw [ht] at hw; simp [← hw]

/-! ## The start of a text -/

theorem trimStart_append_of_blank {w : Text} (hw : ∀ c ∈ w, isBlank c) (t : Text) :
    trimStart (w ++ t) = trimStart t := by
  induction w with
  | nil => rfl
  | cons c cs ih =>
    have hc : isBlank c := hw c (by simp)
    rw [trimStart, List.cons_append, List.dropWhile_cons_of_pos hc]
    exact ih fun d hd => hw d (by simp [hd])

theorem trimStart_suffix (t : Text) : trimStart t <:+ t :=
  List.dropWhile_suffix _

@[simp] theorem trimStart_trimStart (t : Text) : trimStart (trimStart t) = trimStart t :=
  List.dropWhile_idempotent _ _

theorem trimStart_eq_nil_iff {t : Text} : trimStart t = [] ↔ ∀ c ∈ t, isBlank c := by
  simp [trimStart, List.dropWhile_eq_nil_iff]

/-- What is left starts with no blank. -/
theorem not_isBlank_of_trimStart_eq_cons {t : Text} {c : Char} {cs : Text}
    (h : trimStart t = c :: cs) : ¬ isBlank c := by
  rw [trimStart] at h
  have hne : t.dropWhile isBlank ≠ [] := by simp [h]
  have hhead := List.head_dropWhile_not isBlank hne
  simpa [h] using hhead

/-- A text whose end survives on its own loses the same blanks in front, whatever else
    stands behind. -/
theorem trimStart_append_of_ne_nil {t : Text} (h : trimStart t ≠ []) (w : Text) :
    trimStart (t ++ w) = trimStart t ++ w := by
  have hsome : ∃ c ∈ t, ¬ isBlank c := by
    simpa [trimStart_eq_nil_iff] using h
  simp only [trimStart, List.dropWhile_append]
  rw [if_neg]
  simpa [List.isEmpty_iff, List.dropWhile_eq_nil_iff] using hsome

/-! ## Both ends -/

theorem trim_append_of_blank {w : Text} (hw : ∀ c ∈ w, isBlank c) (t : Text) :
    trim (w ++ t) = trim t := by
  rw [trim, trimStart_append_of_blank hw, trim]

@[simp] theorem trim_trimStart (t : Text) : trim (trimStart t) = trim t := by
  rw [trim, trimStart_trimStart, trim]

theorem mem_of_mem_trim {t : Text} {c : Char} (h : c ∈ trim t) : c ∈ t :=
  (trimStart_suffix t).subset ((trimEnd_prefix_self _).subset h)

/-- Trimming takes nothing away but blanks. -/
theorem mem_trim {t : Text} {c : Char} (h : c ∈ t) (hc : ¬ isBlank c) : c ∈ trim t := by
  have hstart : c ∈ trimStart t := by
    rw [← List.takeWhile_append_dropWhile (p := isBlank) (l := t), List.mem_append] at h
    exact h.resolve_left fun hmem => hc (List.mem_takeWhile_imp hmem)
  obtain ⟨w, hw, heq⟩ := exists_trimEnd_append (trimStart t)
  rw [heq, List.mem_append] at hstart
  exact hstart.resolve_right fun hmem => hc (hw c hmem)

theorem trim_eq_nil_iff {t : Text} : trim t = [] ↔ ∀ c ∈ t, isBlank c := by
  rw [trim, trimEnd_eq_nil_iff]
  constructor
  · intro h
    by_contra hne
    obtain ⟨c, hc, hblank⟩ : ∃ c ∈ t, ¬ isBlank c := by simpa using hne
    cases ht : trimStart t with
    | nil => exact hblank (trimStart_eq_nil_iff.1 ht c hc)
    | cons d ds => exact not_isBlank_of_trimStart_eq_cons ht (h d (by simp [ht]))
  · intro h c hc
    exact h c ((trimStart_suffix t).subset hc)

/-- A text that ends in a character that is no blank only loses blanks in front. -/
theorem trim_eq_trimStart {t : Text} {c : Char} (h : t.getLast? = some c) (hc : ¬ isBlank c) :
    trim t = trimStart t := by
  obtain ⟨ds, rfl⟩ := List.getLast?_eq_some_iff.1 h
  have hsplit : trimStart (ds ++ [c]) = trimStart ds ++ [c] ∨ trimStart (ds ++ [c]) = [c] := by
    by_cases hds : trimStart ds = []
    · right
      rw [trimStart_append_of_blank (trimStart_eq_nil_iff.1 hds)]
      simp [trimStart, hc]
    · exact .inl (trimStart_append_of_ne_nil hds _)
  rcases hsplit with hsplit | hsplit
  · rw [trim, hsplit, trimEnd_concat, if_neg hc]
  · rw [trim, hsplit]
    simp [trimEnd, hc]

@[simp] theorem trim_trim (t : Text) : trim (trim t) = trim t := by
  by_cases h : trim t = []
  · rw [h]; rfl
  · have hne : trimStart t ≠ [] := by
      intro hnil
      rw [trim, hnil] at h
      exact h rfl
    have hhead : (trim t).head? = (trimStart t).head? := head?_trimEnd h
    have hstart : trimStart (trim t) = trim t := by
      cases ht : trimStart t with
      | nil => exact absurd ht hne
      | cons c cs =>
        have hc : ¬ isBlank c := not_isBlank_of_trimStart_eq_cons ht
        rw [ht] at hhead
        obtain ⟨ds, hds⟩ := List.head?_eq_some_iff.1 hhead
        rw [hds, trimStart, List.dropWhile_cons_of_neg hc]
    rw [trim, hstart, trim, trimEnd_trimEnd]

/-- A text with anything but blanks in it keeps its last such character. -/
theorem getLast?_trim {t : Text} {c : Char} (h : t.getLast? = some c) (hc : ¬ isBlank c) :
    (trim t).getLast? = some c := by
  obtain ⟨ds, rfl⟩ := List.getLast?_eq_some_iff.1 h
  rw [trim_eq_trimStart h hc]
  by_cases hds : trimStart ds = []
  · rw [trimStart_append_of_blank (trimStart_eq_nil_iff.1 hds)]
    simp [trimStart, hc]
  · simp [trimStart_append_of_ne_nil hds]

/-- A text that trimming leaves alone starts and ends with no blank. -/
theorem trimEnds_of_trim_eq {t : Text} (h : trim t = t) : trimStart t = t ∧ trimEnd t = t := by
  have hend : (trim t).length ≤ (trimStart t).length := (trimEnd_prefix_self _).length_le
  rw [h] at hend
  have hstart : trimStart t = t := (trimStart_suffix t).eq_of_length_le hend
  rw [trim, hstart] at h
  exact ⟨hstart, h⟩

/-- What stands between two texts that trimming leaves alone stays as it is. -/
theorem trim_append_cons {u w : Text} (hu : u ≠ []) (hut : trim u = u) (hw : w ≠ [])
    (hwt : trim w = w) (c : Char) : trim (u ++ c :: w) = u ++ c :: w := by
  have hstart : trimStart u = u := (trimEnds_of_trim_eq hut).1
  have hend : trimEnd w = w := (trimEnds_of_trim_eq hwt).2
  have hsplit : u ++ c :: w = (u ++ [c]) ++ w := by simp
  rw [trim, trimStart_append_of_ne_nil (by rwa [hstart]), hstart, hsplit,
    trimEnd_append_of_ne_nil (by rwa [hend]), hend]

end Text

end Devicetree
