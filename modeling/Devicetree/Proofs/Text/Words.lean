-- SUMMARY: The words of a text: what they are, and that blanks are all that separates them.
import Mathlib.Data.List.Basic
import Devicetree.Text.Blank

/-!
# Words

The words of a text are its maximal runs of characters that are no blanks. All that
is needed of them follows from two equations: a text cut at a blank has the words of
both parts, and a text without blanks is one word.
-/

namespace Devicetree

namespace Text

@[simp] theorem words_nil : words [] = [] := rfl

theorem words_cons_of_blank {c : Char} (hc : isBlank c) (cs : Text) :
    words (c :: cs) = words cs := by
  rw [words.eq_def]
  simp [hc]

/-- A character that is no blank starts a word, which goes on if the next is none either. -/
theorem words_cons_cons {c d : Char} (hc : ¬ isBlank c) (hd : ¬ isBlank d) (cs : Text) :
    ∃ w ws, words (d :: cs) = w :: ws ∧ words (c :: d :: cs) = (c :: w) :: ws := by
  have hsome : ∃ w ws, words (d :: cs) = w :: ws := by
    rw [words.eq_def]
    simp only [hd, Bool.false_eq_true, if_false]
    split
    · split <;> exact ⟨_, _, rfl⟩
    · exact ⟨_, _, rfl⟩
  obtain ⟨w, ws, hw⟩ := hsome
  refine ⟨w, ws, hw, ?_⟩
  rw [words.eq_def]
  simp [hc, hd, hw]

theorem words_singleton {c : Char} (hc : ¬ isBlank c) : words [c] = [[c]] := by
  rw [words.eq_def]
  simp only [hc, Bool.false_eq_true, if_false, words_nil]

theorem words_cons_cons_of_blank {c d : Char} (hc : ¬ isBlank c) (hd : isBlank d) (cs : Text) :
    words (c :: d :: cs) = [c] :: words cs := by
  rw [words.eq_def]
  simp only [hc, Bool.false_eq_true, if_false, words_cons_of_blank hd]
  cases words cs <;> simp [hd]

/-- A text cut at a blank has the words of both parts. -/
theorem words_append_of_blank (u : Text) {c : Char} (hc : isBlank c) (v : Text) :
    words (u ++ c :: v) = words u ++ words v := by
  induction u with
  | nil => exact words_cons_of_blank hc v
  | cons x xs ih =>
    by_cases hx : isBlank x
    · rw [List.cons_append, words_cons_of_blank hx, ih, words_cons_of_blank hx]
    · cases xs with
      | nil =>
        rw [List.cons_append, List.nil_append, words_cons_cons_of_blank hx hc, words_singleton hx]
        rfl
      | cons y ys =>
        by_cases hy : isBlank y
        · rw [List.cons_append, words_cons_of_blank hy, words_cons_of_blank hy] at ih
          rw [List.cons_append, List.cons_append, words_cons_cons_of_blank hx hy, ih,
            words_cons_cons_of_blank hx hy]
          rfl
        · obtain ⟨w, ws, hw, hcons⟩ := words_cons_cons hx hy ys
          obtain ⟨w', ws', hw', hcons'⟩ := words_cons_cons hx hy (ys ++ c :: v)
          rw [List.cons_append, hw', hw] at ih
          obtain ⟨rfl, rfl⟩ := List.cons.inj ih
          rw [List.cons_append, List.cons_append, hcons', hcons]
          rfl

/-- A text without blanks is one word, unless it is empty. -/
theorem words_eq_singleton {w : Text} (hne : w ≠ []) (hw : ∀ c ∈ w, ¬ isBlank c) :
    words w = [w] := by
  induction w with
  | nil => exact absurd rfl hne
  | cons c cs ih =>
    have hc : ¬ isBlank c := hw c (by simp)
    cases cs with
    | nil => exact words_singleton hc
    | cons d ds =>
      have hd : ¬ isBlank d := hw d (by simp)
      obtain ⟨w, ws, hws, hcons⟩ := words_cons_cons hc hd ds
      rw [ih (by simp) fun e he => hw e (by simp [he])] at hws
      obtain ⟨rfl, rfl⟩ := List.cons.inj hws
      exact hcons

/-- Every text is a run without blanks, and a blank with more text behind it if that is
    not all. -/
theorem word_induction {motive : Text → Prop}
    (last : ∀ w, (∀ c ∈ w, ¬ isBlank c) → motive w)
    (more : ∀ w c v, (∀ d ∈ w, ¬ isBlank d) → isBlank c → motive v → motive (w ++ c :: v))
    (t : Text) : motive t := by
  suffices h : ∀ w, (∀ c ∈ w, ¬ isBlank c) → motive (w ++ t) from h [] (by simp)
  induction t with
  | nil => simpa using last
  | cons c cs ih =>
    intro w hw
    by_cases hc : isBlank c
    · exact more w c cs hw hc (ih [] (by simp))
    · have hwc : ∀ d ∈ w ++ [c], ¬ isBlank d := by
        intro d hd
        rcases List.mem_append.1 hd with hd | hd
        · exact hw d hd
        · rw [List.mem_singleton.1 hd]
          exact hc
      simpa using ih (w ++ [c]) hwc

/-- Words are not empty, hold no blanks, and consist of characters of the text. -/
theorem of_mem_words {t w : Text} (h : w ∈ words t) :
    w ≠ [] ∧ ∀ c ∈ w, ¬ isBlank c ∧ c ∈ t := by
  induction t using word_induction with
  | last u hu =>
    by_cases hne : u = []
    · subst hne
      simp at h
    · rw [words_eq_singleton hne hu, List.mem_singleton] at h
      subst h
      exact ⟨hne, fun c hc => ⟨hu c hc, hc⟩⟩
  | more u b v hu hb ih =>
    rw [words_append_of_blank u hb, List.mem_append] at h
    rcases h with h | h
    · by_cases hne : u = []
      · subst hne
        simp at h
      · rw [words_eq_singleton hne hu, List.mem_singleton] at h
        subst h
        exact ⟨hne, fun c hc => ⟨hu c hc, by simp [hc]⟩⟩
    · obtain ⟨hne, hmem⟩ := ih h
      exact ⟨hne, fun c hc => ⟨(hmem c hc).1, by simp [(hmem c hc).2]⟩⟩

/-- The words of a text are the text without its blanks. -/
theorem flatten_words (t : Text) : (words t).flatten = t.filter (!isBlank ·) := by
  have hword : ∀ u : Text, (∀ c ∈ u, ¬ isBlank c) → (words u).flatten = u.filter (!isBlank ·) := by
    intro u hu
    rw [List.filter_eq_self.2 (by simpa using hu)]
    by_cases hne : u = []
    · subst hne
      rfl
    · simp [words_eq_singleton hne hu]
  induction t using word_induction with
  | last u hu => exact hword u hu
  | more u b v hu hb ih =>
    rw [words_append_of_blank u hb, List.flatten_append, ih, hword u hu, List.filter_append]
    simp [hb]

/-- Words with a blank in front of each are read back as they are. -/
theorem words_flatMap_cons {c : Char} (hc : isBlank c) {ws : List Text}
    (hws : ∀ w ∈ ws, w ≠ [] ∧ ∀ d ∈ w, ¬ isBlank d) (v : Text) :
    words (ws.flatMap (c :: ·) ++ c :: v) = ws ++ words v := by
  induction ws with
  | nil => simp [words_cons_of_blank hc]
  | cons w ws ih =>
    have hw := hws w (by simp)
    have hrest := ih fun w' hw' => hws w' (by simp [hw'])
    obtain ⟨z, hz⟩ : ∃ z, ws.flatMap (c :: ·) ++ c :: v = c :: z := by
      cases ws <;> simp
    rw [List.flatMap_cons, List.append_assoc, List.cons_append, words_cons_of_blank hc]
    rw [hz, words_cons_of_blank hc] at hrest
    rw [hz, words_append_of_blank w hc, words_eq_singleton hw.1 hw.2, hrest]
    rfl

end Text

end Devicetree
