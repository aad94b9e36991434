-- SUMMARY: Laws of replacing the matches of a pattern: what it keeps, and when it is idempotent.
import Mathlib.Data.List.Basic
import Devicetree.Text.Pieces

/-!
# Respelling matches

Every rule for values cuts a text at the matches of a pattern and writes each match
anew. What holds of the new spelling of one match holds of the whole text, by
induction along the cut. A respelling is idempotent if its pattern is not led astray
by it: where nothing matched nothing matches afterwards, and a match in its new
spelling is found again as a whole. The texts it leaves alone are then those in which
every match reads as it is written.
-/

namespace Devicetree

namespace Piece

variable {α : Type} {find : Text → Option (α × Nat)} {write : α → Text}

/-- Wherever the pattern matches, it matches some characters, and no more than there are. -/
def Consumes (find : Text → Option (α × Nat)) : Prop :=
  ∀ {t : Text} {a : α} {n : Nat}, find t = some (a, n) → 0 < n ∧ n ≤ t.length

@[simp] theorem replaceMatches_nil : replaceMatches find write [] = [] := rfl

theorem replaceMatches_cons_of_none {c : Char} {cs : Text} (h : find (c :: cs) = none) :
    replaceMatches find write (c :: cs) = c :: replaceMatches find write cs := by
  rw [replaceMatches, cut_cons_of_none h]
  rfl

theorem replaceMatches_of_some (hfind : Consumes find) {t : Text} {a : α} {n : Nat}
    (h : find t = some (a, n)) :
    replaceMatches find write t = write a ++ replaceMatches find write (t.drop n) := by
  obtain ⟨hpos, hlen⟩ := hfind h
  cases t with
  | nil => simp at hlen; omega
  | cons c cs =>
    obtain ⟨k, rfl⟩ : ∃ k, n = k + 1 := ⟨n - 1, by omega⟩
    rw [replaceMatches, cut_cons_of_some h]
    rfl

/-- Induction along the cut of a text: a character that starts no match, or a match. -/
theorem cut_induction (hfind : Consumes find) {motive : Text → Prop}
    (nil : motive [])
    (plain : ∀ c cs, find (c :: cs) = none → motive cs → motive (c :: cs))
    (found : ∀ t a n, find t = some (a, n) → motive (t.drop n) → motive t)
    (t : Text) : motive t := by
  -- A match may be long, so the induction is on the length of what is left.
  induction hk : t.length using Nat.strongRecOn generalizing t with
  | ind k ih =>
    subst hk
    cases t with
    | nil => exact nil
    | cons c cs =>
      cases hc : find (c :: cs) with
      | none => exact plain c cs hc (ih cs.length (by simp) cs rfl)
      | some m =>
        obtain ⟨a, n⟩ := m
        have hpos := (hfind hc).1
        exact found _ a n hc (ih _ (by simp [List.length_drop]; omega) _ rfl)

/-- What holds of every character of a text, and of all that a match is written with, holds
    of every character of the respelled text. -/
theorem forall_mem_replaceMatches (hfind : Consumes find) {p : Char → Prop}
    (hwrite : ∀ t a n, find t = some (a, n) → (∀ c ∈ t.take n, p c) → ∀ c ∈ write a, p c)
    {t : Text} (ht : ∀ c ∈ t, p c) : ∀ c ∈ replaceMatches find write t, p c := by
  induction t using cut_induction hfind with
  | nil => simp
  | plain c cs hc ih =>
    rw [replaceMatches_cons_of_none hc]
    simp only [List.mem_cons, forall_eq_or_imp] at ht ⊢
    exact ⟨ht.1, ih ht.2⟩
  | found t a n hc ih =>
    rw [replaceMatches_of_some hfind hc]
    intro c hmem
    rcases List.mem_append.1 hmem with hmem | hmem
    · exact hwrite t a n hc (fun d hd => ht d (List.mem_of_mem_take hd)) c hmem
    · exact ih (fun d hd => ht d (List.mem_of_mem_drop hd)) c hmem

/-- A respelling that keeps certain characters of each match keeps those of the text. -/
theorem filter_replaceMatches (hfind : Consumes find) {p : Char → Bool}
    (hwrite : ∀ t a n, find t = some (a, n) → (write a).filter p = (t.take n).filter p)
    (t : Text) : (replaceMatches find write t).filter p = t.filter p := by
  induction t using cut_induction hfind with
  | nil => rfl
  | plain c cs hc ih => rw [replaceMatches_cons_of_none hc, List.filter_cons, List.filter_cons, ih]
  | found t a n hc ih =>
    rw [replaceMatches_of_some hfind hc, List.filter_append, hwrite t a n hc, ih,
      ← List.filter_append, List.take_append_drop]

/-- A respelling that keeps the end of each match keeps the end of the text. -/
theorem getLast?_replaceMatches (hfind : Consumes find)
    (hwrite : ∀ t a n, find t = some (a, n) → (write a).getLast? = (t.take n).getLast?)
    (t : Text) : (replaceMatches find write t).getLast? = t.getLast? := by
  induction t using cut_induction hfind with
  | nil => rfl
  | plain c cs hc ih => rw [replaceMatches_cons_of_none hc, List.getLast?_cons, List.getLast?_cons, ih]
  | found t a n hc ih =>
    rw [replaceMatches_of_some hfind hc, List.getLast?_append, ih, hwrite t a n hc,
      ← List.getLast?_append, List.take_append_drop]

/-! ## Texts that are spelled already -/

/-- Every match that the cut of a text finds reads as it is written. -/
inductive Spelled (find : Text → Option (α × Nat)) (write : α → Text) : Text → Prop where
  | nil : Spelled find write []
  | plain {c : Char} {cs : Text} : find (c :: cs) = none → Spelled find write cs →
      Spelled find write (c :: cs)
  | found {a : α} {rest : Text} : find (write a ++ rest) = some (a, (write a).length) →
      Spelled find write rest → Spelled find write (write a ++ rest)

theorem Spelled.replaceMatches_eq (hfind : Consumes find) {t : Text}
    (h : Spelled find write t) : replaceMatches find write t = t := by
  induction h with
  | nil => rfl
  | plain hc _ ih => rw [replaceMatches_cons_of_none hc, ih]
  | found hc _ ih => rw [replaceMatches_of_some hfind hc, List.drop_left, ih]

/-- A respelling does not lead its pattern astray: nothing matches where nothing matched, and
    every match in its new spelling is found again as a whole and keeps that spelling. -/
structure Stable (find : Text → Option (α × Nat)) (write : α → Text) : Prop where
  consumes : Consumes find
  plain : ∀ c cs, find (c :: cs) = none → find (c :: replaceMatches find write cs) = none
  found : ∀ t a n, find t = some (a, n) → ∃ b,
    find (write a ++ replaceMatches find write (t.drop n)) = some (b, (write a).length) ∧
      write b = write a

namespace Stable

theorem spelled_replaceMatches (h : Stable find write) (t : Text) :
    Spelled find write (replaceMatches find write t) := by
  induction t using cut_induction h.consumes with
  | nil => exact .nil
  | plain c cs hc ih =>
    rw [replaceMatches_cons_of_none hc]
    exact .plain (h.plain c cs hc) ih
  | found t a n hc ih =>
    obtain ⟨b, hb, hwrite⟩ := h.found t a n hc
    rw [replaceMatches_of_some h.consumes hc]
    rw [← hwrite] at hb ⊢
    exact .found hb ih

/-- The texts that a stable respelling leaves alone are those it has spelled. -/
theorem replaceMatches_eq_iff (h : Stable find write) {t : Text} :
    replaceMatches find write t = t ↔ Spelled find write t := by
  constructor
  · intro heq
    rw [← heq]
    exact h.spelled_replaceMatches t
  · exact Spelled.replaceMatches_eq h.consumes

/-- A stable respelling is idempotent. -/
theorem replaceMatches_replaceMatches (h : Stable find write) (t : Text) :
    replaceMatches find write (replaceMatches find write t) = replaceMatches find write t :=
  (h.spelled_replaceMatches t).replaceMatches_eq h.consumes

end Stable

end Piece

end Devicetree
