-- SUMMARY: The characters of a class that texts hold, each as often as it occurs.
import Mathlib.Algebra.BigOperators.Group.Multiset.Basic
import Devicetree.Proofs.Text.LineFeeds
import Devicetree.Proofs.Text.Trimming

/-!
# Tallies

The tally of a text under a class of characters is the multiset of those of its
characters that the class admits. It forgets the order, so that of several texts is
a sum, and no rearrangement changes it. A class without blanks does not see trimming
either, nor where the text is cut into lines.
-/

namespace Devicetree

namespace Text

/-- The characters of a text that a class admits, each as often as it occurs. -/
def tally (p : Char → Bool) (t : Text) : Multiset Char :=
  ↑(t.filter p)

/-- The characters of some texts that a class admits, each as often as it occurs. -/
def tallies (p : Char → Bool) (ts : List Text) : Multiset Char :=
  (ts.map (tally p)).sum

variable {p : Char → Bool}

/-! ## One text -/

@[simp] theorem tally_nil : tally p [] = 0 := rfl

@[simp] theorem tally_append (u v : Text) : tally p (u ++ v) = tally p u + tally p v := by
  rw [tally, List.filter_append, ← Multiset.coe_add]
  rfl

theorem tally_congr {u v : Text} (h : u.filter p = v.filter p) : tally p u = tally p v := by
  rw [tally, h, tally]

theorem tally_cons_of_not {c : Char} (hc : ¬ p c) (t : Text) : tally p (c :: t) = tally p t :=
  tally_congr (List.filter_cons_of_neg hc)

theorem tally_eq_zero {t : Text} (h : ∀ c ∈ t, ¬ p c) : tally p t = 0 := by
  rw [tally, List.filter_eq_nil_iff.2 h]
  rfl

/-- How often one character occurs is the size of the tally of just that character. -/
theorem card_tally (c : Char) (t : Text) : (tally (· == c) t).card = t.count c := by
  rw [tally, Multiset.coe_card, List.count_eq_countP, List.countP_eq_length_filter]

/-- Trimming takes nothing away that is no blank. -/
theorem tally_trim (hp : ∀ c, p c → ¬ isBlank c) (t : Text) : tally p (trim t) = tally p t := by
  have hblank : ∀ w : Text, (∀ c ∈ w, isBlank c) → tally p w = 0 := fun w hw =>
    tally_eq_zero fun c hc hpc => hp c hpc (hw c hc)
  obtain ⟨w, hw, hend⟩ := exists_trimEnd_append (trimStart t)
  have hstart : t.takeWhile isBlank ++ trimStart t = t := List.takeWhile_append_dropWhile
  calc tally p (trim t)
      = tally p (trim t) + tally p w := by rw [hblank w hw, add_zero]
    _ = tally p (trimStart t) := by rw [← tally_append, trim, ← hend]
    _ = tally p (t.takeWhile isBlank) + tally p (trimStart t) := by
        rw [hblank _ fun c hc => List.mem_takeWhile_imp hc, zero_add]
    _ = tally p t := by rw [← tally_append, hstart]

/-! ## Several texts -/

@[simp] theorem tallies_nil : tallies p [] = 0 := rfl

@[simp] theorem tallies_cons (t : Text) (ts : List Text) :
    tallies p (t :: ts) = tally p t + tallies p ts := by
  simp [tallies]

@[simp] theorem tallies_append (ts us : List Text) :
    tallies p (ts ++ us) = tallies p ts + tallies p us := by
  simp [tallies]

theorem tallies_perm {ts us : List Text} (h : ts.Perm us) : tallies p ts = tallies p us :=
  (h.map _).sum_eq

theorem tallies_congr {α : Type} {g h : α → Text} {xs : List α}
    (hxs : ∀ x ∈ xs, tally p (g x) = tally p (h x)) :
    tallies p (xs.map g) = tallies p (xs.map h) := by
  rw [tallies, tallies, List.map_map, List.map_map]
  exact congrArg List.sum (List.map_congr_left hxs)

theorem tallies_flatMap {α : Type} (g : α → List Text) (xs : List α) :
    tallies p (xs.flatMap g) = (xs.map fun x => tallies p (g x)).sum := by
  induction xs with
  | nil => rfl
  | cons x xs ih => rw [List.flatMap_cons, tallies_append, ih, List.map_cons, List.sum_cons]

/-- Texts that hold a character equally often hold it that often each. -/
theorem card_tallies_of_count {c : Char} {n : Nat} {ts : List Text} (h : ∀ t ∈ ts, t.count c = n) :
    (tallies (· == c) ts).card = n * ts.length := by
  induction ts with
  | nil => rfl
  | cons t ts ih =>
    rw [tallies_cons, Multiset.card_add, card_tally, h t (by simp), ih fun u hu => h u (by simp [hu]),
      List.length_cons, Nat.mul_succ, Nat.add_comm]

/-- Putting line feeds between lines adds none of the characters of a class without them. -/
theorem tally_unlines (hp : ¬ p '\n') (ls : List Line) : tally p (unlines ls) = tallies p ls := by
  induction ls with
  | nil => rfl
  | cons l ls ih =>
    cases ls with
    | nil => simp [unlines]
    | cons k ks =>
      rw [unlines.eq_3 l (k :: ks) (by simp), tally_append, tally_cons_of_not hp, ih,
        tallies_cons l]

end Text

end Devicetree
