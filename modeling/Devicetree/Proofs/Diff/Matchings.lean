-- SUMMARY: The runs of two lists are equal on both sides and in order; a list is one run of itself.
import Devicetree.Diff.Matching
import Mathlib.Data.List.Basic

/-!
# Matchings

The rows of the search for the longest run have a closed form: the entry for two elements is the
number of anchors that the lists share up to them. From it follows that a run is equal on both
sides, and so are the runs on either side of it, which makes them an alignment. Of a list and
itself the entries on the diagonal are the largest of their row and of their column, so that the
first longest run starts at the same element on both sides and is drawn out to the whole list.
-/

namespace Devicetree

/-- A run lies within both lists, and its elements are equal. -/
structure Run.Matches {α : Type} (as bs : List α) (r : Run) : Prop where
  left_le : r.left + r.size ≤ as.length
  right_le : r.right + r.size ≤ bs.length
  eq : ∀ k < r.size, as[r.left + k]? = bs[r.right + k]?

namespace Matching

variable {α : Type}

/-- Runs from elements `i` and `j` on, one behind the other on both sides. -/
inductive Aligned (as bs : List α) : (i j : Nat) → List Run → Prop
  | nil {i j : Nat} : i ≤ as.length → j ≤ bs.length → Aligned as bs i j []
  | cons {i j : Nat} {r : Run} {rs : List Run} : i ≤ r.left → j ≤ r.right → 0 < r.size →
      r.Matches as bs → Aligned as bs (r.left + r.size) (r.right + r.size) rs →
      Aligned as bs i j (r :: rs)

theorem Aligned.mono {as bs : List α} {i j i' j' : Nat} {rs : List Run} (h : Aligned as bs i j rs)
    (hi : i' ≤ i) (hj : j' ≤ j) : Aligned as bs i' j' rs := by
  cases h with
  | nil hleft hright => exact .nil (by omega) (by omega)
  | cons hleft hright hsize hmatches hrest =>
    exact .cons (by omega) (by omega) hsize hmatches hrest

variable [BEq α]

/-! ## Rows -/

/-- How many anchors two lists share right before their elements `i` and `j`. -/
def common (as : List α) (bs : List (α × Bool)) : (i j : Nat) → Nat
  | i + 1, j + 1 =>
    match as[i]?, bs[j]? with
    | some a, some (b, isAnchor) => if a == b && isAnchor then common as bs i j + 1 else 0
    | _, _ => 0
  | _, _ => 0

@[simp] theorem common_zero_left (as : List α) (bs : List (α × Bool)) (j : Nat) :
    common as bs 0 j = 0 := by
  rw [common]
  simp

@[simp] theorem common_zero_right (as : List α) (bs : List (α × Bool)) (i : Nat) :
    common as bs i 0 = 0 := by
  cases i <;> simp [common]

theorem common_succ {as : List α} {bs : List (α × Bool)} {i j : Nat} {a b : α} {isAnchor : Bool}
    (ha : as[i]? = some a) (hb : bs[j]? = some (b, isAnchor)) :
    common as bs (i + 1) (j + 1) = if a == b && isAnchor then common as bs i j + 1 else 0 := by
  rw [common, ha, hb]

/-- What is shared before two elements lies within both lists, and is equal. -/
theorem common_spec [LawfulBEq α] (as : List α) (bs : List (α × Bool)) (i j : Nat) :
    common as bs i j ≤ i ∧ common as bs i j ≤ j ∧
      ∀ k < common as bs i j, as[i - common as bs i j + k]? =
        (bs.map Prod.fst)[j - common as bs i j + k]? := by
  induction i generalizing j with
  | zero => simp
  | succ i ih =>
    cases j with
    | zero => simp
    | succ j =>
      rw [common]
      split
      case h_1 a b isAnchor ha hb =>
        split
        case isTrue heq =>
          obtain ⟨hleft, hright, hsame⟩ := ih j
          refine ⟨by omega, by omega, fun k hk => ?_⟩
          rw [Nat.add_sub_add_right, Nat.add_sub_add_right]
          cases Nat.lt_or_eq_of_le (Nat.le_of_lt_succ hk) with
          | inl hlt => exact hsame k hlt
          | inr hlast =>
            have hab : a = b := by simp_all
            rw [hlast, Nat.sub_add_cancel hleft, Nat.sub_add_cancel hright, ha, List.getElem?_map,
              hb, hab]
            rfl
        case isFalse => simp
      case h_2 => simp

/-- An entry of a row: one more than the entry before it in the row above, if the elements are
    an equal anchor. -/
theorem getElem?_endingAt (a : α) (above : List Nat) (bs : List (α × Bool)) (j : Nat) :
    (endingAt a above bs)[j]? = bs[j]?.map fun (b, isAnchor) =>
      if a == b && isAnchor then above[j]?.getD 0 + 1 else 0 := by
  induction bs generalizing above j with
  | nil => simp [endingAt]
  | cons b bs ih =>
    obtain ⟨b, isAnchor⟩ := b
    cases j with
    | zero => cases above <;> simp [endingAt]
    | succ j =>
      rw [endingAt, List.getElem?_cons_succ, List.getElem?_cons_succ, ih]
      cases above <;> simp

/-- Lengths of runs that end right before element `i` on the left, and at each one on the right. -/
def IsRow (as : List α) (bs : List (α × Bool)) (i : Nat) (lengths : List Nat) : Prop :=
  ∀ j < bs.length, lengths[j]?.getD 0 = common as bs i (j + 1)

theorem isRow_zero (as : List α) (bs : List (α × Bool)) : IsRow as bs 0 [] := by
  intro j _
  simp

/-- The row below a row. -/
theorem getElem?_row {as : List α} {bs : List (α × Bool)} {i : Nat} {a : α} {above : List Nat}
    (habove : IsRow as bs i above) (ha : as[i]? = some a) (j : Nat) :
    (endingAt a (0 :: above) bs)[j]? =
      if j < bs.length then some (common as bs (i + 1) (j + 1)) else none := by
  rw [getElem?_endingAt]
  split
  case isTrue hj =>
    have hb : bs[j]? = some (bs[j].1, bs[j].2) := by simp [hj]
    have hbefore : (0 :: above)[j]?.getD 0 = common as bs i j := by
      cases j with
      | zero => simp
      | succ j => exact habove j (by omega)
    rw [common_succ ha hb, hb]
    simp only [Option.map_some, hbefore]
  case isFalse hj => simp [Nat.le_of_not_lt hj]

theorem isRow_endingAt {as : List α} {bs : List (α × Bool)} {i : Nat} {a : α} {above : List Nat}
    (habove : IsRow as bs i above) (ha : as[i]? = some a) :
    IsRow as bs (i + 1) (endingAt a (0 :: above) bs) := by
  intro j hj
  rw [getElem?_row habove ha, if_pos hj]
  rfl

/-! ## The best run -/

/-- The best run is the best one so far, or one of the row. -/
theorem better_cases (i j : Nat) (best : Run) (lengths : List Nat) :
    better i j best lengths = best ∨
      ∃ k n, lengths[k]? = some n ∧ better i j best lengths = ⟨i + 1 - n, j + k + 1 - n, n⟩ := by
  induction lengths generalizing j best with
  | nil => exact .inl rfl
  | cons n ns ih =>
    rw [better]
    obtain hbest | ⟨k, m, hm, hbest⟩ := ih (j + 1) (if best.size < n then ⟨i + 1 - n, j + 1 - n, n⟩
      else best)
    · rw [hbest]
      split
      case isTrue => exact .inr ⟨0, n, rfl, rfl⟩
      case isFalse => exact .inl rfl
    · exact .inr ⟨k + 1, m, hm, by rw [hbest, Nat.add_right_comm j 1 k, Nat.add_assoc j k 1]⟩

/-- Runs that are not longer than the best one do not take its place. -/
theorem better_eq_self {i j : Nat} {best : Run} {lengths : List Nat}
    (h : ∀ n ∈ lengths, n ≤ best.size) : better i j best lengths = best := by
  induction lengths generalizing j with
  | nil => rfl
  | cons n ns ih =>
    rw [better, if_neg (Nat.not_lt.2 (h n (by simp)))]
    exact ih fun m hm => h m (by simp [hm])

theorem better_append (i j : Nat) (best : Run) (lengths more : List Nat) :
    better i j best (lengths ++ more) =
      better i (j + lengths.length) (better i j best lengths) more := by
  induction lengths generalizing j best with
  | nil => rfl
  | cons n ns ih =>
    rw [List.cons_append, better, better, ih, List.length_cons, Nat.add_right_comm, Nat.add_assoc]

/-- What each row preserves holds of the best run. -/
theorem longestFrom_induction (as : List α) (bs : List (α × Bool)) {P : Nat → Run → Prop}
    (zero : P 0 ⟨0, 0, 0⟩)
    (step : ∀ i best lengths, i < as.length →
      (∀ j, lengths[j]? = if j < bs.length then some (common as bs (i + 1) (j + 1)) else none) →
      P i best → P (i + 1) (better i 0 best lengths)) :
    P as.length (longestFrom bs 0 [] ⟨0, 0, 0⟩ as) := by
  suffices hfrom : ∀ (rest : List α) (i : Nat) (above : List Nat) (best : Run),
      i + rest.length = as.length → as.drop i = rest → IsRow as bs i above → P i best →
      P as.length (longestFrom bs i above best rest) from
    hfrom as 0 [] ⟨0, 0, 0⟩ (by simp) (by simp) (isRow_zero as bs) zero
  intro rest
  induction rest with
  | nil =>
    intro i above best hlength _ _ hbest
    rw [List.length_nil, Nat.add_zero] at hlength
    exact hlength ▸ hbest
  | cons a rest ih =>
    intro i above best hlength hdrop habove hbest
    rw [List.length_cons] at hlength
    have ha : as[i]? = some a := by
      have hhead : (as.drop i)[0]? = some a := by rw [hdrop]; rfl
      rwa [List.getElem?_drop, Nat.add_zero] at hhead
    have hrest : as.drop (i + 1) = rest := by
      rw [← List.drop_drop, hdrop]
      rfl
    exact ih (i + 1) _ _ (by omega) hrest (isRow_endingAt habove ha)
      (step i best _ (by omega) (getElem?_row habove ha) hbest)

/-! ## Drawing out -/

/-- Two lists share as many elements from the start as they are counted to share. -/
theorem sharedStart_spec [LawfulBEq α] (as : List α) (bs : List (α × Bool)) :
    sharedStart as bs ≤ as.length ∧ sharedStart as bs ≤ bs.length ∧
      ∀ k < sharedStart as bs, as[k]? = (bs.map Prod.fst)[k]? := by
  induction as generalizing bs with
  | nil => simp [sharedStart]
  | cons a as ih =>
    cases bs with
    | nil => simp [sharedStart]
    | cons b bs =>
      rw [sharedStart]
      split
      case isTrue heq =>
        obtain ⟨hleft, hright, hsame⟩ := ih bs
        refine ⟨by simpa using hleft, by simpa using hright, fun k hk => ?_⟩
        cases k with
        | zero => simpa using heq
        | succ k => simpa using hsame k (Nat.lt_of_succ_lt_succ hk)
      case isFalse => simp

theorem sharedStart_map [LawfulBEq α] (as : List α) (f : α → Bool) :
    sharedStart as (as.map fun a => (a, f a)) = as.length := by
  induction as with
  | nil => rfl
  | cons a as ih => simp [sharedStart, ih]

/-- A run that is drawn out still matches. -/
theorem matches_drawOut [LawfulBEq α] {as : List α} {bs : List (α × Bool)} {r : Run}
    (h : r.Matches as (bs.map Prod.fst)) : (drawOut as bs r).Matches as (bs.map Prod.fst) := by
  obtain ⟨hleft, hright, hsame⟩ := h
  rw [List.length_map] at hright
  obtain ⟨hfirst, hfirst', hbefore⟩ :=
    sharedStart_spec (as.take r.left).reverse (bs.take r.right).reverse
  obtain ⟨hlast, hlast', hbehind⟩ :=
    sharedStart_spec (as.drop (r.left + r.size)) (bs.drop (r.right + r.size))
  rw [List.length_reverse, List.length_take] at hfirst hfirst'
  rw [List.length_drop] at hlast hlast'
  rw [drawOut]
  generalize sharedStart (as.take r.left).reverse (bs.take r.right).reverse = before at *
  generalize sharedStart (as.drop (r.left + r.size)) (bs.drop (r.right + r.size)) = behind at *
  refine ⟨by dsimp only; omega, by rw [List.length_map]; dsimp only; omega, fun k hk => ?_⟩
  dsimp only at hk ⊢
  -- The element stands before the run, in it or behind it.
  rcases Nat.lt_or_ge k before with hk | hk
  · have heq := hbefore (before - 1 - k) (by omega)
    rw [List.map_reverse, List.getElem?_reverse (by simp; omega),
      List.getElem?_reverse (by simp; omega), List.map_take, List.getElem?_take, List.getElem?_take,
      if_pos (by simp; omega), if_pos (by simp; omega)] at heq
    simp only [List.length_take, List.length_map] at heq
    convert heq using 2 <;> omega
  · rcases Nat.lt_or_ge k (before + r.size) with hk | hk
    · have heq := hsame (k - before) (by omega)
      convert heq using 2 <;> omega
    · have heq := hbehind (k - before - r.size) (by omega)
      rw [List.map_drop, List.getElem?_drop, List.getElem?_drop] at heq
      convert heq using 2 <;> omega

/-- The best run of anchors matches. -/
theorem matches_longestFrom [LawfulBEq α] (as : List α) (bs : List (α × Bool)) :
    (longestFrom bs 0 [] ⟨0, 0, 0⟩ as).Matches as (bs.map Prod.fst) := by
  refine longestFrom_induction as bs (P := fun _ best => best.Matches as _)
    ⟨by simp, by simp, by simp⟩ fun i best lengths hi hlengths hbest => ?_
  obtain heq | ⟨j, n, hn, heq⟩ := better_cases i 0 best lengths
  · rw [heq]
    exact hbest
  · rw [hlengths] at hn
    split at hn
    case isTrue hj =>
      obtain rfl := Option.some.inj hn
      obtain ⟨hleft, hright, hsame⟩ := common_spec as bs (i + 1) (j + 1)
      rw [heq, Nat.zero_add]
      exact ⟨by dsimp only; omega, by rw [List.length_map]; dsimp only; omega, hsame⟩
    case isFalse => cases hn

/-- The run at which two lists are aligned matches. -/
theorem matches_longest [LawfulBEq α] (as : List α) (bs : List (α × Bool)) :
    (longest as bs).Matches as (bs.map Prod.fst) :=
  matches_drawOut (matches_longestFrom as bs)

/-! ## All runs -/

/-- A list is a window of another one from element `i` on. -/
def IsWindow (whole : List α) (i : Nat) (part : List α) : Prop :=
  i + part.length ≤ whole.length ∧ ∀ k < part.length, part[k]? = whole[i + k]?

omit [BEq α] in
theorem IsWindow.refl (whole : List α) : IsWindow whole 0 whole :=
  ⟨by omega, fun k _ => by rw [Nat.zero_add]⟩

omit [BEq α] in
theorem IsWindow.take {whole part : List α} {i n : Nat} (h : IsWindow whole i part)
    (hn : n ≤ part.length) : IsWindow whole i (part.take n) := by
  rw [IsWindow, List.length_take, Nat.min_eq_left hn]
  refine ⟨by have := h.1; omega, fun k hk => ?_⟩
  rw [List.getElem?_take, if_pos hk, h.2 k (by omega)]

omit [BEq α] in
theorem IsWindow.drop {whole part : List α} {i n : Nat} (h : IsWindow whole i part)
    (hn : n ≤ part.length) : IsWindow whole (i + n) (part.drop n) := by
  rw [IsWindow, List.length_drop]
  refine ⟨by have := h.1; omega, fun k hk => ?_⟩
  rw [List.getElem?_drop, h.2 (n + k) (by omega), Nat.add_assoc]

omit [BEq α] in
/-- A run of two windows is a run of the whole lists. -/
theorem matches_of_windows {whole other part part' : List α} {i j : Nat} {r : Run}
    (hleft : IsWindow whole i part) (hright : IsWindow other j part') (h : r.Matches part part') :
    Run.Matches whole other ⟨i + r.left, j + r.right, r.size⟩ := by
  have hpart := h.left_le
  have hpart' := h.right_le
  refine ⟨by have := hleft.1; dsimp only; omega, by have := hright.1; dsimp only; omega,
    fun k hk => ?_⟩
  dsimp only at hk ⊢
  rw [Nat.add_assoc, Nat.add_assoc, ← hleft.2 _ (by omega), ← hright.2 _ (by omega), h.eq k hk]

/-- The runs of two windows are aligned in the whole lists, with runs behind the windows. -/
theorem aligned_runsFrom [LawfulBEq α] {whole other : List α} (nesting i j : Nat)
    {as : List α} {bs : List (α × Bool)} {rest : List Run} (has : IsWindow whole i as)
    (hbs : IsWindow other j (bs.map Prod.fst))
    (hrest : Aligned whole other (i + as.length) (j + bs.length) rest) :
    Aligned whole other i j (runsFrom nesting i j as bs ++ rest) := by
  induction nesting generalizing i j as bs rest with
  | zero => exact hrest.mono (by omega) (by omega)
  | succ nesting ih =>
    rw [runsFrom]
    have hmatches := matches_longest as bs
    generalize longest as bs = r at hmatches
    have hleft := hmatches.left_le
    have hright := hmatches.right_le
    rw [List.length_map] at hright
    split
    case isTrue => exact hrest.mono (by omega) (by omega)
    case isFalse hsize =>
      have hbehind : Aligned whole other (i + (r.left + r.size)) (j + (r.right + r.size))
          (runsFrom nesting (i + (r.left + r.size)) (j + (r.right + r.size))
            (as.drop (r.left + r.size)) (bs.drop (r.right + r.size)) ++ rest) := by
        refine ih _ _ (has.drop hleft) ?_ ?_
        · rw [List.map_drop]
          exact hbs.drop (by simpa using hright)
        · rw [List.length_drop, List.length_drop]
          exact hrest.mono (by omega) (by omega)
      rw [List.append_assoc, List.cons_append]
      refine ih i j (has.take (by omega)) ?_ ?_
      · rw [List.map_take]
        exact hbs.take (by rw [List.length_map]; omega)
      · rw [List.length_take, List.length_take, Nat.min_eq_left (by omega),
          Nat.min_eq_left (by omega)]
        refine .cons (Nat.le_refl _) (Nat.le_refl _) (Nat.pos_of_ne_zero hsize)
          (matches_of_windows has hbs hmatches) ?_
        rw [Nat.add_assoc, Nat.add_assoc]
        exact hbehind

@[simp] theorem map_fst_withAnchors (bs : List α) : (withAnchors bs).map Prod.fst = bs := by
  rw [withAnchors]
  split <;> simp [Function.comp_def]

/-- The runs of two lists are an alignment. -/
theorem aligned_runs [LawfulBEq α] (as bs : List α) : Aligned as bs 0 0 (runs as bs) := by
  have hlength : (withAnchors bs).length = bs.length := by
    rw [← List.length_map (f := Prod.fst), map_fst_withAnchors]
  have hright : IsWindow bs 0 ((withAnchors bs).map Prod.fst) :=
    (map_fst_withAnchors bs).symm ▸ IsWindow.refl bs
  rw [runs, ← List.append_nil (runsFrom _ _ _ _ _)]
  exact aligned_runsFrom as.length 0 0 (IsWindow.refl as) hright (.nil (by omega) (by omega))

/-! ## A list and itself -/

/-- Whether an element is an anchor depends on the element alone. -/
theorem withAnchors_eq_map (bs : List α) :
    ∃ isAnchor : α → Bool, withAnchors bs = bs.map fun b => (b, isAnchor b) := by
  rw [withAnchors]
  split
  case isTrue => exact ⟨_, rfl⟩
  case isFalse => exact ⟨fun _ => true, rfl⟩

section Same

variable [LawfulBEq α] (as : List α) (isAnchor : α → Bool)

/-- No entry exceeds the one on the diagonal in its row, or in its column. -/
theorem common_le_diagonal (i j : Nat) :
    common as (as.map fun a => (a, isAnchor a)) i j ≤
        common as (as.map fun a => (a, isAnchor a)) i i ∧
      common as (as.map fun a => (a, isAnchor a)) i j ≤
        common as (as.map fun a => (a, isAnchor a)) j j := by
  induction i generalizing j with
  | zero => simp
  | succ i ih =>
    cases j with
    | zero => simp
    | succ j =>
      cases ha : as[i]? with
      | none => simp [common, ha]
      | some a =>
        cases hb : as[j]? with
        | none => simp [common, ha, hb]
        | some b =>
          have hmark : ∀ {k : Nat} {c : α}, as[k]? = some c →
              (as.map fun a => (a, isAnchor a))[k]? = some (c, isAnchor c) := by
            intro k c hc
            rw [List.getElem?_map, hc]
            rfl
          rw [common_succ ha (hmark hb), common_succ ha (hmark ha), common_succ hb (hmark hb)]
          split
          case isTrue heq =>
            obtain ⟨hab, hanchor⟩ : a = b ∧ isAnchor b = true := by simpa using heq
            obtain ⟨hrow, hcolumn⟩ := ih j
            simp only [hab, hanchor, beq_self_eq_true, Bool.and_self, if_true]
            omega
          case isFalse => simp

/-- The best run of a list and itself starts at the same element on both sides. -/
theorem left_longestFrom_self :
    (longestFrom (as.map fun a => (a, isAnchor a)) 0 [] ⟨0, 0, 0⟩ as).left =
      (longestFrom (as.map fun a => (a, isAnchor a)) 0 [] ⟨0, 0, 0⟩ as).right := by
  have hspec := longestFrom_induction as (as.map fun a => (a, isAnchor a))
    (P := fun i best => best.left = best.right ∧
      ∀ k ≤ i, common as (as.map fun a => (a, isAnchor a)) k k ≤ best.size)
  refine (hspec ⟨rfl, by simp⟩ ?_).1
  intro i best lengths hi hlengths ⟨hbest, hlongest⟩
  have hdiagonal := common_le_diagonal as isAnchor
  generalize hentry : common as (as.map fun a => (a, isAnchor a)) = entry at *
  rw [List.length_map] at hlengths
  obtain ⟨hlt, hget⟩ := List.getElem?_eq_some_iff.1 ((hlengths i).trans (if_pos hi))
  -- The entries in front of the diagonal are no larger than those of earlier rows, and the ones
  -- behind it no larger than the entry on it.
  have hsplit : lengths = lengths.take i ++ entry (i + 1) (i + 1) :: lengths.drop (i + 1) := by
    rw [← hget, ← List.drop_eq_getElem_cons hlt, List.take_append_drop]
  have hfront : better i 0 best (lengths.take i) = best := by
    refine better_eq_self fun n hn => ?_
    obtain ⟨j, hj⟩ := List.mem_iff_getElem?.1 hn
    rw [List.getElem?_take, hlengths] at hj
    split at hj
    case isTrue hlt =>
      rw [if_pos (by omega)] at hj
      obtain rfl := Option.some.inj hj
      exact Nat.le_trans (hdiagonal (i + 1) (j + 1)).2 (hlongest (j + 1) hlt)
    case isFalse => cases hj
  have hbehind : ∀ n ∈ lengths.drop (i + 1), n ≤ entry (i + 1) (i + 1) := by
    intro n hn
    obtain ⟨j, hj⟩ := List.mem_iff_getElem?.1 hn
    rw [List.getElem?_drop, hlengths] at hj
    split at hj
    case isTrue =>
      obtain rfl := Option.some.inj hj
      exact (hdiagonal (i + 1) _).1
    case isFalse => cases hj
  have hlength : (lengths.take i).length = i := by
    rw [List.length_take, Nat.min_eq_left (Nat.le_of_lt hlt)]
  rw [hsplit, better_append, hfront, hlength, Nat.zero_add, better]
  split
  case isTrue hlonger =>
    rw [better_eq_self hbehind]
    refine ⟨rfl, fun k hk => ?_⟩
    rcases Nat.lt_or_eq_of_le hk with hk | rfl
    · exact Nat.le_trans (hlongest k (Nat.le_of_lt_succ hk)) (Nat.le_of_lt hlonger)
    · exact Nat.le_refl _
  case isFalse hlonger =>
    rw [better_eq_self fun n hn => Nat.le_trans (hbehind n hn) (Nat.not_lt.1 hlonger)]
    refine ⟨hbest, fun k hk => ?_⟩
    rcases Nat.lt_or_eq_of_le hk with hk | rfl
    · exact hlongest k (Nat.le_of_lt_succ hk)
    · exact Nat.not_lt.1 hlonger

/-- The longest run of a list and itself is the whole list. -/
theorem longest_self :
    longest as (as.map fun a => (a, isAnchor a)) = ⟨0, 0, as.length⟩ := by
  rw [longest]
  have hfits := (matches_longestFrom as (as.map fun a => (a, isAnchor a))).left_le
  have hdiagonal := left_longestFrom_self as isAnchor
  generalize longestFrom (as.map fun a => (a, isAnchor a)) 0 [] ⟨0, 0, 0⟩ as = r at *
  have hbefore : sharedStart (as.take r.left).reverse
      ((as.map fun a => (a, isAnchor a)).take r.left).reverse = r.left := by
    rw [← List.map_take, ← List.map_reverse, sharedStart_map, List.length_reverse,
      List.length_take, Nat.min_eq_left (by omega)]
  have hbehind : sharedStart (as.drop (r.left + r.size))
      ((as.map fun a => (a, isAnchor a)).drop (r.left + r.size)) =
      as.length - (r.left + r.size) := by
    rw [← List.map_drop, sharedStart_map, List.length_drop]
  rw [drawOut, ← hdiagonal, hbefore, hbehind, Nat.sub_self, Run.mk.injEq]
  exact ⟨rfl, rfl, by omega⟩

end Same

/-- A list that is not empty is one run of itself. -/
theorem runs_self [LawfulBEq α] {as : List α} (h : as ≠ []) :
    runs as as = [⟨0, 0, as.length⟩] := by
  obtain ⟨isAnchor, hanchors⟩ := withAnchors_eq_map as
  obtain ⟨n, hn⟩ := Nat.exists_eq_succ_of_ne_zero (List.length_eq_zero_iff.not.2 h)
  have hnone : ∀ nesting i j, runsFrom nesting i j ([] : List α) [] = [] := by
    intro nesting i j
    cases nesting <;> rfl
  have hrest : as.drop (n + 1) = [] := by rw [← Nat.succ_eq_add_one, ← hn, List.drop_length]
  rw [runs, hanchors, hn, runsFrom, longest_self, hn]
  simp [hnone, hrest, ← List.map_drop]

end Matching

end Devicetree
