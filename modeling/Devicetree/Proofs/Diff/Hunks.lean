-- SUMMARY: Spans cover both lists, groups of spans leave out equal elements only, and hunks show groups.
import Devicetree.Diff.Unified
import Devicetree.Proofs.Diff.Matchings

/-!
# Hunks

The spans of an alignment cover both lists from start to end, and what a span calls equal is
equal. Cutting spans down to a context and putting them into groups leaves out elements of equal
spans only, the same ones on both sides, and leaves some out between each two groups. A hunk shows
its group: its lines with one of two signs are those of one side, at the place that the header
states.
-/

namespace Devicetree

namespace Hunk

variable {α : Type}

/-- Between bounds that are not negative a slice is what it is called. -/
theorem slice_natCast (xs : List α) (i j : Nat) :
    slice xs (i : Int) (j : Int) = (xs.take j).drop i := by
  have hbound : ∀ n : Nat, bound xs.length (n : Int) = n := by
    intro n
    rw [bound, if_neg (by omega), Int.toNat_natCast]
  rw [slice, hbound, hbound]

@[simp] theorem slice_self (xs : List α) (i : Nat) : slice xs (i : Int) (i : Int) = [] := by
  rw [slice_natCast]
  exact List.drop_eq_nil_of_le (List.length_take_le i xs)

/-- A slice is cut at an element inside. -/
theorem slice_append (xs : List α) {i j k : Nat} (hij : i ≤ j) (hjk : j ≤ k) :
    slice xs (i : Int) (j : Int) ++ slice xs (j : Int) (k : Int) = slice xs (i : Int) (k : Int) := by
  have hbehind : xs.drop j = (xs.drop i).drop (j - i) := by
    rw [List.drop_drop, Nat.add_sub_cancel' hij]
  have hsize : k - i = (j - i) + (k - j) := by omega
  rw [slice_natCast, slice_natCast, slice_natCast, List.drop_take, List.drop_take, List.drop_take,
    hbehind, hsize, List.take_add]

/-- A slice up to the end is what stands behind its start. -/
theorem slice_length (xs : List α) (i : Nat) : slice xs (i : Int) (xs.length : Int) = xs.drop i := by
  rw [slice_natCast, List.take_length]

theorem slice_append_drop (xs : List α) {i j : Nat} (hij : i ≤ j) (hj : j ≤ xs.length) :
    slice xs (i : Int) (j : Int) ++ xs.drop j = xs.drop i := by
  rw [← slice_length, ← slice_length, slice_append xs hij hj]

theorem length_slice (xs : List α) {i j : Nat} (hij : i ≤ j) (hj : j ≤ xs.length) :
    i + (slice xs (i : Int) (j : Int)).length = j := by
  rw [slice_natCast, List.length_drop, List.length_take, Nat.min_eq_left hj,
    Nat.add_sub_cancel' hij]

theorem getElem?_slice (xs : List α) (i j k : Nat) :
    (slice xs (i : Int) (j : Int))[k]? = if i + k < j then xs[i + k]? else none := by
  rw [slice_natCast, List.getElem?_drop, List.getElem?_take]

/-- Slices of one size are equal if their elements are. -/
theorem slice_eq_iff {as bs : List α} {i j size : Nat} :
    slice as (i : Int) ((i + size : Nat) : Int) = slice bs (j : Int) ((j + size : Nat) : Int) ↔
      ∀ k < size, as[i + k]? = bs[j + k]? := by
  constructor
  · intro h k hk
    have hk' := congrArg (fun xs : List α => xs[k]?) h
    rwa [getElem?_slice, getElem?_slice, if_pos (by omega), if_pos (by omega)] at hk'
  · intro h
    refine List.ext_getElem? fun k => ?_
    rw [getElem?_slice, getElem?_slice]
    rcases Nat.lt_or_ge k size with hk | hk
    · rw [if_pos (by omega), if_pos (by omega), h k hk]
    · rw [if_neg (by omega), if_neg (by omega)]

/-- Equal slices are equal from and up to any element inside. -/
theorem slice_inside {as bs : List α} {i j size : Nat}
    (h : slice as (i : Int) ((i + size : Nat) : Int) = slice bs (j : Int) ((j + size : Nat) : Int))
    (first last : Nat) (hlast : first + last ≤ size) :
    slice as ((i + first : Nat) : Int) ((i + first + last : Nat) : Int) =
      slice bs ((j + first : Nat) : Int) ((j + first + last : Nat) : Int) := by
  refine slice_eq_iff.2 fun k hk => ?_
  rw [Nat.add_assoc, Nat.add_assoc]
  exact slice_eq_iff.1 h (first + k) (by omega)

end Hunk

namespace Span

open Hunk (slice slice_append slice_self slice_eq_iff slice_inside)

variable {α : Type} {as bs : List α}

/-! ## Covering -/

/-- Spans that cover two lists from elements `i` and `j` on up to `k` and `l`. -/
inductive Covers (as bs : List α) : (i j : Nat) → List Span → (k l : Nat) → Prop
  | nil {i j : Nat} : i ≤ as.length → j ≤ bs.length → Covers as bs i j [] i j
  | same {i j size k l : Nat} {rest : List Span} :
      slice as (i : Int) ((i + size : Nat) : Int) = slice bs (j : Int) ((j + size : Nat) : Int) →
      Covers as bs (i + size) (j + size) rest k l →
      Covers as bs i j
        (⟨true, (i : Int), ((i + size : Nat) : Int), (j : Int), ((j + size : Nat) : Int)⟩ :: rest) k l
  | differ {i j i' j' k l : Nat} {rest : List Span} : i ≤ i' → j ≤ j' →
      Covers as bs i' j' rest k l →
      Covers as bs i j (⟨false, (i : Int), (i' : Int), (j : Int), (j' : Int)⟩ :: rest) k l

theorem Covers.le {i j k l : Nat} {spans : List Span} (h : Covers as bs i j spans k l) :
    i ≤ k ∧ j ≤ l ∧ k ≤ as.length ∧ l ≤ bs.length := by
  induction h with
  | nil hleft hright => exact ⟨Nat.le_refl _, Nat.le_refl _, hleft, hright⟩
  | same _ _ ih => omega
  | differ hi hj _ ih => omega

/-- The first span starts where covering starts. -/
theorem Covers.start {i j k l : Nat} {first : Span} {rest : List Span}
    (h : Covers as bs i j (first :: rest) k l) : first.leftStart = i ∧ first.rightStart = j := by
  cases h <;> exact ⟨rfl, rfl⟩

/-- The last span stops where covering stops. -/
theorem Covers.stop {i j k l : Nat} {spans : List Span} (h : Covers as bs i j spans k l)
    (hne : spans ≠ []) :
    (spans.getLast hne).leftStop = k ∧ (spans.getLast hne).rightStop = l := by
  induction h with
  | nil => exact absurd rfl hne
  | @same _ _ _ _ _ rest _ hrest ih =>
    cases rest with
    | nil => cases hrest; exact ⟨rfl, rfl⟩
    | cons next rest => exact ih (List.cons_ne_nil _ _)
  | @differ _ _ _ _ _ _ rest _ _ hrest ih =>
    cases rest with
    | nil => cases hrest; exact ⟨rfl, rfl⟩
    | cons next rest => exact ih (List.cons_ne_nil _ _)

theorem Covers.append {i j k l m n : Nat} {spans more : List Span}
    (h : Covers as bs i j spans k l) (hmore : Covers as bs k l more m n) :
    Covers as bs i j (spans ++ more) m n := by
  induction h with
  | nil => exact hmore
  | same heq _ ih => exact .same heq (ih hmore)
  | differ hi hj _ ih => exact .differ hi hj (ih hmore)

/-- Equal elements in front of spans; if these start with equal ones, both make one span. -/
def joined (shared : Span) : List Span → List Span
  | [] => [shared]
  | next :: others =>
    if next.same then
      { shared with leftStop := next.leftStop, rightStop := next.rightStop } :: others
    else shared :: next :: others

theorem behind_cons (leftSize rightSize i j : Nat) (r : Run) (rs : List Run) :
    behind leftSize rightSize i j (r :: rs) =
      if i < r.left || j < r.right then
        ⟨false, i, r.left, j, r.right⟩
          :: joined ⟨true, r.left, (r.left + r.size : Nat), r.right, (r.right + r.size : Nat)⟩
            (behind leftSize rightSize (r.left + r.size) (r.right + r.size) rs)
      else
        joined ⟨true, r.left, (r.left + r.size : Nat), r.right, (r.right + r.size : Nat)⟩
          (behind leftSize rightSize (r.left + r.size) (r.right + r.size) rs) := by
  rw [behind]
  cases behind leftSize rightSize (r.left + r.size) (r.right + r.size) rs <;> rfl

/-- Equal elements in front of what is covered are covered with it. -/
theorem Covers.joined {i j size k l : Nat} {rest : List Span}
    (heq : slice as (i : Int) ((i + size : Nat) : Int) = slice bs (j : Int) ((j + size : Nat) : Int))
    (h : Covers as bs (i + size) (j + size) rest k l) :
    Covers as bs i j (joined ⟨true, i, (i + size : Nat), j, (j + size : Nat)⟩ rest) k l := by
  generalize hi : i + size = i', hj : j + size = j' at h heq ⊢
  cases h with
  | nil hleft hright => subst hi hj; exact .same heq (.nil hleft hright)
  | @same _ _ more _ _ others hmore hothers =>
    subst hi hj
    rw [Span.joined, if_pos rfl]
    dsimp only
    rw [Nat.add_assoc, Nat.add_assoc] at hothers hmore ⊢
    have hboth : slice as (i : Int) ((i + (size + more) : Nat) : Int) =
        slice bs (j : Int) ((j + (size + more) : Nat) : Int) := by
      rw [← slice_append as (j := i + size) (by omega) (by omega),
        ← slice_append bs (j := j + size) (by omega) (by omega), heq, hmore]
    exact .same hboth hothers
  | differ hi' hj' hothers =>
    subst hi hj
    rw [Span.joined, if_neg (by simp)]
    exact .same heq (.differ hi' hj' hothers)

/-- The spans behind elements cover what is behind them. -/
theorem covers_behind {i j : Nat} {rs : List Run} (h : Matching.Aligned as bs i j rs) :
    Covers as bs i j (behind as.length bs.length i j rs) as.length bs.length := by
  induction h with
  | @nil i j hleft hright =>
    rw [behind]
    split
    case isTrue => exact .differ hleft hright (.nil (Nat.le_refl _) (Nat.le_refl _))
    case isFalse hend =>
      have hend : i = as.length ∧ j = bs.length := by
        simp at hend
        omega
      obtain ⟨rfl, rfl⟩ := hend
      exact .nil (Nat.le_refl _) (Nat.le_refl _)
  | @cons i j r rs hi hj _ hmatches _ ih =>
    have hjoined := Covers.joined (slice_eq_iff.2 hmatches.eq) ih
    rw [behind_cons]
    split
    case isTrue => exact .differ hi hj hjoined
    case isFalse hstart =>
      have hstart : i = r.left ∧ j = r.right := by
        simp at hstart
        omega
      obtain ⟨rfl, rfl⟩ := hstart
      exact hjoined

theorem covers_ofLists [BEq α] [LawfulBEq α] (as bs : List α) :
    Covers as bs 0 0 (ofLists as bs) as.length bs.length :=
  covers_behind (Matching.aligned_runs as bs)

/-! ## Context -/

theorem keepEnd_same (n i j size : Nat) :
    keepEnd n ⟨true, i, (i + size : Nat), j, (j + size : Nat)⟩ =
      ⟨true, (i + (size - n) : Nat), (i + (size - n) + min size n : Nat),
        (j + (size - n) : Nat), (j + (size - n) + min size n : Nat)⟩ := by
  simp only [keepEnd, mk.injEq, true_and]
  omega

theorem keepStart_same (n i j size : Nat) :
    keepStart n ⟨true, i, (i + size : Nat), j, (j + size : Nat)⟩ =
      ⟨true, i, (i + min size n : Nat), j, (j + min size n : Nat)⟩ := by
  simp only [keepStart, mk.injEq, true_and]
  omega

/-- Cutting the first span leaves out equal elements. -/
theorem Covers.cutFirst {i j k l : Nat} {spans : List Span} (h : Covers as bs i j spans k l)
    (n : Nat) :
    ∃ i' j' : Nat, i ≤ i' ∧ j ≤ j' ∧ slice as (i : Int) (i' : Int) = slice bs (j : Int) (j' : Int) ∧
      Covers as bs i' j' (cutFirst n spans) k l := by
  cases h with
  | nil hleft hright =>
    exact ⟨i, j, Nat.le_refl _, Nat.le_refl _, by simp, .nil hleft hright⟩
  | @same _ _ size _ _ rest heq hrest =>
    have hsize : size - n + min size n = size := by omega
    refine ⟨i + (size - n), j + (size - n), by omega, by omega,
      slice_inside heq 0 (size - n) (by omega), ?_⟩
    rw [Span.cutFirst, if_pos rfl, keepEnd_same]
    refine .same (slice_inside heq (size - n) (min size n) (by omega)) ?_
    rwa [Nat.add_assoc, Nat.add_assoc, hsize]
  | differ hi hj hrest =>
    exact ⟨i, j, Nat.le_refl _, Nat.le_refl _, by simp, .differ hi hj hrest⟩

/-- Cutting the last span leaves out equal elements. -/
theorem Covers.cutLast {i j k l : Nat} {spans : List Span} (h : Covers as bs i j spans k l)
    (n : Nat) :
    ∃ k' l' : Nat, k' ≤ k ∧ l' ≤ l ∧ slice as (k' : Int) (k : Int) = slice bs (l' : Int) (l : Int) ∧
      Covers as bs i j (cutLast n spans) k' l' := by
  induction h with
  | @nil i j hleft hright =>
    exact ⟨i, j, Nat.le_refl _, Nat.le_refl _, by simp, .nil hleft hright⟩
  | @same i j size k l rest heq hrest ih =>
    cases rest with
    | nil =>
      cases hrest with
      | nil hleft hright =>
        have hsize : min size n + (size - n) = size := by omega
        refine ⟨i + min size n, j + min size n, by omega, by omega, ?_, ?_⟩
        · have hrest := slice_inside heq (min size n) (size - n) (by omega)
          rwa [Nat.add_assoc, Nat.add_assoc, hsize] at hrest
        · rw [Span.cutLast, if_pos rfl, keepStart_same]
          exact .same (slice_inside heq 0 (min size n) (by omega)) (.nil (by omega) (by omega))
    | cons next rest =>
      obtain ⟨k', l', hk, hl, hend, hcut⟩ := ih
      exact ⟨k', l', hk, hl, hend, .same heq hcut⟩
  | @differ i j i' j' k l rest hi hj hrest ih =>
    cases rest with
    | nil => exact ⟨k, l, Nat.le_refl _, Nat.le_refl _, by simp, .differ hi hj hrest⟩
    | cons next rest =>
      obtain ⟨k', l', hk, hl, hend, hcut⟩ := ih
      exact ⟨k', l', hk, hl, hend, .differ hi hj hcut⟩

/-! ## Groups -/

/-- Groups from elements `i` and `j` on, with equal elements in front of each and behind the
    last one. Unless the first group comes first of all, something is left out in front of it. -/
inductive Grouped (as bs : List α) : (first : Bool) → (i j : Nat) → List (List Span) → Prop
  | nil {first : Bool} {i j : Nat} :
      slice as (i : Int) (as.length : Int) = slice bs (j : Int) (bs.length : Int) →
      Grouped as bs first i j []
  | cons {first : Bool} {i j i' j' k l : Nat} {group : List Span} {groups : List (List Span)} :
      i ≤ i' → j ≤ j' → (first = false → i < i' ∧ j < j') →
      slice as (i : Int) (i' : Int) = slice bs (j : Int) (j' : Int) →
      group ≠ [] → Covers as bs i' j' group k l → Grouped as bs false k l groups →
      Grouped as bs first i j (group :: groups)

/-- A group that shows nothing covers equal elements. -/
theorem Covers.slice_eq {i j k l : Nat} {group : List Span} (h : Covers as bs i j group k l)
    (hnothing : showsNothing group = true) :
    slice as (i : Int) (k : Int) = slice bs (j : Int) (l : Int) := by
  cases h with
  | nil => simp
  | same heq hrest =>
    cases hrest with
    | nil => exact heq
    | same => cases hnothing
    | differ => cases hnothing
  | differ _ _ hrest =>
    cases hrest with
    | nil => cases hnothing
    | same => cases hnothing
    | differ => cases hnothing

/-- Putting spans into groups, with a group in front of them. -/
theorem grouped_groupFrom (n : Nat) {first : Bool} {i j i' j' k l m o : Nat}
    {group spans : List Span} (hi : i ≤ i') (hj : j ≤ j')
    (hfirst : first = false → i < i' ∧ j < j')
    (hfront : slice as (i : Int) (i' : Int) = slice bs (j : Int) (j' : Int))
    (hgroup : Covers as bs i' j' group k l) (hspans : Covers as bs k l spans m o)
    (hend : slice as (m : Int) (as.length : Int) = slice bs (o : Int) (bs.length : Int)) :
    Grouped as bs first i j (groupFrom n group spans) := by
  induction hspans generalizing first i j i' j' group with
  | @nil k l hleft hright =>
    obtain ⟨hik, hjl, -, -⟩ := hgroup.le
    rw [groupFrom]
    split
    case isTrue hnothing =>
      refine .nil ?_
      rw [← slice_append as hi (by omega), ← slice_append bs hj (by omega), hfront,
        ← slice_append as hik hleft, ← slice_append bs hjl hright, hgroup.slice_eq hnothing, hend]
    case isFalse hshows =>
      have hnonempty : group ≠ [] := by
        rintro rfl
        exact hshows rfl
      exact .cons hi hj hfirst hfront hnonempty hgroup (.nil hend)
  | @same k l size m o rest heq hrest ih =>
    obtain ⟨hkm, hlo, hm, ho⟩ := hrest.le
    rw [groupFrom]
    split
    case isTrue hlong =>
      have hlong : 2 * n < size := by
        simp at hlong
        omega
      rw [keepStart_same, keepEnd_same, Nat.min_eq_right (by omega)]
      have hclosed : Covers as bs i' j'
          (group ++ [⟨true, (k : Int), ((k + n : Nat) : Int), (l : Int), ((l + n : Nat) : Int)⟩])
          (k + n) (l + n) :=
        hgroup.append (.same (slice_inside heq 0 n (by omega)) (.nil (by omega) (by omega)))
      refine .cons hi hj hfirst hfront (by simp) hclosed ?_
      have hsize : size - n + n = size := by omega
      have hopened : Covers as bs (k + (size - n)) (l + (size - n))
          [⟨true, ((k + (size - n) : Nat) : Int), ((k + (size - n) + n : Nat) : Int),
            ((l + (size - n) : Nat) : Int), ((l + (size - n) + n : Nat) : Int)⟩]
          (k + size) (l + size) := by
        refine .same (slice_inside heq (size - n) n (by omega)) ?_
        rw [Nat.add_assoc, Nat.add_assoc, hsize]
        exact .nil (by omega) (by omega)
      have hbetween := slice_inside heq n (size - n - n) (by omega)
      have hskipped : ∀ p : Nat, p + n + (size - n - n) = p + (size - n) := by omega
      rw [hskipped, hskipped] at hbetween
      exact ih (by omega) (by omega) (fun _ => by omega) hbetween hopened hend
    case isFalse =>
      exact ih hi hj hfirst hfront
        (hgroup.append (.same heq (.nil (by omega) (by omega)))) hend
  | @differ k l k' l' m o rest hk hl hrest ih =>
    obtain ⟨hkm, hlo, hm, ho⟩ := hrest.le
    rw [groupFrom, if_neg (by simp)]
    exact ih hi hj hfirst hfront
      (hgroup.append (.differ hk hl (.nil (by omega) (by omega)))) hend

/-- What two lists share from start to end is in no group. -/
theorem groups_same (n size : Nat) :
    groups n [⟨true, (0 : Nat), (0 + size : Nat), (0 : Nat), (0 + size : Nat)⟩] = [] := by
  rw [groups]
  dsimp only [List.isEmpty_cons]
  rw [if_neg (by decide), cutFirst, if_pos rfl, keepEnd_same, cutLast, if_pos rfl, keepStart_same,
    groupFrom, if_neg, groupFrom, if_pos]
  · rfl
  · simp
    omega

/-- The groups of two lists. -/
theorem grouped_groups [BEq α] [LawfulBEq α] (n : Nat) (as bs : List α) :
    Grouped as bs true 0 0 (groups n (ofLists as bs)) := by
  have hcovers := covers_ofLists as bs
  cases hspans : ofLists as bs with
  | nil =>
    -- Two empty lists, which count as sharing one element.
    rw [hspans] at hcovers
    have hnone : groups n [] = [] := groups_same n 1
    generalize hleft : as.length = k, hright : bs.length = l at hcovers
    cases hcovers
    rw [hnone, List.length_eq_zero_iff.1 hleft, List.length_eq_zero_iff.1 hright]
    exact .nil rfl
  | cons s rest =>
    rw [hspans] at hcovers
    obtain ⟨i, j, hi, hj, hfront, hfirst⟩ := hcovers.cutFirst n
    obtain ⟨k, l, hk, hl, hend, hlast⟩ := hfirst.cutLast n
    obtain ⟨hik, hjl, -, -⟩ := hlast.le
    rw [groups]
    exact grouped_groupFrom n hi hj (by simp) hfront (.nil (by omega) (by omega)) hlast hend

end Span

end Devicetree
