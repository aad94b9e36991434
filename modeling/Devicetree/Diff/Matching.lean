-- SUMMARY: The runs of equal elements by which two lists are aligned.

/-!
# Matching

Two lists are aligned at the longest run of elements that they share; the lists on
either side of it are aligned in the same way. Of several longest runs the one that
starts first on the left is taken, and of those the one that starts first on the
right. A run is looked for at anchors only, the elements that are not too common on
the right, and is then drawn out over whatever is equal on both sides of it.
-/

namespace Devicetree

/-- A run of equal elements: where it starts on either side, and its length. -/
structure Run where
  left : Nat
  right : Nat
  size : Nat
deriving DecidableEq, Repr

namespace Matching

variable {α : Type} [BEq α]

-- ---------------------------------------------------------------------------
-- Anchors
-- ---------------------------------------------------------------------------

/-- Long lists have common elements, which are no anchors. -/
def longList : Nat := 200

/-- Pair each element of the right list with whether it is an anchor: in a long list,
    one that does not occur more than once per hundred elements and once besides. -/
def withAnchors (bs : List α) : List (α × Bool) :=
  if longList ≤ bs.length then
    bs.map fun b => (b, decide (bs.countP (· == b) ≤ bs.length / 100 + 1))
  else bs.map fun b => (b, true)


-- ---------------------------------------------------------------------------
-- The longest run
-- ---------------------------------------------------------------------------

/-- For each position on the right, the length of the longest run that ends there and
    at the element `a` on the left. `above` holds, shifted by one, these lengths for
    the element before `a`. -/
def endingAt (a : α) : (above : List Nat) → List (α × Bool) → List Nat
  | _, [] => []
  | above, (b, isAnchor) :: bs =>
    (if a == b && isAnchor then above.headD 0 + 1 else 0) :: endingAt a above.tail bs

/-- Keep the best run, given the lengths of those that end at element `i` on the left
    and at `j`, `j + 1`, … on the right. -/
def better (i : Nat) : (j : Nat) → Run → List Nat → Run
  | _, best, [] => best
  | j, best, n :: ns =>
    better i (j + 1) (if best.size < n then ⟨i + 1 - n, j + 1 - n, n⟩ else best) ns

/-- The best run of anchors, given the best that ends before element `i` on the left. -/
def longestFrom (bs : List (α × Bool)) : (i : Nat) → (above : List Nat) → Run → List α → Run
  | _, _, best, [] => best
  | i, above, best, a :: as =>
    let lengths := endingAt a (0 :: above) bs
    longestFrom bs (i + 1) lengths (better i 0 best lengths) as

/-- How many elements two lists share from the start. -/
def sharedStart : List α → List (α × Bool) → Nat
  | a :: as, (b, _) :: bs => if a == b then sharedStart as bs + 1 else 0
  | _, _ => 0

/-- Draw a run out over all equal elements before and behind it. -/
def drawOut (as : List α) (bs : List (α × Bool)) (r : Run) : Run :=
  let before := sharedStart (as.take r.left).reverse (bs.take r.right).reverse
  let behind := sharedStart (as.drop (r.left + r.size)) (bs.drop (r.right + r.size))
  ⟨r.left - before, r.right - before, before + r.size + behind⟩

/-- The run at which two lists are aligned; its size is zero if there is none. -/
def longest (as : List α) (bs : List (α × Bool)) : Run :=
  drawOut as bs (longestFrom bs 0 [] ⟨0, 0, 0⟩ as)


-- ---------------------------------------------------------------------------
-- All runs
-- ---------------------------------------------------------------------------

/-- The runs of two lists that start at elements `i` and `j`. A run takes an element of
    the left list, so the length of that list bounds the nesting. -/
def runsFrom : (nesting : Nat) → (i j : Nat) → List α → List (α × Bool) → List Run
  | 0, _, _, _, _ => []
  | nesting + 1, i, j, as, bs =>
    let r := longest as bs
    if r.size = 0 then []
    else
      let left := r.left + r.size
      let right := r.right + r.size
      runsFrom nesting i j (as.take r.left) (bs.take r.right)
        ++ ⟨i + r.left, j + r.right, r.size⟩
        :: runsFrom nesting (i + left) (j + right) (as.drop left) (bs.drop right)

/-- The runs by which two lists are aligned, in order. -/
def runs (as bs : List α) : List Run :=
  runsFrom as.length 0 0 as (withAnchors bs)

/-- How many elements are matched. -/
def matchedCount (as bs : List α) : Nat :=
  (runs as bs).foldl (fun count r => count + r.size) 0

end Matching

end Devicetree
