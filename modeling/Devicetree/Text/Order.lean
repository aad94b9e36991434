-- SUMMARY: The order of texts.
import Devicetree.Text.Blank

/-!
# The order of texts

Texts are ordered by the code points of the first two characters in which they differ,
and a text comes before every longer one that starts with it. The order is total, and
of two texts that are not the same only one comes before the other.
-/

namespace Devicetree

namespace Text

/-- Whether a text comes before another one or is the same. -/
def le : Text → Text → Bool
  | [], _ => true
  | _ :: _, [] => false
  | c :: cs, d :: ds => c.toNat < d.toNat || (c == d && le cs ds)

protected theorem le_refl (t : Text) : le t t := by
  induction t with
  | nil => rfl
  | cons c cs ih => simp [le, ih]

protected theorem le_total (s t : Text) : le s t || le t s := by
  induction s generalizing t with
  | nil => rfl
  | cons c cs ih =>
    cases t with
    | nil => rfl
    | cons d ds =>
      simp only [le, Bool.or_eq_true, decide_eq_true_eq, Bool.and_eq_true, beq_iff_eq]
      rcases Nat.lt_trichotomy c.toNat d.toNat with h | h | h
      · exact .inl (.inl h)
      · have hcd : c = d := Char.toNat_inj.1 h
        have hrest := ih ds
        simp only [Bool.or_eq_true] at hrest
        exact hrest.imp (fun h => .inr ⟨hcd, h⟩) (fun h => .inr ⟨hcd.symm, h⟩)
      · exact .inr (.inl h)

protected theorem le_trans {r s t : Text} (hrs : le r s) (hst : le s t) : le r t := by
  induction r generalizing s t with
  | nil => rfl
  | cons b bs ih =>
    cases s with
    | nil => simp [le] at hrs
    | cons c cs =>
      cases t with
      | nil => simp [le] at hst
      | cons d ds =>
        simp only [le, Bool.or_eq_true, decide_eq_true_eq, Bool.and_eq_true, beq_iff_eq]
          at hrs hst ⊢
        rcases hrs with hbc | ⟨rfl, hrest⟩
        · rcases hst with hcd | ⟨rfl, _⟩
          · exact .inl (Nat.lt_trans hbc hcd)
          · exact .inl hbc
        · exact hst.imp id fun ⟨hcd, h⟩ => ⟨hcd, ih hrest h⟩

protected theorem le_antisymm {s t : Text} (hst : le s t) (hts : le t s) : s = t := by
  induction s generalizing t with
  | nil =>
    cases t with
    | nil => rfl
    | cons d ds => simp [le] at hts
  | cons c cs ih =>
    cases t with
    | nil => simp [le] at hst
    | cons d ds =>
      simp only [le, Bool.or_eq_true, decide_eq_true_eq, Bool.and_eq_true, beq_iff_eq]
        at hst hts
      rcases hst with hcd | ⟨rfl, hrest⟩
      · rcases hts with hdc | ⟨rfl, _⟩
        · exact absurd hcd (Nat.lt_asymm hdc)
        · exact absurd hcd (Nat.lt_irrefl _)
      · rcases hts with hlt | ⟨_, hrest'⟩
        · exact absurd hlt (Nat.lt_irrefl _)
        · rw [ih hrest hrest']

end Text

end Devicetree
