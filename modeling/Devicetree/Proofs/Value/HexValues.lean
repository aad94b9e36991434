-- SUMMARY: Respelled literals stand where the old ones stood, and have their values.
import Devicetree.Proofs.Value.HexLiterals

/-!
# Values of literals

A text can be cut into literals and the characters between them in one way only, for no
literal is passed over and each takes all the digits there are. A respelled text starts
with the character it started with before, so a literal still starts nowhere else, and
ends where it did. The new text is cut at the places of the old one, with the same
characters between its literals, and each literal has the value of the one in whose
place it stands.
-/

namespace Devicetree

namespace HexLiteral

open Piece

/-! ## Cuts -/

/-- A literal starts here: a mark, and a digit at least. -/
def Starts (t : Text) : Prop :=
  ∃ d es, t = '0' :: 'x' :: d :: es ∧ Hex.isDigit d

/-- A text cut at its literals, from the left: a character is passed over only if no literal
starts there, and a literal ends only where the digits do. -/
inductive IsCut : Text → List (Piece Text) → Prop where
  | nil : IsCut [] []
  | plain {c : Char} {cs : Text} {ps : List (Piece Text)} :
      ¬ Starts (c :: cs) → IsCut cs ps → IsCut (c :: cs) (.plain c :: ps)
  | found {ds rest : Text} {ps : List (Piece Text)} :
      ds ≠ [] → (∀ d ∈ ds, Hex.isDigit d) → EndsDigits rest → IsCut rest ps →
        IsCut ('0' :: 'x' :: (ds ++ rest)) (.found ds :: ps)

theorem find_eq_none_iff {t : Text} : find t = none ↔ ¬ Starts t := by
  rw [Starts, ← find_isSome_iff, Option.not_isSome_iff_eq_none]

theorem cut_literal {ds rest : Text} (hne : ds ≠ []) (hds : ∀ d ∈ ds, Hex.isDigit d)
    (hrest : EndsDigits rest) :
    cut find ('0' :: 'x' :: (ds ++ rest)) = .found ds :: cut find rest := by
  have hfind := find_eq_some_iff.2 ⟨hne, hds, rfl, rest, rfl, hrest⟩
  rw [cut_cons_of_some hfind]
  simp

/-- There is one way to cut a text. -/
theorem isCut_iff {t : Text} {ps : List (Piece Text)} : IsCut t ps ↔ cut find t = ps := by
  constructor
  · intro h
    induction h with
    | nil => rfl
    | plain hc _ ih => rw [cut_cons_of_none (find_eq_none_iff.2 hc), ih]
    | found hne hds hrest _ ih => rw [cut_literal hne hds hrest, ih]
  · rintro rfl
    induction t using cut_induction find_consumes with
    | nil => exact .nil
    | plain c cs hc ih =>
      rw [cut_cons_of_none hc]
      exact .plain (find_eq_none_iff.1 hc) ih
    | found t ds n hc ih =>
      obtain ⟨hne, hds, rfl, rest, rfl, hrest⟩ := find_eq_some_iff.1 hc
      rw [drop_marked] at ih
      rw [cut_literal hne hds hrest]
      exact .found hne hds hrest ih

/-! ## Digits in their new spelling -/

/-- Digits that stand for the same number, in lower case and even in number, of which there
are as many as before or one more. -/
structure Respells (ds es : Text) : Prop where
  value : ∃ v, Hex.read? ds = some v ∧ Hex.read? es = some v
  small : ∀ e ∈ es, e.isDigit ∨ 'a' ≤ e ∧ e ≤ 'f'
  even : es.length % 2 = 0
  le_length : ds.length ≤ es.length
  length_le : es.length ≤ ds.length + 1

theorem read?_canonicalDigits (ds : Text) : Hex.read? (canonicalDigits ds) = Hex.read? ds := by
  rw [canonicalDigits]
  split
  · rw [Hex.read?_zero_cons, Hex.read?_map_lower]
  · exact Hex.read?_map_lower ds

theorem respells_canonicalDigits {ds : Text} (hds : ∀ d ∈ ds, Hex.isDigit d) :
    Respells ds (canonicalDigits ds) := by
  have hsmall : ∀ e ∈ ds.map Hex.lower, e.isDigit ∨ 'a' ≤ e ∧ e ≤ 'f' := by
    intro e he
    obtain ⟨d, hd, rfl⟩ := List.mem_map.1 he
    exact Hex.isLower_lower (hds d hd)
  have hvalue : ∃ v, Hex.read? ds = some v ∧ Hex.read? (canonicalDigits ds) = some v := by
    obtain ⟨v, hv⟩ := Option.isSome_iff_exists.1 (Hex.isSome_read?_iff.2 hds)
    exact ⟨v, hv, by rw [read?_canonicalDigits, hv]⟩
  by_cases hodd : ds.length % 2 = 1
  · have hpadded : canonicalDigits ds = '0' :: ds.map Hex.lower := if_pos hodd
    have hlength : (canonicalDigits ds).length = ds.length + 1 := by simp [hpadded]
    refine ⟨hvalue, ?_, by omega, by omega, by omega⟩
    rw [hpadded]
    intro e he
    rcases List.mem_cons.1 he with rfl | he
    · exact .inl (by decide)
    · exact hsmall e he
  · have hlower : canonicalDigits ds = ds.map Hex.lower := if_neg hodd
    have hlength : (canonicalDigits ds).length = ds.length := by simp [hlower]
    exact ⟨hvalue, hlower ▸ hsmall, by omega, by omega, by omega⟩

/-! ## Texts -/

/-- A piece of a text and the piece that stands in its place. -/
inductive Replaces : Piece Text → Piece Text → Prop where
  | plain (c : Char) : Replaces (.plain c) (.plain c)
  | found {ds es : Text} : Respells ds es → Replaces (.found ds) (.found es)

/-- A cut of a text gives one of the respelled text, with a literal in place of each. -/
theorem IsCut.normalize {t : Text} {ps : List (Piece Text)} (h : IsCut t ps) :
    ∃ qs, IsCut (normalize t) qs ∧ List.Forall₂ Replaces ps qs := by
  induction h with
  | nil => exact ⟨[], .nil, .nil⟩
  | @plain c cs ps hc _ ih =>
    obtain ⟨qs, hqs, hreplaces⟩ := ih
    have hnone : find (c :: cs) = none := find_eq_none_iff.2 hc
    have hkept : ¬ Starts (c :: HexLiteral.normalize cs) :=
      find_eq_none_iff.1 (find_cons_normalize_eq_none hnone)
    rw [normalize_cons_of_none hnone]
    exact ⟨.plain c :: qs, .plain hkept hqs, .cons (.plain c) hreplaces⟩
  | @found ds rest ps hne hds hrest _ ih =>
    obtain ⟨qs, hqs, hreplaces⟩ := ih
    have hends : EndsDigits (HexLiteral.normalize rest) := by
      intro c hc
      rw [head?_normalize] at hc
      exact hrest c hc
    rw [normalize_marked hne hds hrest]
    exact ⟨.found (canonicalDigits ds) :: qs,
      .found (canonicalDigits_ne_nil hne) (isDigit_of_mem_canonicalDigits hds) hends hqs,
      .cons (.found (respells_canonicalDigits hds)) hreplaces⟩

/-- Cut at their literals, a text and its respelling are the same but for the spelling of each
literal, which stands for the same number in lower case and an even number of digits, padded
by one at most. Respelling twice is respelling once. -/
theorem cut_normalize (t : Text) :
    ∃ ps qs, (∀ rs, IsCut t rs ↔ rs = ps) ∧ (∀ rs, IsCut (normalize t) rs ↔ rs = qs) ∧
      List.Forall₂ Replaces ps qs ∧ normalize (normalize t) = normalize t := by
  have honly : ∀ (u : Text) (rs : List (Piece Text)), IsCut u rs ↔ rs = cut find u :=
    fun u rs => isCut_iff.trans eq_comm
  obtain ⟨qs, hqs, hreplaces⟩ := IsCut.normalize (isCut_iff.2 (rfl : cut find t = _))
  obtain rfl := (honly _ qs).1 hqs
  exact ⟨_, _, honly t, honly (normalize t), hreplaces, normalize_normalize t⟩

/-- The second of two marks that share a zero is none, and digits in front of a mark are no part
of its literal. -/
example : normalize "0x0x1 10xAbC".toList = "0x00x1 10x0abc".toList := by decide

end HexLiteral

end Devicetree
