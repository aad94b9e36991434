-- SUMMARY: Respelling hexadecimal literals: idempotent, and local to the words of a text.
import Mathlib.Data.List.TakeWhile
import Devicetree.Proofs.Text.HexDigits
import Devicetree.Proofs.Value.Respelling
import Devicetree.Value.HexLiteral

/-!
# Hexadecimal literals respelled

A literal takes all the digits there are, so its new spelling, which consists of
digits again, is found as a whole. A literal never reaches over a character that is
neither a digit nor the `x` of its mark: a text is respelled piece by piece between
such characters.
-/

namespace Devicetree

namespace HexLiteral

open Piece

/-! ## Finding literals -/

/-- A text does not go on with a digit. -/
def EndsDigits (t : Text) : Prop :=
  ∀ c ∈ t.head?, ¬ Hex.isDigit c

theorem find_mark (cs : Text) :
    find ('0' :: 'x' :: cs) =
      if cs.takeWhile Hex.isDigit = [] then none
      else some (cs.takeWhile Hex.isDigit, (cs.takeWhile Hex.isDigit).length + 2) := by
  simp only [find]
  cases cs.takeWhile Hex.isDigit <;> simp

/-- A literal is its mark and all the digits behind it. -/
theorem find_eq_some_iff {t ds : Text} {n : Nat} :
    find t = some (ds, n) ↔
      ds ≠ [] ∧ (∀ c ∈ ds, Hex.isDigit c) ∧ n = ds.length + 2 ∧
        ∃ rest, t = '0' :: 'x' :: (ds ++ rest) ∧ EndsDigits rest := by
  constructor
  · intro h
    obtain ⟨cs, rfl⟩ : ∃ cs, t = '0' :: 'x' :: cs := by
      unfold find at h
      split at h
      · exact ⟨_, rfl⟩
      · cases h
    rw [find_mark] at h
    split at h
    · cases h
    · rename_i hne
      cases h
      refine ⟨hne, fun c hc => List.mem_takeWhile_imp hc, rfl, cs.dropWhile Hex.isDigit, ?_, ?_⟩
      · rw [List.takeWhile_append_dropWhile]
      · intro c hc
        have hhead := List.head?_dropWhile_not Hex.isDigit cs
        rw [Option.mem_def.1 hc] at hhead
        simpa using hhead
  · rintro ⟨hne, hds, rfl, rest, rfl, hrest⟩
    have htake : (ds ++ rest).takeWhile Hex.isDigit = ds := by
      rw [List.takeWhile_append_of_pos hds]
      cases rest with
      | nil => simp
      | cons c cs =>
        have hc : ¬ Hex.isDigit c := hrest c (by simp)
        simp [hc]
    rw [find_mark, htake, if_neg hne]

theorem find_consumes : Consumes find := by
  intro t ds n h
  obtain ⟨-, -, rfl, rest, rfl, -⟩ := find_eq_some_iff.1 h
  simp

theorem drop_marked (ds rest : Text) :
    ('0' :: 'x' :: (ds ++ rest)).drop (ds.length + 2) = rest := by
  simp

/-! ## Canonical digits -/

theorem canonicalDigits_ne_nil {ds : Text} (h : ds ≠ []) : canonicalDigits ds ≠ [] := by
  unfold canonicalDigits
  split <;> simp [h]

theorem isDigit_of_mem_canonicalDigits {ds : Text} (h : ∀ c ∈ ds, Hex.isDigit c) :
    ∀ c ∈ canonicalDigits ds, Hex.isDigit c := by
  have hlower : ∀ c ∈ ds.map Hex.lower, Hex.isDigit c := by
    intro c hc
    obtain ⟨d, hd, rfl⟩ := List.mem_map.1 hc
    exact Hex.isDigit_lower (h d hd)
  unfold canonicalDigits
  split
  · intro c hc
    rcases List.mem_cons.1 hc with rfl | hc
    · decide
    · exact hlower c hc
  · exact hlower

theorem canonicalDigits_canonicalDigits (ds : Text) :
    canonicalDigits (canonicalDigits ds) = canonicalDigits ds := by
  by_cases hodd : ds.length % 2 = 1
  · have heven : ¬ (ds.length + 1) % 2 = 1 := by omega
    have hzero : Hex.lower '0' = '0' := by decide
    simp [canonicalDigits, hodd, heven, hzero, Hex.lower_lower]
  · simp [canonicalDigits, hodd, Hex.lower_lower]

/-! ## Respelling -/

theorem normalize_cons_of_none {c : Char} {cs : Text} (h : find (c :: cs) = none) :
    normalize (c :: cs) = c :: normalize cs :=
  replaceMatches_cons_of_none h

theorem normalize_of_some {t ds : Text} {n : Nat} (h : find t = some (ds, n)) :
    normalize t = canonical ds ++ normalize (t.drop n) :=
  replaceMatches_of_some find_consumes h

/-- A literal is written anew, and the text behind it goes on by itself. -/
theorem normalize_marked {ds rest : Text} (hne : ds ≠ []) (hds : ∀ c ∈ ds, Hex.isDigit c)
    (hrest : EndsDigits rest) :
    normalize ('0' :: 'x' :: (ds ++ rest)) = canonical ds ++ normalize rest := by
  have hfind := find_eq_some_iff.2 ⟨hne, hds, rfl, rest, rfl, hrest⟩
  rw [normalize_of_some hfind, drop_marked]

/-- A literal starts with a zero in either spelling, so no text changes its first character. -/
theorem head?_normalize (t : Text) : (normalize t).head? = t.head? := by
  cases t with
  | nil => rfl
  | cons c cs =>
    cases h : find (c :: cs) with
    | none => rw [normalize_cons_of_none h]; rfl
    | some m =>
      obtain ⟨ds, n⟩ := m
      obtain ⟨-, -, -, rest, hcs, -⟩ := find_eq_some_iff.1 h
      rw [normalize_of_some h, hcs]
      rfl

/-- Whether a literal starts at a text shows in its first three characters. -/
theorem find_isSome_iff {t : Text} :
    (find t).isSome ↔ ∃ d es, t = '0' :: 'x' :: d :: es ∧ Hex.isDigit d := by
  constructor
  · intro h
    obtain ⟨⟨ds, n⟩, hsome⟩ := Option.isSome_iff_exists.1 h
    obtain ⟨hne, hds, -, rest, rfl, -⟩ := find_eq_some_iff.1 hsome
    cases ds with
    | nil => exact absurd rfl hne
    | cons d es => exact ⟨d, es ++ rest, rfl, hds d (by simp)⟩
  · rintro ⟨d, es, rfl, hd⟩
    rw [find_mark, if_neg (by simp [hd])]
    rfl

/-- What starts no literal starts none once the text behind it is respelled. -/
theorem find_cons_normalize_eq_none {c : Char} {cs : Text} (h : find (c :: cs) = none) :
    find (c :: normalize cs) = none := by
  by_contra hsome
  obtain ⟨d, es, heq, hd⟩ := find_isSome_iff.1 (Option.ne_none_iff_isSome.1 hsome)
  obtain ⟨rfl, hcs⟩ := List.cons.inj heq
  -- The mark and the first digit stand in the text as it was.
  obtain ⟨ys, rfl⟩ : ∃ ys, cs = 'x' :: ys := by
    have hhead := head?_normalize cs
    rw [hcs] at hhead
    exact List.head?_eq_some_iff.1 hhead.symm
  have hx : find ('x' :: ys) = none := rfl
  rw [normalize_cons_of_none hx] at hcs
  obtain ⟨zs, rfl⟩ : ∃ zs, ys = d :: zs := by
    have hhead := head?_normalize ys
    rw [(List.cons.inj hcs).2] at hhead
    exact List.head?_eq_some_iff.1 hhead.symm
  have hfound := find_isSome_iff.2 ⟨d, zs, rfl, hd⟩
  rw [h] at hfound
  cases hfound

theorem stable : Stable find canonical where
  consumes := find_consumes
  plain _ _ h := find_cons_normalize_eq_none h
  found t ds n h := by
    obtain ⟨hne, hds, rfl, rest, rfl, hrest⟩ := find_eq_some_iff.1 h
    refine ⟨canonicalDigits ds, find_eq_some_iff.2 ⟨canonicalDigits_ne_nil hne,
      isDigit_of_mem_canonicalDigits hds, rfl, normalize rest, ?_, ?_⟩, ?_⟩
    · rw [drop_marked]
      rfl
    · intro c hc
      rw [head?_normalize] at hc
      exact hrest c hc
    · rw [canonical, canonicalDigits_canonicalDigits, canonical]

/-- Respelling literals twice is respelling them once. -/
theorem normalize_normalize (t : Text) : normalize (normalize t) = normalize t :=
  stable.replaceMatches_replaceMatches t

/-- A character that stands in no literal. -/
def IsApart (c : Char) : Prop :=
  c ≠ 'x' ∧ ¬ Hex.isDigit c

/-- A text is respelled piece by piece in front of a character that is apart. -/
theorem normalize_append {u v : Text} (hv : ∀ c ∈ v.head?, IsApart c) :
    normalize (u ++ v) = normalize u ++ normalize v := by
  induction u using cut_induction find_consumes with
  | nil => rfl
  | plain c cs hc ih =>
    have hnone : find (c :: (cs ++ v)) = none := by
      by_contra hsome
      obtain ⟨d, es, heq, hd⟩ := find_isSome_iff.1 (Option.ne_none_iff_isSome.1 hsome)
      obtain ⟨rfl, hcs⟩ := List.cons.inj heq
      match cs with
      | [] =>
        simp only [List.nil_append] at hcs
        exact (hv 'x' (by simp [hcs])).1 rfl
      | [y] =>
        simp only [List.cons_append, List.nil_append] at hcs
        exact (hv d (by simp [(List.cons.inj hcs).2])).2 hd
      | y :: z :: zs =>
        simp only [List.cons_append] at hcs
        obtain ⟨rfl, htail⟩ := List.cons.inj hcs
        obtain ⟨rfl, -⟩ := List.cons.inj htail
        have hfound := find_isSome_iff.2 ⟨z, zs, rfl, hd⟩
        rw [hc] at hfound
        cases hfound
    rw [List.cons_append, normalize_cons_of_none hnone, ih, normalize_cons_of_none hc,
      List.cons_append]
  | found t ds n hc ih =>
    obtain ⟨hne, hds, rfl, rest, rfl, hrest⟩ := find_eq_some_iff.1 hc
    have happend : '0' :: 'x' :: (ds ++ rest) ++ v = '0' :: 'x' :: (ds ++ (rest ++ v)) := by simp
    have hends : EndsDigits (rest ++ v) := by
      cases rest with
      | nil => exact fun c hmem => (hv c hmem).2
      | cons r rs => exact hrest
    rw [drop_marked] at ih
    rw [happend, normalize_marked hne hds hends, normalize_marked hne hds hrest, ih,
      List.append_assoc]

/-- What does not start like a literal stays as it is. -/
theorem normalize_cons {c : Char} (h : c ≠ '0') (cs : Text) :
    normalize (c :: cs) = c :: normalize cs := by
  apply normalize_cons_of_none
  by_contra hsome
  obtain ⟨d, es, heq, -⟩ := find_isSome_iff.1 (Option.ne_none_iff_isSome.1 hsome)
  exact h (List.cons.inj heq).1

/-- Respelling literals keeps all other characters, and their order. -/
theorem filter_normalize {p : Char → Bool} (hp : ∀ c, p c → IsApart c) (t : Text) :
    (normalize t).filter p = t.filter p := by
  refine filter_replaceMatches find_consumes ?_ t
  intro t ds n h
  obtain ⟨-, hds, rfl, rest, rfl, -⟩ := find_eq_some_iff.1 h
  have hdigits : ∀ es : Text, (∀ c ∈ es, Hex.isDigit c) →
      ('0' :: 'x' :: es).filter p = [] := by
    intro es hes
    rw [List.filter_eq_nil_iff]
    intro c hc hpc
    obtain ⟨hx, hdigit⟩ := hp c hpc
    simp only [List.mem_cons] at hc
    rcases hc with rfl | rfl | hc
    · exact hdigit (by decide)
    · exact hx rfl
    · exact hdigit (hes c hc)
  have htake : ('0' :: 'x' :: (ds ++ rest)).take (ds.length + 2) = '0' :: 'x' :: ds := by simp
  rw [htake, hdigits ds hds, canonical, hdigits _ (isDigit_of_mem_canonicalDigits hds)]

theorem mem_normalize_iff {c : Char} (hc : IsApart c) {t : Text} : c ∈ normalize t ↔ c ∈ t := by
  have hself : ∀ d, (d == c) = true → IsApart d := by
    intro d hd
    rw [eq_of_beq hd]
    exact hc
  have hfilter : c ∈ (normalize t).filter (· == c) ↔ c ∈ t.filter (· == c) := by
    rw [filter_normalize hself]
  simpa using hfilter

theorem isApart_of_isBlank {c : Char} (h : isBlank c) : IsApart c := by
  refine ⟨fun heq => ?_, fun hdigit => ?_⟩
  · rw [heq] at h
    exact absurd h (by decide)
  · have hrange : 48 ≤ c.toNat ∧ c.toNat ≤ 102 := by
      simp only [Hex.isDigit, Char.isDigit, Bool.or_eq_true, Bool.and_eq_true, decide_eq_true_eq,
        Char.le_def, UInt32.le_iff_toNat_le] at hdigit
      change (48 ≤ c.toNat ∧ c.toNat ≤ 57 ∨ 97 ≤ c.toNat ∧ c.toNat ≤ 102) ∨
        65 ≤ c.toNat ∧ c.toNat ≤ 70 at hdigit
      omega
    simp only [isBlank, Bool.or_eq_true, Bool.and_eq_true, decide_eq_true_eq, beq_iff_eq] at h
    omega

/-- A text of characters that are apart holds no literal. -/
theorem normalize_eq_self {t : Text} (h : ∀ c ∈ t, IsApart c) : normalize t = t := by
  induction t with
  | nil => rfl
  | cons c cs ih =>
    have hzero : c ≠ '0' := by
      rintro rfl
      exact (h '0' (by simp)).2 (by decide)
    rw [normalize_cons hzero, ih fun d hd => h d (by simp [hd])]

theorem of_mem_normalize {t : Text} {c : Char} (h : c ∈ normalize t) :
    Hex.isDigit c ∨ c ∈ t := by
  refine forall_mem_replaceMatches find_consumes (p := fun d => Hex.isDigit d ∨ d ∈ t) ?_
    (fun d hd => .inr hd) c h
  intro t ds n ht htake d hd
  obtain ⟨-, hds, rfl, rest, rfl, -⟩ := find_eq_some_iff.1 ht
  rw [canonical, List.mem_cons, List.mem_cons] at hd
  rcases hd with rfl | rfl | hd
  · exact .inl (by decide)
  · exact htake 'x' (by simp)
  · exact .inl (isDigit_of_mem_canonicalDigits hds d hd)

/-- A text keeps its last character if it stands in no literal. -/
theorem getLast?_normalize {t : Text} {c : Char} (hc : IsApart c) (h : t.getLast? = some c) :
    (normalize t).getLast? = some c := by
  obtain ⟨u, rfl⟩ := List.getLast?_eq_some_iff.1 h
  rw [normalize_append (by simpa using hc), normalize_eq_self (t := [c]) (by simpa using hc),
    List.getLast?_concat]

/-- Respelling literals makes blanks neither come nor go. -/
theorem not_isBlank_of_mem_normalize {t : Text} (h : ∀ c ∈ t, ¬ isBlank c) :
    ∀ c ∈ normalize t, ¬ isBlank c := by
  intro c hc hblank
  exact h c ((mem_normalize_iff (isApart_of_isBlank hblank)).1 hc) hblank

theorem normalize_ne_nil {t : Text} (h : t ≠ []) : normalize t ≠ [] := by
  obtain ⟨c, cs, rfl⟩ := List.exists_cons_of_ne_nil h
  intro hnil
  have hhead := head?_normalize (c :: cs)
  rw [hnil] at hhead
  cases hhead

/-! ## Order of rules -/

/-- A rule whose matches start apart from literals, in either spelling. -/
structure KeepsOff {α : Type} (pattern : Text → Option (α × Nat)) (write : α → Text) : Prop where
  consumes : Consumes pattern
  start : ∀ t a n, pattern t = some (a, n) → ∀ c ∈ t.head?, IsApart c
  written : ∀ t a n, pattern t = some (a, n) → ∃ c w, write a = c :: w ∧ IsApart c

section KeepsOff

variable {α : Type} {pattern : Text → Option (α × Nat)} {write : α → Text}

/-- What such a rule puts at the start of a text is apart, or stood there before. -/
theorem KeepsOff.of_replaceMatches_eq_cons (hoff : KeepsOff pattern write) {u v : Text} {c : Char}
    (h : replaceMatches pattern write u = c :: v) (hc : ¬ IsApart c) :
    ∃ cs, u = c :: cs ∧ v = replaceMatches pattern write cs := by
  cases u with
  | nil => cases h
  | cons d ds =>
    cases hd : pattern (d :: ds) with
    | none =>
      rw [replaceMatches_cons_of_none hd] at h
      obtain ⟨rfl, rfl⟩ := List.cons.inj h
      exact ⟨ds, rfl, rfl⟩
    | some m =>
      obtain ⟨e, w, hew, he⟩ := hoff.written _ m.1 m.2 hd
      rw [replaceMatches_of_some hoff.consumes hd, hew] at h
      exact absurd ((List.cons.inj h).1 ▸ he) hc

/-- Such a rule passes over the characters of literals. -/
theorem KeepsOff.replaceMatches_append (hoff : KeepsOff pattern write) {u : Text}
    (hu : ∀ c ∈ u, ¬ IsApart c) (v : Text) :
    replaceMatches pattern write (u ++ v) = u ++ replaceMatches pattern write v := by
  induction u with
  | nil => rfl
  | cons d ds ih =>
    have hnone : pattern (d :: (ds ++ v)) = none := by
      by_contra hsome
      obtain ⟨⟨a, n⟩, h⟩ := Option.ne_none_iff_exists'.1 hsome
      exact hu d (by simp) (hoff.start _ a n h d (by simp))
    rw [List.cons_append, replaceMatches_cons_of_none hnone, ih fun c hc => hu c (by simp [hc]),
      List.cons_append]

/-- What starts no literal starts none once such a rule has respelled the text behind it. -/
theorem KeepsOff.find_cons_eq_none (hoff : KeepsOff pattern write) {c : Char} {cs : Text}
    (h : find (c :: cs) = none) : find (c :: replaceMatches pattern write cs) = none := by
  by_contra hsome
  obtain ⟨d, es, heq, hd⟩ := find_isSome_iff.1 (Option.ne_none_iff_isSome.1 hsome)
  obtain ⟨rfl, hcs⟩ := List.cons.inj heq
  obtain ⟨xs, rfl, hxs⟩ := hoff.of_replaceMatches_eq_cons hcs fun hx => hx.1 rfl
  obtain ⟨ys, rfl, -⟩ := hoff.of_replaceMatches_eq_cons hxs.symm fun hapart => hapart.2 hd
  have hfound := find_isSome_iff.2 ⟨d, ys, rfl, hd⟩
  rw [h] at hfound
  cases hfound

/-- A literal in front of a text stays one in front of the text that such a rule has
    respelled, and is passed over in both spellings. -/
theorem KeepsOff.normalize_literal (hoff : KeepsOff pattern write) {ds v : Text} (hne : ds ≠ [])
    (hds : ∀ c ∈ ds, Hex.isDigit c) (hv : EndsDigits v)
    (h : normalize (replaceMatches pattern write v) = replaceMatches pattern write (normalize v)) :
    normalize (replaceMatches pattern write ('0' :: 'x' :: (ds ++ v))) =
      replaceMatches pattern write (normalize ('0' :: 'x' :: (ds ++ v))) := by
  have hmark : ∀ es : Text, (∀ c ∈ es, Hex.isDigit c) →
      ∀ c ∈ '0' :: 'x' :: es, ¬ IsApart c := by
    intro es hes c hc hapart
    rcases List.mem_cons.1 hc with rfl | hc
    · exact hapart.2 (by decide)
    · rcases List.mem_cons.1 hc with rfl | hc
      · exact hapart.1 rfl
      · exact hapart.2 (hes c hc)
  have hends : EndsDigits (replaceMatches pattern write v) := by
    intro c hc hdigit
    obtain ⟨w, hw⟩ := List.head?_eq_some_iff.1 hc
    obtain ⟨cs, rfl, -⟩ := hoff.of_replaceMatches_eq_cons hw fun hapart => hapart.2 hdigit
    exact hv c (by simp) hdigit
  have hleft := hoff.replaceMatches_append (hmark ds hds) v
  have hright := hoff.replaceMatches_append (hmark _ (isDigit_of_mem_canonicalDigits hds))
    (normalize v)
  rw [List.cons_append, List.cons_append] at hleft
  rw [hleft, List.cons_append, List.cons_append, normalize_marked hne hds hends,
    normalize_marked hne hds hv, canonical, hright, h]

/-- A rule that keeps off literals may come before or after the one for them, if its matches
    are found again, with their literals respelled, in the respelled text. -/
theorem KeepsOff.normalize_replaceMatches (hoff : KeepsOff pattern write)
    (hplain : ∀ t, pattern t = none → pattern (normalize t) = none)
    (hfound : ∀ t a n, pattern t = some (a, n) → ∃ b m,
      pattern (normalize t) = some (b, m) ∧ (normalize t).drop m = normalize (t.drop n) ∧
        ∀ v, normalize (write a ++ v) = write b ++ normalize v)
    (t : Text) :
    normalize (replaceMatches pattern write t) = replaceMatches pattern write (normalize t) := by
  induction hk : t.length using Nat.strongRecOn generalizing t with
  | ind k ih =>
    subst hk
    cases hrule : pattern t with
    | some m =>
      obtain ⟨a, n⟩ := m
      obtain ⟨b, m, hb, hdrop, hcommute⟩ := hfound t a n hrule
      have hlen := hoff.consumes hrule
      rw [replaceMatches_of_some hoff.consumes hrule, hcommute,
        replaceMatches_of_some hoff.consumes hb, hdrop,
        ih _ (by simp only [List.length_drop]; omega) _ rfl]
    | none =>
      cases t with
      | nil => rfl
      | cons c cs =>
        cases hlit : find (c :: cs) with
        | none =>
          have hkept := hplain _ hrule
          rw [normalize_cons_of_none hlit] at hkept ⊢
          rw [replaceMatches_cons_of_none hrule, normalize_cons_of_none (hoff.find_cons_eq_none hlit),
            replaceMatches_cons_of_none hkept, ih cs.length (by simp) cs rfl]
        | some m =>
          obtain ⟨hne, hds, -, rest, heq, hrest⟩ := find_eq_some_iff.1 hlit
          have hshort : rest.length < (c :: cs).length := by
            rw [heq]
            simp only [List.length_cons, List.length_append]
            omega
          rw [heq]
          exact hoff.normalize_literal hne hds hrest (ih _ hshort rest rfl)

end KeepsOff

end HexLiteral

end Devicetree
