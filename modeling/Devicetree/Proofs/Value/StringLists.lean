-- SUMMARY: The grammar of assigned string lists, and their respelling: idempotent, keeps all but blanks.
import Devicetree.Proofs.Text.Trimming
import Devicetree.Proofs.Value.HexLiterals
import Devicetree.Value.StringList

/-!
# String lists respelled

The reader of assigned lists is held to a grammar: a list is quoted strings with
commas between them, and blanks around each. Its elements are what the cutting at
commas gives, and writing them anew gives a list with the same elements. The rule
moves blanks only. Whether a list starts somewhere does not depend on blanks, so it
is not led astray by its own respelling.
-/

namespace Devicetree

namespace StringList

open Piece

/-! ## The grammar -/

/-- A run of blanks, which may be empty. -/
def AllBlank (b : Text) : Prop :=
  ∀ c ∈ b, isBlank c

/-- A quoted string, which ends at the first quote behind its own. -/
def IsQuoted (e : Text) : Prop :=
  ∃ s, '"' ∉ s ∧ e = '"' :: (s ++ ['"'])

/-- What may stand behind a string of a list, with the elements in it. -/
inductive IsRest : Text → List Text → Prop where
  | done {b : Text} : AllBlank b → IsRest b []
  | more {b b' e w : Text} {es : List Text} :
      AllBlank b → AllBlank b' → IsQuoted e → IsRest w es →
        IsRest (b ++ ',' :: (b' ++ (e ++ w))) (e :: es)

/-- A list, with its elements. -/
inductive IsList : Text → List Text → Prop where
  | intro {b e w : Text} {es : List Text} :
      AllBlank b → IsQuoted e → IsRest w es → IsList (b ++ (e ++ w)) (e :: es)

theorem allBlank_nil : AllBlank [] := by simp [AllBlank]

theorem allBlank_space : AllBlank [' '] := by
  intro c hc
  rw [List.mem_singleton.1 hc]
  decide

theorem AllBlank.cons {c : Char} {b : Text} (hc : isBlank c) (hb : AllBlank b) :
    AllBlank (c :: b) := by
  simpa [AllBlank, hc] using hb

theorem IsList.cons {c : Char} {u : Text} {es : List Text} (hc : isBlank c) (hu : IsList u es) :
    IsList (c :: u) es := by
  cases hu with
  | intro hb he hw => exact .intro (hb.cons hc) he hw

theorem IsRest.cons {c : Char} {w : Text} {es : List Text} (hc : isBlank c) (hw : IsRest w es) :
    IsRest (c :: w) es := by
  cases hw with
  | done hb => exact .done (hb.cons hc)
  | more hb hb' he hw => exact .more (hb.cons hc) hb' he hw

/-- Behind a comma stands a list. -/
theorem IsList.comma {u : Text} {es : List Text} (hu : IsList u es) : IsRest (',' :: u) es := by
  cases hu with
  | intro hb he hw => exact .more allBlank_nil hb he hw

theorem not_isBlank_quote : ¬ isBlank '"' := by decide

theorem ne_of_isBlank {c d : Char} (hc : isBlank c) (hd : ¬ isBlank d) : c ≠ d :=
  fun heq => hd (heq ▸ hc)

/-- Blanks around a quoted string are all that trimming takes away. -/
theorem IsQuoted.trim_eq {b e b' : Text} (he : IsQuoted e) (hb : AllBlank b)
    (hb' : AllBlank b') : Text.trim (b ++ (e ++ b')) = e := by
  obtain ⟨s, -, rfl⟩ := he
  have hstart : ∀ v : Text, Text.trimStart ('"' :: v) = '"' :: v := by
    intro v
    exact List.dropWhile_cons_of_neg not_isBlank_quote
  have hend : ∀ v : Text, AllBlank v → ∀ u : Text, Text.trimEnd (u ++ '"' :: v) = u ++ ['"'] := by
    intro v hv u
    rw [Text.trimEnd_eq_rdropWhile]
    have hsplit : u ++ '"' :: v = (u ++ ['"']) ++ v := by simp
    rw [hsplit]
    induction v using List.reverseRecOn with
    | nil => simp [not_isBlank_quote]
    | append_singleton v c ih =>
      have hc : isBlank c := hv c (by simp)
      rw [← List.append_assoc, List.rdropWhile_concat_pos _ _ _ hc]
      exact ih (fun d hd => hv d (by simp [hd])) (by simp)
  have hsplit : '"' :: (s ++ ['"']) ++ b' = ('"' :: s) ++ '"' :: b' := by simp
  rw [Text.trim_append_of_blank hb, hsplit, Text.trim, List.cons_append, hstart,
    ← List.cons_append, hend b' hb']
  simp

/-! ## The reader -/

theorem extent?_beforeString_blank {c : Char} (hc : isBlank c) (cs : Text) :
    extent? .beforeString (c :: cs) = (extent? .beforeString cs).map (· + 1) := by
  have hquote : c ≠ '"' := ne_of_isBlank hc (by decide)
  simp [extent?, hquote, hc]

theorem extent?_beforeString_quote (cs : Text) :
    extent? .beforeString ('"' :: cs) = (extent? .inString cs).map (· + 1) := by
  simp [extent?]

theorem extent?_inString_quote (cs : Text) :
    extent? .inString ('"' :: cs) = (extent? .behindString cs).map (· + 1) := by
  simp [extent?]

theorem extent?_inString_ne {c : Char} (hc : c ≠ '"') (cs : Text) :
    extent? .inString (c :: cs) = (extent? .inString cs).map (· + 1) := by
  simp [extent?, hc]

theorem extent?_behindString_blank {c : Char} (hc : isBlank c) (cs : Text) :
    extent? .behindString (c :: cs) = (extent? .behindString cs).map (· + 1) := by
  have hsemi : c ≠ ';' := ne_of_isBlank hc (by decide)
  have hcomma : c ≠ ',' := ne_of_isBlank hc (by decide)
  simp [extent?, hsemi, hcomma, hc]

theorem extent?_behindString_comma (cs : Text) :
    extent? .behindString (',' :: cs) = (extent? .beforeString cs).map (· + 1) := by
  simp [extent?]

theorem extent?_behindString_semicolon (cs : Text) :
    extent? .behindString (';' :: cs) = some 0 := by
  simp [extent?]

theorem extent?_beforeString_append {b : Text} (hb : AllBlank b) (t : Text) :
    extent? .beforeString (b ++ t) = (extent? .beforeString t).map (· + b.length) := by
  induction b with
  | nil => simp
  | cons c cs ih =>
    rw [List.cons_append, extent?_beforeString_blank (hb c (by simp)),
      ih fun d hd => hb d (by simp [hd]), Option.map_map]
    simp [Function.comp_def, Nat.add_assoc]

theorem extent?_behindString_append {b : Text} (hb : AllBlank b) (t : Text) :
    extent? .behindString (b ++ t) = (extent? .behindString t).map (· + b.length) := by
  induction b with
  | nil => simp
  | cons c cs ih =>
    rw [List.cons_append, extent?_behindString_blank (hb c (by simp)),
      ih fun d hd => hb d (by simp [hd]), Option.map_map]
    simp [Function.comp_def, Nat.add_assoc]

theorem extent?_inString_append {s : Text} (hs : '"' ∉ s) (t : Text) :
    extent? .inString (s ++ t) = (extent? .inString t).map (· + s.length) := by
  induction s with
  | nil => simp
  | cons c cs ih =>
    have hc : c ≠ '"' := fun heq => hs (by simp [heq])
    rw [List.cons_append, extent?_inString_ne hc, ih fun hmem => hs (by simp [hmem]),
      Option.map_map]
    simp [Function.comp_def, Nat.add_assoc]

theorem extent?_quoted {e : Text} (he : IsQuoted e) (t : Text) :
    extent? .beforeString (e ++ t) = (extent? .behindString t).map (· + e.length) := by
  obtain ⟨s, hs, rfl⟩ := he
  rw [List.cons_append, extent?_beforeString_quote, List.append_assoc,
    extent?_inString_append hs, List.singleton_append, extent?_inString_quote, Option.map_map,
    Option.map_map]
  simp [Function.comp_def, Nat.add_assoc, Nat.add_comm]

/-- What the grammar allows is read up to the semicolon. -/
theorem IsRest.extent?_eq {w : Text} {es : List Text} (hw : IsRest w es) (v : Text) :
    extent? .behindString (w ++ ';' :: v) = some w.length := by
  induction hw with
  | done hb =>
    rw [extent?_behindString_append hb, extent?_behindString_semicolon]
    simp
  | more hb hb' he _ ih =>
    rw [List.append_assoc, extent?_behindString_append hb, List.cons_append,
      extent?_behindString_comma, List.append_assoc, extent?_beforeString_append hb',
      List.append_assoc, extent?_quoted he, ih]
    simp [Nat.add_assoc, Nat.add_comm]

theorem IsList.extent?_eq {u : Text} {es : List Text} (hu : IsList u es) (v : Text) :
    extent? .beforeString (u ++ ';' :: v) = some u.length := by
  obtain ⟨hb, he, hw⟩ := hu
  rw [List.append_assoc, extent?_beforeString_append hb, List.append_assoc, extent?_quoted he,
    hw.extent?_eq]
  simp [Nat.add_comm]

/-- What is read up to a semicolon is what the grammar allows, from each place. -/
theorem of_extent?_eq_some (t : Text) :
    (∀ k, extent? .beforeString t = some k →
      ∃ u v es, t = u ++ ';' :: v ∧ u.length = k ∧ IsList u es) ∧
    (∀ k, extent? .inString t = some k →
      ∃ s w v es, t = s ++ '"' :: (w ++ ';' :: v) ∧ '"' ∉ s ∧ s.length + 1 + w.length = k ∧
        IsRest w es) ∧
    (∀ k, extent? .behindString t = some k →
      ∃ w v es, t = w ++ ';' :: v ∧ w.length = k ∧ IsRest w es) := by
  induction t with
  | nil => simp [extent?]
  | cons c cs ih =>
    obtain ⟨hbefore, hin, hbehind⟩ := ih
    refine ⟨?_, ?_, ?_⟩
    · intro k hk
      rw [extent?] at hk
      split at hk
      · rename_i hc
        subst hc
        obtain ⟨j, hj, rfl⟩ := Option.map_eq_some_iff.1 hk
        obtain ⟨s, w, v, es, rfl, hs, rfl, hw⟩ := hin j hj
        refine ⟨[] ++ ('"' :: (s ++ ['"']) ++ w), v, _, by simp, ?_,
          .intro (by simp [AllBlank]) ⟨s, hs, rfl⟩ hw⟩
        simp only [List.nil_append, List.length_cons, List.length_append, List.length_nil]
        omega
      · split at hk
        · rename_i hblank
          obtain ⟨j, hj, rfl⟩ := Option.map_eq_some_iff.1 hk
          obtain ⟨u, v, es, rfl, rfl, hu⟩ := hbefore j hj
          exact ⟨c :: u, v, es, rfl, rfl, hu.cons hblank⟩
        · cases hk
    · intro k hk
      rw [extent?] at hk
      obtain ⟨j, hj, rfl⟩ := Option.map_eq_some_iff.1 hk
      split at hj
      · rename_i hc
        subst hc
        obtain ⟨w, v, es, rfl, rfl, hw⟩ := hbehind j hj
        exact ⟨[], w, v, es, rfl, by simp, by simp [Nat.add_comm], hw⟩
      · rename_i hc
        obtain ⟨s, w, v, es, rfl, hs, rfl, hw⟩ := hin j hj
        refine ⟨c :: s, w, v, es, rfl, ?_, by simp only [List.length_cons]; omega, hw⟩
        simpa [hs] using fun heq : '"' = c => hc heq.symm
    · intro k hk
      rw [extent?] at hk
      split at hk
      · rename_i hc
        subst hc
        cases hk
        exact ⟨[], cs, [], rfl, rfl, .done (by simp [AllBlank])⟩
      · split at hk
        · rename_i hc
          subst hc
          obtain ⟨j, hj, rfl⟩ := Option.map_eq_some_iff.1 hk
          obtain ⟨u, v, es, rfl, rfl, hu⟩ := hbefore j hj
          exact ⟨',' :: u, v, es, rfl, rfl, hu.comma⟩
        · split at hk
          · rename_i hblank
            obtain ⟨j, hj, rfl⟩ := Option.map_eq_some_iff.1 hk
            obtain ⟨w, v, es, rfl, rfl, hw⟩ := hbehind j hj
            exact ⟨c :: w, v, es, rfl, rfl, hw.cons hblank⟩
          · cases hk

/-! ## Elements -/

theorem splitFrom_blank {b : Text} (hb : AllBlank b) (cur t : Text) :
    splitFrom false cur (b ++ t) = splitFrom false (b.reverse ++ cur) t := by
  induction b generalizing cur with
  | nil => rfl
  | cons c cs ih =>
    have hc : isBlank c := hb c (by simp)
    have hquote : c ≠ '"' := ne_of_isBlank hc (by decide)
    have hcomma : c ≠ ',' := ne_of_isBlank hc (by decide)
    rw [List.cons_append, splitFrom, if_neg hquote, if_neg (by simp [hcomma]),
      ih fun d hd => hb d (by simp [hd])]
    simp

theorem splitFrom_inString {s : Text} (hs : '"' ∉ s) (cur t : Text) :
    splitFrom true cur (s ++ '"' :: t) = splitFrom false ('"' :: (s.reverse ++ cur)) t := by
  induction s generalizing cur with
  | nil => simp [splitFrom]
  | cons c cs ih =>
    have hquote : c ≠ '"' := fun heq => hs (by simp [heq])
    rw [List.cons_append, splitFrom, if_neg hquote, if_neg (by simp),
      ih fun hmem => hs (by simp [hmem])]
    simp

theorem splitFrom_quoted {e : Text} (he : IsQuoted e) (cur t : Text) :
    splitFrom false cur (e ++ t) = splitFrom false (e.reverse ++ cur) t := by
  obtain ⟨s, hs, rfl⟩ := he
  have hsplit : '"' :: (s ++ ['"']) ++ t = '"' :: (s ++ '"' :: t) := by simp
  rw [hsplit, splitFrom, if_pos rfl, Bool.not_false, splitFrom_inString hs]
  simp

/-- Behind a string, cutting gives it and the elements that the grammar knows. -/
theorem IsRest.splitFrom_eq {w : Text} {es : List Text} (hw : IsRest w es) {b e : Text}
    (hb : AllBlank b) (he : IsQuoted e) :
    splitFrom false (e.reverse ++ b.reverse) w = e :: es := by
  induction hw generalizing b e with
  | @done b' hb' =>
    have htrim := he.trim_eq hb hb'
    have hend := splitFrom_blank hb' (e.reverse ++ b.reverse) []
    have hrev : (b'.reverse ++ (e.reverse ++ b.reverse)).reverse = b ++ (e ++ b') := by simp
    have hne : e ≠ [] := by
      obtain ⟨s, -, rfl⟩ := he
      simp
    rw [List.append_nil] at hend
    rw [hend, splitFrom, hrev, htrim]
    split
    · exact absurd rfl hne
    · rfl
  | @more b' b'' e' w es hb' hb'' he' _ ih =>
    have htrim := he.trim_eq hb hb'
    have hrev : (b'.reverse ++ (e.reverse ++ b.reverse)).reverse = b ++ (e ++ b') := by simp
    have hrest := ih hb'' he'
    rw [splitFrom_blank hb', splitFrom, if_neg (by decide), if_pos (by decide), hrev, htrim,
      splitFrom_blank hb'', List.append_nil, splitFrom_quoted he', hrest]

/-- Cutting a list at its commas gives its elements. -/
theorem IsList.split_eq {u : Text} {es : List Text} (hu : IsList u es) : split u = es := by
  obtain ⟨hb, he, hw⟩ := hu
  rw [split, splitFrom_blank hb, splitFrom_quoted he, List.append_nil, hw.splitFrom_eq hb he]

theorem IsRest.quoted {w : Text} {es : List Text} (hw : IsRest w es) :
    ∀ e ∈ es, IsQuoted e := by
  induction hw with
  | done => simp
  | more _ _ he _ ih => simpa [he] using ih

/-- The elements of a list are quoted strings, and there is one at least. -/
theorem IsList.quoted {u : Text} {es : List Text} (hu : IsList u es) :
    es ≠ [] ∧ ∀ e ∈ es, IsQuoted e := by
  obtain ⟨-, he, hw⟩ := hu
  exact ⟨by simp, by simpa [he] using hw.quoted⟩

/-- Elements written one behind the other, with a comma and a space in front of each. -/
def tail (es : List Text) : Text :=
  es.flatMap fun e => ',' :: ' ' :: e

theorem separated_cons (e : Text) (es : List Text) : separated (e :: es) = e ++ tail es := by
  induction es generalizing e with
  | nil => simp [separated, tail]
  | cons e' es ih =>
    rw [separated, ih]
    · simp [tail]
    · simp

theorem isRest_tail {es : List Text} (hes : ∀ e ∈ es, IsQuoted e) : IsRest (tail es) es := by
  induction es with
  | nil => exact .done allBlank_nil
  | cons e es ih =>
    exact .more allBlank_nil allBlank_space (hes e (by simp))
      (ih fun e' he' => hes e' (by simp [he']))

/-- Quoted strings written anew are a list of the same elements. -/
theorem isList_separated {es : List Text} (hne : es ≠ []) (hes : ∀ e ∈ es, IsQuoted e) :
    IsList (' ' :: separated es) es := by
  obtain ⟨e, es, rfl⟩ := List.exists_cons_of_ne_nil hne
  rw [separated_cons]
  exact .intro allBlank_space (hes e (by simp)) (isRest_tail fun e' he' => hes e' (by simp [he']))

theorem filter_of_allBlank {b : Text} (hb : AllBlank b) : b.filter (!isBlank ·) = [] := by
  rw [List.filter_eq_nil_iff]
  intro c hc
  simp [hb c hc]

theorem IsRest.filter_eq {w : Text} {es : List Text} (hw : IsRest w es) :
    w.filter (!isBlank ·) = (tail es).filter (!isBlank ·) := by
  induction hw with
  | done hb => exact filter_of_allBlank hb
  | @more b b' e w es hb hb' _ _ ih =>
    have hcomma : isBlank ',' = false := by decide
    have hspace : isBlank ' ' = true := by decide
    have htail : tail (e :: es) = ',' :: ' ' :: (e ++ tail es) := by simp [tail]
    rw [htail]
    simp [filter_of_allBlank hb, filter_of_allBlank hb', hcomma, hspace, ih]

/-- A list and its elements written anew are the same but for blanks. -/
theorem IsList.filter_eq {u : Text} {es : List Text} (hu : IsList u es) :
    u.filter (!isBlank ·) = (separated es).filter (!isBlank ·) := by
  obtain ⟨hb, he, hw⟩ := hu
  rw [separated_cons, List.filter_append, List.filter_append, List.filter_append,
    filter_of_allBlank hb, hw.filter_eq, List.nil_append]


theorem IsRest.of_mem_tail {w : Text} {es : List Text} (hw : IsRest w es) {c : Char}
    (hc : c ∈ tail es) : c = ' ' ∨ c ∈ w := by
  induction hw with
  | done => simp [tail] at hc
  | @more b b' e w es _ _ _ _ ih =>
    have htail : tail (e :: es) = ',' :: ' ' :: (e ++ tail es) := by simp [tail]
    rw [htail] at hc
    simp only [List.mem_cons, List.mem_append] at hc ⊢
    rcases hc with rfl | rfl | hc | hc
    · simp
    · simp
    · simp [hc]
    · rcases ih hc with rfl | hc
      · simp
      · simp [hc]

/-- Writing a list anew adds spaces only. -/
theorem IsList.of_mem_separated {u : Text} {es : List Text} (hu : IsList u es) {c : Char}
    (hc : c ∈ separated es) : c = ' ' ∨ c ∈ u := by
  cases hu with
  | intro _ _ hw =>
    rw [separated_cons, List.mem_append] at hc
    rcases hc with hc | hc
    · simp [hc]
    · rcases hw.of_mem_tail hc with rfl | hc
      · simp
      · simp [hc]

/-! ## Finding lists -/

/-- Blanks and an equals sign in front of a list are found with it. -/
theorem find_assigned {b u : Text} {es : List Text} (hb : AllBlank b) (hu : IsList u es)
    (v : Text) :
    find (b ++ '=' :: (u ++ ';' :: v)) = some (u, b.length + u.length + 2) := by
  have hequals : ¬ isBlank '=' := by decide
  have htake : (b ++ '=' :: (u ++ ';' :: v)).takeWhile isBlank = b := by
    rw [List.takeWhile_append_of_pos hb, List.takeWhile_cons_of_neg hequals, List.append_nil]
  have hdrop : (b ++ '=' :: (u ++ ';' :: v)).dropWhile isBlank = '=' :: (u ++ ';' :: v) := by
    rw [List.dropWhile_append_of_pos hb, List.dropWhile_cons_of_neg hequals]
  simp only [find, htake, hdrop, hu.extent?_eq, Option.map_some, List.take_left]

/-- What is found is an assigned list. -/
theorem of_find_eq_some {t a : Text} {n : Nat} (h : find t = some (a, n)) :
    ∃ b es v, AllBlank b ∧ IsList a es ∧ t = b ++ '=' :: (a ++ ';' :: v) ∧
      n = b.length + a.length + 2 := by
  simp only [find] at h
  split at h
  · rename_i cs hcs
    obtain ⟨k, hk, hkn⟩ := Option.map_eq_some_iff.1 h
    obtain ⟨u, v, es, rfl, rfl, hu⟩ := (of_extent?_eq_some cs).1 k hk
    rw [List.take_left, Prod.mk.injEq] at hkn
    obtain ⟨rfl, rfl⟩ := hkn
    refine ⟨t.takeWhile isBlank, es, v, fun c hc => List.mem_takeWhile_imp hc, hu, ?_, rfl⟩
    rw [← hcs, List.takeWhile_append_dropWhile]
  · cases h

theorem find_consumes : Consumes find := by
  intro t a n h
  obtain ⟨b, es, v, -, -, rfl, rfl⟩ := of_find_eq_some h
  refine ⟨by omega, ?_⟩
  simp only [List.length_append, List.length_cons]
  omega

theorem drop_assigned (b u v : Text) :
    (b ++ '=' :: (u ++ ';' :: v)).drop (b.length + u.length + 2) = v := by
  have hsplit : b ++ '=' :: (u ++ ';' :: v) = (b ++ '=' :: (u ++ [';'])) ++ v := by simp
  rw [hsplit]
  exact List.drop_left' (by simp; omega)

theorem take_assigned (b u v : Text) :
    (b ++ '=' :: (u ++ ';' :: v)).take (b.length + u.length + 2) = b ++ '=' :: (u ++ [';']) := by
  have hsplit : b ++ '=' :: (u ++ ';' :: v) = (b ++ '=' :: (u ++ [';'])) ++ v := by simp
  rw [hsplit]
  exact List.take_left' (by simp; omega)

/-- A text that starts with neither a blank nor an equals sign starts no list. -/
theorem find_eq_none {c : Char} (hblank : ¬ isBlank c) (hequals : c ≠ '=') (cs : Text) :
    find (c :: cs) = none := by
  simp only [find, List.dropWhile_cons_of_neg hblank]
  split
  · rename_i heq
    exact absurd (List.cons.inj heq).1 hequals
  · rfl

/-- A blank in front of a text changes how far a list reaches, and not which one it is. -/
theorem find_cons_of_blank {c : Char} (hc : isBlank c) (t : Text) :
    find (c :: t) = (find t).map fun m => (m.1, m.2 + 1) := by
  simp only [find, List.takeWhile_cons_of_pos hc, List.dropWhile_cons_of_pos hc]
  split
  · simp only [Option.map_map, Function.comp_def, List.length_cons]
    congr 1
    funext k
    rw [Prod.mk.injEq]
    exact ⟨rfl, by omega⟩
  · rfl

/-- Blanks do not decide whether a text goes on as a list. -/
theorem isSome_extent?_filter (p : Place) (t : Text) :
    (extent? p (t.filter (!isBlank ·))).isSome = (extent? p t).isSome := by
  induction t generalizing p with
  | nil => rfl
  | cons c cs ih =>
    by_cases hc : isBlank c
    · rw [List.filter_cons_of_neg (by simp [hc]), ih]
      have hquote : c ≠ '"' := ne_of_isBlank hc (by decide)
      cases p with
      | beforeString => rw [extent?_beforeString_blank hc, Option.isSome_map]
      | inString => rw [extent?_inString_ne hquote, Option.isSome_map]
      | behindString => rw [extent?_behindString_blank hc, Option.isSome_map]
    · rw [List.filter_cons_of_pos (by simp [hc])]
      cases p with
      | beforeString =>
        by_cases hquote : c = '"'
        · rw [hquote, extent?_beforeString_quote, extent?_beforeString_quote, Option.isSome_map,
            Option.isSome_map, ih]
        · simp [extent?, hquote, hc]
      | inString =>
        by_cases hquote : c = '"'
        · rw [hquote, extent?_inString_quote, extent?_inString_quote, Option.isSome_map,
            Option.isSome_map, ih]
        · rw [extent?_inString_ne hquote, extent?_inString_ne hquote, Option.isSome_map,
            Option.isSome_map, ih]
      | behindString =>
        by_cases hsemi : c = ';'
        · simp [hsemi, extent?_behindString_semicolon]
        · by_cases hcomma : c = ','
          · rw [hcomma, extent?_behindString_comma, extent?_behindString_comma,
              Option.isSome_map, Option.isSome_map, ih]
          · simp [extent?, hsemi, hcomma, hc]

/-- Blanks do not decide whether a list starts at a text. -/
theorem isSome_find_filter (t : Text) :
    (find (t.filter (!isBlank ·))).isSome = (find t).isSome := by
  induction t with
  | nil => rfl
  | cons c cs ih =>
    by_cases hc : isBlank c
    · rw [List.filter_cons_of_neg (by simp [hc]), ih, find_cons_of_blank hc, Option.isSome_map]
    · rw [List.filter_cons_of_pos (by simp [hc])]
      by_cases hequals : c = '='
      · subst hequals
        simp only [find, List.dropWhile_cons_of_neg hc, Option.isSome_map, isSome_extent?_filter]
      · rw [find_eq_none hc hequals, find_eq_none hc hequals]

/-! ## Respelling -/

theorem canonical_eq {u : Text} {es : List Text} (hu : IsList u es) :
    canonical u = ' ' :: '=' :: ' ' :: (separated es ++ [';']) := by
  rw [canonical, hu.split_eq]

theorem normalize_cons_of_none {c : Char} {cs : Text} (h : find (c :: cs) = none) :
    normalize (c :: cs) = c :: normalize cs :=
  replaceMatches_cons_of_none h

/-- An assigned list is written anew, and the text behind it goes on by itself. -/
theorem normalize_assigned {b u : Text} {es : List Text} (hb : AllBlank b) (hu : IsList u es)
    (v : Text) :
    normalize (b ++ '=' :: (u ++ ';' :: v)) =
      ' ' :: '=' :: ' ' :: (separated es ++ ';' :: normalize v) := by
  rw [normalize, replaceMatches_of_some find_consumes (find_assigned hb hu v), drop_assigned,
    canonical_eq hu, normalize]
  simp

/-- Respelling lists moves blanks only. -/
theorem filter_normalize (t : Text) :
    (normalize t).filter (!isBlank ·) = t.filter (!isBlank ·) := by
  refine filter_replaceMatches find_consumes ?_ t
  intro t a n h
  obtain ⟨b, es, v, hb, hu, rfl, rfl⟩ := of_find_eq_some h
  have hspace : isBlank ' ' = true := by decide
  rw [take_assigned, canonical_eq hu]
  simp [List.filter_cons, filter_of_allBlank hb, hu.filter_eq, hspace]

theorem of_mem_normalize {t : Text} {c : Char} (h : c ∈ normalize t) : c = ' ' ∨ c ∈ t := by
  refine forall_mem_replaceMatches find_consumes (p := fun d => d = ' ' ∨ d ∈ t) ?_
    (fun d hd => .inr hd) c h
  intro t a n ht htake d hd
  obtain ⟨b, es, v, -, hu, rfl, rfl⟩ := of_find_eq_some ht
  rw [take_assigned] at htake
  rw [canonical_eq hu] at hd
  simp only [List.mem_cons, List.mem_append, List.not_mem_nil, or_false] at hd
  rcases hd with rfl | rfl | rfl | hd | rfl
  · exact .inl rfl
  · exact htake '=' (by simp)
  · exact .inl rfl
  · rcases hu.of_mem_separated hd with rfl | hd
    · exact .inl rfl
    · exact htake d (by simp [hd])
  · exact htake ';' (by simp)

/-- A text keeps its last character, for a list ends in its semicolon in either spelling. -/
theorem getLast?_normalize (t : Text) : (normalize t).getLast? = t.getLast? := by
  refine getLast?_replaceMatches find_consumes ?_ t
  intro t a n h
  obtain ⟨b, es, v, hb, hu, rfl, rfl⟩ := of_find_eq_some h
  have hwritten : canonical a = (' ' :: '=' :: ' ' :: separated es) ++ [';'] := canonical_eq hu
  have hmatch : b ++ '=' :: (a ++ [';']) = (b ++ '=' :: a) ++ [';'] := by simp
  rw [take_assigned, hwritten, hmatch, List.getLast?_concat, List.getLast?_concat]

/-- Blanks in front of a text are lost on it, up to blanks. -/
theorem trimStart_normalize_cons {c : Char} (hc : isBlank c) (t : Text) :
    Text.trimStart (normalize (c :: t)) = Text.trimStart (normalize t) := by
  cases h : find t with
  | none =>
    have hcons : find (c :: t) = none := by rw [find_cons_of_blank hc, h, Option.map_none]
    rw [normalize_cons_of_none hcons, Text.trimStart, List.dropWhile_cons_of_pos hc]
    rfl
  | some m =>
    obtain ⟨b, es, v, hb, hu, rfl, -⟩ := of_find_eq_some h
    rw [← List.cons_append, normalize_assigned (hb.cons hc) hu, normalize_assigned hb hu]

theorem stable : Stable find canonical where
  consumes := find_consumes
  plain c cs h := by
    have hsome : (find (c :: normalize cs)).isSome = (find (c :: cs)).isSome := by
      rw [← isSome_find_filter, ← isSome_find_filter (c :: cs), List.filter_cons, List.filter_cons,
        filter_normalize]
    rw [h, Option.isSome_none, Option.isSome_eq_false_iff, Option.isNone_iff_eq_none] at hsome
    exact hsome
  found t a n h := by
    obtain ⟨b, es, v, hb, hu, rfl, rfl⟩ := of_find_eq_some h
    obtain ⟨hne, hes⟩ := hu.quoted
    have hwritten := isList_separated hne hes
    have hfind := find_assigned allBlank_space hwritten (normalize v)
    refine ⟨' ' :: separated es, ?_, ?_⟩
    · rw [drop_assigned, canonical_eq hu, ← normalize]
      simp only [List.cons_append, List.nil_append, List.append_assoc, List.length_cons,
        List.length_append, List.length_nil] at hfind ⊢
      rw [hfind]
      congr 2
      omega
    · rw [canonical_eq hwritten, canonical_eq hu]

/-- Respelling lists twice is respelling them once. -/
theorem normalize_normalize (t : Text) : normalize (normalize t) = normalize t :=
  stable.replaceMatches_replaceMatches t

/-! ## Literals in lists -/

open HexLiteral (IsApart isApart_of_isBlank)

theorem isApart_quote : IsApart '"' := ⟨by decide, by decide⟩

theorem isApart_semicolon : IsApart ';' := ⟨by decide, by decide⟩

theorem AllBlank.isApart {b : Text} (hb : AllBlank b) : ∀ c ∈ b, IsApart c :=
  fun c hc => isApart_of_isBlank (hb c hc)

/-- A text is cut at a character that is apart, which stays. -/
theorem normalize_literals_cut (u : Text) {c : Char} (hc : IsApart c) (v : Text) :
    HexLiteral.normalize (u ++ c :: v) = HexLiteral.normalize u ++ c :: HexLiteral.normalize v := by
  rw [HexLiteral.normalize_append (by simpa using hc), HexLiteral.normalize_cons]
  rintro rfl
  exact hc.2 (by decide)

theorem IsQuoted.normalize_literals {e : Text} (he : IsQuoted e) :
    IsQuoted (HexLiteral.normalize e) := by
  obtain ⟨s, hs, rfl⟩ := he
  refine ⟨HexLiteral.normalize s, fun h => hs ((HexLiteral.mem_normalize_iff isApart_quote).1 h), ?_⟩
  rw [HexLiteral.normalize_cons (by decide), normalize_literals_cut s isApart_quote]
  rfl

/-- Behind a quoted string a text goes on by itself, for the quote is apart. -/
theorem IsQuoted.normalize_append {e : Text} (he : IsQuoted e) (v : Text) :
    HexLiteral.normalize (e ++ v) = HexLiteral.normalize e ++ HexLiteral.normalize v := by
  obtain ⟨s, -, rfl⟩ := he
  rw [← List.cons_append, List.append_assoc, List.singleton_append,
    normalize_literals_cut _ isApart_quote, normalize_literals_cut _ isApart_quote]
  simp [HexLiteral.normalize_eq_self]

theorem AllBlank.normalize_append {b : Text} (hb : AllBlank b) (v : Text) :
    HexLiteral.normalize (b ++ v) = b ++ HexLiteral.normalize v := by
  induction b with
  | nil => rfl
  | cons c cs ih =>
    have hzero : c ≠ '0' := ne_of_isBlank (hb c (by simp)) (by decide)
    rw [List.cons_append, HexLiteral.normalize_cons hzero, ih fun d hd => hb d (by simp [hd]),
      List.cons_append]

theorem IsRest.normalize_literals {w : Text} {es : List Text} (hw : IsRest w es) :
    IsRest (HexLiteral.normalize w) (es.map HexLiteral.normalize) := by
  induction hw with
  | @done b hb =>
    rw [HexLiteral.normalize_eq_self hb.isApart]
    exact .done hb
  | @more b b' e w es hb hb' he _ ih =>
    rw [hb.normalize_append, HexLiteral.normalize_cons (by decide), hb'.normalize_append,
      he.normalize_append]
    exact .more hb hb' he.normalize_literals ih

/-- A list stays one, and each of its elements is respelled. -/
theorem IsList.normalize_literals {u : Text} {es : List Text} (hu : IsList u es) :
    IsList (HexLiteral.normalize u) (es.map HexLiteral.normalize) := by
  cases hu with
  | intro hb he hw =>
    rw [hb.normalize_append, he.normalize_append]
    exact .intro hb he.normalize_literals hw.normalize_literals

theorem separated_normalize {es : List Text} (hes : ∀ e ∈ es, IsQuoted e) :
    HexLiteral.normalize (separated es) = separated (es.map HexLiteral.normalize) := by
  have htail : ∀ es : List Text, (∀ e ∈ es, IsQuoted e) →
      HexLiteral.normalize (tail es) = tail (es.map HexLiteral.normalize) := by
    intro es hes
    induction es with
    | nil => rfl
    | cons e es ih =>
      have hcons : ∀ e es, tail (e :: es) = ',' :: ' ' :: (e ++ tail es) := by simp [tail]
      rw [hcons, List.map_cons, hcons, HexLiteral.normalize_cons (by decide),
        HexLiteral.normalize_cons (by decide), (hes e (by simp)).normalize_append,
        ih fun e' he' => hes e' (by simp [he'])]
  cases es with
  | nil => rfl
  | cons e es =>
    rw [List.map_cons, separated_cons, separated_cons, (hes e (by simp)).normalize_append,
      htail es fun e' he' => hes e' (by simp [he'])]

/-- Literals do not decide whether a text goes on as a list: outside the quotes they are no
    part of one, and inside anything is. -/
theorem isSome_extent?_normalize (p : Place) (t : Text) :
    (extent? p (HexLiteral.normalize t)).isSome = (extent? p t).isSome := by
  have hzero : ∀ v : Text, extent? .beforeString ('0' :: v) = none ∧
      extent? .behindString ('0' :: v) = none := by
    have hblank : ¬ isBlank '0' := by decide
    intro v
    simp [extent?, hblank]
  have hdigits : ∀ ds : Text, (∀ c ∈ ds, Hex.isDigit c) → '"' ∉ '0' :: 'x' :: ds := by
    intro ds hds hmem
    rw [List.mem_cons, List.mem_cons] at hmem
    rcases hmem with heq | heq | hmem
    · exact absurd heq (by decide)
    · exact absurd heq (by decide)
    · exact absurd (hds _ hmem) (by decide)
  induction t using cut_induction HexLiteral.find_consumes generalizing p with
  | nil => rfl
  | plain c cs hc ih =>
    rw [HexLiteral.normalize_cons_of_none hc]
    cases p with
    | beforeString =>
      simp only [extent?]
      split
      · rw [Option.isSome_map, Option.isSome_map, ih]
      · split
        · rw [Option.isSome_map, Option.isSome_map, ih]
        · rfl
    | inString => simp only [extent?, Option.isSome_map, ih]
    | behindString =>
      simp only [extent?]
      split
      · rfl
      · split
        · rw [Option.isSome_map, Option.isSome_map, ih]
        · split
          · rw [Option.isSome_map, Option.isSome_map, ih]
          · rfl
  | found t ds n hc ih =>
    obtain ⟨-, hds, rfl, rest, rfl, -⟩ := HexLiteral.find_eq_some_iff.1 hc
    rw [HexLiteral.normalize_of_some hc]
    rw [HexLiteral.drop_marked] at ih ⊢
    cases p with
    | beforeString => rw [HexLiteral.canonical, List.cons_append, (hzero _).1, (hzero _).1]
    | inString =>
      have hwritten := hdigits _ (HexLiteral.isDigit_of_mem_canonicalDigits hds)
      have hsplit : '0' :: 'x' :: (ds ++ rest) = '0' :: 'x' :: ds ++ rest := by simp
      rw [hsplit, HexLiteral.canonical, extent?_inString_append hwritten,
        extent?_inString_append (hdigits ds hds), Option.isSome_map, Option.isSome_map, ih]
    | behindString => rw [HexLiteral.canonical, List.cons_append, (hzero _).2, (hzero _).2]

theorem isSome_find_normalize (t : Text) :
    (find (HexLiteral.normalize t)).isSome = (find t).isSome := by
  induction t with
  | nil => rfl
  | cons c cs ih =>
    by_cases hc : isBlank c
    · rw [HexLiteral.normalize_cons (ne_of_isBlank hc (by decide)), find_cons_of_blank hc,
        find_cons_of_blank hc, Option.isSome_map, Option.isSome_map, ih]
    · by_cases hequals : c = '='
      · subst hequals
        rw [HexLiteral.normalize_cons (by decide)]
        simp only [find, List.dropWhile_cons_of_neg hc, Option.isSome_map,
          isSome_extent?_normalize]
      · obtain ⟨v, hv⟩ := List.head?_eq_some_iff.1 (HexLiteral.head?_normalize (c :: cs))
        rw [hv, find_eq_none hc hequals, find_eq_none hc hequals]

theorem keepsOff : HexLiteral.KeepsOff find canonical where
  consumes := find_consumes
  start t a n h c hc := by
    obtain ⟨b, es, v, hb, -, rfl, -⟩ := of_find_eq_some h
    cases b with
    | nil =>
      obtain rfl : '=' = c := by simpa using hc
      exact ⟨by decide, by decide⟩
    | cons d ds =>
      obtain rfl : d = c := by simpa using hc
      exact hb.isApart d (by simp)
  written _ a _ _ := ⟨' ', _, rfl, isApart_of_isBlank (by decide)⟩

/-- It does not matter whether literals or lists are respelled first. -/
theorem normalize_literals (t : Text) :
    HexLiteral.normalize (normalize t) = normalize (HexLiteral.normalize t) := by
  refine keepsOff.normalize_replaceMatches ?_ ?_ t
  · intro t h
    have hsome := isSome_find_normalize t
    rw [h, Option.isSome_none, Option.isSome_eq_false_iff, Option.isNone_iff_eq_none] at hsome
    exact hsome
  · intro t a n h
    obtain ⟨b, es, v, hb, hu, rfl, rfl⟩ := of_find_eq_some h
    have hread : HexLiteral.normalize (b ++ '=' :: (a ++ ';' :: v)) =
        b ++ '=' :: (HexLiteral.normalize a ++ ';' :: HexLiteral.normalize v) := by
      rw [hb.normalize_append, HexLiteral.normalize_cons (by decide),
        normalize_literals_cut _ isApart_semicolon]
    have hfind := find_assigned hb hu.normalize_literals (HexLiteral.normalize v)
    rw [← hread] at hfind
    refine ⟨_, _, hfind, ?_, ?_⟩
    · rw [hread, drop_assigned, drop_assigned]
    · intro v
      rw [canonical_eq hu, canonical_eq hu.normalize_literals]
      simp only [List.cons_append, List.append_assoc, List.nil_append]
      rw [HexLiteral.normalize_cons (by decide), HexLiteral.normalize_cons (by decide),
        HexLiteral.normalize_cons (by decide), normalize_literals_cut _ isApart_semicolon,
        separated_normalize hu.quoted.2]

end StringList

end Devicetree
