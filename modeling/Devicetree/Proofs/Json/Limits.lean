-- SUMMARY: A reader breaks off where a number or a nesting goes past its limits, and nowhere else.
import Devicetree.Proofs.Json.Values

/-!
# Limits

A text that is no JSON is missing something somewhere, and the reader says what. There are two
other faults, which concern JSON texts as well: a whole number with more digits than are
converted, and an array or an object inside more of them than the reader follows. The places of a
text at which a value is awaited are described here from its start on, each with the number of
arrays and objects that are open there. The reader breaks off exactly if it comes to such a place
with a number or an opening bracket past the limit.
-/

namespace Devicetree

open Except (ok error)

namespace Json

/-- A fault for something that goes past a limit. -/
def Fault.IsLimit : Fault → Prop
  | .missed _ _ => False
  | .tooManyDigits _ => True
  | .tooDeep _ => True

theorem not_isLimit_missed (expected : Expected) (left : Nat) :
    ¬ (Fault.missed expected left).IsLimit :=
  id

/-! ## Texts that are passed over -/

mutual

/-- A value, inside which so many arrays and objects may be nested, and what stands behind it. -/
inductive PassesValue (half : Nat → Char) : (depth : Nat) → (cs rest : Text) → Prop
  | atom {depth : Nat} {cs rest : Text} {v : Json} (h : atom cs = ok (v, rest)) :
      PassesValue half depth cs rest
  | string {depth : Nat} {cs rest : Text} {s : String}
      (h : string half ('"' :: cs) 0 [] cs = ok (s, rest)) : PassesValue half depth ('"' :: cs) rest
  | emptyArray {depth : Nat} {cs rest : Text} (h : skipSpace cs = ']' :: rest) :
      PassesValue half (depth + 1) ('[' :: cs) rest
  | array {depth : Nat} {cs rest : Text} (h : PassesElements half depth (skipSpace cs) rest) :
      PassesValue half (depth + 1) ('[' :: cs) rest
  | emptyObject {depth : Nat} {cs rest : Text} (h : skipSpace cs = '}' :: rest) :
      PassesValue half (depth + 1) ('{' :: cs) rest
  | object {depth : Nat} {cs rest : Text} (h : PassesMembers half depth (skipSpace cs) rest) :
      PassesValue half (depth + 1) ('{' :: cs) rest

/-- Elements up to the end of an array. -/
inductive PassesElements (half : Nat → Char) : (depth : Nat) → (cs rest : Text) → Prop
  | last {depth : Nat} {cs left rest : Text} (value : PassesValue half depth cs left)
      (close : skipSpace left = ']' :: rest) : PassesElements half depth cs rest
  | next {depth : Nat} {cs left more rest : Text} (value : PassesValue half depth cs left)
      (comma : skipSpace left = ',' :: more)
      (elements : PassesElements half depth (skipSpace more) rest) :
      PassesElements half depth cs rest

/-- Members up to the end of an object. -/
inductive PassesMembers (half : Nat → Char) : (depth : Nat) → (cs rest : Text) → Prop
  | last {depth : Nat} {cs behind more left rest : Text} {key : String}
      (name : string half ('"' :: cs) 0 [] cs = ok (key, behind))
      (colon : skipSpace behind = ':' :: more)
      (value : PassesValue half depth (skipSpace more) left)
      (close : skipSpace left = '}' :: rest) : PassesMembers half depth ('"' :: cs) rest
  | next {depth : Nat} {cs behind more left next rest : Text} {key : String}
      (name : string half ('"' :: cs) 0 [] cs = ok (key, behind))
      (colon : skipSpace behind = ':' :: more)
      (value : PassesValue half depth (skipSpace more) left)
      (comma : skipSpace left = ',' :: next)
      (members : PassesMembers half depth (skipSpace next) rest) :
      PassesMembers half depth ('"' :: cs) rest

end

variable {half : Nat → Char} {fuel depth : Nat} {cs rest : Text} {fault : Fault}

theorem PassesValue.startsValue (h : PassesValue half depth cs rest) :
    ∃ c more, cs = c :: more ∧ startsValue c := by
  cases h with
  | atom h =>
    obtain ⟨c, more, rfl, hc⟩ := exists_startsAtom h
    exact ⟨c, more, rfl, by simp [Json.startsValue, hc]⟩
  | string => exact ⟨_, _, rfl, rfl⟩
  | emptyArray => exact ⟨_, _, rfl, rfl⟩
  | array => exact ⟨_, _, rfl, rfl⟩
  | emptyObject => exact ⟨_, _, rfl, rfl⟩
  | object => exact ⟨_, _, rfl, rfl⟩

theorem PassesElements.head?_ne (h : PassesElements half depth cs rest) : cs.head? ≠ some ']' := by
  have hvalue : ∀ {left}, PassesValue half depth cs left → cs.head? ≠ some ']' := by
    intro left hv
    obtain ⟨c, more, rfl, hc⟩ := hv.startsValue
    simpa using ne_of_kind hc (by decide)
  cases h with
  | last value => exact hvalue value
  | next value => exact hvalue value

theorem PassesMembers.head?_ne (h : PassesMembers half depth cs rest) : cs.head? ≠ some '}' := by
  cases h with
  | last => simp
  | next => simp

/-! ## What is left -/

theorem length_skipSpace_le (cs : Text) : (skipSpace cs).length ≤ cs.length :=
  (List.dropWhile_suffix _).length_le

theorem length_of_skipSpace {c : Char} {more : Text} (h : skipSpace cs = c :: more) :
    more.length < cs.length := by
  have hle := length_skipSpace_le cs
  rw [h, List.length_cons] at hle
  omega

/-- A string is left behind its closing quote. -/
theorem length_of_string {whole done : Text} {skip : Nat} {s : String}
    (hread : string half whole skip done cs = ok (s, rest)) : rest.length < cs.length := by
  fun_induction string half whole skip done cs
  case case3 =>
    cases hread
    exact Nat.lt_succ_self _
  case case2 ih | case8 ih | case9 ih | case10 ih | case12 ih | case14 ih =>
    exact Nat.lt_succ_of_lt (ih hread)
  all_goals cases hread

theorem length_of_number {negative : Bool} {signed : Text} {v : Json}
    (hread : number negative signed cs = ok (v, rest)) : rest.length < cs.length := by
  have hrest : ∀ {d : Char} {ds : Text}, wholeDigits cs = d :: ds →
      (exponentPart (fractionDigits (cs.drop (d :: ds).length)).2).2.length < cs.length := by
    intro d ds hwhole
    have hstarts := (wholeDigits_starts cs).length_le
    have hle := ((exponentPart_suffix _).trans
      (fractionDigits_suffix (cs.drop (d :: ds).length))).length_le
    rw [hwhole] at hstarts
    rw [List.length_drop] at hle
    rw [List.length_cons] at hstarts hle ⊢
    omega
  rw [number] at hread
  cases hwhole : wholeDigits cs with
  | nil =>
    rw [hwhole] at hread
    cases hread
  | cons d ds =>
    simp only [hwhole] at hread
    split at hread
    · split at hread
      · cases hread
      · cases hread
        exact hrest hwhole
    · cases hread
      exact hrest hwhole

theorem length_of_atom {v : Json} (hread : atom cs = ok (v, rest)) :
    rest.length < cs.length := by
  rw [atom_eq] at hread
  split at hread
  · rename_i r hr
    cases hread
    obtain ⟨w, hmem, hw⟩ := List.exists_of_findSome?_eq_some hr
    obtain ⟨left, hleft, heq⟩ := Option.map_eq_some_iff.1 hw
    cases heq
    have hpositive : ∀ w ∈ words, 0 < w.1.length := by decide
    simp only [afterWord, Option.ite_none_right_eq_some, Option.some.injEq] at hleft
    obtain ⟨hstart, rfl⟩ := hleft
    have hle := (List.isPrefixOf_iff_prefix.1 hstart).length_le
    have hword := hpositive w hmem
    rw [String.length_toList] at hle
    rw [List.length_drop]
    omega
  · unfold signedNumber at hread
    split at hread
    · exact Nat.lt_succ_of_lt (length_of_number hread)
    · exact length_of_number hread

mutual

theorem PassesValue.length_lt {half : Nat → Char} {depth : Nat} {cs rest : Text} :
    PassesValue half depth cs rest → rest.length < cs.length
  | .atom h => length_of_atom h
  | .string h => Nat.lt_succ_of_lt (length_of_string h)
  | .emptyArray h => Nat.lt_succ_of_lt (length_of_skipSpace h)
  | .array h => Nat.lt_succ_of_lt (Nat.lt_of_lt_of_le h.length_lt (length_skipSpace_le _))
  | .emptyObject h => Nat.lt_succ_of_lt (length_of_skipSpace h)
  | .object h => Nat.lt_succ_of_lt (Nat.lt_of_lt_of_le h.length_lt (length_skipSpace_le _))

theorem PassesElements.length_lt {half : Nat → Char} {depth : Nat} {cs rest : Text} :
    PassesElements half depth cs rest → rest.length < cs.length
  | .last value close => Nat.lt_trans (length_of_skipSpace close) value.length_lt
  | .next value comma elements => by
    have hvalue := value.length_lt
    have hcomma := length_of_skipSpace comma
    have helements := Nat.lt_of_lt_of_le elements.length_lt (length_skipSpace_le _)
    omega

theorem PassesMembers.length_lt {half : Nat → Char} {depth : Nat} {cs rest : Text} :
    PassesMembers half depth cs rest → rest.length < cs.length
  | .last name colon value close => by
    have hname := length_of_string name
    have hcolon := length_of_skipSpace colon
    have hvalue := Nat.lt_of_lt_of_le value.length_lt (length_skipSpace_le _)
    have hclose := length_of_skipSpace close
    rw [List.length_cons]
    omega
  | .next name colon value comma members => by
    have hname := length_of_string name
    have hcolon := length_of_skipSpace colon
    have hvalue := Nat.lt_of_lt_of_le value.length_lt (length_skipSpace_le _)
    have hcomma := length_of_skipSpace comma
    have hmembers := Nat.lt_of_lt_of_le members.length_lt (length_skipSpace_le _)
    rw [List.length_cons]
    omega

end

/-! ## Reading what is passed over -/

mutual

/-- What is passed over is read, with fuel for every character. -/
theorem PassesValue.read {half : Nat → Char} {depth : Nat} {cs rest : Text} :
    PassesValue half depth cs rest → ∀ fuel, 2 * cs.length ≤ fuel →
      ∃ v, value half (fuel + 1) depth cs = ok (v, rest)
  | .atom h, fuel, _ => ⟨_, value_of_atom h⟩
  | .string h, fuel, _ => ⟨_, by rw [value, h]⟩
  | .emptyArray h, fuel, _ => ⟨arr [], by rw [value, if_neg (by simp), h]; rfl⟩
  | .emptyObject h, fuel, _ => ⟨obj [], by rw [value, if_neg (by simp), h]; rfl⟩
  | @PassesValue.array _ _ cs _ h, fuel, hfuel => by
    have hle := length_skipSpace_le cs
    rw [List.length_cons] at hfuel
    obtain ⟨fuel, rfl⟩ : ∃ n, fuel = n + 1 := ⟨fuel - 1, by omega⟩
    rw [value_arr rfl h.head?_ne]
    exact h.read fuel (by omega) []
  | @PassesValue.object _ _ cs _ h, fuel, hfuel => by
    have hle := length_skipSpace_le cs
    rw [List.length_cons] at hfuel
    obtain ⟨fuel, rfl⟩ : ∃ n, fuel = n + 1 := ⟨fuel - 1, by omega⟩
    rw [value_obj rfl h.head?_ne]
    exact h.read fuel (by omega) []

theorem PassesElements.read {half : Nat → Char} {depth : Nat} {cs rest : Text} :
    PassesElements half depth cs rest → ∀ fuel, 2 * cs.length < fuel → ∀ done,
      ∃ v, elements half (fuel + 1) depth done cs = ok (v, rest)
  | .last hvalue close, fuel, hfuel, done => by
    obtain ⟨fuel, rfl⟩ : ∃ n, fuel = n + 1 := ⟨fuel - 1, by omega⟩
    obtain ⟨v, hv⟩ := hvalue.read fuel (by omega)
    exact ⟨_, elements_last hv close done⟩
  | @PassesElements.next _ _ _ _ more _ hvalue comma helements, fuel, hfuel, done => by
    have hlength := hvalue.length_lt
    have hcomma := length_of_skipSpace comma
    have hle := length_skipSpace_le more
    obtain ⟨fuel, rfl⟩ : ∃ n, fuel = n + 1 := ⟨fuel - 1, by omega⟩
    obtain ⟨v, hv⟩ := hvalue.read fuel (by omega)
    rw [elements_next hv comma]
    exact helements.read fuel (by omega) _

theorem PassesMembers.read {half : Nat → Char} {depth : Nat} {cs rest : Text} :
    PassesMembers half depth cs rest → ∀ fuel, 2 * cs.length < fuel → ∀ done,
      ∃ v, members half (fuel + 1) depth done cs = ok (v, rest)
  | @PassesMembers.last _ _ _ _ more _ _ _ name colon hvalue close, fuel, hfuel, done => by
    have hname := length_of_string name
    have hcolon := length_of_skipSpace colon
    have hle := length_skipSpace_le more
    rw [List.length_cons] at hfuel
    obtain ⟨fuel, rfl⟩ : ∃ n, fuel = n + 1 := ⟨fuel - 1, by omega⟩
    obtain ⟨v, hv⟩ := hvalue.read fuel (by omega)
    simp only [members, name, colon, hv, close]
    exact ⟨_, rfl⟩
  | @PassesMembers.next _ _ _ _ more _ next _ _ name colon hvalue comma hmembers, fuel, hfuel,
      done => by
    have hname := length_of_string name
    have hcolon := length_of_skipSpace colon
    have hlength := hvalue.length_lt
    have hcomma := length_of_skipSpace comma
    have hle := length_skipSpace_le more
    have hle' := length_skipSpace_le next
    rw [List.length_cons] at hfuel
    obtain ⟨fuel, rfl⟩ : ∃ n, fuel = n + 1 := ⟨fuel - 1, by omega⟩
    obtain ⟨v, hv⟩ := hvalue.read fuel (by omega)
    simp only [members, name, colon, hv, comma]
    exact hmembers.read fuel (by omega) _

end

/-! ## Steps of the reader -/

/-- What the reader comes to in front of a value. -/
inductive ValueStep (half : Nat → Char) (fuel : Nat) :
    (depth : Nat) → (cs : Text) → Read Json → Prop
  | atom {depth : Nat} (cs : Text) : ValueStep half fuel depth cs (atom cs)
  | badString {depth : Nat} {cs : Text} {fault : Fault}
      (h : string half ('"' :: cs) 0 [] cs = error fault) :
      ValueStep half fuel depth ('"' :: cs) (error fault)
  | string {depth : Nat} {cs rest : Text} {s : String}
      (h : string half ('"' :: cs) 0 [] cs = ok (s, rest)) :
      ValueStep half fuel depth ('"' :: cs) (ok (str s, rest))
  | deepArray (cs : Text) : ValueStep half fuel 0 ('[' :: cs) (error (.tooDeep true))
  | emptyArray {depth : Nat} {cs rest : Text} (h : skipSpace cs = ']' :: rest) :
      ValueStep half fuel (depth + 1) ('[' :: cs) (ok (arr [], rest))
  | array {depth : Nat} {cs : Text} (h : (skipSpace cs).head? ≠ some ']') :
      ValueStep half fuel (depth + 1) ('[' :: cs) (elements half fuel depth [] (skipSpace cs))
  | deepObject (cs : Text) : ValueStep half fuel 0 ('{' :: cs) (error (.tooDeep false))
  | emptyObject {depth : Nat} {cs rest : Text} (h : skipSpace cs = '}' :: rest) :
      ValueStep half fuel (depth + 1) ('{' :: cs) (ok (obj [], rest))
  | object {depth : Nat} {cs : Text} (h : (skipSpace cs).head? ≠ some '}') :
      ValueStep half fuel (depth + 1) ('{' :: cs) (members half fuel depth [] (skipSpace cs))

theorem valueStep (half : Nat → Char) (fuel depth : Nat) (cs : Text) :
    ValueStep half fuel depth cs (value half (fuel + 1) depth cs) := by
  rw [value.eq_def]
  dsimp only
  split
  · split
    · exact .badString ‹_›
    · exact .string ‹_›
  · cases depth with
    | zero => exact .deepArray _
    | succ depth =>
      rw [if_neg (Nat.succ_ne_zero depth)]
      split
      · exact .emptyArray ‹_›
      · exact .array (by simpa [List.head?_eq_some_iff] using ‹_›)
  · cases depth with
    | zero => exact .deepObject _
    | succ depth =>
      rw [if_neg (Nat.succ_ne_zero depth)]
      split
      · exact .emptyObject ‹_›
      · exact .object (by simpa [List.head?_eq_some_iff] using ‹_›)
  · exact .atom cs

/-- What the reader comes to in front of an element. -/
inductive ElementsStep (half : Nat → Char) (fuel depth : Nat) (done : List Json) (cs : Text) :
    Read Json → Prop
  | badValue {fault : Fault} (h : value half fuel depth cs = error fault) :
      ElementsStep half fuel depth done cs (error fault)
  | last {v : Json} {left rest : Text} (h : value half fuel depth cs = ok (v, left))
      (close : skipSpace left = ']' :: rest) :
      ElementsStep half fuel depth done cs (ok (arr (v :: done).reverse, rest))
  | next {v : Json} {left more : Text} (h : value half fuel depth cs = ok (v, left))
      (comma : skipSpace left = ',' :: more) :
      ElementsStep half fuel depth done cs (elements half fuel depth (v :: done) (skipSpace more))
  | missed (expected : Expected) (left : Nat) :
      ElementsStep half fuel depth done cs (error (.missed expected left))

theorem elementsStep (half : Nat → Char) (fuel depth : Nat) (done : List Json) (cs : Text) :
    ElementsStep half fuel depth done cs (elements half (fuel + 1) depth done cs) := by
  rw [elements]
  split
  · exact .badValue ‹_›
  · split
    · exact .last ‹_› ‹_›
    · exact .next ‹_› ‹_›
    · exact .missed _ _

/-- What the reader comes to in front of a member. -/
inductive MembersStep (half : Nat → Char) (fuel depth : Nat) (done : List (String × Json)) :
    (cs : Text) → Read Json → Prop
  | badName {cs : Text} {fault : Fault} (h : string half ('"' :: cs) 0 [] cs = error fault) :
      MembersStep half fuel depth done ('"' :: cs) (error fault)
  | badValue {cs behind more : Text} {key : String} {fault : Fault}
      (name : string half ('"' :: cs) 0 [] cs = ok (key, behind))
      (colon : skipSpace behind = ':' :: more)
      (h : value half fuel depth (skipSpace more) = error fault) :
      MembersStep half fuel depth done ('"' :: cs) (error fault)
  | last {cs behind more left rest : Text} {key : String} {v : Json}
      (name : string half ('"' :: cs) 0 [] cs = ok (key, behind))
      (colon : skipSpace behind = ':' :: more)
      (h : value half fuel depth (skipSpace more) = ok (v, left))
      (close : skipSpace left = '}' :: rest) :
      MembersStep half fuel depth done ('"' :: cs) (ok (obj (put key v done), rest))
  | next {cs behind more left next : Text} {key : String} {v : Json}
      (name : string half ('"' :: cs) 0 [] cs = ok (key, behind))
      (colon : skipSpace behind = ':' :: more)
      (h : value half fuel depth (skipSpace more) = ok (v, left))
      (comma : skipSpace left = ',' :: next) :
      MembersStep half fuel depth done ('"' :: cs)
        (members half fuel depth (put key v done) (skipSpace next))
  | missed (cs : Text) (expected : Expected) (left : Nat) :
      MembersStep half fuel depth done cs (error (.missed expected left))

theorem membersStep (half : Nat → Char) (fuel depth : Nat) (done : List (String × Json))
    (cs : Text) :
    MembersStep half fuel depth done cs (members half (fuel + 1) depth done cs) := by
  rw [members.eq_def]
  dsimp only
  split
  · split
    · exact .badName ‹_›
    · split
      · split
        · exact .badValue ‹_› ‹_› ‹_›
        · split
          · exact .last ‹_› ‹_› ‹_› ‹_›
          · exact .next ‹_› ‹_› ‹_› ‹_›
          · exact .missed _ _ _
      · exact .missed _ _ _
  · exact .missed _ _ _

/-- What each reader reads with so much fuel is passed over. -/
structure ReadsPassed (half : Nat → Char) (fuel : Nat) : Prop where
  ofValue : ∀ {depth : Nat} {cs rest : Text} {v : Json},
    value half fuel depth cs = ok (v, rest) → PassesValue half depth cs rest
  ofElements : ∀ {depth : Nat} {done : List Json} {cs rest : Text} {v : Json},
    elements half fuel depth done cs = ok (v, rest) → PassesElements half depth cs rest
  ofMembers : ∀ {depth : Nat} {done : List (String × Json)} {cs rest : Text} {v : Json},
    members half fuel depth done cs = ok (v, rest) → PassesMembers half depth cs rest

theorem ReadsPassed.value_succ (ih : ReadsPassed half fuel) {v : Json}
    (h : value half (fuel + 1) depth cs = ok (v, rest)) : PassesValue half depth cs rest := by
  have hstep := valueStep half fuel depth cs
  generalize value half (fuel + 1) depth cs = r at h hstep
  cases hstep with
  | atom => exact .atom h
  | badString => cases h
  | string hs =>
    cases h
    exact .string hs
  | deepArray => cases h
  | emptyArray hclose =>
    cases h
    exact .emptyArray hclose
  | array => exact .array (ih.ofElements h)
  | deepObject => cases h
  | emptyObject hclose =>
    cases h
    exact .emptyObject hclose
  | object => exact .object (ih.ofMembers h)

theorem ReadsPassed.elements_succ (ih : ReadsPassed half fuel) {done : List Json} {v : Json}
    (h : elements half (fuel + 1) depth done cs = ok (v, rest)) :
    PassesElements half depth cs rest := by
  have hstep := elementsStep half fuel depth done cs
  generalize elements half (fuel + 1) depth done cs = r at h hstep
  cases hstep with
  | badValue => cases h
  | last hv hclose =>
    cases h
    exact .last (ih.ofValue hv) hclose
  | next hv hcomma => exact .next (ih.ofValue hv) hcomma (ih.ofElements h)
  | missed => cases h

theorem ReadsPassed.members_succ (ih : ReadsPassed half fuel) {done : List (String × Json)}
    {v : Json} (h : members half (fuel + 1) depth done cs = ok (v, rest)) :
    PassesMembers half depth cs rest := by
  have hstep := membersStep half fuel depth done cs
  generalize members half (fuel + 1) depth done cs = r at h hstep
  cases hstep with
  | badName => cases h
  | badValue => cases h
  | last hname hcolon hv hclose =>
    cases h
    exact .last hname hcolon (ih.ofValue hv) hclose
  | next hname hcolon hv hcomma =>
    exact .next hname hcolon (ih.ofValue hv) hcomma (ih.ofMembers h)
  | missed => cases h

/-- What is read is passed over. -/
theorem readsPassed (half : Nat → Char) (fuel : Nat) : ReadsPassed half fuel := by
  induction fuel with
  | zero =>
    constructor
    · intro _ _ _ _ h
      rw [value] at h
      cases h
    · intro _ _ _ _ _ h
      rw [elements] at h
      cases h
    · intro _ _ _ _ _ h
      rw [members] at h
      cases h
  | succ fuel ih => exact ⟨ih.value_succ, ih.elements_succ, ih.members_succ⟩

/-! ## Numbers past the limit -/

/-- A whole number with more digits than are converted: no fraction and no exponent follows. -/
inductive IsLong : (count : Nat) → Text → Prop
  | mk {whole rest : Text} (isWhole : IsWhole whole) (long : Decimal.digitLimit < whole.length)
      (digit : rest.takeWhile Char.isDigit = []) (fraction : (fractionDigits rest).1 = [])
      (exponent : (exponentPart rest).1 = none) : IsLong whole.length (whole ++ rest)

/-- Such a number, with its sign. -/
inductive StartsLong (count : Nat) : Text → Prop
  | positive {cs : Text} (h : IsLong count cs) : StartsLong count cs
  | negative {cs : Text} (h : IsLong count cs) : StartsLong count ('-' :: cs)

theorem not_isLimit_of_lowHalf? (h : lowHalf? cs = error fault) : ¬ fault.IsLimit := by
  unfold lowHalf? at h
  split at h
  · split at h
    · cases h
    · split at h
      · cases h
        exact not_isLimit_missed _ _
      · cases h
  · cases h

/-- Nothing in a string is past a limit. -/
theorem not_isLimit_of_string {whole done : Text} {skip : Nat}
    (h : string half whole skip done cs = error fault) : ¬ fault.IsLimit := by
  fun_induction string half whole skip done cs
  case case3 => cases h
  case case7 hlow =>
    cases h
    exact not_isLimit_of_lowHalf? hlow
  case case2 ih | case8 ih | case9 ih | case10 ih | case12 ih | case14 ih => exact ih h
  all_goals
    cases h
    exact not_isLimit_missed _ _

theorem IsWhole.isDigit {whole : Text} (h : IsWhole whole) : ∀ c ∈ whole, c.isDigit := by
  cases h with
  | zero => simp
  | digits _ isDigit => exact isDigit

theorem isWhole_wholeDigits (h : wholeDigits cs ≠ []) : IsWhole (wholeDigits cs) := by
  unfold wholeDigits at h ⊢
  split at h
  · exact .zero
  · rename_i hzero
    cases cs with
    | nil => exact absurd rfl h
    | cons c cs =>
      rw [List.takeWhile_cons] at h ⊢
      split at h
      · rename_i hc
        rw [if_pos hc]
        refine .digits (fun hc => hzero cs (by rw [hc])) (List.forall_mem_cons.2 ⟨hc, ?_⟩)
        exact List.all_eq_true.1 (List.all_takeWhile)
      · exact absurd rfl h

theorem takeWhile_dropWhile (p : Char → Bool) (cs : Text) :
    (cs.dropWhile p).takeWhile p = [] := by
  have hhead := List.head?_dropWhile_not p cs
  cases hleft : cs.dropWhile p with
  | nil => rfl
  | cons c more =>
    rw [hleft] at hhead
    rw [List.takeWhile_cons, if_neg (by simpa using hhead)]

/-- Behind more than one digit stands another character. -/
theorem takeWhile_drop_wholeDigits (h : 1 < (wholeDigits cs).length) :
    (cs.drop (wholeDigits cs).length).takeWhile Char.isDigit = [] := by
  unfold wholeDigits at h ⊢
  split at h
  · simp at h
  · have hdrop : cs.drop (cs.takeWhile Char.isDigit).length = cs.dropWhile Char.isDigit := by
      have hleft := @List.drop_left _ (cs.takeWhile Char.isDigit) (cs.dropWhile Char.isDigit)
      rwa [List.takeWhile_append_dropWhile] at hleft
    rw [hdrop]
    exact takeWhile_dropWhile _ cs

theorem fractionDigits_eq_of_nil (h : (fractionDigits cs).1 = []) : (fractionDigits cs).2 = cs := by
  unfold fractionDigits at h ⊢
  split at h
  · split at h
    · rfl
    · exact absurd h ‹_›
  · rfl

/-- A number is past the limit exactly if it is whole and has too many digits. -/
theorem number_eq_error_iff {negative : Bool} {signed : Text} (h : fault.IsLimit) :
    number negative signed cs = error fault ↔
      ∃ count, fault = .tooManyDigits count ∧ IsLong count cs := by
  constructor
  · intro hread
    have hstarts := List.prefix_iff_eq_append.1 (wholeDigits_starts cs)
    cases hwhole : wholeDigits cs with
    | nil =>
      rw [number, hwhole] at hread
      cases hread
      exact absurd h (not_isLimit_missed _ _)
    | cons d ds =>
      simp only [number, hwhole] at hread
      split at hread
      · rename_i hint
        simp only [Bool.and_eq_true, List.isEmpty_iff, Option.isNone_iff_eq_none] at hint
        obtain ⟨hfraction, hexponent⟩ := hint
        split at hread
        · rename_i hlong
          cases hread
          rw [fractionDigits_eq_of_nil hfraction] at hexponent
          have hnumber := IsLong.mk (isWhole_wholeDigits (by simp [hwhole])) (hwhole ▸ hlong)
            (takeWhile_drop_wholeDigits (hwhole ▸ Nat.lt_trans (by decide) hlong))
            (hwhole ▸ hfraction) (hwhole ▸ hexponent)
          rw [hstarts, hwhole] at hnumber
          exact ⟨_, rfl, hnumber⟩
        · cases hread
      · cases hread
  · rintro ⟨count, rfl, hnumber⟩
    cases hnumber with
    | @mk whole rest hwhole hlong hdigit hfraction hexponent =>
      rw [number, hwhole.wholeDigits_append hdigit]
      cases whole with
      | nil => cases hwhole
      | cons d ds =>
        simp only [List.drop_left, fractionDigits_eq_of_nil hfraction, hfraction, hexponent]
        exact if_pos hlong

theorem IsLong.exists_cons {count : Nat} (h : IsLong count cs) :
    ∃ c more, cs = c :: more ∧ c.isDigit := by
  cases h with
  | @mk whole rest hwhole =>
    cases whole with
    | nil => cases hwhole
    | cons c ds => exact ⟨c, ds ++ rest, rfl, hwhole.isDigit c List.mem_cons_self⟩

/-- A word or a number is past the limit exactly if it is such a number. -/
theorem atom_eq_error_iff (h : fault.IsLimit) :
    atom cs = error fault ↔ ∃ count, fault = .tooManyDigits count ∧ StartsLong count cs := by
  constructor
  · intro hread
    rw [atom_eq] at hread
    split at hread
    · cases hread
    · unfold signedNumber at hread
      split at hread
      · obtain ⟨count, hfault, hlong⟩ := (number_eq_error_iff h).1 hread
        exact ⟨count, hfault, .negative hlong⟩
      · obtain ⟨count, hfault, hlong⟩ := (number_eq_error_iff h).1 hread
        exact ⟨count, hfault, .positive hlong⟩
  · rintro ⟨count, rfl, hstarts⟩
    cases hstarts with
    | positive hlong =>
      obtain ⟨c, more, rfl, hc⟩ := hlong.exists_cons
      rw [(atom_of_isDigit hc more).1]
      exact (number_eq_error_iff h).2 ⟨count, rfl, hlong⟩
    | negative hlong =>
      obtain ⟨c, more, rfl, hc⟩ := hlong.exists_cons
      rw [(atom_of_isDigit hc more).2]
      exact (number_eq_error_iff h).2 ⟨count, rfl, hlong⟩

/-! ## Places -/

/-- What is awaited at a place of a text. -/
inductive Awaited where
  /-- The value that the text holds. -/
  | whole
  /-- An element of an array. -/
  | element
  /-- A name in an object. -/
  | name
  /-- The value behind a name. -/
  | member
deriving DecidableEq

/-- The places of a text to which a reader comes: what is awaited there, how many arrays and
objects are open, and what is left of the text. -/
inductive Awaits (r : Reading) (text : Text) : Awaited → (opened : Nat) → (cs : Text) → Prop
  | start (unmarked : text.head? ≠ some '\uFEFF') : Awaits r text .whole 0 (skipSpace text)
  | firstElement {a : Awaited} {opened : Nat} {cs : Text} (h : Awaits r text a opened ('[' :: cs))
      (ha : a ≠ .name) (limit : opened < r.depth) (more : (skipSpace cs).head? ≠ some ']') :
      Awaits r text .element (opened + 1) (skipSpace cs)
  | nextElement {opened : Nat} {cs left more : Text} (h : Awaits r text .element opened cs)
      (passes : PassesValue r.half (r.depth - opened) cs left)
      (comma : skipSpace left = ',' :: more) :
      Awaits r text .element opened (skipSpace more)
  | firstName {a : Awaited} {opened : Nat} {cs : Text} (h : Awaits r text a opened ('{' :: cs))
      (ha : a ≠ .name) (limit : opened < r.depth) (more : (skipSpace cs).head? ≠ some '}') :
      Awaits r text .name (opened + 1) (skipSpace cs)
  | member {opened : Nat} {cs behind more : Text} {key : String}
      (h : Awaits r text .name opened ('"' :: cs))
      (name : string r.half ('"' :: cs) 0 [] cs = ok (key, behind))
      (colon : skipSpace behind = ':' :: more) : Awaits r text .member opened (skipSpace more)
  | nextName {opened : Nat} {cs left more : Text} (h : Awaits r text .member opened cs)
      (passes : PassesValue r.half (r.depth - opened) cs left)
      (comma : skipSpace left = ',' :: more) :
      Awaits r text .name opened (skipSpace more)

/-- Something past a limit stands at a place with so many arrays and objects open. -/
inductive Exceeds (limit : Nat) : (opened : Nat) → (cs : Text) → Fault → Prop
  | array (cs : Text) : Exceeds limit limit ('[' :: cs) (.tooDeep true)
  | object (cs : Text) : Exceeds limit limit ('{' :: cs) (.tooDeep false)
  | number {opened count : Nat} {cs : Text} (h : StartsLong count cs) :
      Exceeds limit opened cs (.tooManyDigits count)

variable {r : Reading} {text : Text} {a : Awaited} {opened : Nat}

theorem Awaits.opened_le (h : Awaits r text a opened cs) : opened ≤ r.depth := by
  induction h with
  | start => exact Nat.zero_le _
  | firstElement _ _ hlimit => exact hlimit
  | nextElement _ _ _ ih => exact ih
  | firstName _ _ hlimit => exact hlimit
  | member _ _ _ ih => exact ih
  | nextName _ _ _ ih => exact ih

/-- A reader of the text comes to a place where something is past a limit. -/
def ComesPast (r : Reading) (text : Text) (fault : Fault) : Prop :=
  ∃ a opened cs, Awaits r text a opened cs ∧ a ≠ .name ∧ Exceeds r.depth opened cs fault

/-- With so much fuel, each reader that has come to a place of a text and breaks off goes past a
limit. -/
structure FaultPlaced (r : Reading) (text : Text) (fault : Fault) (fuel : Nat) : Prop where
  atValue : ∀ {a : Awaited} {opened : Nat} {cs : Text}, Awaits r text a opened cs → a ≠ .name →
    value r.half fuel (r.depth - opened) cs = error fault → ComesPast r text fault
  atElement : ∀ {opened : Nat} {done : List Json} {cs : Text}, Awaits r text .element opened cs →
    elements r.half fuel (r.depth - opened) done cs = error fault → ComesPast r text fault
  atName : ∀ {opened : Nat} {done : List (String × Json)} {cs : Text},
    Awaits r text .name opened cs →
    members r.half fuel (r.depth - opened) done cs = error fault → ComesPast r text fault

theorem FaultPlaced.value_succ (ih : FaultPlaced r text fault fuel) (hlimit : fault.IsLimit)
    (hplace : Awaits r text a opened cs) (ha : a ≠ .name)
    (h : value r.half (fuel + 1) (r.depth - opened) cs = error fault) : ComesPast r text fault := by
  have hle := hplace.opened_le
  have hstep := valueStep r.half fuel (r.depth - opened) cs
  generalize hdepth : r.depth - opened = depth at h hstep
  generalize value r.half (fuel + 1) depth cs = r at h hstep
  cases hstep with
  | atom =>
    obtain ⟨count, rfl, hlong⟩ := (atom_eq_error_iff hlimit).1 h
    exact ⟨a, opened, cs, hplace, ha, .number hlong⟩
  | badString hs =>
    cases h
    exact absurd hlimit (not_isLimit_of_string hs)
  | string => cases h
  | deepArray cs =>
    cases h
    obtain rfl : opened = r.depth := by omega
    exact ⟨a, _, _, hplace, ha, .array cs⟩
  | emptyArray => cases h
  | @array depth cs hmore =>
    obtain rfl : depth = r.depth - (opened + 1) := by omega
    exact ih.atElement (hplace.firstElement ha (by omega) hmore) h
  | deepObject cs =>
    cases h
    obtain rfl : opened = r.depth := by omega
    exact ⟨a, _, _, hplace, ha, .object cs⟩
  | emptyObject => cases h
  | @object depth cs hmore =>
    obtain rfl : depth = r.depth - (opened + 1) := by omega
    exact ih.atName (hplace.firstName ha (by omega) hmore) h

theorem FaultPlaced.elements_succ (ih : FaultPlaced r text fault fuel) (hlimit : fault.IsLimit)
    {done : List Json} (hplace : Awaits r text .element opened cs)
    (h : elements r.half (fuel + 1) (r.depth - opened) done cs = error fault) :
    ComesPast r text fault := by
  have hstep := elementsStep r.half fuel (r.depth - opened) done cs
  generalize elements r.half (fuel + 1) (r.depth - opened) done cs = r at h hstep
  cases hstep with
  | badValue hv =>
    cases h
    exact ih.atValue hplace (by decide) hv
  | last => cases h
  | next hv hcomma =>
    exact ih.atElement (hplace.nextElement ((readsPassed r.half fuel).ofValue hv) hcomma) h
  | missed =>
    cases h
    exact absurd hlimit (not_isLimit_missed _ _)

theorem FaultPlaced.members_succ (ih : FaultPlaced r text fault fuel) (hlimit : fault.IsLimit)
    {done : List (String × Json)} (hplace : Awaits r text .name opened cs)
    (h : members r.half (fuel + 1) (r.depth - opened) done cs = error fault) :
    ComesPast r text fault := by
  have hstep := membersStep r.half fuel (r.depth - opened) done cs
  generalize members r.half (fuel + 1) (r.depth - opened) done cs = r at h hstep
  cases hstep with
  | badName hs =>
    cases h
    exact absurd hlimit (not_isLimit_of_string hs)
  | badValue hname hcolon hv =>
    cases h
    exact ih.atValue (hplace.member hname hcolon) (by decide) hv
  | last => cases h
  | next hname hcolon hv hcomma =>
    have hmember := hplace.member hname hcolon
    exact ih.atName (hmember.nextName ((readsPassed r.half fuel).ofValue hv) hcomma) h
  | missed =>
    cases h
    exact absurd hlimit (not_isLimit_missed _ _)

/-- A reader that breaks off does so at a place where something is past a limit. -/
theorem faultPlaced (r : Reading) (text : Text) (hlimit : fault.IsLimit) (fuel : Nat) :
    FaultPlaced r text fault fuel := by
  induction fuel with
  | zero =>
    -- A reader without fuel misses something, and that is no limit.
    constructor
    · intro _ _ _ _ _ h
      rw [value] at h
      cases h
      exact absurd hlimit (not_isLimit_missed _ _)
    · intro _ _ _ _ h
      rw [elements] at h
      cases h
      exact absurd hlimit (not_isLimit_missed _ _)
    · intro _ _ _ _ h
      rw [members] at h
      cases h
      exact absurd hlimit (not_isLimit_missed _ _)
  | succ fuel ih =>
    exact ⟨ih.value_succ hlimit, ih.elements_succ hlimit, ih.members_succ hlimit⟩

/-- A reader that has come to a place, with fuel for every character that is left, ends with a
fault: in front of the value, or of the array or the object whose part is awaited. -/
def Stops (r : Reading) (fault : Fault) : Awaited → (opened : Nat) → (cs : Text) → Prop
  | .whole, opened, cs =>
    ∀ fuel, 2 * cs.length ≤ fuel → value r.half (fuel + 1) (r.depth - opened) cs = error fault
  | .element, opened, cs =>
    ∀ fuel, 2 * cs.length < fuel → ∀ done,
      elements r.half (fuel + 1) (r.depth - opened) done cs = error fault
  | .name, opened, cs =>
    ∀ fuel, 2 * cs.length < fuel → ∀ done,
      members r.half (fuel + 1) (r.depth - opened) done cs = error fault
  | .member, opened, cs =>
    ∀ fuel, 2 * cs.length ≤ fuel →
      value r.half (fuel + 1) (r.depth - opened) cs = error fault ∨
      ∃ v left more, value r.half (fuel + 1) (r.depth - opened) cs = ok (v, left) ∧
        skipSpace left = ',' :: more ∧
        ∀ done, members r.half (fuel + 1) (r.depth - opened) done (skipSpace more) = error fault

theorem stops_of_value (ha : a ≠ .name)
    (h : ∀ fuel, 2 * cs.length ≤ fuel →
      value r.half (fuel + 1) (r.depth - opened) cs = error fault) :
    Stops r fault a opened cs := by
  cases a with
  | whole => exact h
  | element =>
    intro fuel hfuel done
    obtain ⟨fuel, rfl⟩ : ∃ n, fuel = n + 1 := ⟨fuel - 1, by omega⟩
    rw [elements, h fuel (by omega)]
  | name => exact absurd rfl ha
  | member => exact fun fuel hfuel => .inl (h fuel hfuel)

theorem value_eq_atom {c : Char} (hc : startsAtom c) (more : Text) :
    value r.half (fuel + 1) depth (c :: more) = atom (c :: more) := by
  have hne : ∀ d, startsAtom d = false → c ≠ d := fun d => ne_of_kind hc
  rw [value]
  · simpa using hne '"' rfl
  · simpa using hne '[' rfl
  · simpa using hne '{' rfl

theorem StartsLong.value {count : Nat} (h : StartsLong count cs) :
    Json.value r.half (fuel + 1) depth cs = error (.tooManyDigits count) := by
  have hlimit : (Fault.tooManyDigits count).IsLimit := trivial
  have hatom : atom cs = error (.tooManyDigits count) :=
    (atom_eq_error_iff hlimit).2 ⟨count, rfl, h⟩
  cases h with
  | positive hlong =>
    obtain ⟨c, more, rfl, hc⟩ := hlong.exists_cons
    rw [value_eq_atom (by simp [startsAtom, hc]), hatom]
  | negative => rw [value_eq_atom rfl, hatom]

theorem Exceeds.stops (h : Exceeds r.depth opened cs fault) (ha : a ≠ .name) :
    Stops r fault a opened cs := by
  refine stops_of_value ha fun fuel _ => ?_
  cases h with
  | array cs => rw [Nat.sub_self, value, if_pos rfl]
  | object cs => rw [Nat.sub_self, value, if_pos rfl]
  | number hlong => exact hlong.value

theorem parse_of_value (hunmarked : text.head? ≠ some '\uFEFF')
    (h : value r.half (2 * (skipSpace text).length + 1) r.depth (skipSpace text) = error fault) :
    parse text r = error fault := by
  unfold parse
  split
  · exact absurd rfl hunmarked
  · simp only [h]

/-- Where a reader ends with a fault, it does so with the whole text. -/
theorem Awaits.parse (h : Awaits r text a opened cs) (hstops : Stops r fault a opened cs) :
    Json.parse text r = error fault := by
  induction h with
  | start hunmarked => exact parse_of_value hunmarked (hstops _ (Nat.le_refl _))
  | @firstElement a opened cs _ ha hlimit hmore ih =>
    refine ih (stops_of_value ha fun fuel hfuel => ?_)
    have hle := length_skipSpace_le cs
    rw [List.length_cons] at hfuel
    obtain ⟨fuel, rfl⟩ : ∃ n, fuel = n + 1 := ⟨fuel - 1, by omega⟩
    rw [show r.depth - opened = r.depth - (opened + 1) + 1 by omega, value_arr rfl hmore]
    exact hstops fuel (by omega) []
  | @nextElement opened cs left more _ hpasses hcomma ih =>
    refine ih fun fuel hfuel done => ?_
    have hlength := hpasses.length_lt
    have hmore := length_of_skipSpace hcomma
    have hle := length_skipSpace_le more
    obtain ⟨fuel, rfl⟩ : ∃ n, fuel = n + 1 := ⟨fuel - 1, by omega⟩
    obtain ⟨v, hv⟩ := hpasses.read fuel (by omega)
    rw [elements_next hv hcomma]
    exact hstops fuel (by omega) _
  | @firstName a opened cs _ ha hlimit hmore ih =>
    refine ih (stops_of_value ha fun fuel hfuel => ?_)
    have hle := length_skipSpace_le cs
    rw [List.length_cons] at hfuel
    obtain ⟨fuel, rfl⟩ : ∃ n, fuel = n + 1 := ⟨fuel - 1, by omega⟩
    rw [show r.depth - opened = r.depth - (opened + 1) + 1 by omega, value_obj rfl hmore]
    exact hstops fuel (by omega) []
  | @member opened cs behind more key _ hname hcolon ih =>
    refine ih fun fuel hfuel done => ?_
    have hlength := length_of_string hname
    have hmore := length_of_skipSpace hcolon
    have hle := length_skipSpace_le more
    rw [List.length_cons] at hfuel
    obtain ⟨fuel, rfl⟩ : ∃ n, fuel = n + 1 := ⟨fuel - 1, by omega⟩
    rw [members]
    simp only [hname, hcolon]
    rcases hstops fuel (by omega) with hv | ⟨v, left, next, hv, hcomma, hmembers⟩
    · rw [hv]
    · simp only [hv, hcomma, hmembers]
  | @nextName opened cs left more _ hpasses hcomma ih =>
    refine ih fun fuel hfuel => ?_
    have hlength := hpasses.length_lt
    have hmore := length_of_skipSpace hcomma
    have hle := length_skipSpace_le more
    obtain ⟨v, hv⟩ := hpasses.read fuel hfuel
    exact .inr ⟨v, left, more, hv, hcomma, hstops fuel (by omega)⟩

/-- A reader breaks off exactly if it comes to a place where something is past a limit. -/
theorem parse_eq_error_iff (hlimit : fault.IsLimit) :
    parse text r = error fault ↔ ComesPast r text fault := by
  constructor
  · intro hparse
    unfold parse at hparse
    split at hparse
    · cases hparse
      exact absurd hlimit (not_isLimit_missed _ _)
    · rename_i hunmarked
      have hplace : Awaits r text .whole 0 (skipSpace text) :=
        .start (by simpa [List.head?_eq_some_iff] using hunmarked)
      dsimp only at hparse
      split at hparse
      · rename_i hvalue
        cases hparse
        exact (faultPlaced r text hlimit _).atValue hplace (by decide) hvalue
      · split at hparse
        · cases hparse
        · cases hparse
          exact absurd hlimit (not_isLimit_missed _ _)
  · rintro ⟨a, opened, cs, hplace, ha, hexceeds⟩
    exact hplace.parse (hexceeds.stops ha)

/-- One opening bracket behind another is past the limit in the end. -/
theorem comesPast_of_brackets {r : Reading} {count : Nat} (h : r.depth < count) :
    ComesPast r (List.replicate count '[') (.tooDeep true) := by
  have hskip : ∀ n, skipSpace (List.replicate n '[') = List.replicate n '[' := by
    intro n
    cases n with
    | zero => rfl
    | succ n => rw [List.replicate_succ, skipSpace_cons (by decide)]
  have hplace : ∀ opened ≤ r.depth, ∃ a ≠ .name,
      Awaits r (List.replicate count '[') a opened (List.replicate (count - opened) '[') := by
    intro opened
    induction opened with
    | zero =>
      intro _
      refine ⟨.whole, by decide, ?_⟩
      have hstart : Awaits r _ .whole 0 (skipSpace (List.replicate count '[')) :=
        .start (by simp [List.head?_replicate])
      rwa [hskip] at hstart
    | succ opened ih =>
      intro hle
      obtain ⟨a, ha, hawaits⟩ := ih (by omega)
      rw [show count - opened = (count - (opened + 1)) + 1 by omega, List.replicate_succ] at hawaits
      refine ⟨.element, by decide, ?_⟩
      have hnext := hawaits.firstElement ha hle (by simp [hskip, List.head?_replicate])
      rwa [hskip] at hnext
  obtain ⟨a, ha, hawaits⟩ := hplace r.depth (Nat.le_refl _)
  rw [show count - r.depth = (count - r.depth - 1) + 1 by omega, List.replicate_succ]
    at hawaits
  exact ⟨a, _, _, hawaits, ha, .array _⟩

end Json

end Devicetree
