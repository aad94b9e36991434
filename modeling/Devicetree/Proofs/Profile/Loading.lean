-- SUMMARY: Which contents of a store break its loading off, rather than being read or reported.
import Devicetree.Proofs.Json.Limits
import Devicetree.Proofs.Profile.Records
import Devicetree.Proofs.Profile.Saving

/-!
# Loading

What is wrong with the contents of a store is reported, and names the store. Four things are not,
but break the loading off: octets that are no text, a number or a nesting past the limits of the
reader, and a time of creation that is a whole number past every double. Such a time is come to
only if everything before it can be read, in its own record and in the records in front of it.
-/

namespace Devicetree

open Except (ok error)

/-! ## Steps in order -/

section

variable {ε α β : Type} {e : ε}

/-- Of two steps the first is refused, or the second after it. -/
theorem bind_eq_error_iff {x : Except ε α} {f : α → Except ε β} :
    x >>= f = error e ↔ x = error e ∨ ∃ a, x = ok a ∧ f a = error e := by
  cases x with
  | error e' => simp [bind, Except.bind]
  | ok a => simp [bind, Except.bind]

/-- Of a row of elements the first that is refused is answered for all. -/
theorem mapM_eq_error_iff {f : α → Except ε β} {items : List α} :
    items.mapM f = error e ↔
      ∃ before a after, items = before ++ a :: after ∧ (∀ b ∈ before, ∃ v, f b = ok v) ∧
        f a = error e := by
  induction items with
  | nil => simp [pure, Except.pure]
  | cons a items ih =>
    have hstep : (a :: items).mapM f = error e ↔
        f a = error e ∨ (∃ v, f a = ok v) ∧ items.mapM f = error e := by
      simp [List.mapM_cons, bind_eq_error_iff, pure, Except.pure]
    rw [hstep, ih]
    constructor
    · rintro (ha | ⟨ha, before, b, after, rfl, hbefore, hb⟩)
      · exact ⟨[], a, items, rfl, List.forall_mem_nil _, ha⟩
      · exact ⟨a :: before, b, after, rfl, List.forall_mem_cons.2 ⟨ha, hbefore⟩, hb⟩
    · rintro ⟨before, b, after, heq, hbefore, hb⟩
      cases before with
      | nil =>
        cases heq
        exact .inl hb
      | cons c before =>
        cases heq
        obtain ⟨ha, hbefore⟩ := List.forall_mem_cons.1 hbefore
        exact .inr ⟨ha, before, b, after, rfl, hbefore, hb⟩

end

/-! ## Records -/

namespace Profile

/-- The names and the paths of a record are there, and its switches have names. -/
structure IsComplete (members : List (String × Json)) : Prop where
  labelled : ∀ key ∈ ["id", "name", "left", "right"], ∃ v, members.lookup key = some v
  switches : ∀ v, members.lookup "options" = some v → v.isSet → ∃ named, v = .obj named

/-- A record of a profile that was created at a whole number past every double. -/
inductive IsLate : Json → Prop
  | mk {members : List (String × Json)} {n : Int} (complete : IsComplete members)
      (created : members.lookup "created" = some (.int n))
      (late : (Decimal.toFloat n.natAbs 0).isInf) : IsLate (.obj members)

/-- A collection with such a record, in front of which all records can be read. -/
inductive HoldsLate : Json → Prop
  | mk {members : List (String × Json)} {before after : List Json} {r : Json}
      (profiles : members.lookup "profiles" = some (.arr (before ++ r :: after)))
      (readable : ∀ q ∈ before, ∃ p, ofJson q = ok p) (late : IsLate r) :
      HoldsLate (.obj members)

variable {members : List (String × Json)} {v : Json}

theorem readLabel_ne_tooLarge (v : Json) (key : String) : readLabel v key ≠ error .tooLarge := by
  unfold readLabel
  split
  · split
    · nofun
    · nofun
  · nofun

theorem readFilter_ne_tooLarge (v : Json) : readFilter v ≠ error .tooLarge := by
  unfold readFilter
  split
  · nofun
  · split
    · nofun
    · nofun

theorem readCreated_eq_tooLarge_iff :
    readCreated v = error .tooLarge ↔ ∃ n, v = .int n ∧ (Decimal.toFloat n.natAbs 0).isInf := by
  cases v with
  | int n =>
    rw [readCreated]
    split
    · simpa
    · simp [*]
  | str s =>
    rw [readCreated]
    split
    · simp
    · simp
  | _ => simp [readCreated]

theorem exists_readLabel_iff {key : String} :
    (∃ s, readLabel (.obj members) key = ok s) ↔ ∃ v, members.lookup key = some v := by
  rw [readLabel]
  cases members.lookup key with
  | none => simp
  | some v => simp

theorem exists_readFilter_iff :
    (∃ f, readFilter v = ok f) ↔ (v.isSet → ∃ named, v = .obj named) := by
  unfold readFilter
  cases hset : v.isSet with
  | false => simp
  | true =>
    cases v with
    | obj named => simp
    | _ => simp

/-- A record is refused for its time of creation only if everything else can be read. -/
theorem ofJson_eq_tooLarge_iff : ofJson v = error .tooLarge ↔ IsLate v := by
  have hsteps : ofJson v = error .tooLarge ↔
      (∃ s, readLabel v "id" = ok s) ∧ (∃ s, readLabel v "name" = ok s) ∧
        (∃ s, readLabel v "left" = ok s) ∧ (∃ s, readLabel v "right" = ok s) ∧
        (∃ f, readFilter ((v.member? "options").getD .null) = ok f) ∧
        readCreated ((v.member? "created").getD (.real 0.0)) = error .tooLarge := by
    simp [ofJson, bind_eq_error_iff, readLabel_ne_tooLarge, readFilter_ne_tooLarge, pure,
      Except.pure]
  rw [hsteps]
  constructor
  · rintro ⟨hid, hname, hleft, hright, hoptions, hcreated⟩
    cases v with
    | obj members =>
      have hlabelled : ∀ key ∈ ["id", "name", "left", "right"],
          ∃ v, members.lookup key = some v := by
        simp only [List.forall_mem_cons, ← exists_readLabel_iff]
        exact ⟨hid, hname, hleft, hright, List.forall_mem_nil _⟩
      have hswitches := exists_readFilter_iff.1 hoptions
      obtain ⟨n, hn, hlate⟩ := readCreated_eq_tooLarge_iff.1 hcreated
      refine .mk (n := n) ⟨hlabelled, fun v hv => ?_⟩ ?_ hlate
      · simpa [Json.member?, hv] using hswitches
      · cases hlookup : members.lookup "created" with
        | none => simp [Json.member?, hlookup] at hn
        | some w => simpa [Json.member?, hlookup] using hn
    | _ =>
      obtain ⟨s, hs⟩ := hid
      cases hs
  · rintro ⟨⟨hlabelled, hswitches⟩, hcreated, hlate⟩
    simp only [List.forall_mem_cons, ← exists_readLabel_iff] at hlabelled
    obtain ⟨hid, hname, hleft, hright, -⟩ := hlabelled
    refine ⟨hid, hname, hleft, hright, exists_readFilter_iff.2 ?_, ?_⟩
    · rename_i members _
      cases hlookup : members.lookup "options" with
      | none => simp [Json.member?, hlookup, Json.isSet]
      | some w => simpa [Json.member?, hlookup] using hswitches w hlookup
    · refine readCreated_eq_tooLarge_iff.2 ⟨_, ?_, hlate⟩
      simp [Json.member?, hcreated]

theorem IsLate.isObj (h : IsLate v) : ∃ members, v = .obj members := by
  cases h with
  | @mk members => exact ⟨members, rfl⟩

/-- Only of an array the elements are records. -/
theorem elements?_eq_append {before after : List Json} {r : Json}
    (h : elements? v = some (before ++ r :: after)) (hlate : IsLate r) :
    v = .arr (before ++ r :: after) := by
  obtain ⟨members, rfl⟩ := hlate.isObj
  have hmem : Json.obj members ∈ before ++ .obj members :: after := by simp
  cases v with
  | arr items =>
    cases h
    rfl
  | str s =>
    rw [← Option.some.inj h] at hmem
    simp at hmem
  | obj named =>
    rw [← Option.some.inj h] at hmem
    simp at hmem
  | _ => cases h

theorem listOfJson_eq_tooLarge_iff : listOfJson v = error .tooLarge ↔ HoldsLate v := by
  constructor
  · intro h
    unfold listOfJson at h
    split at h
    · rename_i members
      split at h
      · cases h
      · rename_i collection hprofiles
        split at h
        · cases h
        · rename_i items hitems
          obtain ⟨before, r, after, rfl, hbefore, hr⟩ := mapM_eq_error_iff.1 h
          have hlate := ofJson_eq_tooLarge_iff.1 hr
          obtain rfl := elements?_eq_append hitems hlate
          exact .mk hprofiles hbefore hlate
    · cases h
  · rintro ⟨hprofiles, hbefore, hlate⟩
    rw [listOfJson, hprofiles]
    exact mapM_eq_error_iff.2 ⟨_, _, _, rfl, hbefore, ofJson_eq_tooLarge_iff.2 hlate⟩

end Profile

/-! ## Contents -/

namespace Store

/-- Contents that break the loading of a store off. -/
inductive BreaksOff (r : Json.Reading) (octets : Octets) : Prop
  | noText (undecodable : ∀ t, Utf8.encode t ≠ octets)
  | pastLimit {t : Text} {fault : Json.Fault} (contents : Utf8.encode t = octets)
      (limit : fault.IsLimit) (past : Json.ComesPast r (Text.universalNewlines t) fault)
  | tooLarge {t : Text} {v : Json} (contents : Utf8.encode t = octets)
      (parsed : Json.parse (Text.universalNewlines t) r = ok v) (late : Profile.HoldsLate v)

variable {octets : Octets} {r : Json.Reading}

theorem breaksOff_encode_iff {t : Text} :
    BreaksOff r (Utf8.encode t) ↔
      (∃ fault : Json.Fault, fault.IsLimit ∧
        Json.parse (Text.universalNewlines t) r = error fault) ∨
      ∃ v, Json.parse (Text.universalNewlines t) r = ok v ∧
        Profile.listOfJson v = error .tooLarge := by
  constructor
  · intro h
    cases h with
    | noText undecodable => exact absurd rfl (undecodable t)
    | pastLimit contents limit past =>
      obtain rfl := Utf8.encode_injective contents
      exact .inl ⟨_, limit, (Json.parse_eq_error_iff limit).2 past⟩
    | tooLarge contents parsed late =>
      obtain rfl := Utf8.encode_injective contents
      exact .inr ⟨_, parsed, Profile.listOfJson_eq_tooLarge_iff.2 late⟩
  · rintro (⟨fault, hlimit, hparse⟩ | ⟨v, hparse, hlate⟩)
    · exact .pastLimit rfl hlimit ((Json.parse_eq_error_iff hlimit).1 hparse)
    · exact .tooLarge rfl hparse (Profile.listOfJson_eq_tooLarge_iff.1 hlate)

theorem exists_broken_iff_breaksOff (store : Path) :
    (∃ breakdown, readContents r store octets = error (.broken breakdown)) ↔
      BreaksOff r octets := by
  cases hdecode : Utf8.decode octets with
  | error fault =>
    rw [readContents, hdecode]
    exact iff_of_true ⟨_, rfl⟩ (.noText (Utf8.decode_eq_error_iff.1 ⟨fault, hdecode⟩))
  | ok t =>
    obtain rfl := Utf8.encode_of_decodeFrom 0 hdecode
    rw [breaksOff_encode_iff, readContents, hdecode]
    dsimp only
    cases Json.parse (Text.universalNewlines t) r with
    | error fault =>
      cases fault with
      | missed expected left => simp [Json.Fault.IsLimit]
      | tooManyDigits count => simp [Json.Fault.IsLimit]
      | tooDeep isArray => simp [Json.Fault.IsLimit]
    | ok v =>
      dsimp only
      cases hlist : Profile.listOfJson v with
      | error fault =>
        cases fault with
        | tooLarge => simp [hlist]
        | _ => simp [hlist]
      | ok ps => simp [hlist]

theorem breaksOff_of_brackets {count : Nat} (h : r.depth < count) :
    BreaksOff r (Utf8.encode (List.replicate count '[')) := by
  have hlines : Text.universalNewlines (List.replicate count '[') = List.replicate count '[' :=
    Text.universalNewlines_eq_self (by simp [List.mem_replicate])
  have hpast := Json.comesPast_of_brackets h
  rw [← hlines] at hpast
  have hlimit : (Json.Fault.tooDeep true).IsLimit := trivial
  exact .pastLimit rfl hlimit hpast

/-- Loading a store that is a file answers its profiles or reports a fault exactly if its contents
are a text, in which nothing is past the limits of the reader, nor the creation of a profile past
every double. -/
theorem load_answers_iff {store : Path} {d : Disk}
    (hlook : d.tree.look d.here store = ok (.file octets)) :
    ((∃ ps, (d.exec (load store)).1 = ok ps) ∨
      ∃ fault, (d.exec (load store)).1 = error (.reported fault)) ↔
      ¬ BreaksOff d.runtime.reading octets := by
  rw [exec_load, loaded_of_file hlook, ← exists_broken_iff_breaksOff store]
  cases readContents d.runtime.reading store octets with
  | ok ps => simp
  | error failure =>
    cases failure with
    | reported fault => simp
    | broken breakdown => simp

/-- A disk with a store of some contents. -/
def holding (octets : Octets) : Disk where
  tree := ⟨[(["p.json".toList], .file octets)]⟩
  here := []
  identities n := ⟨toString n, 0.0⟩
  issued := 0

theorem look_holding (octets : Octets) :
    (holding octets).tree.look (holding octets).here (Path.ofText "p.json".toList) =
      ok (.file octets) :=
  rfl

/-- An empty store is loaded; a row of brackets that is too long is not even reported. -/
theorem load_answers_iff_holding :
    let store := Path.ofText "p.json".toList
    let deep := Utf8.encode (List.replicate 991 '[')
    (holding (contents [])).tree.look (holding (contents [])).here store =
        ok (.file (contents [])) ∧
      ¬ BreaksOff {} (contents []) ∧
      (holding deep).tree.look (holding deep).here store = ok (.file deep) ∧
      ¬ ((∃ ps, ((holding deep).exec (load store)).1 = ok ps) ∨
        ∃ fault, ((holding deep).exec (load store)).1 = error (.reported fault)) := by
  intro store deep
  have hempty := load_answers_iff (look_holding (contents []))
  have hbreaks : BreaksOff {} deep := breaksOff_of_brackets (by decide)
  have hdeep := load_answers_iff (look_holding deep)
  refine ⟨look_holding _, hempty.1 (.inl ⟨[], ?_⟩), look_holding _, fun h => ?_⟩
  · have hcreated : ∀ p ∈ ([] : List Profile), Json.ReadsBack p.created := List.forall_mem_nil _
    rw [exec_load, loaded_of_file (look_holding _), readContents_contents _ store hcreated]
  · exact hdeep.1 h hbreaks

/-- A store of one octet that starts no character is a file, and its loading breaks off. -/
theorem load_undecodable :
    let store := Path.ofText "p.json".toList
    let d := holding [0xFF]
    d.tree.look d.here store = ok (.file [0xFF]) ∧
      (d.exec (load store)).1 = error (.broken (.notText ⟨.invalidStart, 0xFF, 0, 1⟩)) ∧
      ¬ ((∃ ps, (d.exec (load store)).1 = ok ps) ∨
        ∃ fault, (d.exec (load store)).1 = error (.reported fault)) := by
  have hbroken : ((holding [0xFF]).exec (load (Path.ofText "p.json".toList))).1 =
      error (.broken (.notText ⟨.invalidStart, 0xFF, 0, 1⟩)) := by
    rfl
  refine ⟨rfl, hbroken, ?_⟩
  rw [hbroken]
  rintro (⟨ps, h⟩ | ⟨fault, h⟩)
  · cases h
  · cases h

end Store

end Devicetree
