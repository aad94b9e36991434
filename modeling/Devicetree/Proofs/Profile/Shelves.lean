-- SUMMARY: What calls to a profile store do to a plain list of profiles.
import Devicetree.Profile.Store

/-!
# Shelves

Everything that is asked of a store is one call. The same call on a plain list of profiles,
with a supply of identities, is what the store is measured against. No call makes two profiles
of one name, and the profiles stay in the order in which they were made.
-/

namespace Devicetree

open Except (ok error)

/-! ## Changing the first profile -/

/-- The first profile that a key fits is changed, and no other. -/
theorem Profile.changeFirst_eq (key : String) (change : Profile → Profile) (ps : List Profile) :
    changeFirst key change ps = (ps.find? (answersTo key)).map fun p =>
      (change p, ps.modify (ps.findIdx (answersTo key)) change) := by
  induction ps with
  | nil => rfl
  | cons p ps ih =>
    rw [changeFirst, List.find?_cons, List.findIdx_cons]
    cases hfits : p.answersTo key with
    | true => rfl
    | false =>
      simp only [Bool.false_eq_true, if_false, ih, cond_false, List.modify_succ_cons,
        Option.map_map]
      rfl

/-- What a profile was given when it was made. -/
def Profile.identity (p : Profile) : Identity :=
  ⟨p.id, p.created⟩

namespace Store

/-! ## Calls -/

/-- What can be asked of a store. -/
inductive Call where
  | add (name left right : String) (filter : Filter) (autoRefresh : Bool)
  | delete (key : String)
  | toggle (key : String)
  | get (key : String)
  | load
  | autoRefreshed

/-- What a call answers: a profile, or a list of them. -/
inductive Answer where
  | one (p : Profile)
  | all (ps : List Profile)

namespace Call

/-- Whether a call can change a store. -/
def isChange : Call → Bool
  | add .. | delete _ | toggle _ => true
  | get _ | load | autoRefreshed => false

end Call

/-! ## Plain lists -/

/-- A plain list of profiles, and how many identities have been given out. -/
structure Shelf where
  profiles : List Profile
  issued : Nat

/-- What a call does to a plain list: paths are followed from `here`, and `identities` are
    given out one after the other. -/
def Call.onShelf (here : Place) (identities : Nat → Identity) (s : Shelf) :
    Call → Except StoreFailure Answer × Shelf
  | add name left right filter autoRefresh =>
    if (Text.trim name.toList).isEmpty then (error (.reported .blankName), s)
    else if name ∈ s.profiles.map Profile.name then (error (.reported (.takenName name)), s)
    else
      let drawn : Shelf := { s with issued := s.issued + 1 }
      match rooted here left, rooted here right with
      | error failure, _ => (error failure, drawn)
      | ok _, error failure => (error failure, drawn)
      | ok left, ok right =>
        let p : Profile :=
          { id := (identities s.issued).id, name, left, right, filter, autoRefresh
            created := (identities s.issued).created }
        (ok (.one p), { drawn with profiles := s.profiles ++ [p] })
  | delete key =>
    match s.profiles.find? (Profile.answersTo key) with
    | none => (error (.reported (.unknown key)), s)
    | some p => (ok (.one p), { s with profiles := s.profiles.filter fun q => q.id != p.id })
  | toggle key =>
    match s.profiles.find? (Profile.answersTo key) with
    | none => (error (.reported (.unknown key)), s)
    | some p =>
      (ok (.one p.toggled),
        { s with profiles :=
            s.profiles.modify (s.profiles.findIdx (Profile.answersTo key)) Profile.toggled })
  | get key =>
    match s.profiles.find? (Profile.answersTo key) with
    | none => (error (.reported (.unknown key)), s)
    | some p => (ok (.one p), s)
  | load => (ok (.all s.profiles), s)
  | autoRefreshed => (ok (.all (s.profiles.filter (·.autoRefresh))), s)

/-- Ask a plain list time and again. -/
def Shelf.runAll (here : Place) (identities : Nat → Identity) (s : Shelf) :
    List Call → List (Except StoreFailure Answer) × Shelf
  | [] => ([], s)
  | c :: cs =>
    let (answer, s') := c.onShelf here identities s
    let (answers, s'') := runAll here identities s' cs
    (answer :: answers, s'')

/-! ## What a call can do -/

/-- What a call can do to a plain list. -/
inductive Shelf.Moves (identities : Nat → Identity) (s : Shelf) :
    Except StoreFailure Answer → Shelf → Prop
  | refused (failure : StoreFailure) : Moves identities s (error failure) s
  | drawn (failure : StoreFailure) :
    Moves identities s (error failure) { s with issued := s.issued + 1 }
  | answered (answer : Answer) : Moves identities s (ok answer) s
  | added {p : Profile} (name : p.name ∉ s.profiles.map Profile.name)
      (identity : p.identity = identities s.issued) :
    Moves identities s (ok (.one p)) ⟨s.profiles ++ [p], s.issued + 1⟩
  | removed (p : Profile) :
    Moves identities s (ok (.one p))
      { s with profiles := s.profiles.filter fun q => q.id != p.id }
  | toggled (p : Profile) (i : Nat) :
    Moves identities s (ok (.one p.toggled))
      { s with profiles := s.profiles.modify i Profile.toggled }

variable {here : Place} {identities : Nat → Identity} {s s' : Shelf}

theorem Call.moves (here : Place) (identities : Nat → Identity) (s : Shelf) (c : Call) :
    s.Moves identities (c.onShelf here identities s).1 (c.onShelf here identities s).2 := by
  cases c with
  | load => exact .answered _
  | autoRefreshed => exact .answered _
  | get key =>
    rw [onShelf]
    split
    · exact .refused _
    · exact .answered _
  | delete key =>
    rw [onShelf]
    split
    · exact .refused _
    · exact .removed _
  | toggle key =>
    rw [onShelf]
    split
    · exact .refused _
    · exact .toggled _ _
  | add name left right filter autoRefresh =>
    rw [onShelf]
    split
    · exact .refused _
    · split
      · exact .refused _
      · dsimp only
        split
        · exact .drawn _
        · exact .drawn _
        · exact .added ‹_› rfl

/-- A call that is no change leaves a plain list as it is. -/
theorem Call.onShelf_of_not_isChange {c : Call} (hc : c.isChange = false) :
    (c.onShelf here identities s).2 = s := by
  cases c with
  | load => rfl
  | autoRefreshed => rfl
  | get key =>
    rw [onShelf]
    split
    · rfl
    · rfl
  | _ => cases hc

/-- No two profiles have one name, and all stand in the order in which they were made. -/
structure Shelf.Orderly (identities : Nat → Identity) (s : Shelf) : Prop where
  names : (s.profiles.map Profile.name).Nodup
  order : (s.profiles.map Profile.identity).Sublist ((List.range s.issued).map identities)

theorem Shelf.orderly_nil (identities : Nat → Identity) (issued : Nat) :
    Orderly identities ⟨[], issued⟩ :=
  ⟨List.nodup_nil, List.nil_sublist _⟩

/-- Toggling a profile changes neither its name nor its identity. -/
theorem map_modify_toggled {α : Type} {f : Profile → α} (hf : ∀ p, f p.toggled = f p)
    (ps : List Profile) (i : Nat) : (ps.modify i Profile.toggled).map f = ps.map f := by
  induction ps generalizing i with
  | nil => cases i with
    | zero => rfl
    | succ i => rfl
  | cons p ps ih =>
    cases i with
    | zero => simp [hf]
    | succ i => simp [ih]

theorem Shelf.Orderly.moves {r : Except StoreFailure Answer} (h : s.Orderly identities)
    (hmoves : s.Moves identities r s') : s'.Orderly identities := by
  have hdrawn : ((List.range s.issued).map identities).Sublist
      ((List.range (s.issued + 1)).map identities) := by
    rw [List.range_succ, List.map_append]
    exact List.sublist_append_left _ _
  cases hmoves with
  | refused failure => exact h
  | drawn failure => exact ⟨h.names, h.order.trans hdrawn⟩
  | answered answer => exact h
  | added name identity =>
    constructor
    · simpa [List.nodup_append, h.names] using name
    · rw [List.range_succ, List.map_append, List.map_append]
      exact h.order.append (by simp [identity])
  | removed p =>
    exact ⟨h.names.sublist (List.filter_sublist.map _), (List.filter_sublist.map _).trans h.order⟩
  | toggled p i =>
    constructor
    · rw [map_modify_toggled fun _ => rfl]
      exact h.names
    · rw [map_modify_toggled fun _ => rfl]
      exact h.order

end Store

end Devicetree
