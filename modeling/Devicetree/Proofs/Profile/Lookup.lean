-- SUMMARY: Which profile of a store a key stands for, among names and ids in one space.
import Devicetree.Proofs.Profile.Runs

/-!
# Lookup

A key is compared with the names and the ids of all profiles, in the order in which they were
made, and a new name is compared with names only. So a profile is found by its name exactly
if no profile before it has that name as its id, and by its id exactly if no profile before it
has that id as its name.
-/

namespace Devicetree

open Except (ok error)

/-! ## The first profile that a key fits -/

theorem find?_append_cons_iff {α : Type} {f : α → Bool} {before after : List α} {a : α}
    (ha : f a) (hnew : a ∉ before) :
    (before ++ a :: after).find? f = some a ↔ ∀ b ∈ before, f b = false := by
  rw [List.find?_append, List.find?_cons_of_pos ha]
  cases hbefore : before.find? f with
  | none =>
    simp only [Option.none_or, true_iff]
    simpa using hbefore
  | some b =>
    have hb := List.mem_of_find?_eq_some hbefore
    have hfits := List.find?_some hbefore
    simp only [Option.some_or, Option.some.injEq]
    constructor
    · rintro rfl
      exact absurd hb hnew
    · intro hnone
      rw [hnone b hb] at hfits
      cases hfits

theorem modify_findIdx_append_cons {α : Type} {f : α → Bool} {before after : List α} {a : α}
    (ha : f a) (hbefore : ∀ b ∈ before, f b = false) (change : α → α) :
    (before ++ a :: after).modify ((before ++ a :: after).findIdx f) change =
      before ++ change a :: after := by
  induction before with
  | nil => simp [List.findIdx_cons, ha]
  | cons b before ih =>
    obtain ⟨hb, hrest⟩ := List.forall_mem_cons.1 hbefore
    rw [List.cons_append, List.findIdx_cons, hb]
    simp [ih hrest]

namespace Profile

theorem toggled_toggled (p : Profile) : p.toggled.toggled = p := by
  simp [toggled]

theorem toggled_inj {p q : Profile} : p.toggled = q.toggled ↔ p = q := by
  refine ⟨fun h => ?_, fun h => h ▸ rfl⟩
  rw [← toggled_toggled p, h, toggled_toggled]

variable {before after : List Profile} {p : Profile}

theorem ne_of_nodup {f : Profile → String} (h : ((before ++ p :: after).map f).Nodup) :
    (∀ q ∈ before, f q ≠ f p) ∧ ∀ q ∈ after, f q ≠ f p := by
  simp only [List.map_append, List.map_cons, List.nodup_append, List.nodup_cons,
    List.mem_map, List.mem_cons] at h
  grind

/-- A profile is the first that its name fits if that is the id of none before it. -/
theorem find?_name_iff (hnames : ((before ++ p :: after).map Profile.name).Nodup) :
    (before ++ p :: after).find? (answersTo p.name) = some p ↔ ∀ q ∈ before, q.id ≠ p.name := by
  have hne := (ne_of_nodup hnames).1
  rw [find?_append_cons_iff (by simp [answersTo]) fun hp => hne p hp rfl]
  refine forall₂_congr fun q hq => ?_
  simp [answersTo, hne q hq]

/-- A profile is the first that its id fits if that is the name of none before it. -/
theorem find?_id_iff (hids : ((before ++ p :: after).map Profile.id).Nodup) :
    (before ++ p :: after).find? (answersTo p.id) = some p ↔ ∀ q ∈ before, q.name ≠ p.id := by
  have hne := (ne_of_nodup hids).1
  rw [find?_append_cons_iff (by simp [answersTo]) fun hp => hne p hp rfl]
  refine forall₂_congr fun q hq => ?_
  simp [answersTo, hne q hq]

/-- All that have the id of a profile are the profile itself. -/
theorem filter_id_ne (hids : ((before ++ p :: after).map Profile.id).Nodup) :
    ((before ++ p :: after).filter fun q => q.id != p.id) = before ++ after := by
  obtain ⟨hbefore, hafter⟩ := ne_of_nodup hids
  rw [List.filter_append, List.filter_cons_of_neg (by simp),
    List.filter_eq_self.2 fun q hq => by simpa using hbefore q hq,
    List.filter_eq_self.2 fun q hq => by simpa using hafter q hq]

end Profile

namespace Store

variable {here : Place} {identities : Nat → Identity} {s : Shelf} {before after : List Profile}
  {p : Profile}

/-! ## Answers of a plain list -/

theorem Shelf.runAll_get_iff (hs : s.profiles = before ++ p :: after) (key : String) :
    (s.runAll here identities [.get key]).1 = [ok (.one p)] ↔
      (before ++ p :: after).find? (Profile.answersTo key) = some p := by
  simp only [runAll, Call.onShelf, hs]
  cases (before ++ p :: after).find? (Profile.answersTo key) with
  | none => simp
  | some q => simp

theorem Shelf.runAll_delete_iff (hs : s.profiles = before ++ p :: after)
    (hids : ((before ++ p :: after).map Profile.id).Nodup) (key : String) :
    (s.runAll here identities [.delete key, .load]).1 =
        [ok (.one p), ok (.all (before ++ after))] ↔
      (before ++ p :: after).find? (Profile.answersTo key) = some p := by
  simp only [runAll, Call.onShelf, hs]
  cases (before ++ p :: after).find? (Profile.answersTo key) with
  | none => simp
  | some q =>
    simp only [List.cons.injEq, Except.ok.injEq, Answer.one.injEq, Answer.all.injEq, and_true,
      Option.some.injEq, and_iff_left_iff_imp]
    rintro rfl
    exact Profile.filter_id_ne hids

theorem Shelf.runAll_toggle_iff (hs : s.profiles = before ++ p :: after) (hp : p ∉ before)
    {key : String} (hkey : p.answersTo key) :
    (s.runAll here identities [.toggle key, .load]).1 =
        [ok (.one p.toggled), ok (.all (before ++ p.toggled :: after))] ↔
      (before ++ p :: after).find? (Profile.answersTo key) = some p := by
  simp only [runAll, Call.onShelf, hs]
  cases hfind : (before ++ p :: after).find? (Profile.answersTo key) with
  | none => simp
  | some q =>
    simp only [List.cons.injEq, Except.ok.injEq, Answer.one.injEq, Answer.all.injEq, and_true,
      Option.some.injEq, Profile.toggled_inj, and_iff_left_iff_imp]
    rintro rfl
    exact modify_findIdx_append_cons hkey ((find?_append_cons_iff hkey hp).1 hfind) _

/-! ## Answers of a store -/

theorem Shelf.Orderly.ids (h : s.Orderly identities)
    (hids : ((List.range s.issued).map fun n => (identities n).id).Nodup) :
    (s.profiles.map Profile.id).Nodup := by
  have hsublist := h.order.map Identity.id
  rw [List.map_map, List.map_map] at hsublist
  exact hids.sublist hsublist

/-- The profile of a name that is made on the numbered disk after so many others. -/
def numberedProfile (made : Nat) (name : String) : Profile where
  id := (Disk.numbered.identities made).id
  name := name
  left := "/w/l.dts"
  right := "/w/r.dts"
  filter := {}
  created := (Disk.numbered.identities made).created

/-- In every state of a store that started out absent, with all ids different: a stored profile
    is answered for its name, deleted by it and toggled by it, each alone, exactly if its name
    is the id of no profile before it; it is answered for its id exactly if its id is the name
    of no profile before it. -/
theorem answers_stored_iff (written : Text) (d : Disk) (calls : List Call)
    (habsent : IsAbsent (Path.ofText written) d)
    (hwritable : ∃ d', d.exec (save (Path.ofText written) []) = (ok (), d'))
    (hcreated : ∀ n, Json.ReadsBack (d.identities n).created)
    (hids : ((List.range (runAll (Path.ofText written) d calls).2.issued).map fun n =>
      (d.identities n).id).Nodup)
    (before : List Profile) (p : Profile) (after : List Profile)
    (hstored : ((runAll (Path.ofText written) d calls).2.exec (load (Path.ofText written))).1 =
      ok (before ++ p :: after)) :
    let answers := fun more =>
      (runAll (Path.ofText written) (runAll (Path.ofText written) d calls).2 more).1
    (answers [.get p.name] = [ok (.one p)] ↔ ∀ q ∈ before, q.id ≠ p.name) ∧
      (answers [.get p.id] = [ok (.one p)] ↔ ∀ q ∈ before, q.name ≠ p.id) ∧
      (answers [.delete p.name, .load] = [ok (.one p), ok (.all (before ++ after))] ↔
        ∀ q ∈ before, q.id ≠ p.name) ∧
      (answers [.toggle p.name, .load] =
          [ok (.one p.toggled), ok (.all (before ++ p.toggled :: after))] ↔
        ∀ q ∈ before, q.id ≠ p.name) := by
  have hplain := Path.isPlain_ofText written
  obtain ⟨d', hsave⟩ := hwritable
  obtain ⟨-, hholds, -, hidentities⟩ :=
    (habsent.holds hplain hsave).runAll hplain hcreated calls
  generalize (Shelf.runAll d.here d.identities ⟨[], d.issued⟩ calls).2 = s at hholds
  generalize (runAll (Path.ofText written) d calls).2 = left at *
  have hs : s.profiles = before ++ p :: after := by
    simpa [exec_load, hholds.loaded] using hstored
  have hnames := hs ▸ hholds.orderly.names
  have hids' := hs ▸ hholds.orderly.ids (hidentities ▸ hholds.issued ▸ hids)
  have hanswers := fun more => (hholds.runAll hplain (hidentities ▸ hcreated) more).1
  simp only [hanswers]
  refine ⟨?_, ?_, ?_, ?_⟩
  · rw [Shelf.runAll_get_iff hs, Profile.find?_name_iff hnames]
  · rw [Shelf.runAll_get_iff hs, Profile.find?_id_iff hids']
  · rw [Shelf.runAll_delete_iff hs hids', Profile.find?_name_iff hnames]
  · rw [Shelf.runAll_toggle_iff hs _ (by simp [Profile.answersTo]), Profile.find?_name_iff hnames]
    exact fun hp => (Profile.ne_of_nodup hnames).1 p hp rfl

theorem answers_stored_iff_secondName :
    let store := Path.ofText "profiles.json".toList
    let left := (runAll store Disk.numbered
      [.add "a" "l.dts" "r.dts" {} false, .add "b" "l.dts" "r.dts" {} false]).2
    (runAll store left [.get "b"]).1 = [ok (.one (numberedProfile 1 "b"))] ∧
      (runAll store left [.delete "b", .load]).1 =
        [ok (.one (numberedProfile 1 "b")), ok (.all [numberedProfile 0 "a"])] := by
  dsimp only
  have hholds := (holds_numbered.runAll (Path.isPlain_ofText _) Disk.readsBack_numbered
    [.add "a" "l.dts" "r.dts" {} false, .add "b" "l.dts" "r.dts" {} false]).2.1
  have hiff := answers_stored_iff "profiles.json".toList Disk.numbered
    [.add "a" "l.dts" "r.dts" {} false, .add "b" "l.dts" "r.dts" {} false] ⟨.absent, by rfl, by rfl⟩
    ⟨_, Prod.ext (by rfl) (by rfl)⟩ Disk.readsBack_numbered
    (by rw [hholds.issued]; decide +kernel) [numberedProfile 0 "a"] (numberedProfile 1 "b") []
    (by rw [exec_load, hholds.loaded]; rfl)
  have hne : ∀ q ∈ [numberedProfile 0 "a"], q.id ≠ "b" := by decide +kernel
  exact ⟨hiff.1.2 hne, hiff.2.2.1.2 hne⟩

/-- A profile whose name is the id of an earlier one is not found, deleted or toggled by its
    name; the earlier one is. -/
theorem answers_firstId :
    let store := Path.ofText "profiles.json".toList
    let left := (runAll store Disk.numbered [.add "a" "l.dts" "r.dts" {} false,
      .add "000000000001" "l.dts" "r.dts" {} false]).2
    let first := numberedProfile 0 "a"
    let second := numberedProfile 1 "000000000001"
    (left.exec (load store)).1 = ok [first, second] ∧
      (runAll store left [.get second.name]).1 = [ok (.one first)] ∧
      (runAll store left [.delete second.name, .load]).1 = [ok (.one first), ok (.all [second])] ∧
      (runAll store left [.toggle second.name, .load]).1 =
        [ok (.one first.toggled), ok (.all [first.toggled, second])] := by
  dsimp only
  have hplain := Path.isPlain_ofText "profiles.json".toList
  obtain ⟨-, hholds, -, hidentities⟩ := holds_numbered.runAll hplain Disk.readsBack_numbered
    [.add "a" "l.dts" "r.dts" {} false, .add "000000000001" "l.dts" "r.dts" {} false]
  generalize (runAll _ Disk.numbered _).2 = left at *
  have hstored : Holds _ left ⟨[numberedProfile 0 "a", numberedProfile 1 "000000000001"], 2⟩ :=
    hholds
  have hcreated : ∀ n, Json.ReadsBack (left.identities n).created := by
    rw [hidentities]
    exact Disk.readsBack_numbered
  have hanswers := fun more => (hstored.runAll hplain hcreated more).1
  have hfits : (numberedProfile 0 "a").answersTo "000000000001" := by decide +kernel
  have hids : (([] ++ numberedProfile 0 "a" :: [numberedProfile 1 "000000000001"]).map
      Profile.id).Nodup := by
    decide +kernel
  have hfind := List.find?_cons_of_pos (l := [numberedProfile 1 "000000000001"]) hfits
  have hs : [numberedProfile 0 "a", numberedProfile 1 "000000000001"] =
      [] ++ numberedProfile 0 "a" :: [numberedProfile 1 "000000000001"] := rfl
  refine ⟨?_, ?_, ?_, ?_⟩
  · rw [exec_load, hstored.loaded]
  · rw [hanswers]
    exact (Shelf.runAll_get_iff hs "000000000001").2 hfind
  · rw [hanswers]
    exact (Shelf.runAll_delete_iff hs hids "000000000001").2 hfind
  · rw [hanswers]
    exact (Shelf.runAll_toggle_iff hs List.not_mem_nil hfits).2 hfind

end Store

end Devicetree
