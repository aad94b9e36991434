-- SUMMARY: A profile store on a disk is a plain list of profiles, over runs of any length.
import Devicetree.Proofs.Profile.Calls
import Devicetree.Proofs.Profile.Records

/-!
# Runs

A store that can be saved holds a plain list: it loads as its profiles, and every call keeps
it so. By induction on the calls, a store that starts out absent answers every run as the
list does, and is loaded as the list that is left.
-/

namespace Devicetree

open Except (ok error)

/-! ## A disk to run on -/

/-- A disk that holds one empty directory, in which paths start, and gives out numbers. -/
def Disk.numbered : Disk where
  tree := ⟨[(["w".toList], .directory)]⟩
  here := ["w".toList]
  identities n := ⟨String.ofList (Hex.padded 12 (n + 1)), 1700003600.5⟩
  issued := 0

theorem Disk.readsBack_numbered (n : Nat) : Json.ReadsBack (numbered.identities n).created := by
  have hwrite : (DecimalStyle.stored.write 1700003600.5).toList = "1700003600.5".toList := by
    decide
  change Json.parse (DecimalStyle.stored.write 1700003600.5).toList = ok (.real 1700003600.5)
  rw [hwrite]
  rfl

namespace Store

variable {store : Path} {d made : Disk} {s s' : Shelf} {a b : Place} {ps : List Profile}

/-- A store on a disk holds a plain list of profiles, and can be saved. -/
structure Holds (store : Path) (d : Disk) (s : Shelf) : Prop where
  loaded : loaded store d = ok s.profiles
  issued : d.issued = s.issued
  ready : ∃ made a b, Ready store d made a b
  orderly : s.Orderly d.identities

/-- A store that is not there. -/
def IsAbsent (store : Path) (d : Disk) : Prop :=
  ∃ o, d.tree.look d.here store = error o ∧ o.meansNothing

theorem IsAbsent.loaded (habsent : IsAbsent store d) : loaded store d = ok [] := by
  obtain ⟨o, hlook, hnothing⟩ := habsent
  exact loaded_of_nothing hlook hnothing

/-- A store that is not there and can be saved holds the empty list. -/
theorem IsAbsent.holds (habsent : IsAbsent store d) (hplain : store.IsPlain) {d' : Disk}
    (hwritable : d.exec (save store []) = (ok (), d')) : Holds store d ⟨[], d.issued⟩ := by
  refine ⟨habsent.loaded, rfl, ?_, Shelf.orderly_nil _ _⟩
  have hsaves := exec_save hplain [] d
  rw [hwritable] at hsaves
  cases hsaves with
  | saved ready => exact ⟨_, _, _, ready⟩

theorem holds_numbered : Holds (Path.ofText "profiles.json".toList) Disk.numbered ⟨[], 0⟩ :=
  IsAbsent.holds ⟨.absent, by rfl, by rfl⟩ (Path.isPlain_ofText _) (Prod.ext (by rfl) (by rfl))

/-! ## One call -/

/-- The times of creation of all profiles are read back if those that are given out are. -/
theorem Shelf.Orderly.readsBack {identities : Nat → Identity} (h : s.Orderly identities)
    (hcreated : ∀ n, Json.ReadsBack (identities n).created) :
    ∀ p ∈ s.profiles, Json.ReadsBack p.created := by
  intro p hp
  obtain ⟨n, -, hn⟩ := List.mem_map.1 (h.order.subset (List.mem_map_of_mem hp))
  have hreads := hcreated n
  rwa [hn] at hreads

/-- A store that was saved holds the profiles that it was saved with. -/
theorem Ready.loaded_replaced (hplain : store.IsPlain) (ready : Ready store d made a b)
    (hps : ∀ p ∈ ps, Json.ReadsBack p.created) :
    loaded store (replaced made a b (contents ps)) = ok ps :=
  (loaded_of_file (ready.look_replaced hplain (contents ps))).trans
    (readContents_contents _ store hps)

/-- A call answers what the plain list answers, and the store goes on holding it. -/
theorem Holds.run (hplain : store.IsPlain)
    (hcreated : ∀ n, Json.ReadsBack (d.identities n).created) (h : Holds store d s) (c : Call) :
    (d.exec (c.run store)).1 = (c.onShelf d.here d.identities s).1 ∧
      Holds store (d.exec (c.run store)).2 (c.onShelf d.here d.identities s).2 ∧
      (d.exec (c.run store)).2.here = d.here ∧
      (d.exec (c.run store)).2.identities = d.identities := by
  have hrun := exec_run h.loaded c
  have hmoves := c.moves d.here d.identities s
  have hread : c.isChange = false → (c.onShelf d.here d.identities s).2 = s :=
    Call.onShelf_of_not_isChange
  rw [h.issued] at hrun
  rw [hrun]
  generalize c.onShelf d.here d.identities s = r at hmoves hread ⊢
  obtain ⟨answer, s'⟩ := r
  have horderly := h.orderly.moves hmoves
  obtain ⟨made, a, b, ready⟩ := h.ready
  have ready' := ready.withIssued s'.issued
  cases answer with
  | error failure =>
    have hprofiles : s'.profiles = s.profiles := by
      cases hmoves with
      | refused => rfl
      | drawn => rfl
    exact ⟨rfl, ⟨hprofiles ▸ h.loaded, rfl, ⟨_, _, _, ready'⟩, horderly⟩, rfl, rfl⟩
  | ok answer =>
    rw [settleCall]
    split
    · have hgrown := (ready'.grown hplain).1
      have hidentities : (made.withIssued s'.issued).identities = d.identities :=
        hgrown.identities
      simp only [ready'.exec_save s'.profiles]
      refine ⟨rfl, ⟨?_, ?_, ⟨_, _, _, ready'.again hplain _⟩, ?_⟩, hgrown.here, hidentities⟩
      · exact ready'.loaded_replaced hplain (horderly.readsBack hcreated)
      · exact hgrown.issued
      · exact hidentities ▸ horderly
    · rename_i hc
      rw [Bool.not_eq_true] at hc
      rw [hread hc]
      exact ⟨rfl, h, rfl, rfl⟩

/-! ## Many calls -/

/-- A run answers what the plain list answers, and the store goes on holding it. -/
theorem Holds.runAll (hplain : store.IsPlain)
    (hcreated : ∀ n, Json.ReadsBack (d.identities n).created) (h : Holds store d s)
    (calls : List Call) :
    (runAll store d calls).1 = (s.runAll d.here d.identities calls).1 ∧
      Holds store (Store.runAll store d calls).2 (s.runAll d.here d.identities calls).2 ∧
      (Store.runAll store d calls).2.here = d.here ∧
      (Store.runAll store d calls).2.identities = d.identities := by
  induction calls generalizing d s with
  | nil => exact ⟨rfl, h, rfl, rfl⟩
  | cons c calls ih =>
    obtain ⟨hanswer, hholds, hhere, hidentities⟩ := h.run hplain hcreated c
    have hrest := ih (hidentities ▸ hcreated) hholds
    rw [hhere, hidentities] at hrest
    obtain ⟨hanswers, hholds', hrest⟩ := hrest
    exact ⟨List.cons_eq_cons.2 ⟨hanswer, hanswers⟩, hholds', hrest⟩

/-- From an absent store that can be saved, every run of calls is answered as the plain list
    answers it. Afterwards the store is loaded as that list, in which no two profiles have one
    name and all stand in the order in which they were made. -/
theorem runAll_eq_onShelf (written : Text) (d : Disk) (calls : List Call)
    (habsent : IsAbsent (Path.ofText written) d)
    (hwritable : ∃ d', d.exec (save (Path.ofText written) []) = (ok (), d'))
    (hcreated : ∀ n, Json.ReadsBack (d.identities n).created) :
    let run := runAll (Path.ofText written) d calls
    let shelf := Shelf.runAll d.here d.identities ⟨[], d.issued⟩ calls
    run.1 = shelf.1 ∧
      run.2.exec (load (Path.ofText written)) = (ok shelf.2.profiles, run.2) ∧
      (shelf.2.profiles.map Profile.name).Nodup ∧
      (shelf.2.profiles.map Profile.identity).Sublist
        ((List.range shelf.2.issued).map d.identities) := by
  have hplain := Path.isPlain_ofText written
  obtain ⟨d', hsave⟩ := hwritable
  obtain ⟨hanswers, hholds, -, hidentities⟩ :=
    (habsent.holds hplain hsave).runAll hplain hcreated calls
  refine ⟨hanswers, ?_, hholds.orderly.names, ?_⟩
  · rw [exec_load, hholds.loaded]
  · exact hidentities ▸ hholds.orderly.order

theorem runAll_eq_onShelf_twoNames :
    let store := Path.ofText "profiles.json".toList
    let calls : List Call :=
      [.add "é\"" "l.dts" "r.dts" {} false, .add "b" "l.dts" "../r.dts" {} false, .toggle "b",
        .delete "000000000001"]
    ((runAll store Disk.numbered calls).2.exec (load store)).1 =
      ok [{ id := "000000000002", name := "b", left := "/w/l.dts", right := "/r.dts", filter := {}
            autoRefresh := true, created := 1700003600.5 }] := by
  intro store calls
  have hrun := runAll_eq_onShelf "profiles.json".toList Disk.numbered calls
    ⟨.absent, by rfl, by rfl⟩ ⟨_, Prod.ext (by rfl) (by rfl)⟩ Disk.readsBack_numbered
  rw [hrun.2.1]
  rfl

end Store

end Devicetree
