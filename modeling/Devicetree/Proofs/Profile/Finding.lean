-- SUMMARY: A profile that was added to a store is found there under its name.
import Devicetree.Proofs.Files.Paths
import Devicetree.Proofs.Profile.Calls
import Devicetree.Proofs.Profile.Records

/-!
# Finding what was added

An addition that goes through leaves a store from which all earlier profiles are read back and
the new one behind them. It is found under its name, unless that is the id of an earlier one,
and its paths lead to the files for which it was made.
-/

namespace Devicetree

open Except (ok error)

/-! ## Stored paths -/

/-- The path from the root to what a written path stands for. -/
def Disk.rooted (d : Disk) (side : Text) : Path :=
  Path.ofPlace ((Path.ofText side).place d.here)

namespace Store

variable {store : Path} {d d' : Disk} {ps : List Profile} {p : Profile}
  {name left right : String} {filter : Filter} {autoRefresh : Bool}

theorem eq_of_rooted_eq_ok {here : Place} {path stored : String}
    (h : rooted here path = ok stored) :
    stored = (Path.ofPlace ((Path.ofText path.toList).place here)).string := by
  rw [rooted] at h
  split at h
  · cases h
  · cases h
    rfl

/-! ## Additions -/

/-- What an addition to a plain list comes to if it goes through. -/
theorem Call.of_onShelf_add {here : Place} {identities : Nat → Identity} {s s' : Shelf}
    {answer : Answer} (h : (add name left right filter autoRefresh).onShelf here identities s =
      (ok answer, s')) :
    ∃ p, answer = .one p ∧ s' = ⟨s.profiles ++ [p], s.issued + 1⟩ ∧
      p.name ∉ s.profiles.map Profile.name ∧ p.name = name ∧ p.filter = filter ∧
        rooted here left = ok p.left ∧ rooted here right = ok p.right := by
  rw [onShelf] at h
  split at h
  · cases h
  · split at h
    · cases h
    · rename_i hname
      dsimp only at h
      split at h
      · cases h
      · cases h
      · cases h
        exact ⟨_, rfl, rfl, hname, rfl, rfl, ‹_›, ‹_›⟩

/-- What it takes to add a profile to those of a store, and what it leaves. -/
structure Adds (store : Path) (d d' : Disk) (ps : List Profile) (p : Profile) : Prop where
  loaded : loaded store d = ok ps
  name : p.name ∉ ps.map Profile.name
  ready : ∃ made a b, Ready store (d.withIssued (d.issued + 1)) made a b ∧
    d' = replaced made a b (contents (ps ++ [p]))

theorem of_exec_add (hplain : store.IsPlain)
    (h : d.exec (add store name left right filter autoRefresh) = (ok p, d')) :
    (∃ ps, Adds store d d' ps p) ∧ p.name = name ∧ p.filter = filter ∧
      p.left = (d.rooted left.toList).string ∧ p.right = (d.rooted right.toList).string := by
  have hrun : d.exec (Call.run store (.add name left right filter autoRefresh)) =
      (ok (.one p), d') := by
    rw [Call.run, Disk.exec_map, h]
    rfl
  have hcomes := Call.comes hplain d (.add name left right filter autoRefresh)
  rw [hrun] at hcomes
  dsimp only at hcomes
  generalize hresult : (ok (.one p) : Except StoreFailure Answer) = result at hcomes
  cases hcomes with
  | kept issued change =>
    obtain ⟨failure, hfailure⟩ := change rfl
    rw [hfailure] at hresult
    cases hresult
  | @saved ps answer s r _ hloaded change hshelf hsaves =>
    obtain ⟨q, rfl, rfl, hnew, hname, hfilter, hleft, hright⟩ := Call.of_onShelf_add hshelf
    cases hsaves with
    | stopped grown => cases hresult
    | unmoved begun moveFile => cases hresult
    | @saved made a b ready =>
      cases hresult
      exact ⟨⟨ps, hloaded, hnew, made, a, b, ready, rfl⟩, hname, hfilter,
        eq_of_rooted_eq_ok hleft, eq_of_rooted_eq_ok hright⟩

/-- An addition leaves what programs ask a disk for, but for files and directories that are
made. -/
theorem Adds.kept (hplain : store.IsPlain) (h : Adds store d d' ps p) :
    d'.here = d.here ∧ d'.runtime = d.runtime ∧ d.tree.Reaches d'.tree := by
  obtain ⟨made, a, b, ready, rfl⟩ := h.ready
  obtain ⟨hgrown, -⟩ := ready.grown hplain
  exact ⟨hgrown.here, hgrown.runtime,
    hgrown.reaches.trans fun q => (ready.directory_iff _ q).2⟩

/-! ## Lookup -/

/-- A store is there once something was added to it. -/
theorem Adds.look (hplain : store.IsPlain) (h : Adds store d d' ps p) :
    d'.tree.look d'.here store = ok (.file (contents (ps ++ [p]))) := by
  obtain ⟨made, a, b, ready, rfl⟩ := h.ready
  exact ready.look_replaced hplain _

/-- All profiles are read back, the new one behind the others. -/
theorem Adds.loaded_again (hplain : store.IsPlain) (h : Adds store d d' ps p) :
    Store.loaded store d' = ok ((ps ++ [p]).map Profile.reread) :=
  (loaded_of_file (h.look hplain)).trans (readContents_contents_eq_map d'.runtime store _)

/-- The new profile is found under its name if that is not the id of another one. -/
theorem Adds.exec_get (hplain : store.IsPlain) (h : Adds store d d' ps p)
    (hid : ∀ q ∈ ps, q.id ≠ p.name) : d'.exec (get store p.name) = (ok p.reread, d') := by
  have hfind : ((ps ++ [p]).map Profile.reread).find? (Profile.answersTo p.name) =
      some p.reread := by
    rw [List.map_append, List.find?_append, List.find?_eq_none.2 fun q hq => ?_]
    · simp [Profile.answersTo, Profile.reread]
    · obtain ⟨r, hr, rfl⟩ := List.mem_map.1 hq
      have hname : r.name ≠ p.name := fun heq => h.name (heq ▸ List.mem_map_of_mem hr)
      simp [Profile.answersTo, Profile.reread, hname, hid r hr]
  rw [Store.exec_get (h.loaded_again hplain), hfind]

end Store

end Devicetree
