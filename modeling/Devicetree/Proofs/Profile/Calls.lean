-- SUMMARY: Calls to a profile store on a disk do what they do to a plain list, and save it.
import Devicetree.Proofs.Profile.Saving
import Devicetree.Proofs.Profile.Shelves

/-!
# Calls

A call loads the store, does to the profiles what the same call does to a plain list, and
saves them if it may have changed them; it fails where the list refuses it, and where loading
or saving fails.
-/

namespace Devicetree

open Except (ok error)

namespace Store

/-! ## Running calls -/

/-- Ask a store. -/
def Call.run {m : Type → Type} [Monad m] [Machine m] (store : Path) :
    Call → ExceptT StoreFailure m Answer
  | add name left right filter autoRefresh =>
    .one <$> Store.add store name left right filter autoRefresh
  | delete key => .one <$> Store.delete store key
  | toggle key => .one <$> Store.toggle store key
  | get key => .one <$> Store.get store key
  | load => .all <$> Store.load store
  | autoRefreshed => .all <$> Store.autoRefreshed store

/-- Ask a store on a disk time and again: the answers, and the disk that is left. -/
def runAll (store : Path) (d : Disk) : List Call → List (Except StoreFailure Answer) × Disk
  | [] => ([], d)
  | c :: cs =>
    let (answer, d') := d.exec (c.run store)
    let (answers, d'') := runAll store d' cs
    (answer :: answers, d'')

/-! ## One call -/

variable {store : Path} {d : Disk} {ps : List Profile}

/-- What a call comes to once the list has answered it. -/
def settleCall (store : Path) (d : Disk) (c : Call) :
    Except StoreFailure Answer × Shelf → Except StoreFailure Answer × Disk
  | (error failure, s) => (error failure, d.withIssued s.issued)
  | (ok answer, s) =>
    if c.isChange then
      let saved := (d.withIssued s.issued).exec (save store s.profiles)
      (saved.1.map fun _ => answer, saved.2)
    else (ok answer, d)

theorem exec_get (h : loaded store d = ok ps) (key : String) :
    d.exec (get store key) =
      (match ps.find? (Profile.answersTo key) with
        | none => error (.reported (.unknown key))
        | some p => ok p, d) := by
  rw [get, Disk.exec_bind, exec_load, h]
  dsimp only
  cases ps.find? (Profile.answersTo key) with
  | none => rfl
  | some p => rfl

/-- Saving profiles and answering with one of them. -/
theorem exec_save_return (store : Path) (ps : List Profile) (p : Profile) (d : Disk) :
    d.exec (Answer.one <$> (do save store ps; return p)) =
      ((d.exec (save store ps)).1.map fun _ => .one p, (d.exec (save store ps)).2) := by
  rw [Disk.exec_map, Disk.exec_bind]
  rcases d.exec (save store ps) with ⟨_ | _, d'⟩
  · rfl
  · rfl

/-- A call that loads the store does what the list does, and saves what it changes. -/
theorem exec_run (h : loaded store d = ok ps) (c : Call) :
    d.exec (c.run store) =
      settleCall store d c (c.onShelf d.here d.identities ⟨ps, d.issued⟩) := by
  cases c with
  | load =>
    simp only [Call.run, Disk.exec_map, exec_load, h]
    rfl
  | autoRefreshed =>
    simp only [Call.run, Disk.exec_map, autoRefreshed, Disk.exec_bind, exec_load, h]
    rfl
  | get key =>
    simp only [Call.run, Disk.exec_map, exec_get h, Call.onShelf]
    cases ps.find? (Profile.answersTo key) with
    | none => rfl
    | some p => rfl
  | delete key =>
    rw [Call.run, delete, Disk.exec_map, Disk.exec_bind, exec_get h, Call.onShelf]
    cases ps.find? (Profile.answersTo key) with
    | none => rfl
    | some p =>
      dsimp only
      rw [Disk.exec_bind, exec_load, h]
      exact (Disk.exec_map ..).symm.trans (exec_save_return store _ p d)
  | toggle key =>
    rw [Call.run, toggle, Disk.exec_map, Disk.exec_bind, exec_load, h, Call.onShelf]
    dsimp only
    rw [Profile.changeFirst_eq]
    cases ps.find? (Profile.answersTo key) with
    | none => rfl
    | some p => exact (Disk.exec_map ..).symm.trans (exec_save_return store _ p.toggled d)
  | add name left right filter autoRefresh =>
    rw [Call.run, add, Call.onShelf]
    by_cases hblank : (Text.trim name.toList).isEmpty
    · rw [if_pos hblank, if_pos hblank]
      rfl
    · rw [if_neg hblank, if_neg hblank]
      dsimp only
      rw [Disk.exec_map, Disk.exec_bind, exec_load, h]
      dsimp only
      have htaken : ps.any (·.name == name) = decide (name ∈ ps.map Profile.name) := by
        rw [Bool.eq_iff_iff]
        simp
      rw [htaken]
      by_cases hname : name ∈ ps.map Profile.name
      · rw [if_pos (by simpa using hname), if_pos hname]
        rfl
      · rw [if_neg (by simpa using hname), if_neg hname]
        rw [Disk.exec_bind, Disk.exec_here]
        dsimp only
        rw [Disk.exec_bind, Disk.exec_newIdentity]
        dsimp only
        rw [Disk.exec_bind, Disk.exec_lift]
        cases rooted d.here left with
        | error failure => rfl
        | ok left =>
          dsimp only
          rw [Disk.exec_bind, Disk.exec_lift]
          cases rooted d.here right with
          | error failure => rfl
          | ok right => exact (Disk.exec_map ..).symm.trans (exec_save_return store _ _ _)

/-- A call to a store that cannot be loaded fails, and does nothing. -/
theorem exec_run_of_unloaded {failure : StoreFailure} (h : loaded store d = error failure)
    (c : Call) : ∃ failure', d.exec (c.run store) = (error failure', d) := by
  cases c with
  | load | get _ | autoRefreshed | delete _ | toggle _ =>
    refine ⟨failure, ?_⟩
    simp only [Call.run, get, Store.autoRefreshed, delete, toggle, Disk.exec_map, Disk.exec_bind,
      exec_load, h]
    rfl
  | add name left right filter autoRefresh =>
    rw [Call.run, add]
    by_cases hblank : (Text.trim name.toList).isEmpty
    · rw [if_pos hblank]
      exact ⟨_, rfl⟩
    · rw [if_neg hblank]
      refine ⟨failure, ?_⟩
      dsimp only
      rw [Disk.exec_map, Disk.exec_bind, exec_load, h]
      rfl

/-! ## What a call comes to -/

/-- What a call can come to: it leaves every file as it was, or it saves what the plain list
    has become. -/
inductive Call.Comes (store : Path) (d : Disk) (c : Call) : Except StoreFailure Answer → Disk → Prop
  | kept {r : Except StoreFailure Answer} (issued : Nat)
      (change : c.isChange → ∃ failure, r = error failure) : Comes store d c r (d.withIssued issued)
  | saved {ps : List Profile} {answer : Answer} {s : Shelf} {r : Except StoreFailure Unit}
      {d' : Disk} (loaded : loaded store d = ok ps) (change : c.isChange)
      (shelf : c.onShelf d.here d.identities ⟨ps, d.issued⟩ = (ok answer, s))
      (saves : Saves store (contents s.profiles) (d.withIssued s.issued) r d') :
    Comes store d c (r.map fun _ => answer) d'

theorem Call.comes (hplain : store.IsPlain) (d : Disk) (c : Call) :
    c.Comes store d (d.exec (c.run store)).1 (d.exec (c.run store)).2 := by
  cases hloaded : loaded store d with
  | error failure =>
    obtain ⟨failure', hrun⟩ := exec_run_of_unloaded hloaded c
    rw [hrun]
    exact .kept d.issued fun _ => ⟨failure', rfl⟩
  | ok ps =>
    rw [exec_run hloaded]
    cases hshelf : c.onShelf d.here d.identities ⟨ps, d.issued⟩ with
    | mk r s =>
      cases r with
      | error failure => exact .kept s.issued fun _ => ⟨failure, rfl⟩
      | ok answer =>
        rw [settleCall]
        split
        · exact .saved hloaded ‹_› hshelf (exec_save hplain _ _)
        · rename_i hread
          exact .kept d.issued fun hchange => absurd hchange hread

end Store

end Devicetree
