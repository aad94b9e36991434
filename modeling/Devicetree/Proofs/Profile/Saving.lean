-- SUMMARY: What loading and saving a profile store do to a disk.
import Devicetree.Profile.Store
import Devicetree.Proofs.Machine.Disks

/-!
# Loading and saving

Loading leaves a disk as it is. Saving makes the directory of the store, writes a file beside
the store and moves it over the store, and stops where one of these fails. Whether it goes
through does not depend on what is saved; once it went through it does so again.
-/

namespace Devicetree

open Except (ok error)

namespace Store

variable {store : Path} {d d' : Disk} {ps : List Profile}

/-! ## Loading -/

/-- What loading a store answers. -/
def loaded (store : Path) (d : Disk) : Except StoreFailure (List Profile) :=
  match d.tree.look d.here store with
  | .error o =>
    if o.meansNothing then ok [] else error (.broken (.obstructed ⟨o, [store]⟩))
  | .ok _ =>
    match d.tree.read d.here store with
    | .error o => error (.reported (.unreadable store ⟨o, [store]⟩))
    | .ok octets => readContents d.runtime.reading store octets

/-- Loading leaves a disk as it is. -/
theorem exec_load (store : Path) (d : Disk) : d.exec (load store) = (loaded store d, d) := by
  simp only [load, loaded, Disk.exec_bind, Disk.exec_look]
  cases d.tree.look d.here store with
  | error o =>
    dsimp only [Except.map]
    by_cases hnothing : o.meansNothing
    · rw [if_pos hnothing, if_pos hnothing]
      rfl
    · rw [if_neg hnothing, if_neg hnothing]
      rfl
  | ok e =>
    simp only [Except.map, Disk.exec_bind, Disk.exec_read]
    cases d.tree.read d.here store with
    | error o => rfl
    | ok octets => simp only [Disk.exec_bind, Disk.exec_runtime, Disk.exec_lift]

theorem loaded_of_nothing {o : Obstacle} (hlook : d.tree.look d.here store = error o)
    (hnothing : o.meansNothing) : loaded store d = ok [] := by
  rw [loaded, hlook]
  exact if_pos hnothing

theorem loaded_of_file {octets : Octets}
    (hlook : d.tree.look d.here store = ok (.file octets)) :
    loaded store d = readContents d.runtime.reading store octets := by
  simp only [loaded, FileTree.read, hlook]

/-- A store that is loaded is not there, or a file with the contents of a store. -/
theorem of_loaded_eq_ok (h : loaded store d = ok ps) :
    (∃ o, d.tree.look d.here store = error o ∧ o.meansNothing ∧ ps = []) ∨
      ∃ octets, d.tree.look d.here store = ok (.file octets) ∧
        readContents d.runtime.reading store octets = ok ps := by
  simp only [loaded, FileTree.read] at h
  cases hlook : d.tree.look d.here store with
  | error o =>
    rw [hlook] at h
    by_cases hnothing : o.meansNothing
    · simp only [hnothing, if_true] at h
      cases h
      exact .inl ⟨o, rfl, hnothing, rfl⟩
    · simp [hnothing] at h
  | ok e =>
    rw [hlook] at h
    cases e with
    | file octets => exact .inr ⟨octets, rfl, h⟩
    | directory => cases h

/-! ## Saving -/

theorem isPlain_temporary (hplain : store.IsPlain) : (temporary store).IsPlain := by
  intro h
  rcases List.mem_append.1 h with h | h
  · exact hplain.parent h
  · have hlength := congrArg List.length (List.mem_singleton.1 h)
    simp at hlength

/-- A disk on which one place holds a file. -/
def written (d : Disk) (q : Place) (octets : Octets) : Disk :=
  { d with tree := d.tree.set q (.file octets) }

/-- A disk on which a file was written at one place and then moved to another. -/
def replaced (d : Disk) (a b : Place) (octets : Octets) : Disk :=
  { d with tree := ((d.tree.set a (.file octets)).clear a).set b (.file octets) }

/-- What is needed to write the temporary file of a store: its directory can be made, and no
    directory stands where the file does. -/
structure Begun (store : Path) (d made : Disk) (a : Place) : Prop where
  parent_hasZero : store.parent.hasZero = false
  hasZero : store.hasZero = false
  make : d.exec (Machine.makeDirectories store.parent) =
    ((ok (ok ()) : Except StoreFailure (Except FileFault Unit)), made)
  temporary : made.tree.target made.here (temporary store) = ok (some a)
  temporary_free : made.tree.find? a ≠ some .directory

/-- What is needed to save a store: the temporary file can be written, and no directory stands
    where the store does. -/
structure Ready (store : Path) (d made : Disk) (a b : Place) : Prop extends
    Begun store d made a where
  target : made.tree.target made.here store = ok (some b)
  target_free : made.tree.find? b ≠ some .directory

/-- What saving some octets as a store can come to. -/
inductive Saves (store : Path) (octets : Octets) (d : Disk) :
    Except StoreFailure Unit → Disk → Prop
  /-- It fails before a file is written. -/
  | stopped {failure : StoreFailure} {d' : Disk} (grown : d.Grown d') :
    Saves store octets d (error failure) d'
  /-- The temporary file is written, but cannot take the place of the store. -/
  | unmoved {made : Disk} {a : Place} {o : Obstacle} (begun : Begun store d made a)
      (moveFile : (written made a octets).tree.moveFile made.here (temporary store) store =
        error o) :
    Saves store octets d (error (.reported (.unwritable store ⟨o, [temporary store, store]⟩)))
      (written made a octets)
  /-- It goes through. -/
  | saved {made : Disk} {a b : Place} (ready : Ready store d made a b) :
    Saves store octets d (ok ()) (replaced made a b octets)

theorem find?_written_self {q : Place} (hq : q ≠ []) (d : Disk) (octets : Octets) :
    (written d q octets).tree.find? q = some (.file octets) :=
  FileTree.find?_set_self _ _ hq

theorem reaches_written {q : Place} (hfree : d.tree.find? q ≠ some .directory)
    (octets : Octets) : d.tree.Reaches (written d q octets).tree :=
  FileTree.reaches_set hfree _

/-- Saving, one step after the other. -/
theorem exec_save_eq (store : Path) (ps : List Profile) (d : Disk) :
    d.exec (save store ps) =
      if store.parent.hasZero then (error (.broken .zeroInPath), d)
      else match d.exec (Machine.makeDirectories store.parent) with
        | (error failure, made) => (error failure, made)
        | (ok (error fault), made) => (error (.reported (.unwritable store fault)), made)
        | (ok (ok ()), made) =>
          if store.hasZero then (error (.broken .zeroInPath), made)
          else match made.tree.write made.here (temporary store) (contents ps) with
            | error o => (error (.reported (.unwritable store ⟨o, [temporary store]⟩)), made)
            | ok tree =>
              match tree.moveFile made.here (temporary store) store with
              | error o =>
                (error (.reported (.unwritable store ⟨o, [temporary store, store]⟩)),
                  { made with tree })
              | ok moved => (ok (), { made with tree := moved }) := by
  rw [save]
  split
  · rfl
  · dsimp only
    rw [Disk.exec_bind]
    rcases d.exec (Machine.makeDirectories store.parent) with ⟨_ | _ | _, made⟩
    · rfl
    · rfl
    · dsimp only
      split
      · rfl
      · rw [Disk.exec_bind, Disk.exec_write]
        cases made.tree.write made.here (temporary store) (contents ps) with
        | error o => rfl
        | ok tree =>
          dsimp only [Disk.commit]
          rw [Disk.exec_bind, Disk.exec_moveFile]
          dsimp only
          cases tree.moveFile made.here (temporary store) store with
          | error o => rfl
          | ok moved => rfl

theorem exec_save (hplain : store.IsPlain) (ps : List Profile) (d : Disk) :
    Saves store (contents ps) d (d.exec (save store ps)).1 (d.exec (save store ps)).2 := by
  obtain ⟨r, made, hmake, hgrown, -⟩ :=
    Disk.exec_makeDirectories (ε := StoreFailure) hplain.parent d
  rw [exec_save_eq, hmake]
  by_cases hparent : store.parent.hasZero
  · rw [if_pos hparent]
    exact .stopped (.refl d)
  · rw [if_neg hparent]
    cases r with
    | error fault => exact .stopped hgrown
    | ok u =>
      by_cases hzero : store.hasZero
      · dsimp only
        rw [if_pos hzero]
        exact .stopped hgrown
      · dsimp only
        rw [if_neg hzero]
        cases hwrite : made.tree.write made.here (temporary store) (contents ps) with
        | error o => exact .stopped hgrown
        | ok tree =>
          obtain ⟨a, htemporary, hfree, rfl⟩ := FileTree.write_eq_ok_iff.1 hwrite
          have begun : Begun store d made a :=
            ⟨by simpa using hparent, by simpa using hzero, hmake, htemporary, hfree⟩
          dsimp only
          cases hmove : (made.tree.set a (.file (contents ps))).moveFile made.here
              (temporary store) store with
          | error o => exact .unmoved begun hmove
          | ok moved =>
            have hne := FileTree.target_ne_nil htemporary
            obtain ⟨a', b, octets, ha', hb, hfile, hfree', rfl⟩ := FileTree.of_moveFile_eq_ok hmove
            obtain rfl : a' = a := by
              simpa using ha'.symm.trans (FileTree.target_of_reaches
                (FileTree.reaches_set hfree _) htemporary)
            obtain rfl : contents ps = octets := by
              simpa using (FileTree.find?_set_self _ _ hne).symm.trans hfile
            have htarget := FileTree.target_of_reaches (FileTree.reaches_of_set_file hne) hb
            exact .saved (b := b)
              ⟨begun, htarget, fun h => hfree' (FileTree.reaches_set hfree _ b h)⟩

/-! ## Saving again -/

variable {made : Disk} {a b : Place} {octets : Octets}

/-- What is made for a store to be saved are directories, and the one around it is there. -/
theorem Begun.grown (hplain : store.IsPlain) (begun : Begun store d made a) :
    d.Grown made ∧ made.tree.look made.here store.parent = ok .directory := by
  obtain ⟨r, d', hmake, hgrown, hdirectory⟩ :=
    Disk.exec_makeDirectories (ε := StoreFailure) hplain.parent d
  rw [begun.make] at hmake
  cases hmake
  exact ⟨hgrown, hdirectory rfl⟩

/-- Whether a store can be saved does not depend on how many identities have been given out. -/
theorem Ready.withIssued (ready : Ready store d made a b) (issued : Nat) :
    Ready store (d.withIssued issued) (made.withIssued issued) a b where
  parent_hasZero := ready.parent_hasZero
  hasZero := ready.hasZero
  make := by rw [Disk.drawsNone_makeDirectories, ready.make]
  temporary := ready.temporary
  target := ready.target
  temporary_free := ready.temporary_free
  target_free := ready.target_free

/-- The temporary file can take the place of the store. -/
theorem Ready.moveFile (ready : Ready store d made a b) (octets : Octets) :
    (written made a octets).tree.moveFile made.here (Store.temporary store) store =
      ok (replaced made a b octets).tree := by
  have ha := FileTree.target_ne_nil ready.temporary
  have hreaches := reaches_written ready.temporary_free octets
  exact FileTree.moveFile_eq_ok (FileTree.target_of_reaches hreaches ready.temporary)
    (FileTree.target_of_reaches hreaches ready.target) (find?_written_self ha made octets)
    fun h => ready.target_free (FileTree.reaches_of_set_file ha _ h)

/-- Whether a store can be saved does not depend on what is saved. -/
theorem Ready.exec_save (ready : Ready store d made a b) (ps : List Profile) :
    d.exec (save store ps) = (ok (), replaced made a b (contents ps)) := by
  have hwrite : made.tree.write made.here (Store.temporary store) (contents ps) =
      ok (written made a (contents ps)).tree :=
    FileTree.write_eq_ok_iff.2 ⟨a, ready.temporary, ready.temporary_free, rfl⟩
  rw [exec_save_eq, ready.make]
  simp only [ready.parent_hasZero, ready.hasZero, hwrite, ready.moveFile]
  rfl

theorem find?_replaced_self (hb : b ≠ []) (d : Disk) (octets : Octets) :
    (replaced d a b octets).tree.find? b = some (.file octets) :=
  FileTree.find?_set_self _ _ hb

theorem find?_replaced_temporary (ha : a ≠ []) (hab : a ≠ b) (d : Disk) (octets : Octets) :
    (replaced d a b octets).tree.find? a = none := by
  rw [replaced, FileTree.find?_set_of_ne _ _ hab, FileTree.find?_clear_self _ ha]

theorem find?_replaced_of_ne {q : Place} (hqa : q ≠ a) (hqb : q ≠ b) (d : Disk)
    (octets : Octets) : (replaced d a b octets).tree.find? q = d.tree.find? q := by
  rw [replaced, FileTree.find?_set_of_ne _ _ hqb, FileTree.find?_clear_of_ne _ hqa,
    FileTree.find?_set_of_ne _ _ hqa]

/-- Saving makes and removes no directory but the directories around the store. -/
theorem Ready.directory_iff (ready : Ready store d made a b) (octets : Octets) (q : Place) :
    (replaced made a b octets).tree.find? q = some .directory ↔
      made.tree.find? q = some .directory := by
  have ha := FileTree.target_ne_nil ready.temporary
  have hb := FileTree.target_ne_nil ready.target
  by_cases hqb : q = b
  · rw [hqb, find?_replaced_self hb]
    simp [ready.target_free]
  · by_cases hqa : q = a
    · rw [hqa, find?_replaced_temporary ha (hqa ▸ hqb)]
      simp [ready.temporary_free]
    · rw [find?_replaced_of_ne hqa hqb]

/-- A store that was saved is there. -/
theorem Ready.look_replaced (hplain : store.IsPlain) (ready : Ready store d made a b)
    (octets : Octets) :
    (replaced made a b octets).tree.look made.here store = ok (.file octets) :=
  FileTree.look_of_target hplain
    (FileTree.target_of_reaches (fun q => (ready.directory_iff octets q).2) ready.target)
    (find?_replaced_self (FileTree.target_ne_nil ready.target) made octets)

/-- A store that was saved can be saved again, and nothing has to be made for it. -/
theorem Ready.again (hplain : store.IsPlain) (ready : Ready store d made a b)
    (octets : Octets) :
    Ready store (replaced made a b octets) (replaced made a b octets) a b := by
  have hreaches : made.tree.Reaches (replaced made a b octets).tree :=
    fun q => (ready.directory_iff octets q).2
  refine ⟨⟨ready.parent_hasZero, ready.hasZero, ?_, ?_, ?_⟩, ?_, ?_⟩
  · exact Disk.exec_makeDirectories_of_look hplain.parent
      (FileTree.look_directory_of_reaches hreaches (ready.grown hplain).2)
  · exact FileTree.target_of_reaches hreaches ready.temporary
  · exact fun h => ready.temporary_free ((ready.directory_iff octets a).1 h)
  · exact FileTree.target_of_reaches hreaches ready.target
  · exact fun h => ready.target_free ((ready.directory_iff octets b).1 h)

end Store

end Devicetree
