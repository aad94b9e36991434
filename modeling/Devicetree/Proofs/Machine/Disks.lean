-- SUMMARY: Programs on disks, step by step, and the making of directories.
import Devicetree.Machine.Disk
import Devicetree.Proofs.Files.Trees

/-!
# Programs on disks

A program that may fail is run on a disk by running its steps one after the other, up to
the first that fails. One program is needed everywhere: making a directory and what is
missing around it. It leaves every file as it was, and makes nothing if there is nothing
to make.
-/

namespace Devicetree

open Except (ok error)

namespace Disk

variable {ε α β : Type} (d : Disk)

/-! ## Steps -/

/-- The first step of a program is taken, and the rest goes on from what it answers. -/
theorem run_bind_eq {d d' : Disk} {x : StateM Disk α} {a : α} (h : x.run d = (a, d'))
    (f : α → StateM Disk β) : (x >>= f).run d = (f a).run d' := by
  rw [StateT.run_bind, h]
  rfl

/-- What a program that may fail answers on a disk, and the disk that it leaves. -/
def exec (program : ExceptT ε (StateM Disk) α) : Except ε α × Disk :=
  (ExceptT.run program).run d

theorem exec_bind (x : ExceptT ε (StateM Disk) α) (f : α → ExceptT ε (StateM Disk) β) :
    d.exec (x >>= f) = match d.exec x with
      | (ok a, d') => d'.exec (f a)
      | (error e, d') => (error e, d') := by
  simp only [exec, ExceptT.run, StateT.run, bind, ExceptT.bind, ExceptT.mk, StateT.bind]
  rcases x d with ⟨_ | _, d'⟩
  · rfl
  · rfl

theorem exec_map (f : α → β) (x : ExceptT ε (StateM Disk) α) :
    d.exec (f <$> x) = ((d.exec x).1.map f, (d.exec x).2) := by
  simp only [exec, ExceptT.run, StateT.run, Functor.map, ExceptT.map, ExceptT.mk, bind,
    StateT.bind]
  rcases x d with ⟨_ | _, d'⟩
  · rfl
  · rfl

@[simp] theorem exec_lift (r : Except ε α) :
    d.exec (liftM r : ExceptT ε (StateM Disk) α) = (r, d) := by
  cases r with
  | error e => rfl
  | ok a => rfl

@[simp] theorem exec_here :
    d.exec (Machine.here : ExceptT ε (StateM Disk) Place) = (ok d.here, d) :=
  rfl

@[simp] theorem exec_look (p : Path) :
    d.exec (Machine.look p : ExceptT ε (StateM Disk) _) =
      (ok ((d.tree.look d.here p).map kindOf), d) :=
  rfl

@[simp] theorem exec_read (p : Path) :
    d.exec (Machine.read p : ExceptT ε (StateM Disk) _) = (ok (d.tree.read d.here p), d) :=
  rfl

@[simp] theorem exec_newIdentity :
    d.exec (Machine.newIdentity : ExceptT ε (StateM Disk) _) =
      (ok (d.identities d.issued), { d with issued := d.issued + 1 }) :=
  rfl

@[simp] theorem exec_runtime :
    d.exec (Machine.runtime : ExceptT ε (StateM Disk) Runtime) = (ok d.runtime, d) :=
  rfl

theorem exec_write (p : Path) (octets : Octets) :
    d.exec (Machine.write p octets : ExceptT ε (StateM Disk) _) =
      (ok (d.commit (d.tree.write d.here p octets)).1,
        (d.commit (d.tree.write d.here p octets)).2) :=
  rfl

theorem exec_makeDirectory (p : Path) :
    d.exec (Machine.makeDirectory p : ExceptT ε (StateM Disk) _) =
      (ok (d.commit (d.tree.makeDirectory d.here p)).1,
        (d.commit (d.tree.makeDirectory d.here p)).2) :=
  rfl

theorem exec_moveFile (source destination : Path) :
    d.exec (Machine.moveFile source destination : ExceptT ε (StateM Disk) _) =
      (ok (d.commit (d.tree.moveFile d.here source destination)).1,
        (d.commit (d.tree.moveFile d.here source destination)).2) :=
  rfl

/-! ## Making directories -/

/-- A disk differs from another one only by directories that were made. -/
structure Grown (d d' : Disk) : Prop where
  here : d'.here = d.here
  identities : d'.identities = d.identities
  issued : d'.issued = d.issued
  runtime : d'.runtime = d.runtime
  reaches : d.tree.Reaches d'.tree
  contents : ∀ q, d'.tree.contents? q = d.tree.contents? q

variable {d} {d' d'' : Disk} {p : Path}

theorem Grown.refl (d : Disk) : d.Grown d :=
  ⟨rfl, rfl, rfl, rfl, .refl _, fun _ => rfl⟩

theorem Grown.trans (h : d.Grown d') (h' : d'.Grown d'') : d.Grown d'' where
  here := h'.here.trans h.here
  identities := h'.identities.trans h.identities
  issued := h'.issued.trans h.issued
  runtime := h'.runtime.trans h.runtime
  reaches := h.reaches.trans h'.reaches
  contents q := (h'.contents q).trans (h.contents q)

/-- Making one directory makes nothing else, and what is made stands at its path. -/
theorem grown_makeDirectory (hp : p.IsPlain) {r : Except Obstacle Unit}
    (h : d.commit (d.tree.makeDirectory d.here p) = (r, d')) :
    d.Grown d' ∧ (r = ok () → d'.tree.look d'.here p = ok .directory) := by
  cases hmade : d.tree.makeDirectory d.here p with
  | error o =>
    rw [hmade] at h
    cases h
    exact ⟨.refl d, fun h => nomatch h⟩
  | ok tree =>
    rw [hmade] at h
    cases h
    obtain ⟨q, htarget, hfree, rfl⟩ := FileTree.makeDirectory_eq_ok_iff.1 hmade
    have hset := FileTree.find?_set_self d.tree .directory (FileTree.target_ne_nil htarget)
    have hreaches : d.tree.Reaches (d.tree.set q .directory) :=
      FileTree.reaches_set (by simp [hfree]) _
    refine ⟨⟨rfl, rfl, rfl, rfl, hreaches, fun r => ?_⟩, fun _ => ?_⟩
    · by_cases hr : r = q
      · rw [hr, FileTree.contents?, FileTree.contents?, hset, hfree]
      · exact FileTree.contents?_congr (FileTree.find?_set_of_ne _ _ hr)
    · exact FileTree.look_of_target hp (FileTree.target_of_reaches hreaches htarget) hset

theorem exec_isDirectory (p : Path) (d : Disk) :
    ∃ b, d.exec (Machine.isDirectory p : ExceptT ε (StateM Disk) _) = (ok b, d) ∧
      (b = true ↔ d.tree.look d.here p = ok .directory) := by
  simp only [Machine.isDirectory, exec_bind, exec_look]
  cases d.tree.look d.here p with
  | error o => exact ⟨false, rfl, by simp⟩
  | ok e =>
    cases e with
    | file octets => exact ⟨false, rfl, by simp⟩
    | directory => exact ⟨true, rfl, by simp⟩

/-- A directory that cannot be made counts as made if it is there, unless something around it
    was missing. -/
theorem exec_settle (p : Path) (r : Except Obstacle Unit) (d : Disk) :
    ∃ s, d.exec (Machine.settle p r : ExceptT ε (StateM Disk) _) = (ok s, d) ∧
      (s = ok () ↔ r = ok () ∨ r ≠ error .absent ∧ d.tree.look d.here p = ok .directory) := by
  cases r with
  | ok u => exact ⟨ok (), rfl, by simp⟩
  | error o =>
    obtain ⟨b, hexec, hb⟩ := exec_isDirectory (ε := ε) p d
    simp only [Machine.settle, exec_bind, hexec]
    by_cases hsettled : (o ≠ .absent && b) = true
    · rw [if_pos hsettled]
      refine ⟨ok (), rfl, ?_⟩
      simp only [Bool.and_eq_true, decide_eq_true_eq] at hsettled
      simpa [hb] using hsettled
    · rw [if_neg hsettled]
      refine ⟨error ⟨o, [p]⟩, rfl, ?_⟩
      simp only [Bool.and_eq_true, decide_eq_true_eq] at hsettled
      simpa [hb] using hsettled

/-- Making directories makes nothing else, and what counts as made is there. -/
theorem exec_makeAround (anchor : Anchor) {inward : List Text} (hdot : ['.'] ∉ inward)
    (d : Disk) :
    ∃ r d', d.exec (Machine.makeAround anchor inward : ExceptT ε (StateM Disk) _) = (ok r, d') ∧
      d.Grown d' ∧ (r = ok () → d'.tree.look d'.here ⟨anchor, inward.reverse⟩ = ok .directory) := by
  -- what making the last directory answers, whatever was made before
  have hmake : ∀ (p : Path), p.IsPlain → ∀ (d : Disk) (r : Except Obstacle Unit) (d' : Disk),
      d.commit (d.tree.makeDirectory d.here p) = (r, d') →
      ∃ s, d'.exec (Machine.settle p r : ExceptT ε (StateM Disk) _) = (ok s, d') ∧ d.Grown d' ∧
        (s = ok () → d'.tree.look d'.here p = ok .directory) := by
    intro p hp d r d' hr
    obtain ⟨hgrown, hmade⟩ := grown_makeDirectory hp hr
    obtain ⟨s, hexec, hs⟩ := exec_settle (ε := ε) p r d'
    exact ⟨s, hexec, hgrown, fun h => (hs.1 h).elim hmade And.right⟩
  induction inward generalizing d with
  | nil =>
    rw [Machine.makeAround, exec_bind, exec_makeDirectory]
    obtain ⟨s, hexec, hgrown, hlook⟩ := hmake ⟨anchor, []⟩ hdot d _ _ rfl
    exact ⟨s, _, hexec, hgrown, hlook⟩
  | cons name outward ih =>
    rw [List.mem_cons, not_or] at hdot
    have hp : Path.IsPlain ⟨anchor, (name :: outward).reverse⟩ := by
      simpa [Path.IsPlain] using hdot.symm
    simp only [Machine.makeAround, exec_bind, exec_makeDirectory]
    obtain ⟨r, hr⟩ : ∃ r, d.commit (d.tree.makeDirectory d.here
      ⟨anchor, (name :: outward).reverse⟩) = r := ⟨_, rfl⟩
    rw [hr]
    obtain ⟨s, hexec, hgrown, hlook⟩ := hmake _ hp d r.1 r.2 hr
    split
    · -- something around it is missing, and made first
      rename_i habsent
      obtain ⟨r₁, d₁, hexec₁, hgrown₁, -⟩ := ih hdot.2 r.2
      simp only [exec_bind, hexec₁]
      cases r₁ with
      | error fault => exact ⟨error fault, d₁, rfl, hgrown.trans hgrown₁, fun h => nomatch h⟩
      | ok u =>
        simp only [exec_bind, exec_makeDirectory]
        obtain ⟨s₂, hexec₂, hgrown₂, hlook₂⟩ := hmake _ hp d₁ _ _ rfl
        exact ⟨s₂, _, hexec₂, (hgrown.trans hgrown₁).trans hgrown₂, hlook₂⟩
    · exact ⟨s, _, hexec, hgrown, hlook⟩

theorem exec_makeDirectories (hp : p.IsPlain) (d : Disk) :
    ∃ r d', d.exec (Machine.makeDirectories p : ExceptT ε (StateM Disk) _) = (ok r, d') ∧
      d.Grown d' ∧ (r = ok () → d'.tree.look d'.here p = ok .directory) := by
  have hmake := exec_makeAround (ε := ε) p.anchor (mt List.mem_reverse.1 hp) d
  rwa [List.reverse_reverse] at hmake

/-- A directory that is there is not made again. -/
theorem exec_makeDirectories_of_look (hp : p.IsPlain)
    (hlook : d.tree.look d.here p = ok .directory) :
    d.exec (Machine.makeDirectories p : ExceptT ε (StateM Disk) _) = (ok (ok ()), d) := by
  obtain ⟨anchor, names⟩ := p
  obtain ⟨o, hmade, habsent⟩ := FileTree.makeDirectory_of_look hp hlook
  obtain ⟨s, hexec, hs⟩ := exec_settle (ε := ε) ⟨anchor, names⟩ (error o) d
  have hsettled : s = ok () := hs.2 (.inr ⟨by simpa using habsent, hlook⟩)
  rw [hsettled] at hexec
  rw [Machine.makeDirectories]
  cases hinward : names.reverse with
  | nil =>
    rw [List.reverse_eq_nil_iff] at hinward
    subst hinward
    rw [Machine.makeAround, exec_bind, exec_makeDirectory, hmade]
    exact hexec
  | cons name outward =>
    have hnames : (name :: outward).reverse = names := by rw [← hinward, List.reverse_reverse]
    simp only [Machine.makeAround, exec_bind, exec_makeDirectory, hnames, hmade, commit]
    split
    · rename_i heq
      cases heq
      exact absurd rfl habsent
    · exact hexec

/-! ## Identities -/

/-- The disk on which so many identities have been given out. -/
def withIssued (d : Disk) (issued : Nat) : Disk :=
  { d with issued }

/-- A program that asks for no identity: what it does is the same however many have been given
    out. -/
def DrawsNone (x : ExceptT ε (StateM Disk) α) : Prop :=
  ∀ (d : Disk) (issued : Nat),
    (d.withIssued issued).exec x = ((d.exec x).1, (d.exec x).2.withIssued issued)

theorem drawsNone_pure (a : α) : DrawsNone (pure a : ExceptT ε (StateM Disk) α) :=
  fun _ _ => rfl

theorem DrawsNone.bind {x : ExceptT ε (StateM Disk) α} {f : α → ExceptT ε (StateM Disk) β}
    (hx : DrawsNone x) (hf : ∀ a, DrawsNone (f a)) : DrawsNone (x >>= f) := by
  intro d issued
  rw [exec_bind, exec_bind, hx]
  rcases d.exec x with ⟨_ | a, d'⟩
  · rfl
  · exact hf a d' issued

theorem drawsNone_look (p : Path) :
    DrawsNone (Machine.look p : ExceptT ε (StateM Disk) (Except Obstacle EntryKind)) :=
  fun _ _ => rfl

theorem withIssued_commit (d : Disk) (issued : Nat) (r : Except Obstacle FileTree) :
    (d.withIssued issued).commit r = ((d.commit r).1, (d.commit r).2.withIssued issued) := by
  cases r with
  | error o => rfl
  | ok tree => rfl

theorem drawsNone_makeDirectory (p : Path) :
    DrawsNone (Machine.makeDirectory p : ExceptT ε (StateM Disk) (Except Obstacle Unit)) := by
  intro d issued
  rw [exec_makeDirectory, exec_makeDirectory]
  exact congrArg (fun r => (ok r.1, r.2)) (withIssued_commit d issued _)

theorem drawsNone_settle (p : Path) (r : Except Obstacle Unit) :
    DrawsNone (Machine.settle p r : ExceptT ε (StateM Disk) (Except FileFault Unit)) := by
  cases r with
  | ok u => exact drawsNone_pure _
  | error o =>
    refine .bind (.bind (drawsNone_look p) fun kind => ?_) fun b => ?_
    · split
      · exact drawsNone_pure _
      · exact drawsNone_pure _
    · split
      · exact drawsNone_pure _
      · exact drawsNone_pure _

theorem drawsNone_makeAround (anchor : Anchor) (inward : List Text) :
    DrawsNone (Machine.makeAround anchor inward :
      ExceptT ε (StateM Disk) (Except FileFault Unit)) := by
  induction inward with
  | nil => exact .bind (drawsNone_makeDirectory _) (drawsNone_settle _)
  | cons name outward ih =>
    refine .bind (drawsNone_makeDirectory _) fun made => ?_
    split
    · refine .bind ih fun r => ?_
      split
      · exact drawsNone_pure _
      · exact .bind (drawsNone_makeDirectory _) (drawsNone_settle _)
    · exact drawsNone_settle _ _

/-- Making directories asks for no identity. -/
theorem drawsNone_makeDirectories (p : Path) :
    DrawsNone (Machine.makeDirectories p : ExceptT ε (StateM Disk) (Except FileFault Unit)) :=
  drawsNone_makeAround p.anchor p.names.reverse

end Disk

end Devicetree
