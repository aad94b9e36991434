-- SUMMARY: A line passes its checks exactly if all its values and arguments are acceptable on the disk.
import Devicetree.Proofs.Command.Lines
import Devicetree.Proofs.Machine.Disks

/-!
# Checks

The values and arguments of a line are checked against the files of a disk, which the checks
leave as it is. A line passes if every value is acceptable and every argument is, one for each
that the command takes; otherwise the command answers with a fault.
-/

namespace Devicetree

open Except (ok error)

/-! ## Tests -/

namespace Disk

variable {ε α : Type} {d : Disk} {P Q : Prop}

/-- A program leaves a disk as it is, and goes through exactly if something holds. -/
def Tests (d : Disk) (x : ExceptT ε (StateM Disk) PUnit) (P : Prop) : Prop :=
  ∃ r, d.exec x = (r, d) ∧ (r = ok PUnit.unit ↔ P)

theorem Tests.pure : d.Tests (pure PUnit.unit : ExceptT ε (StateM Disk) PUnit) True :=
  ⟨ok PUnit.unit, rfl, by simp⟩

theorem Tests.throw (e : ε) : d.Tests (throw e : ExceptT ε (StateM Disk) PUnit) False :=
  ⟨error e, rfl, by simp⟩

theorem Tests.of_iff {x : ExceptT ε (StateM Disk) PUnit} (h : d.Tests x P) (hiff : P ↔ Q) :
    d.Tests x Q :=
  propext hiff ▸ h

/-- One test after another. -/
theorem Tests.bind {x : ExceptT ε (StateM Disk) PUnit}
    {y : PUnit → ExceptT ε (StateM Disk) PUnit} (hx : d.Tests x P)
    (hy : d.Tests (y PUnit.unit) Q) : d.Tests (x >>= y) (P ∧ Q) := by
  obtain ⟨r, hexec, hr⟩ := hx
  rw [Tests, exec_bind, hexec]
  cases r with
  | error e =>
    refine ⟨error e, rfl, ?_⟩
    simpa using fun hP => absurd (hr.2 hP) (by simp)
  | ok u =>
    obtain ⟨s, hexec, hs⟩ := hy
    exact ⟨s, hexec, hs.trans (by simp [hr.1 rfl])⟩

/-- The same test for each of some things. -/
theorem Tests.forIn {f : α → ExceptT ε (StateM Disk) (ForInStep PUnit)} {P : α → Prop}
    {keys : List α} (hf : ∀ a ∈ keys, ∃ x : ExceptT ε (StateM Disk) PUnit,
      f a = (do x; return .yield PUnit.unit) ∧ d.Tests x (P a)) :
    d.Tests (ForIn.forIn keys PUnit.unit fun a _ => f a) (∀ a ∈ keys, P a) := by
  induction keys with
  | nil => exact Tests.pure.of_iff (by simp)
  | cons a keys ih =>
    obtain ⟨⟨x, hx, r, hexec, hr⟩, hkeys⟩ := List.forall_mem_cons.1 hf
    obtain ⟨s, hrest, hs⟩ := ih hkeys
    rw [Tests, List.forIn_cons, hx, exec_bind, exec_bind, hexec]
    cases r with
    | error e =>
      refine ⟨error e, rfl, ?_⟩
      have hno : ¬ P a := fun h => absurd (hr.2 h) (by simp)
      simp [hno]
    | ok u =>
      refine ⟨s, hrest, hs.trans ?_⟩
      simp [hr.1 rfl]

end Disk

/-! ## Single values -/

/-- What stands at a path as it is written. -/
def Disk.lookWritten (d : Disk) (t : Text) : Except Obstacle EntryKind :=
  if t.isEmpty then error .absent else (d.tree.look d.here (Path.written t)).map kindOf

theorem Disk.exists_of_lookWritten {d : Disk} {t : Text} {kind : EntryKind}
    (h : d.lookWritten t = ok kind) :
    ∃ e, d.tree.look d.here (Path.written t) = ok e ∧ kindOf e = kind := by
  rw [lookWritten] at h
  split at h
  · cases h
  · cases hlook : d.tree.look d.here (Path.written t) with
    | error o =>
      rw [hlook] at h
      cases h
    | ok e =>
      rw [hlook] at h
      cases h
      exact ⟨e, rfl, rfl⟩

/-- What values and arguments of a kind can be on a disk. -/
def ValueKind.Accepts (d : Disk) (t : Text) : ValueKind → Prop
  | anything => True
  | integer => (Numeral.int? t).isSome
  | choice among => String.ofList t ∈ among
  | file => '\x00' ∉ t ∧ d.lookWritten t ≠ ok .directory
  | source => t = ['-'] ∨ '\x00' ∉ t ∧ d.lookWritten t ≠ ok .directory
  | existingFile => '\x00' ∉ t ∧ d.lookWritten t = ok .file

namespace ValueKind

/-- A file that is there is found at its path as it is written. -/
theorem Accepts.look_written {d : Disk} {t : Text} (h : existingFile.Accepts d t) :
    ∃ octets, d.tree.look d.here (Path.written t) = ok (.file octets) := by
  obtain ⟨e, he, hkind⟩ := Disk.exists_of_lookWritten h.2
  cases e with
  | file octets => exact ⟨octets, he⟩
  | directory => cases hkind

/-- A file that is there can be compared. -/
theorem Accepts.source {d : Disk} {t : Text} (h : existingFile.Accepts d t) :
    ValueKind.source.Accepts d t :=
  .inr ⟨h.1, by rw [h.2]; simp⟩

variable {ε : Type} (d : Disk)

theorem exec_lookWritten (t : Text) :
    d.exec (lookWritten t : ExceptT ε (StateM Disk) _) = (ok (d.lookWritten t), d) := by
  rw [lookWritten, Disk.lookWritten]
  split
  · rfl
  · rfl

/-- No directory stands at a path that passes, and a file does if it has to. -/
theorem exec_checkFile (mustExist : Bool) (what : String) (t : Text) :
    ∃ r, d.exec (checkFile mustExist what t : ExceptT ε (StateM Disk) _) = (ok r, d) ∧
      (r = none ↔ '\x00' ∉ t ∧ d.lookWritten t ≠ ok .directory ∧
        (mustExist → d.lookWritten t = ok .file)) := by
  by_cases hzero : '\x00' ∈ t
  · refine ⟨some .zeroInPath, ?_, by simp [hzero]⟩
    rw [checkFile, if_pos (by simpa using hzero)]
    rfl
  · rw [checkFile, if_neg (by simpa using hzero), Disk.exec_bind, exec_lookWritten]
    dsimp only
    cases d.lookWritten t with
    | error o =>
      cases mustExist with
      | false => exact ⟨none, rfl, by simp [hzero]⟩
      | true => exact ⟨_, rfl, by simp⟩
    | ok kind =>
      cases kind with
      | file => exact ⟨none, rfl, by simp [hzero]⟩
      | directory => exact ⟨_, rfl, by simp⟩

/-- A value passes its check if it is one of its kind. -/
theorem exec_check (what : String) (t : Text) (kind : ValueKind) :
    ∃ r, d.exec (check what t kind : ExceptT ε (StateM Disk) _) = (ok r, d) ∧
      (r = none ↔ kind.Accepts d t) := by
  cases kind with
  | anything => exact ⟨none, rfl, by simp [Accepts]⟩
  | integer =>
    refine ⟨_, rfl, ?_⟩
    by_cases hint : (Numeral.int? t).isSome
    · simp [Accepts, hint]
    · simp [Accepts, hint]
  | choice among =>
    refine ⟨_, rfl, ?_⟩
    by_cases hamong : String.ofList t ∈ among
    · simp [Accepts, hamong]
    · simp [Accepts, hamong]
  | file =>
    obtain ⟨r, hexec, hr⟩ := exec_checkFile (ε := ε) d false what t
    exact ⟨r, hexec, by simpa [Accepts] using hr⟩
  | source =>
    by_cases hdash : t = ['-']
    · exact ⟨none, by rw [check, if_pos hdash]; rfl, by simp [Accepts, hdash]⟩
    · obtain ⟨r, hexec, hr⟩ := exec_checkFile (ε := ε) d false what t
      exact ⟨r, by rw [check, if_neg hdash, hexec], by simpa [Accepts, hdash] using hr⟩
  | existingFile =>
    obtain ⟨r, hexec, hr⟩ := exec_checkFile (ε := ε) d true what t
    refine ⟨r, hexec, hr.trans ?_⟩
    rw [Accepts]
    constructor
    · rintro ⟨hzero, -, hfile⟩
      exact ⟨hzero, hfile rfl⟩
    · rintro ⟨hzero, hfile⟩
      exact ⟨hzero, by simp [hfile], fun _ => hfile⟩

end ValueKind

/-! ## Lines -/

namespace Grammar

variable {κ : Type} [DecidableEq κ] {g : Grammar κ}

/-- Every value of a line is acceptable, and every argument, one for each that the command
    takes. -/
structure Passes (g : Grammar κ) (d : Disk) (line : CommandLine κ) : Prop where
  values : ∀ key t, line.value? key = some t → (g.kindOf key).Accepts d t
  arguments : g.isGroup = false →
    List.Forall₂ (fun a t => a.kind.Accepts d t) g.arguments line.arguments

variable (d : Disk)

theorem tests_checkOption (key : κ) (t : Text) :
    d.Tests (g.checkOption key t) ((g.kindOf key).Accepts d t) := by
  obtain ⟨r, hexec, hr⟩ := ValueKind.exec_check (ε := UsageFault) d (g.optionName key) t
    (g.kindOf key)
  rw [Disk.Tests, checkOption, Disk.exec_bind, hexec]
  cases r with
  | none => exact Disk.Tests.pure.of_iff (by simpa using hr)
  | some fault => exact (Disk.Tests.throw fault).of_iff (by simpa using hr)

theorem tests_checkArguments (as : List Argument) (ts : List Text) :
    d.Tests (checkArguments as ts : ExceptT UsageFault (StateM Disk) Unit)
      (List.Forall₂ (fun a t => a.kind.Accepts d t) as ts) := by
  induction as generalizing ts with
  | nil =>
    cases ts with
    | nil => exact Disk.Tests.pure.of_iff (by simp)
    | cons t ts => exact (Disk.Tests.throw _).of_iff (by simp)
  | cons a as ih =>
    cases ts with
    | nil => exact (Disk.Tests.throw _).of_iff (by simp)
    | cons t ts =>
      obtain ⟨r, hexec, hr⟩ := ValueKind.exec_check (ε := UsageFault) d s!"'{a.name}'" t a.kind
      rw [Disk.Tests, checkArguments, Disk.exec_bind, hexec]
      simp only [List.forall₂_cons]
      cases r with
      | none => exact (ih ts).of_iff (and_iff_right (hr.1 rfl)).symm
      | some fault =>
        refine (Disk.Tests.throw fault).of_iff ?_
        simpa using fun h => absurd (hr.2 h) (by simp)

/-- A line is checked by testing whether it passes. -/
theorem tests_checkLine (line : CommandLine κ) :
    d.Tests (g.checkLine line) (g.Passes d line) := by
  have hpasses : g.Passes d line ↔
      (∀ key ∈ line.keys, ∀ t, line.value? key = some t → (g.kindOf key).Accepts d t) ∧
        (g.isGroup = false →
          List.Forall₂ (fun a t => a.kind.Accepts d t) g.arguments line.arguments) :=
    ⟨fun h => ⟨fun key _ => h.values key, h.arguments⟩, fun h =>
      ⟨fun key t ht => h.1 key (CommandLine.mem_keys_of_value? ht) t ht, h.2⟩⟩
  rw [checkLine, hpasses]
  refine .bind (.forIn fun key _ => ?_) ?_
  · cases hvalue : line.value? key with
    | none => exact ⟨pure PUnit.unit, rfl, Disk.Tests.pure.of_iff (by simp)⟩
    | some t => exact ⟨_, rfl, (tests_checkOption d key t).of_iff (by simp)⟩
  · cases hgroup : g.isGroup with
    | true => exact Disk.Tests.pure.of_iff (by simp)
    | false => exact (tests_checkArguments d g.arguments line.arguments).of_iff (by simp)

/-! ## Running a line -/

variable {d : Disk} {words : List Text} {line : CommandLine κ} {interrupted : κ → Outcome}
  {body : CommandLine κ → StateM Disk Outcome}

variable (d interrupted body) in
/-- A line that is read and not interrupted is answered by its command if it passes, and by a
    fault if it does not. -/
theorem run_cases (hread : g.readWords none words = ok line)
    (hgoes : line.interruption? = none) :
    let line := line.withDefaults g.defaults
    (g.Passes d line ∧ (g.run words interrupted body).run d = (body line).run d) ∨
      (¬ g.Passes d line ∧ ∃ fault : UsageFault,
        (g.run words interrupted body).run d = (fault.outcome g.usage, d)) := by
  obtain ⟨r, hexec, hr⟩ := tests_checkLine (g := g) d (line.withDefaults g.defaults)
  dsimp only
  rw [run, hread]
  dsimp only
  rw [hgoes]
  dsimp only
  rw [Disk.exec] at hexec
  rw [StateT.run_bind, hexec]
  cases r with
  | error fault => exact .inr ⟨fun h => absurd (hr.2 h) (by simp), fault, rfl⟩
  | ok u => exact .inl ⟨hr.1 rfl, rfl⟩

theorem run_of_passes (hread : g.readWords none words = ok line)
    (hgoes : line.interruption? = none) (hpasses : g.Passes d (line.withDefaults g.defaults)) :
    (g.run words interrupted body).run d = (body (line.withDefaults g.defaults)).run d := by
  rcases run_cases d interrupted body hread hgoes with h | h
  · exact h.2
  · exact absurd hpasses h.1

theorem ending_ne_of_fault (fault : UsageFault) (u : Usage) :
    (fault.outcome u).ending ≠ .exit 0 := by
  cases fault with
  | zeroInPath => simp [UsageFault.outcome, Outcome.breaking]
  | _ => simp [UsageFault.outcome]

/-- What ends well has passed. -/
theorem passes_of_ending (hread : g.readWords none words = ok line)
    (hgoes : line.interruption? = none)
    (hending : ((g.run words interrupted body).run d).1.ending = .exit 0) :
    g.Passes d (line.withDefaults g.defaults) := by
  rcases run_cases d interrupted body hread hgoes with h | h
  · exact h.1
  · obtain ⟨-, fault, hrun⟩ := h
    rw [hrun] at hending
    exact absurd hending (ending_ne_of_fault fault g.usage)

/-! ## Groups -/

variable {commands : List String} {given : List (κ × Given)} {name : String} {rest : List Text}
  {bodies : CommandLine κ → String → List Text → StateM Disk Outcome}

/-- A line of a group is answered by the command that it names. -/
theorem runGroup_eq (hread : g.readWords none words = ok ⟨given, name.toList :: rest⟩)
    (hname : name ∈ commands) :
    g.runGroup commands words interrupted bodies =
      g.run words interrupted fun line => bodies line name rest := by
  have hwords : words.isEmpty = false := by
    cases words with
    | nil => cases hread
    | cons word words => rfl
  have hcontains : commands.contains name := by simpa using hname
  rw [runGroup, hwords, if_neg (by simp), run, run, hread]
  dsimp only
  cases CommandLine.interruption? _ with
  | some key => rfl
  | none => simp only [CommandLine.withDefaults, String.ofList_toList, hcontains, if_true]

end Grammar

end Devicetree
