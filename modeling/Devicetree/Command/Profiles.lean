-- SUMMARY: The commands on saved comparisons.
import Devicetree.Command.Options
import Devicetree.Profile.Store

/-!
# Commands on profiles

Profiles are saved, listed, shown, run, deleted, toggled and refreshed by name or id. The
store is named on the line or in the environment; otherwise it lies in the directory that
the environment sets aside for settings.
-/

namespace Devicetree

/-- Compare the sources of two files under the paths by which they are called. -/
def Comparison.ofFiles {m : Type → Type} [Monad m] [Machine m] (filter : Filter)
    (left right : String) : m (List Note × Except LoadFault Comparison) := do
  let l ← Source.load (Path.ofText left.toList)
  match l.text with
  | .error fault => return (l.notes, .error fault)
  | .ok leftText =>
    let r ← Source.load (Path.ofText right.toList)
    match r.text with
    | .error fault => return (l.notes ++ r.notes, .error fault)
    | .ok rightText =>
      let c := Comparison.ofTexts filter 3 leftText rightText left right
      return (l.notes ++ r.notes ++ Note.ofComparison filter leftText rightText c, .ok c)

namespace Profiles

-- ---------------------------------------------------------------------------
-- Grammars
-- ---------------------------------------------------------------------------

/-- The options of the group. -/
inductive GroupKey where
  | store
  | help
deriving DecidableEq, Repr

/-- The options of saving. -/
inductive SaveKey where
  | filter (s : FilterSwitch)
  | autoRefresh
  | help
deriving DecidableEq, Repr

/-- The options of running and of refreshing. -/
inductive RunKey where
  | form
  | quiet
  | verbose
  | help
deriving DecidableEq, Repr

/-- The variable that names a store. -/
def storeVariable : String := "DTSDIFF_PROFILES"

/-- The store that the environment names, if it names one. -/
def namedStore (s : Surroundings) : List (GroupKey × Text) :=
  match s.environment.lookup storeVariable with
  | some path => if path.isEmpty then [] else [(.store, path.toList)]
  | none => []

/-- What the group takes. -/
def groupGrammar (s : Surroundings) : Grammar GroupKey where
  usage := ⟨"dtsdiff profile", "[OPTIONS] COMMAND [ARGS]..."⟩
  spellings := [⟨"--store", .store, .takes .file⟩, ⟨"--help", .help, .interrupts⟩]
  arguments := []
  defaults := namedStore s
  isGroup := true

/-- The commands of the group. -/
def commands : List String :=
  ["delete", "list", "refresh", "run", "save", "show", "toggle"]

/-- What saving takes. -/
def saveGrammar : Grammar SaveKey where
  usage := ⟨"dtsdiff profile save", "[OPTIONS] NAME LEFT RIGHT"⟩
  spellings := ⟨"--auto-refresh", .autoRefresh, .turnsOn⟩ :: FilterSwitch.spellings .filter
    ++ [⟨"--help", .help, .interrupts⟩]
  arguments := [⟨"NAME", .anything⟩, ⟨"LEFT", .existingFile⟩, ⟨"RIGHT", .existingFile⟩]

/-- What running takes. -/
def runGrammar : Grammar RunKey where
  usage := ⟨"dtsdiff profile run", "[OPTIONS] NAME"⟩
  spellings :=
    [ ⟨"--format", .form, .takes (.choice Form.names)⟩,
      ⟨"--quiet", .quiet, .turnsOn⟩,
      ⟨"-q", .quiet, .turnsOn⟩,
      ⟨"--verbose", .verbose, .turnsOn⟩,
      ⟨"-v", .verbose, .turnsOn⟩,
      ⟨"--help", .help, .interrupts⟩ ]
  arguments := [⟨"NAME", .anything⟩]

/-- What refreshing takes. -/
def refreshGrammar : Grammar RunKey where
  usage := ⟨"dtsdiff profile refresh", "[OPTIONS]"⟩
  spellings :=
    [ ⟨"--verbose", .verbose, .turnsOn⟩,
      ⟨"-v", .verbose, .turnsOn⟩,
      ⟨"--help", .help, .interrupts⟩ ]
  arguments := []

/-- What a command takes that is given a profile only. -/
def nameGrammar (command : String) : Grammar Unit where
  usage := ⟨s!"dtsdiff profile {command}", "[OPTIONS] NAME"⟩
  spellings := [⟨"--help", (), .interrupts⟩]
  arguments := [⟨"NAME", .anything⟩]

/-- What listing takes. -/
def listGrammar : Grammar Unit where
  usage := ⟨"dtsdiff profile list", "[OPTIONS]"⟩
  spellings := [⟨"--help", (), .interrupts⟩]
  arguments := []


-- ---------------------------------------------------------------------------
-- The store
-- ---------------------------------------------------------------------------

/-- A path behind another one. -/
def joined (directory name : String) : String :=
  if directory.isEmpty || directory.endsWith "/" then directory ++ name
  else directory ++ "/" ++ name

/-- The directory that is set aside for settings: the one that the environment names, or
    one in the home directory. -/
def settings (s : Surroundings) : String :=
  match s.environment.lookup "XDG_CONFIG_HOME" with
  | some directory => directory
  | none =>
    let home := ((s.environment.lookup "HOME").getD "").toList
    String.ofList ((home.reverse.dropWhile (· == '/')).reverse ++ "/.config".toList)

/-- The store for which nothing was named. -/
def standardStore (s : Surroundings) : Path :=
  (Path.ofText (joined (settings s) "dtsdiff").toList).inside "profiles.json".toList

/-- The store of a line. -/
def storeOf (s : Surroundings) (line : CommandLine GroupKey) : Path :=
  match line.value? .store with
  | some t => Path.ofText t
  | none => standardStore s

/-- The answer to an operation on a store that fails. -/
def failure : StoreFailure → Outcome
  | .reported fault => .failing s!"Error: {fault.message}" 1
  | .broken breakdown => .breaking breakdown


-- ---------------------------------------------------------------------------
-- Texts
-- ---------------------------------------------------------------------------

/-- A path, shortened. -/
def short (path : String) : String :=
  String.ofList (Path.abbreviate path.toList)

/-- A profile on one line. -/
def listed (p : Profile) : Text :=
  let refresh := if p.autoRefresh then "auto-refresh" else "manual"
  s!"{p.name}  {short p.left} ↔ {short p.right}  [{refresh}]".toList

/-- A switch of a filter on one line. -/
def switchLine (switch : String × Bool) : String :=
  let answer := if switch.2 then "yes" else "no"
  s!"    {switch.1}: {answer}"

/-- A profile in full. -/
def details (p : Profile) (created : Date) : List Text :=
  let refresh := if p.autoRefresh then "Enabled" else "Disabled"
  ([ s!"Comparison: {p.name}",
     s!"  ID: {p.id}",
     s!"  Left file: {p.left}",
     s!"  Right file: {p.right}",
     s!"  Auto-refresh: {refresh}",
     s!"  Created: {String.ofList created.text}",
     "  Options:" ] ++ p.filter.switches.map switchLine).map String.toList


-- ---------------------------------------------------------------------------
-- Commands
-- ---------------------------------------------------------------------------

variable {m : Type → Type} [Monad m] [Machine m]

/-- Answer with what came of an operation on a store. -/
def answer {α : Type} (operation : ExceptT StoreFailure m α) (body : α → m Outcome) :
    m Outcome := do
  match ← operation.run with
  | .error reason => return failure reason
  | .ok v => body v

/-- Save a profile. -/
def save (store : Path) (name left right : String) (filter : Filter) (autoRefresh : Bool) :
    m Outcome :=
  answer (Store.add store name left right filter autoRefresh) fun p =>
    return .printing [s!"✓ Comparison profile \"{p.name}\" saved (id: {p.id})".toList] 0

/-- List all profiles. -/
def list (store : Path) : m Outcome :=
  answer (Store.load store) fun ps =>
    return if ps.isEmpty then .printing ["No saved comparison profiles found".toList] 0
      else .printing (ps.map listed) 0

/-- Show a profile. -/
def display (store : Path) (name : String) : m Outcome :=
  answer (Store.get store name) fun p =>
    return match Calendar.dateOf p.created with
      | .error fault => .breaking (.noDate fault)
      | .ok created => .printing (details p created) 0

/-- Whether both files of a profile are there. -/
def filesExist (p : Profile) : m (Except FileFault Bool) := do
  match ← Machine.isFile (Path.ofText p.left.toList) with
  | .ok true => Machine.isFile (Path.ofText p.right.toList)
  | answer => return answer

/-- Run a profile. -/
def run (store : Path) (name : String) (showing : Showing) : m Outcome :=
  answer (Store.get store name) fun p => do
    match ← filesExist p with
    | .error fault => return .breaking (.obstructed fault)
    | .ok false =>
      let message := s!"Error: One or both files in comparison '{p.name}' no longer exist"
      return .failing message 3
    | .ok true =>
      match ← Comparison.ofFiles p.filter p.left p.right with
      | (notes, .error fault) => return fault.outcome.noting notes
      | (notes, .ok c) => return (c.outcome showing).noting notes

/-- Delete a profile. -/
def delete (store : Path) (name : String) : m Outcome :=
  answer (Store.delete store name) fun p =>
    return .printing [s!"✓ Deleted comparison profile \"{p.name}\"".toList] 0

/-- Turn the automatic refreshing of a profile on or off. -/
def toggle (store : Path) (name : String) : m Outcome :=
  answer (Store.toggle store name) fun p =>
    let status := if p.autoRefresh then "enabled" else "disabled"
    return .printing [s!"✓ Auto-refresh {status} for \"{p.name}\"".toList] 0


-- ---------------------------------------------------------------------------
-- Refreshing
-- ---------------------------------------------------------------------------

/-- What came of refreshing a profile. -/
inductive Refreshed where
  | filesMissing
  | failed (fault : LoadFault)
  | compared (c : Comparison)

namespace Refreshed

/-- Whether the sources of a profile are there, can be loaded and are identical. -/
def ticked : Refreshed → Bool
  | compared c => c.identical
  | _ => false

/-- What is said about a profile. -/
def status : Refreshed → String
  | filesMissing => "one or both files no longer exist"
  | failed fault => fault.message
  | compared c => if c.identical then "identical" else s!"{c.changedLines} changed lines"

/-- The entry for a profile: a mark, its name and its status. -/
def entry (name : String) (r : Refreshed) : Text :=
  let mark := if r.ticked then "✓" else "✗"
  s!"  {mark} {name}: {r.status}".toList

/-- The lines of a diff below an entry. -/
def diffLines : Refreshed → List Text
  | compared c => c.diff.map fun l => "    ".toList ++ l
  | _ => []

/-- All that is printed about a profile. -/
def lines (verbose : Bool) (name : String) (r : Refreshed) : List Text :=
  r.entry name :: if verbose then r.diffLines else []

end Refreshed

/-- Refresh a profile, with what is noted about it, unless that breaks off. -/
def refreshOne (p : Profile) : m (List Note × Except Breakdown Refreshed) := do
  match ← filesExist p with
  | .error fault => return ([], .error (.obstructed fault))
  | .ok false => return ([], .ok .filesMissing)
  | .ok true =>
    match ← Comparison.ofFiles p.filter p.left p.right with
    | (notes, .error fault) =>
      match fault.breakdown? with
      | some breakdown => return (notes, .error breakdown)
      | none => return (notes, .ok (.failed fault))
    | (notes, .ok c) => return (notes, .ok (.compared c))

/-- What refreshing profiles one by one gives: each with what is noted and found out about
    it, and where it broke off, if it did, with what is noted about the profile there. -/
abbrev RefreshedEach := List (Profile × List Note × Refreshed) × Option (List Note × Breakdown)

/-- Refresh profiles in order, up to one whose refreshing breaks off. -/
def refreshEach : List Profile → m RefreshedEach
  | [] => return ([], none)
  | p :: ps => do
    match ← refreshOne p with
    | (notes, .error breakdown) => return ([], some (notes, breakdown))
    | (notes, .ok r) =>
      let (results, stop) ← refreshEach ps
      return ((p, notes, r) :: results, stop)

/-- What refreshing some number of profiles leaves behind. -/
def refreshOutcome (verbose : Bool) (count : Nat) (refreshed : RefreshedEach) : Outcome :=
  let (results, stop) := refreshed
  let heading := s!"Refreshing {count} comparison(s)...".toList
  let o : Outcome :=
    { notes := results.flatMap fun (_, notes, _) => notes
      output := heading :: results.flatMap fun (p, _, r) => r.lines verbose p.name }
  match stop with
  | some (notes, breakdown) => { o with notes := o.notes ++ notes, ending := .broken breakdown }
  | none => { o with ending := .exit (if results.all fun (_, _, r) => r.ticked then 0 else 1) }

/-- Refresh all profiles that are refreshed automatically. -/
def refresh (store : Path) (verbose : Bool) : m Outcome :=
  answer (Store.autoRefreshed store) fun ps => do
    if ps.isEmpty then return .printing ["No profiles with auto-refresh enabled".toList] 0
    else
      return refreshOutcome verbose ps.length (← refreshEach ps)


-- ---------------------------------------------------------------------------
-- The group
-- ---------------------------------------------------------------------------

/-- Run a command that is given a profile only. -/
def runNamed (command : String) (words : List Text) (body : String → m Outcome) : m Outcome :=
  let grammar := nameGrammar command
  grammar.run words (fun _ => grammar.usage.help) fun line =>
    body (String.ofList (line.argument 0))

/-- Run a command of the group on a store. -/
def runCommand (store : Path) (command : String) (words : List Text) : m Outcome :=
  match command with
  | "save" =>
    saveGrammar.run words (fun _ => saveGrammar.usage.help) fun line =>
      save store (String.ofList (line.argument 0)) (String.ofList (line.argument 1))
        (String.ofList (line.argument 2)) (FilterSwitch.filter .filter line)
        (line.isOn .autoRefresh)
  | "run" =>
    runGrammar.run words (fun _ => runGrammar.usage.help) fun line =>
      run store (String.ofList (line.argument 0))
        { form := Form.ofValue (line.value? .form)
          quiet := line.isOn .quiet
          verbose := line.isOn .verbose }
  | "refresh" =>
    refreshGrammar.run words (fun _ => refreshGrammar.usage.help) fun line =>
      refresh store (line.isOn .verbose)
  | "list" => listGrammar.run words (fun _ => listGrammar.usage.help) fun _ => list store
  | "show" => runNamed command words (display store)
  | "toggle" => runNamed command words (toggle store)
  | _ => runNamed command words (delete store)

/-- Run the group. -/
def runGroup (s : Surroundings) (words : List Text) : m Outcome :=
  let grammar := groupGrammar s
  grammar.runGroup commands words (fun _ => grammar.usage.help) fun line command words =>
    runCommand (storeOf s line) command words

end Profiles

end Devicetree
