-- SUMMARY: The grammar of command lines: options with their spellings, arguments, and what values they take.
import Devicetree.Command.Usage
import Devicetree.Text.Numeral

/-!
# Grammars of command lines

An option is known by a key and has one or more spellings, each of which turns it on,
turns it off, gives it a value or interrupts the command. Words that are no options are
arguments. A line is read in two steps: first its words are told apart, then the values
and arguments are checked, options in the order in which they first came and arguments
in theirs. Of an option that comes more than once the last value counts.
-/

namespace Devicetree

-- ---------------------------------------------------------------------------
-- Grammars
-- ---------------------------------------------------------------------------

/-- Which values an option or an argument takes. -/
inductive ValueKind where
  | anything
  | integer
  | choice (among : List String)
  /-- A file that may be missing, but is no directory. -/
  | file
  /-- Such a file, or a dash for standard input. -/
  | source
  /-- A file that is there. -/
  | existingFile
deriving DecidableEq, Repr

/-- What a spelling of an option does. -/
inductive Effect where
  | turnsOn
  | turnsOff
  | takes (kind : ValueKind)
  | interrupts
deriving DecidableEq, Repr

/-- One spelling of an option: two dashes and a word, or one dash and a letter. -/
structure Spelling (κ : Type) where
  text : String
  key : κ
  effect : Effect

/-- An argument of a command. -/
structure Argument where
  name : String
  kind : ValueKind
deriving DecidableEq, Repr

/-- What a command line may hold. -/
structure Grammar (κ : Type) where
  usage : Usage
  spellings : List (Spelling κ)
  arguments : List Argument
  /-- What counts for options that a line does not hold. -/
  defaults : List (κ × Text) := []
  /-- Whether the first argument names a command, to which all behind it belongs. -/
  isGroup : Bool := false

/-- What is given for an option. -/
inductive Given where
  | on
  | off
  | value (t : Text)
  | interruption
deriving DecidableEq, Repr

/-- The options of a command line in order, and its arguments. -/
structure CommandLine (κ : Type) where
  given : List (κ × Given)
  arguments : List Text

namespace Grammar

variable {κ : Type} [DecidableEq κ]

-- ---------------------------------------------------------------------------
-- Single words
-- ---------------------------------------------------------------------------

/-- The spelling with a text. -/
def spelling? (g : Grammar κ) (t : Text) : Option (Spelling κ) :=
  g.spellings.find? fun s => s.text.toList == t

/-- The spellings that are words. -/
def longSpellings (g : Grammar κ) : List String :=
  (g.spellings.map Spelling.text).filter fun s => 2 < s.length

/-- What a word says: some options, the last of which may want the next word. -/
structure Reading (κ : Type) where
  given : List (κ × Given)
  wanting : Option (Spelling κ)

/-- What a spelling says when no value is attached to it. -/
def plainReading (s : Spelling κ) : Reading κ :=
  match s.effect with
  | .turnsOn => ⟨[(s.key, .on)], none⟩
  | .turnsOff => ⟨[(s.key, .off)], none⟩
  | .interrupts => ⟨[(s.key, .interruption)], none⟩
  | .takes _ => ⟨[], some s⟩

/-- Read the letters behind a dash. An option that takes a value takes the rest of the
    word, if there is any. -/
def readLetters (g : Grammar κ) : Text → Except UsageFault (Reading κ)
  | [] => .ok ⟨[], none⟩
  | c :: cs =>
    match g.spelling? ['-', c] with
    | none => .error (.noSuchOption ['-', c] [])
    | some s =>
      match s.effect, cs with
      | .takes _, [] => .ok ⟨[], some s⟩
      | .takes _, cs => .ok ⟨[(s.key, .value cs)], none⟩
      | _, cs =>
        match readLetters g cs with
        | .error fault => .error fault
        | .ok reading => .ok { reading with given := (plainReading s).given ++ reading.given }

/-- Split a word at its first equals sign. -/
def splitValue (word : Text) : Text × Option Text :=
  match word.dropWhile (· != '=') with
  | [] => (word, none)
  | _ :: value => (word.takeWhile (· != '='), some value)

/-- Read a word that starts with a dash. -/
def readWord (g : Grammar κ) (word : Text) : Except UsageFault (Reading κ) :=
  let (name, value?) := splitValue word
  match (g.spelling? name).filter fun s => 2 < s.text.length with
  | some s =>
    match s.effect, value? with
    | .takes _, some value => .ok ⟨[(s.key, .value value)], none⟩
    | _, some _ => .error (.takesNoValue name)
    | _, none => .ok (plainReading s)
  | none =>
    if ['-', '-'].isPrefixOf word then
      .error (.noSuchOption name (Closest.among g.longSpellings name))
    else g.readLetters (word.drop 1)

/-- Whether a word is read as options. -/
def isOptionWord (word : Text) : Bool :=
  match word with
  | '-' :: _ :: _ => true
  | _ => false


-- ---------------------------------------------------------------------------
-- Lines
-- ---------------------------------------------------------------------------

/-- Tell the words of a line apart. `wanting` is an option that takes the next word. -/
def readWords (g : Grammar κ) : (wanting : Option (Spelling κ)) → List Text →
    Except UsageFault (CommandLine κ)
  | none, [] => .ok ⟨[], []⟩
  | some s, [] => .error (.needsArgument s.text.toList)
  | some s, word :: words => do
    let line ← readWords g none words
    return { line with given := (s.key, .value word) :: line.given }
  | none, word :: words =>
    if word = ['-', '-'] then .ok ⟨[], words⟩
    else if isOptionWord word then do
      let reading ← g.readWord word
      let line ← readWords g reading.wanting words
      return { line with given := reading.given ++ line.given }
    else if g.isGroup then .ok ⟨[], word :: words⟩
    else do
      let line ← readWords g none words
      return { line with arguments := word :: line.arguments }

end Grammar

namespace CommandLine

variable {κ : Type} [DecidableEq κ]

/-- What counts for an option. -/
def last? (line : CommandLine κ) (key : κ) : Option Given :=
  line.given.reverse.lookup key

/-- Whether an option is on. -/
def isOn (line : CommandLine κ) (key : κ) : Bool :=
  line.last? key == some .on

/-- The value of an option. -/
def value? (line : CommandLine κ) (key : κ) : Option Text :=
  match line.last? key with
  | some (.value t) => some t
  | _ => none

/-- The options in the order in which they first came. -/
def keys (line : CommandLine κ) : List κ :=
  (line.given.map (·.1)).eraseDups

/-- The line with values for options that it does not hold. -/
def withDefaults (line : CommandLine κ) (defaults : List (κ × Text)) : CommandLine κ :=
  let missing := defaults.filter fun (key, _) => (line.last? key).isNone
  { line with given := line.given ++ missing.map fun (key, t) => (key, .value t) }

/-- The argument in some position. -/
def argument (line : CommandLine κ) (position : Nat) : Text :=
  line.arguments.getD position []

/-- The first option that interrupts the command. -/
def interruption? (line : CommandLine κ) : Option κ :=
  (line.given.find? fun (_, given) => given == .interruption).map (·.1)

end CommandLine


-- ---------------------------------------------------------------------------
-- Checks
-- ---------------------------------------------------------------------------

namespace ValueKind

variable {m : Type → Type} [Monad m] [Machine m]

/-- What stands at a path as it is written, where a slash at the end asks for a directory. -/
def lookWritten (t : Text) : m (Except Obstacle EntryKind) :=
  if t.isEmpty then return .error .absent
  else Machine.look (Path.written t)

/-- Check that no directory stands at a path, and that a file does if it has to. -/
def checkFile (mustExist : Bool) (what : String) (t : Text) : m (Option UsageFault) := do
  if t.contains '\x00' then return some .zeroInPath
  match ← lookWritten t with
  | .error _ =>
    return if mustExist then
      some (.invalidValue what s!"File {UsageFault.shown t} does not exist.") else none
  | .ok .directory =>
    return some (.invalidValue what s!"File {UsageFault.shown t} is a directory.")
  | .ok .file => return none

/-- What is wrong with a value, if anything is. -/
def check (what : String) (t : Text) : ValueKind → m (Option UsageFault)
  | anything => return none
  | integer =>
    return if (Numeral.int? t).isSome then none
      else some (.invalidValue what s!"{UsageFault.shown t} is not a valid integer.")
  | choice among =>
    let names := ", ".intercalate (among.map fun name => s!"'{name}'")
    return if among.contains (String.ofList t) then none
      else some (.invalidValue what s!"{UsageFault.shown t} is not one of {names}.")
  | file => checkFile false what t
  | source => if t = ['-'] then return none else checkFile false what t
  | existingFile => checkFile true what t

end ValueKind

namespace Grammar

variable {κ : Type} [DecidableEq κ] {m : Type → Type} [Monad m] [Machine m]

/-- How an option is called in messages: by all its spellings. -/
def optionName (g : Grammar κ) (key : κ) : String :=
  " / ".intercalate ((g.spellings.filter (·.key = key)).map fun s => s!"'{s.text}'")

/-- The kind of value that an option takes. -/
def kindOf (g : Grammar κ) (key : κ) : ValueKind :=
  (g.spellings.findSome? fun s =>
    match s.effect with
    | .takes kind => if s.key = key then some kind else none
    | _ => none).getD .anything

/-- Check the value of an option. -/
def checkOption (g : Grammar κ) (key : κ) (t : Text) : ExceptT UsageFault m Unit := do
  match ← ValueKind.check (g.optionName key) t (g.kindOf key) with
  | none => return ()
  | some fault => throw fault

/-- Check the arguments against those that a command takes. -/
def checkArguments : List Argument → List Text → ExceptT UsageFault m Unit
  | [], [] => return ()
  | [], first :: others => throw (.unexpectedArguments first others)
  | a :: _, [] => throw (.missingArgument a.name)
  | a :: as, t :: ts => do
    match ← ValueKind.check s!"'{a.name}'" t a.kind with
    | none => checkArguments as ts
    | some fault => throw fault

/-- Check all values and arguments of a line. -/
def checkLine (g : Grammar κ) (line : CommandLine κ) : ExceptT UsageFault m Unit := do
  for key in line.keys do
    match line.value? key with
    | some t => g.checkOption key t
    | none => pure ()
  if g.isGroup then return ()
  else checkArguments g.arguments line.arguments

/-- Read a line of words and go on with it; if an option interrupts, go on with that. -/
def run (g : Grammar κ) (words : List Text) (interrupted : κ → Outcome)
    (body : CommandLine κ → m Outcome) : m Outcome := do
  match g.readWords none words with
  | .error fault => return fault.outcome g.usage
  | .ok line =>
    match line.interruption? with
    | some key => return interrupted key
    | none =>
      let line := line.withDefaults g.defaults
      match ← (g.checkLine line).run with
      | .error fault => return fault.outcome g.usage
      | .ok () => body line

/-- Read a line of words that names one of some commands, and go on with that command and
    the words behind it. A name that looks like an option is read as one first. -/
def runGroup (g : Grammar κ) (commands : List String) (words : List Text)
    (interrupted : κ → Outcome) (body : CommandLine κ → String → List Text → m Outcome) :
    m Outcome :=
  if words.isEmpty then return g.usage.hint
  else
    g.run words interrupted fun line => do
      match line.arguments with
      | [] => return UsageFault.missingCommand.outcome g.usage
      | name :: rest =>
        let unknown := UsageFault.noSuchCommand name (Closest.among commands name)
        if commands.contains (String.ofList name) then body line (String.ofList name) rest
        else if isOptionWord name then
          g.run (name :: rest) interrupted fun _ => return unknown.outcome g.usage
        else return unknown.outcome g.usage

end Grammar

end Devicetree
