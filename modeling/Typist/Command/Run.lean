import Typist.Arguments
import Typist.Command.Input
import Typist.Command.Options
import Typist.File.Target
import Typist.Playback.Controller
import Typist.Playback.Player
import Typist.Snippet.Reader
import Typist.Snippet.Render

/-!
# The command

`paste` plays a snippet, through the system's controller or as a dry run that prints the events;
`check` writes a snippet back with its defaults and diagnostics. What the command line leaves out is
asked for on the console: the subcommand, the target and the arguments that have no value.

A run is a function of the command line, the files and the standard input, and of the faults that
calls meet. It gives an outcome and the journal of what happened. So that a caller may supply files
and input piece by piece, a run also tells which paths it looked at, and how far its journal went
when it came to the end of the input it was given.
-/

namespace Typist.Command

/-- What a run depends on beside its command line. -/
structure Host where
  files : Files
  system : System := {}
  faults : Faults := .none

/-- What a run has left of its input, and what happened so far. -/
structure Console where
  input : Input
  journal : Journal := []
  /-- The length of the journal when the run came to the end of the input, if it did. -/
  exhausted : Option Nat := none
  /-- The paths that the run looked at. -/
  consulted : List Path := []

/-- Why a run stops before its end. -/
inductive Failure
  | argument (error : ArgumentError)
  | settings (error : LoadError)
  | target (error : TargetError)
  | read (error : ReadError)
  | play (error : PlayError)
  /-- A call other than those of playing met a fault. -/
  | fault (fault : Fault)
  /-- The input is not UTF-8. -/
  | undecodableInput
  /-- A line to print holds half of a surrogate pair, which has no form in UTF-8. -/
  | unprintable
  /-- The settings are to be read from a path that is lost, having been written as a pair of
  dashes. -/
  | noSettingsPath
  deriving DecidableEq, Repr

/-- How a run stops before its end. -/
inductive Stop
  /-- The arguments are not understood. -/
  | usage
  /-- The arguments ask for help. -/
  | help
  | failure (failure : Failure)
  deriving DecidableEq, Repr

/-- What a failure means for a run. -/
inductive Verdict
  /-- The user interrupted. -/
  | cancelled
  /-- The user is told the message. -/
  | reported (message : String)
  /-- The run breaks off. -/
  | broken
  deriving DecidableEq, Repr

namespace Failure

/-- What a fault means for a run. -/
def faultVerdict : Fault → Verdict
  | .interrupt => .cancelled
  | .unavailable _ => .broken
  | f => .reported f.message

/-- What a failure means for a run. -/
def verdict : Failure → Verdict
  | argument e => .reported e.message
  | settings (.settings e) => .reported e.message
  | settings .tooDeep => .broken
  | target (.notAFile path) => .reported (TargetError.notAFile path).message
  | target (.nameTooLong path) => .reported (TargetError.nameTooLong path).message
  | target .noHome => .broken
  | target .impossibleUser => .broken
  | read (.snippet e) => .reported e.message
  | read .numberTooLong => .broken
  | play (.fault f) => faultVerdict f
  | play (.unresolved name) => .reported (unresolvedMessage name)
  | play (.unknownCommitKey _) => .broken
  | play .delayOutOfRange => .broken
  | fault f => faultVerdict f
  | undecodableInput => .broken
  | unprintable => .broken
  | noSettingsPath => .broken

end Failure

/-- A part of a run. -/
abbrev Session := EStateM Stop Console

namespace Session

/-- Fails. -/
def fail {α : Type} (failure : Failure) : Session α :=
  throw (.failure failure)

/-- Goes on with a result, or fails. -/
def orFail {ε α : Type} (kind : ε → Failure) : Except ε α → Session α
  | .ok a => return a
  | .error e => fail (kind e)

/-- Takes an action on the journal as a part of a run. -/
def perform (act : Act Unit) : Session Unit := fun console =>
  match act console.journal with
  | .ok _ journal => .ok () { console with journal }
  | .error fault journal => .error (.failure (.fault fault)) { console with journal }

/-- Prints a text. -/
def print (t : Text) : Session Unit :=
  perform (Act.enter (.printed t))

/-- Gives a notice. -/
def note (level : Level) (message : String) : Session Unit :=
  perform (Act.note level message)

/-- Notes that a path is looked at. -/
def consult (path : Path) : Session Unit :=
  modify fun console => { console with consulted := console.consulted ++ [path] }

/-! ## The console -/

/-- Goes on with what is left of the input, and notes if the run came to its end. -/
def leave (input : Input) : Session Unit :=
  modify fun console =>
    let reached := if input.ended then some console.journal.length else none
    { console with input, exhausted := console.exhausted.or reached }

/-- Waits for a line of input and takes the blanks around it away. -/
def answer (question : Text) : Session Text := do
  let (line, input) := (← get).input.line
  leave input
  match line with
  | .ok t => return t.trim
  | .error .ended => fail (.argument (.promptFailed question))
  | .error .undecodable => fail .undecodableInput

/-- Puts a question and waits for the answer. -/
def ask (host : Host) (question : Text) : Session Text := do
  perform (Act.call host.faults .input)
  print (question ++ [':', ' '])
  answer question

/-- Takes all the bytes of the input that no answer has opened. -/
def takeInput : Session (List UInt8) := do
  let (bytes, input) := (← get).input.takeBytes
  leave input
  return bytes

/-! ## Snippets -/

/-- The question for a target. -/
def targetQuestion : Text :=
  "Target snippet (file path, or `-` for standard input)".toList

/-- The target, asked for if it is not given. -/
def chooseTarget (host : Host) : Option Text → Session Text
  | some target => return target
  | none => ask host targetQuestion

/-- The bytes of a target. -/
def readTarget (host : Host) (target : Text) : Session (List UInt8) := do
  let path := (Path.ofText target.trim).expandHome host.files.home
  path.forM consult
  match ← orFail .target (Target.resolve host.files target) with
  | .standardInput => takeInput
  | .file path content => do
    note .debug ("Reading snippet from " ++ path.text.str)
    return content

/-- Gives the diagnostics of a snippet as warnings. -/
def warnOf : Diagnostics → Session Unit
  | [] => return ()
  | d :: ds => do
    note .warning d.summary
    warnOf ds

/-- The snippet of a target. -/
def readSnippet (host : Host) (settings : Settings) (target : Text) : Session Snippet := do
  match Snippet.readBytes settings.keyLookup (← readTarget host target) {} with
  | .error e snippet => do
    warnOf snippet.diagnostics
    fail (.read e)
  | .ok _ snippet => do
    warnOf snippet.diagnostics
    note .debug ("Parsed " ++ (Text.ofNat snippet.lines.length).str ++ " lines declaring " ++
      (Text.ofNat snippet.defaults.size).str ++ " defaults")
    return snippet

/-- Asks for the value of an argument and notes it. -/
def fillArgument (host : Host) (name : Text) (default : Option Text) : Session Text := do
  let value ← askArgument (ask host) name default
  note .debug ("Argument " ++ name.str ++ " resolved to " ++ value.quoted.str)
  return value

/-! ## Subcommands -/

/-- The options of `paste`. -/
def pasteOptions : List OptionSpec :=
  [⟨.help, ["-h", "--help"], false⟩, ⟨.dryRun, ["--dry-run"], false⟩]

/-- The options of `check`. -/
def checkOptions : List OptionSpec :=
  [⟨.help, ["-h", "--help"], false⟩]

/-- Reads arguments whose options come first, unless they ask for help. -/
def readArguments (specs : List OptionSpec) (arguments : List Text) : Session Arguments :=
  match readOptions specs arguments with
  | .error _ => throw .usage
  | .ok arguments => if arguments.has .help then throw .help else return arguments

/-- Options that are not known are not understood. -/
def refuseUnknown (arguments : Arguments) : Session Unit :=
  if arguments.unknown then throw .usage else return ()

/-- Arguments that nothing is meant for are not understood, but may still ask for help. -/
def refuse {α : Type} (specs : List OptionSpec) : List Text → Session α
  | [] => throw .usage
  | t :: rest => do
    if t = ['-', '-'] then throw .usage
    let _ ← readArguments specs (t :: rest)
    refuse specs rest

/-- The one positional argument there may be. -/
def onlyPositional (specs : List OptionSpec) : List Text → Session (Option Text)
  | [] => return none
  | t :: rest =>
    if t = ['-', '-'] then
      match rest with
      | [] => return none
      | [t] => return some t
      | _ => throw .usage
    else if rest = [] || rest = [['-', '-']] then return some t
    else refuse specs rest

/-- Plays a snippet with the given values. -/
def playOn (keyboard : Keyboard) (host : Host) (settings : Settings) (snippet : Snippet)
    (values : Mapping Text Text) : Session Unit := fun console =>
  let player : Player := ⟨keyboard, settings, fun d => Act.call host.faults (.sleep d)⟩
  match player.play snippet values ⟨{}, console.journal⟩ with
  | .ok _ stage => .ok () { console with journal := stage.journal }
  | .error e stage => .error (.failure (.play e)) { console with journal := stage.journal }

/-- Plays the snippet of a target, or shows in a dry run what would be played. -/
def paste (host : Host) (settings : Settings) (arguments : List Text) : Session Unit := do
  let arguments ← readArguments pasteOptions arguments
  refuseUnknown arguments
  let (target, supplied) := firstPositional arguments.rest
  let target ← chooseTarget host target
  let supplied ← orFail .argument (pairArguments supplied)
  let snippet ← readSnippet host settings target
  let values ← resolveLines (fillArgument host) snippet.defaults snippet.lines supplied
  let keyboard :=
    if arguments.has .dryRun then Keyboard.recorder none true
    else Keyboard.controller host.system host.faults
  playOn keyboard host settings snippet values

/-- The number of a line, set to the right in four columns. -/
def lineNumber (number : Nat) : Text :=
  let digits := Text.ofNat number
  List.replicate (4 - digits.length) ' ' ++ digits

/-- A line written back, or shown part by part if it cannot be written. -/
def checkedLine (line : Line) : Session Text :=
  match line.render {} with
  | .ok t => if line.hasTextNames then return t else fail .unprintable
  | .error _ => return line.shown

/-- Prints lines with their numbers. -/
def printLines (number : Nat) : List Line → Session Unit
  | [] => return ()
  | line :: lines => do
    print (lineNumber number ++ ": ".toList ++ (← checkedLine line) ++ ['\n'])
    printLines (number + 1) lines

/-- Prints declared defaults. -/
def printDefaults : List (Text × Text) → Session Unit
  | [] => return ()
  | (name, value) :: rest => do
    print ("default ".toList ++ name ++ " = ".toList ++ value.quoted ++ ['\n'])
    printDefaults rest

/-- Prints diagnostics. -/
def printDiagnostics : Diagnostics → Session Unit
  | [] => return ()
  | d :: ds => do
    print ("warning: ".toList ++ d.summary.toList ++ ['\n'])
    printDiagnostics ds

/-- Writes the snippet of a target back, with its defaults and diagnostics. -/
def check (host : Host) (settings : Settings) (arguments : List Text) : Session Unit := do
  let arguments ← readArguments checkOptions arguments
  let target ← onlyPositional checkOptions arguments.rest
  refuseUnknown arguments
  let target ← chooseTarget host target
  let snippet ← readSnippet host settings target
  printLines 1 snippet.lines
  printDefaults snippet.defaults.entries
  printDiagnostics snippet.diagnostics

/-! ## The whole command -/

/-- The subcommands by their names. -/
def subcommands : List (String × (Host → Settings → List Text → Session Unit)) :=
  [("paste", paste), ("p", paste), ("v", paste), ("check", check), ("c", check)]

/-- The question for a subcommand. -/
def subcommandQuestion : Text :=
  "Enter subcommand (`paste`/`p`, `check`/`c`)".toList

/-- The subcommand of a name, asked for if there is none of the name. Every answer uses up input, so
the length of the input bounds the number of questions. -/
def chooseSubcommand (host : Host) :
    (budget : Nat) → Option Text → Session (Host → Settings → List Text → Session Unit)
  | budget, name => do
    let name ← name.elim (ask host subcommandQuestion) pure
    match subcommands.lookup name.str with
    | some subcommand => return subcommand
    | none => do
      note .warning ("Unknown subcommand: " ++ name.str)
      match budget with
      | 0 => fail (.argument (.promptFailed subcommandQuestion))
      | budget + 1 => chooseSubcommand host budget none

/-- The options in front of the subcommand. -/
def mainOptions : List OptionSpec :=
  [⟨.help, ["-h", "--help"], false⟩, ⟨.settings, ["--settings"], true⟩,
    ⟨.verbose, ["-v", "--verbose"], false⟩]

/-- The settings of the file at a path, or the default ones. The file may be nested so many
levels. -/
def loadSettings (host : Host) (levels : Nat) (path : Option Text) : Session Settings :=
  path.elim (return .standard) fun path => do
    if path = ['-', '-'] then fail .noSettingsPath
    consult (Path.ofText path)
    orFail .settings (Settings.loadFrom host.files (Path.ofText path) levels)

/-- Reads the options in front of the subcommand. -/
def readMain (arguments : List Text) : Session Arguments := do
  let arguments ← readArguments mainOptions arguments
  refuseUnknown arguments
  return arguments

/-- Runs the subcommand that the arguments ask for. -/
def runSubcommand (host : Host) (levels : Nat) (arguments : Arguments) : Session Unit := do
  let settings ← loadSettings host levels (arguments.value? .settings)
  let (name, rest) := firstPositional arguments.rest
  let subcommand ← chooseSubcommand host ((← get).input.size + 1) name
  subcommand host settings rest

end Session

/-- How a run ends. -/
inductive Outcome
  /-- The run ends with an exit status. -/
  | exited (status : Nat)
  /-- The arguments are not understood. -/
  | misused
  /-- The arguments ask for help. -/
  | helped
  /-- The run breaks off. -/
  | broken (failure : Failure)
  deriving DecidableEq, Repr

/-- The exit status of a run that the user interrupted. -/
def cancelledStatus : Nat := 130

/-- What a run comes to. -/
structure Report where
  outcome : Outcome
  verbose : Bool
  console : Console
  /-- What the user is told about the end of the run. -/
  closing : Journal := []

/-- The end of a run that stopped. -/
def concluded (verbose : Bool) (stop : Stop) (console : Console) : Report :=
  match stop with
  | .usage => { outcome := .misused, verbose, console }
  | .help => { outcome := .helped, verbose, console }
  | .failure failure =>
    match failure.verdict with
    | .cancelled =>
      ⟨.exited cancelledStatus, verbose, console, [.spaced, .noticed ⟨.error, "Cancelled"⟩]⟩
    | .reported message => ⟨.exited 1, verbose, console, [.noticed ⟨.error, message⟩]⟩
    | .broken => { outcome := .broken failure, verbose, console }

/-- Runs the command. A settings file may be nested so many levels. -/
def run (host : Host) (arguments : List Text) (input : Input) (levels : Nat := Json.nestingLimit) :
    Report :=
  let console : Console := { input }
  match Session.readMain arguments console with
  | .error stop console => concluded false stop console
  | .ok arguments console =>
    let verbose := arguments.has .verbose
    match Session.runSubcommand host levels arguments console with
    | .ok _ console => { outcome := .exited 0, verbose, console }
    | .error stop console => concluded verbose stop console

namespace Report

/-- Everything that happened, the end included. -/
def journal (report : Report) : Journal :=
  report.console.journal ++ report.closing

/-- What the run printed. -/
def output (report : Report) : Text :=
  report.journal.output

/-- What the run told beside its output. -/
def errorOutput (report : Report) : Text :=
  report.journal.noticeOutput report.verbose

/-- The exit status of the run. -/
def status (report : Report) : Nat :=
  match report.outcome with
  | .exited status => status
  | .misused => 2
  | .helped => 0
  | .broken _ => 1

end Report

end Typist.Command
