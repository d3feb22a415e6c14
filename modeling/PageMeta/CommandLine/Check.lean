import PageMeta.CommandLine.Folder
import PageMeta.CommandLine.Options
import PageMeta.Json.Parser
import PageMeta.Json.Printer
import PageMeta.Settings.Load
import PageMeta.Settings.Registry
import PageMeta.Text.Utf8

/-!
# Checking a settings file

Reads settings from a file, loads them into the current store and checks it, and reports the whole
settings and the states of the features that were asked for.

* `readSettings` reads the settings of a file.
* `check` loads and checks settings and gives the report.
* `run` is the whole command in a folder of files.
-/

namespace PageMeta.CommandLine

/-- How a command ended: with an exit code, or with an error that nothing caught. -/
structure Ending where
  result : Except Error Nat
  output : String
  messages : String

/-! ## Reading -/

/-- The text with every kind of line end written as one new-line character. -/
def withPlainLines : List Char → List Char
  | [] => []
  | '\r' :: '\n' :: rest => '\n' :: withPlainLines rest
  | '\r' :: rest => '\n' :: withPlainLines rest
  | c :: rest => c :: withPlainLines rest

/-- Reads a text as a JSON document. -/
def readJson (text : List Char) : Except Error (Tree String) :=
  match Json.readDocument text with
  | .ok t => .ok t
  | .error (.fault reason rest) => .error (.notJson (Json.Refusal.locate text reason rest))
  | .error (.numberTooLong digits) => .error (.numberTooLong digits)

/-- Reads the settings in the content of a file: an object, as the top of a JSON document. -/
def readContent (path : String) (content : List UInt8) : Except Error (Tree String) :=
  match Text.decode content with
  | .error fault => .error (.notUtf8 fault)
  | .ok text => do
    match ← readJson (withPlainLines text.toList) with
    | .map entries => return .map entries
    | _ => .error (.topNotObject path)

/-- Reads the settings of what a path leads to. -/
def readSettings (path : String) : Found → Except Error (Tree String)
  | .nothing => .error (.fileMissing path)
  | .directory => .error (.isDirectory path)
  | .tooLong => .error (.pathTooLong path)
  | .file content => readContent path content

/-! ## Checking -/

/-- Nothing here can be called. -/
def refuse : Caller Unit := fun v _ => do throw (.notCallable ((← get).heap.typeName v))

/-- Calls the mutator that loads data into the store it is given. -/
def loader (data : Value) : Caller Unit := fun _ args =>
  match args.positional with
  | [s] => Settings.load refuse s data
  | _ => pure .none

/-- The states of features on a store, by name.  An option without a value names no feature, as an
empty list cannot be a key of the report. -/
def featureStates (call : Caller Unit) (store : Value) :
    List Given → Action Unit (List (String × Tree String))
  | [] => pure []
  | .emptied :: _ => throw (.unhashable "list")
  | .text name :: rest => do
    let state ← Registry.featureState call (.ofText name) store
    let others ← featureStates call store rest
    return (name, .leaf (.ofText state.text)) :: others

/-- Loads settings into the current store, checks it, and reports. -/
def load (settings : Tree String) (features : List Given) : Action Unit (Tree String) := do
  let data ← Action.onHeap (Heap.buildText .plain settings)
  let call := loader data
  let store ← Registry.configure call (.routine 0)
  let plain ← Settings.toDict call store
  let config ← Action.ask fun h => (·.mapKeys h.keyText) <$> h.tree .given plain
  let names := if features.isEmpty then Registry.featureNames.map .text else features
  let states ← featureStates call store names
  return .map [("config", config), ("features", .map (Entries.ofList states))]

/-- The lines of log records; only warnings unless everything is to be shown. -/
def logLines (verbose : Bool) (log : List LogRecord) : String :=
  String.join ((log.filter fun r => verbose || r.level == .warning).map fun r =>
    r.level.name ++ ":" ++ r.logger ++ ":" ++ r.message ++ "\n")

/-- The world before anything happened. -/
def start : World Unit :=
  { heap := .empty, current := none, log := [], constants := [], client := () }

/-- Checks settings.  Violated rules are messages, all other errors are left uncaught. -/
def check (verbose : Bool) (settings : Tree String) (features : List Given) : Ending :=
  match load settings features start with
  | .ok report w => ⟨.ok 0, Json.Style.report.write report ++ "\n", logLines verbose w.log⟩
  | .error (.violations broken) w =>
    ⟨.ok 1, "", logLines verbose w.log ++ "[invalid] " ++ (Error.violations broken).message ++ "\n"⟩
  | .error e w => ⟨.error e, "", logLines verbose w.log⟩

/-- What is to be done: the settings that a path leads to are to be checked. -/
structure Job where
  path : String
  /-- The features to report on; all of them if there is none. -/
  features : List Given
  verbose : Bool

/-- Does a job, given what its path leads to. -/
def Job.carryOut (job : Job) (found : Found) : Ending :=
  match readSettings (normalPath job.path) found with
  | .error e => ⟨.error e, "", ""⟩
  | .ok settings => check job.verbose settings job.features

/-- How a command ends that does not come to look at a file; otherwise what is to be done. -/
def interpret (arguments : List String) : Except Ending Job :=
  match parse arguments with
  | .error fault => .error ⟨.ok 2, "", refusal fault⟩
  | .ok .help => .error ⟨.ok 0, help, ""⟩
  | .ok (.check options) =>
    match options.config with
    | .text path => .ok ⟨path, options.features, options.verbose⟩
    | .emptied => .error ⟨.error (.noAttribute "list" "exists"), "", ""⟩

/-- Runs the command in a folder. -/
def run (folder : Folder) (arguments : List String) : Ending :=
  match interpret arguments with
  | .error ending => ending
  | .ok job => job.carryOut (folder.find job.path)

end PageMeta.CommandLine
