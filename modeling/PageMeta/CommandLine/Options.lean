import PageMeta.Text.Class
import PageMeta.Text.Quoted

/-!
# Command line options

Reads the arguments of the command line.  An option can be shortened as long as it stays clear
which one is meant; a value follows its option or is attached to it by an equals sign.

`parse` first classifies all arguments, then goes through them in order.  So an unclear option is
complained about before anything else, a request for help wins over every fault after it, and a
missing option is complained about before arguments that are left over.
-/

namespace PageMeta.CommandLine

/-- The options. -/
inductive Flag where
  | help
  | config
  | feature
  | verbose
deriving DecidableEq, Repr

/-- What the options are called, in the order in which they are shown. -/
def spellings : List (String × Flag) :=
  [("-h", .help), ("--help", .help), ("--config", .config), ("--feature", .feature),
   ("--verbose", .verbose)]

/-- All names of an option. -/
def Flag.label (flag : Flag) : String :=
  String.intercalate "/" ((spellings.filter (·.2 == flag)).map (·.1))

/-- The value that is attached to an option. -/
inductive Attachment where
  | none
  /-- After an equals sign. -/
  | equals (value : String)
  /-- Right behind a one-letter option; an equals sign in between is left out. -/
  | joined (value : List Char)
deriving DecidableEq, Repr

/-- What an argument is. -/
inductive Token where
  | plain
  /-- Two dashes: every argument after it is plain. -/
  | separator
  | option (flag : Flag) (attachment : Attachment)
  /-- Looks like an option but is none. -/
  | unknown
deriving DecidableEq, Repr

/-- Why a command line is refused. -/
inductive UsageFault where
  | ambiguous (argument : String) (candidates : List String)
  | ignoredValue (flag : Flag) (value : String)
  | missingValue (flag : Flag)
  | missingOption (flag : Flag)
  | unrecognized (arguments : List String)
deriving DecidableEq, Repr

/-- The wording of a refusal. -/
def UsageFault.text : UsageFault → String
  | .ambiguous argument candidates =>
    "ambiguous option: " ++ argument ++ " could match " ++ String.intercalate ", " candidates
  | .ignoredValue flag value =>
    "argument " ++ flag.label ++ ": ignored explicit argument " ++ Text.quote value
  | .missingValue flag => "argument " ++ flag.label ++ ": expected one argument"
  | .missingOption flag => "the following arguments are required: " ++ flag.label
  | .unrecognized arguments => "unrecognized arguments: " ++ String.intercalate " " arguments

/-! ## Classifying arguments -/

/-- Whether digits follow, at least one, up to the end of the line. -/
def isDigits (text : List Char) : Bool :=
  let digits := text.takeWhile Text.isDecimalDigit
  let rest := text.drop digits.length
  !digits.isEmpty && (rest.isEmpty || rest == ['\n'])

/-- Whether an argument that begins with a dash is a negative number: digits, or a point with
digits after it. -/
def isNegativeNumber (text : List Char) : Bool :=
  let body := text.drop 1
  isDigits body ||
    match body.dropWhile Text.isDecimalDigit with
    | '.' :: fraction => isDigits fraction
    | _ => false

/-- What an argument is that begins with a dash and spells no option in full. -/
def classifyPartial (argument : String) (text : List Char) : Except UsageFault Token :=
  let name := text.takeWhile (· != '=')
  let attachment := match text.drop name.length with
    | _ :: value => Attachment.equals (String.ofList value)
    | [] => .none
  let named := spellings.filter fun p => name.isPrefixOf p.1.toList
  let leftover : Token :=
    if isNegativeNumber text || text.contains ' ' then .plain else .unknown
  match text with
  | '-' :: '-' :: _ =>
    match named with
    | [] => .ok leftover
    | [p] => .ok (.option p.2 attachment)
    | several => .error (.ambiguous argument (several.map (·.1)))
  | '-' :: letter :: rest =>
    match spellings.lookup (String.ofList ['-', letter]) with
    | some flag => .ok (.option flag (.joined rest))
    | none => .ok leftover
  | _ => .ok leftover

/-- How the text after an equals sign is attached to an option of a given name. -/
def attach (name value : List Char) : Attachment :=
  match name, value with
  | [_, _], _ :: _ => .joined value
  | _, _ => .equals (String.ofList value)

/-- What an argument is. -/
def classify (argument : String) : Except UsageFault Token :=
  let text := argument.toList
  match text with
  | [] | ['-'] => .ok .plain
  | '-' :: _ =>
    match spellings.lookup argument with
    | some flag => .ok (.option flag .none)
    | none =>
      let name := text.takeWhile (· != '=')
      match spellings.lookup (String.ofList name), text.drop name.length with
      | some flag, _ :: value => .ok (.option flag (attach name value))
      | _, _ => classifyPartial argument text
  | _ => .ok .plain

/-- What the arguments are. -/
def classifyAll : List String → Except UsageFault (List (String × Token))
  | [] => .ok []
  | argument :: rest =>
    if argument = "--" then
      .ok ((argument, .separator) :: rest.map fun a => (a, .plain))
    else do
      let token ← classify argument
      let others ← classifyAll rest
      return (argument, token) :: others

/-! ## Going through them -/

/-- What an option is given. -/
inductive Given where
  | text (value : String)
  /-- Two dashes attached to the option: they are taken for a separator, which leaves an empty list
  in place of a value. -/
  | emptied
deriving DecidableEq, Repr

/-- What an option is given by a value that is attached to it. -/
def Given.attached (value : String) : Given := if value = "--" then .emptied else .text value

/-- What the options ask for. -/
structure Options where
  config : Given
  /-- The features to report on; all of them if there is none. -/
  features : List Given
  verbose : Bool
deriving DecidableEq, Repr

/-- What a command line asks for. -/
inductive Request where
  | help
  | check (options : Options)
deriving DecidableEq, Repr

/-- What was seen so far; lists have the latest last. -/
structure Seen where
  config : Option Given := none
  features : List Given := []
  verbose : Bool := false
  extras : List String := []

/-- What has been seen, with what an option that takes a value is given. -/
def Seen.withValue (seen : Seen) (flag : Flag) (given : Given) : Seen :=
  match flag with
  | .config => { seen with config := some given }
  | .feature => { seen with features := seen.features ++ [given] }
  | _ => seen

/-- Whether an option takes a value. -/
def Flag.takesValue : Flag → Bool
  | .config | .feature => true
  | .help | .verbose => false

/-- The fault of letters behind the option for help, if there is one: each of them must be that
option again. -/
def joinedFault : List Char → Option UsageFault
  | [] => none
  | 'h' :: rest => joinedFault rest
  | text => some (.ignoredValue .help (String.ofList text))

/-- What was seen as a request. -/
def Seen.finish (seen : Seen) : Except UsageFault Request :=
  match seen.config with
  | none => .error (.missingOption .config)
  | some config =>
    if seen.extras.isEmpty then .ok (.check ⟨config, seen.features, seen.verbose⟩)
    else .error (.unrecognized seen.extras)

/-- Goes through classified arguments. -/
def collect (seen : Seen) : List (String × Token) → Except UsageFault Request
  | [] => seen.finish
  | (_, .option flag (.equals value)) :: rest =>
    if flag.takesValue then collect (seen.withValue flag (.attached value)) rest
    else .error (.ignoredValue flag value)
  | (_, .option .help (.joined letters)) :: _ =>
    match joinedFault letters with
    | some fault => .error fault
    | none => .ok .help
  | (_, .option .help _) :: _ => .ok .help
  | (_, .option .verbose _) :: rest => collect { seen with verbose := true } rest
  | (_, .option flag _) :: (value, .plain) :: rest => collect (seen.withValue flag (.text value)) rest
  | (_, .option flag _) :: _ => .error (.missingValue flag)
  | (argument, _) :: rest => collect { seen with extras := seen.extras ++ [argument] } rest

/-- Reads the arguments of a command line. -/
def parse (arguments : List String) : Except UsageFault Request := do
  collect {} (← classifyAll arguments)

/-! ## Texts -/

/-- How the command is used. -/
def usage : String :=
  "usage: run-config-check.py [-h] --config CONFIG [--feature FEATURE]\n" ++
    "                           [--verbose]\n"

/-- What help shows. -/
def help : String :=
  usage ++ "\nSEO Builder 설정 검증 드라이버\n\noptions:\n" ++
    "  -h, --help         show this help message and exit\n" ++
    "  --config CONFIG    JSON 설정 파일 경로\n" ++
    "  --feature FEATURE  상태를 출력할 기능 이름 (반복 지정 가능, 기본: 전체)\n" ++
    "  --verbose          디버그 로그 출력\n"

/-- What a refusal shows. -/
def refusal (fault : UsageFault) : String :=
  usage ++ "run-config-check.py: error: " ++ fault.text ++ "\n"

end PageMeta.CommandLine
