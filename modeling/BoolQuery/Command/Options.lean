/-
# The command line

    check  [-q QUERY | FILE] [--explain]         [--color WHEN] [--recursion-limit N]
    tokens [-q QUERY | FILE] [--json]
    tree   [-q QUERY | FILE] [--raw] [--spans]   [--color WHEN] [--recursion-limit N]
    trace  [-q QUERY | FILE] [-v | --verbose]    [--color WHEN] [--recursion-limit N]

Every command knows `-h` and `--help` too, and `-q` is also `--query`. A value is the next word or
attached: `--query=V`, `-qV`, `-q=V`. Short options combine: `-vq V`. After `--` the next word is
the file whatever it looks like. An option is given once at most.

A value in a word of its own is checked when the next option, the file or the end is reached, so
that an unknown option right after it is found first.
-/

namespace BoolQuery
namespace Command

/-- What is wrong with a command line, or that it asks for help. -/
inductive UsageError
  /-- There is nothing on it. -/
  | missingCommand
  | help
  | invalidSubcommand
  | unknownArgument
  | invalidValue
  | argumentConflict
  | tooManyValues
  | valueValidation
  deriving DecidableEq, Repr

/-- The exit status that goes with it. Help is no failure. -/
def UsageError.exitCode : UsageError → Nat
  | help => 0
  | _ => 2

/-- When to write in colour. -/
inductive ColourChoice
  /-- On a terminal. -/
  | auto
  | always
  | never
  deriving DecidableEq, Repr

/-- Whether a report is coloured that goes to a terminal or not. -/
def ColourChoice.resolve (choice : ColourChoice) (terminal : Bool) : Bool :=
  match choice with
  | auto => terminal
  | always => true
  | never => false

/-- The commands. -/
inductive Verb
  | check | tokens | tree | trace
  deriving DecidableEq, Repr

/-- The options. -/
inductive Opt
  | help | query | colour | limit
  | explain | json | raw | spans | verbose
  deriving DecidableEq, Repr

/-- The word of a command. -/
def Verb.name : Verb → String
  | check => "check"
  | tokens => "tokens"
  | tree => "tree"
  | trace => "trace"

/-- The command that a word stands for. -/
def Verb.ofName? (word : String) : Option Verb :=
  [check, tokens, tree, trace].find? fun v => v.name == word

/-- The options of a command. -/
def Verb.options (v : Verb) : List Opt :=
  let common : List Opt := [.help, .query]
  match v with
  | check => common ++ [.colour, .limit, .explain]
  | tokens => common ++ [.json]
  | tree => common ++ [.colour, .limit, .raw, .spans]
  | trace => common ++ [.colour, .limit, .verbose]

/-- The long name of an option. -/
def Opt.long : Opt → String
  | help => "help"
  | query => "query"
  | colour => "color"
  | limit => "recursion-limit"
  | explain => "explain"
  | json => "json"
  | raw => "raw"
  | spans => "spans"
  | verbose => "verbose"

/-- The short name of an option, if it has one. -/
def Opt.short? : Opt → Option Char
  | help => some 'h'
  | query => some 'q'
  | verbose => some 'v'
  | _ => none

/-- Whether an option takes a value. -/
def Opt.takesValue : Opt → Bool
  | query | colour | limit => true
  | _ => false

/-- What was read from a command line: the settings of all commands together. -/
structure Settings where
  file : Option String
  query : Option String
  colour : Option ColourChoice
  limit : Option Nat
  explain : Bool
  json : Bool
  raw : Bool
  spans : Bool
  verbose : Bool
  deriving DecidableEq, Repr

/-- The settings of a command line without options. -/
def Settings.initial : Settings := ⟨none, none, none, none, false, false, false, false, false⟩

/-- An integer in decimal, with or without a sign. -/
def integer? (text : String) : Option Int :=
  let digits? (cs : List Char) : Option Nat :=
    if cs ≠ [] ∧ cs.all Char.isDigit then some (Nat.ofDigitChars 10 cs 0) else none
  match text.toList with
  | '+' :: cs => (digits? cs).map Int.ofNat
  | '-' :: cs => (digits? cs).map fun n => -Int.ofNat n
  | cs => (digits? cs).map Int.ofNat

/-- A limit on nesting: an integer from 0 to `2 ^ 32 - 1`. -/
def limit? (text : String) : Option Nat :=
  match integer? text with
  | some n => if 0 ≤ n ∧ n ≤ 0xFFFFFFFF then some n.toNat else none
  | none => none

/-- The choice that a word stands for. -/
def colour? (text : String) : Option ColourChoice :=
  if text = "auto" then some .auto
  else if text = "always" then some .always
  else if text = "never" then some .never
  else none

/-- Takes a flag into the settings. -/
def Settings.flag (s : Settings) (o : Opt) : Except UsageError Settings :=
  let once (given : Bool) (s : Settings) : Except UsageError Settings :=
    if given then .error .argumentConflict else .ok s
  match o with
  | .explain => once s.explain { s with explain := true }
  | .json => once s.json { s with json := true }
  | .raw => once s.raw { s with raw := true }
  | .spans => once s.spans { s with spans := true }
  | .verbose => once s.verbose { s with verbose := true }
  | _ => .error .help

/-- Takes an option with its value into the settings. -/
def Settings.value (s : Settings) (o : Opt) (text : String) : Except UsageError Settings :=
  match o with
  | .query => if s.query.isSome then .error .argumentConflict else .ok { s with query := some text }
  | .colour =>
    if s.colour.isSome then .error .argumentConflict
    else match colour? text with
      | some choice => .ok { s with colour := some choice }
      | none => .error .invalidValue
  | .limit =>
    if s.limit.isSome then .error .argumentConflict
    else match limit? text with
      | some n => .ok { s with limit := some n }
      | none => .error .valueValidation
  | _ => .error .tooManyValues

/-- A word that is still to be taken into the settings. -/
inductive Pending
  | nothing
  /-- An option whose value is due. -/
  | due (o : Opt)
  /-- An option with a value in a word of its own. -/
  | given (o : Opt) (text : String)
  /-- The file. -/
  | file (path : String)
  deriving DecidableEq, Repr

/-- How far a command line was read. -/
structure Progress where
  settings : Settings
  pending : Pending
  /-- A file was named. -/
  hasFile : Bool
  /-- Options have ended. -/
  ended : Bool

namespace Progress

/-- The state before the first word. -/
def start : Progress := ⟨.initial, .nothing, false, false⟩

/-- Takes the word that is still pending into the settings. -/
def settle (p : Progress) : Except UsageError Settings :=
  match p.pending with
  | .nothing => .ok p.settings
  | .due _ => .error .invalidValue
  | .given o text => p.settings.value o text
  | .file path =>
    if path = "" then .error .invalidValue else .ok { p.settings with file := some path }

/-- Takes an option without a value. -/
def flag (p : Progress) (o : Opt) : Except UsageError Progress := do
  let s ← p.settle
  return { p with settings := ← s.flag o, pending := .nothing }

/-- Takes an option whose value is attached, or due in the next word. -/
def option (p : Progress) (o : Opt) (attached : Option String) : Except UsageError Progress := do
  let s ← p.settle
  match attached with
  | some text => return { p with settings := ← s.value o text, pending := .nothing }
  | none => return { p with settings := s, pending := .due o }

/-- Takes the file. A second one is not known. -/
def file (p : Progress) (path : String) : Except UsageError Progress :=
  if p.hasFile then .error .unknownArgument
  else do
    let s ← p.settle
    return { p with settings := s, pending := .file path, hasFile := true }

/-- Takes a long option, given without its two hyphens. -/
def long (v : Verb) (p : Progress) (body : List Char) : Except UsageError Progress :=
  let name := String.ofList (body.takeWhile (· != '='))
  let attached := match body.dropWhile (· != '=') with
    | _ :: cs => some (String.ofList cs)
    | [] => none
  match v.options.find? fun o => o.long == name with
  | none => .error .unknownArgument
  | some o =>
    if o.takesValue then p.option o attached
    else if attached.isSome then .error .tooManyValues
    else p.flag o

/-- Takes short options that stand together, given without their hyphen. -/
def short (v : Verb) (p : Progress) : List Char → Except UsageError Progress
  | [] => .ok p
  | c :: cs =>
    match v.options.find? fun o => o.short? == some c with
    | none => .error .unknownArgument
    | some o =>
      if o.takesValue then
        p.option o <| match cs with
          | [] => none
          | '=' :: text => some (String.ofList text)
          | text => some (String.ofList text)
      else do
        short v (← p.flag o) cs

/-- Takes one word. -/
def word (v : Verb) (p : Progress) (text : String) : Except UsageError Progress :=
  if p.ended then p.file text
  else match text.toList with
    | ['-', '-'] => .ok { p with ended := true }
    | '-' :: '-' :: body => p.long v body
    | '-' :: c :: cs => p.short v (c :: cs)
    | _ =>
      match p.pending with
      | .due o => .ok { p with pending := .given o text }
      | _ => p.file text

/-- Takes all words, and then what is still pending. -/
def words (v : Verb) (p : Progress) : List String → Except UsageError Settings
  | [] => p.settle
  | text :: rest => do words v (← p.word v text) rest

end Progress

/-- Where the lines come from. -/
inductive Origin
  /-- The command line. -/
  | inline (text : String)
  | file (path : String)
  | stdin
  deriving DecidableEq, Repr

/-- What the commands that recognize lines have in common. -/
structure Common where
  colour : ColourChoice
  limit : Option Nat
  deriving DecidableEq, Repr

/-- What is to be done with each line. -/
inductive Task
  | check (explain : Bool) (common : Common)
  | tokens (json : Bool)
  | tree (raw spans : Bool) (common : Common)
  | trace (verbose : Bool) (common : Common)
  deriving DecidableEq, Repr

/-- A command line that was understood. -/
structure Invocation where
  query : Option String
  file : Option String
  task : Task
  deriving DecidableEq, Repr

/-- The task of a command under some settings. -/
def Settings.task (s : Settings) (v : Verb) : Task :=
  let common : Common := ⟨s.colour.getD .auto, s.limit⟩
  match v with
  | .check => .check s.explain common
  | .tokens => .tokens s.json
  | .tree => .tree s.raw s.spans common
  | .trace => .trace s.verbose common

/-- Reads the words after a command. A query and a file exclude each other. -/
def Verb.read (v : Verb) (words : List String) : Except UsageError Invocation := do
  let s ← Progress.start.words v words
  if s.query.isSome && s.file.isSome then
    throw .argumentConflict
  else
    return ⟨s.query, s.file, s.task v⟩

/-- A word that the first place of a command line knows: a command, or `help`. -/
def isCommandWord (word : String) : Bool := (Verb.ofName? word).isSome || word == "help"

/-- What is wrong with a command line that does not begin with a command. -/
def misuse (first : String) (rest : List String) : UsageError :=
  if first = "help" then
    match rest with
    | [] => .help
    | [topic] => if isCommandWord topic then .help else .invalidSubcommand
    | _ => .invalidSubcommand
  else match first.toList with
    | ['-', '-'] =>
      match rest with
      | [] => .missingCommand
      | next :: _ => if isCommandWord next then .unknownArgument else .invalidSubcommand
    | '-' :: '-' :: body =>
      if body.takeWhile (· != '=') ≠ Opt.help.long.toList then .unknownArgument
      else if body.contains '=' then .tooManyValues
      else .help
    | '-' :: c :: _ => if Opt.help.short? = some c then .help else .unknownArgument
    | _ => .invalidSubcommand

/-- Reads a command line. -/
def parse : List String → Except UsageError Invocation
  | [] => .error .missingCommand
  | first :: rest =>
    match Verb.ofName? first with
    | some v => v.read rest
    | none => .error (misuse first rest)

/-- Where the lines of an invocation come from. The file `-` is the standard input. -/
def Invocation.origin (i : Invocation) : Origin :=
  match i.query, i.file with
  | some text, _ => .inline text
  | none, some path => if path = "-" then .stdin else .file path
  | none, none => .stdin

end Command
end BoolQuery
