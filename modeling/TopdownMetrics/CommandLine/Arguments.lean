/-!
# Arguments of the command line

The words of a command line name a command and its options.  Words are read from left to
right, and the first one that asks for help, asks for the version or does not fit decides.
The flag for more output is accepted everywhere.
-/

namespace TopdownMetrics.CommandLine

/-- An option that takes a value. -/
inductive Parameter where
  | outputDirectory
  | basePath
  | arch
  | rules
  | file
  deriving DecidableEq, Repr

namespace Parameter

def longName : Parameter → String
  | .outputDirectory => "outdir"
  | .basePath => "basepath"
  | .arch => "arch"
  | .rules => "rules"
  | .file => "file"

def shortName? : Parameter → Option Char
  | .file => some 'f'
  | _ => none

def isRepeatable : Parameter → Bool
  | .arch => true
  | _ => false

/-- Whether the value is a path, which is never empty. -/
def isPath : Parameter → Bool
  | .outputDirectory | .rules | .file => true
  | .basePath | .arch => false

end Parameter

/-- What the program can be told to do. -/
inductive Verb where
  | generate
  | validate
  | version
  deriving DecidableEq, Repr

namespace Verb

def all : List Verb := [.generate, .validate, .version]

def name : Verb → String
  | .generate => "generate"
  | .validate => "validate"
  | .version => "version"

def ofName? (name : String) : Option Verb :=
  all.find? (·.name == name)

def parameters : Verb → List Parameter
  | .generate => [.outputDirectory, .basePath, .arch, .rules]
  | .validate => [.file]
  | .version => []

end Verb

/-- A complete command. -/
inductive Command where
  | generate (outputDirectory basePath : Option String) (archs : List String)
      (rules : Option String)
  | validate (file : String)
  | version
  deriving DecidableEq, Repr

/-- Why no command is carried out. -/
inductive Interruption where
  /-- Help is asked for. -/
  | help
  /-- The version of the program is asked for. -/
  | programVersion
  /-- The arguments do not fit. -/
  | usage
  deriving DecidableEq, Repr

/-- The options given so far, the last first. -/
abbrev Given := List (Parameter × String)

def give (p : Parameter) (value : String) (given : Given) : Except Interruption Given :=
  if p.isPath && value == "" then .error .usage
  else if !p.isRepeatable && given.any (·.1 == p) then .error .usage
  else .ok ((p, value) :: given)

/-- What a word means. -/
inductive Word where
  /-- Flags without further effect. -/
  | flags
  | interruption (cause : Interruption)
  /-- An option with its value in the same word. -/
  | assignment (p : Parameter) (value : String)
  /-- An option whose value is the next word. -/
  | option (p : Parameter)
  /-- The mark behind which there are no options. -/
  | endOfOptions
  | operand
  deriving DecidableEq, Repr

/-- Where words are read: in front of the command or behind it. -/
abbrev Place := Option Verb

def Place.parameters (place : Place) : List Parameter :=
  match place with
  | none => []
  | some verb => verb.parameters

def longWord (place : Place) (cs : List Char) : Word :=
  let name := String.ofList (cs.takeWhile (· != '='))
  match cs.dropWhile (· != '='), place.parameters.find? (·.longName == name) with
  | _ :: value, some p => .assignment p (String.ofList value)
  | [], some p => .option p
  | _ :: _, none => .interruption .usage
  | [], none =>
    if name == "verbose" then .flags
    else if name == "help" then .interruption .help
    else if name == "version" && place.isNone then .interruption .programVersion
    else .interruption .usage

/-- The meaning of a word behind its hyphen: letters of flags, of which the last may be
an option with its value. -/
def shortWord (place : Place) : List Char → Word
  | [] => .flags
  | c :: cs =>
    match place.parameters.find? (·.shortName? == some c) with
    | some p =>
      match cs with
      | [] => .option p
      | '=' :: value => .assignment p (String.ofList value)
      | value => .assignment p (String.ofList value)
    | none =>
      if c = 'v' then shortWord place cs
      else if c = 'h' then .interruption .help
      else if c = 'V' ∧ place = none then .interruption .programVersion
      else .interruption .usage

def Word.ofString (place : Place) (word : String) : Word :=
  match word.toList with
  | ['-', '-'] => .endOfOptions
  | '-' :: '-' :: cs => longWord place cs
  | '-' :: c :: cs => shortWord place (c :: cs)
  | _ => .operand

/-- Whether a word can be the value of an option in front of it. -/
def isValue (word : String) : Bool :=
  word == "-" || word.toList.head? != some '-'

def readOptions (verb : Verb) (given : Given) : List String → Except Interruption Given
  | [] => .ok given
  | word :: rest =>
    match Word.ofString (some verb) word with
    | .flags => readOptions verb given rest
    | .interruption cause => .error cause
    | .assignment p value =>
      match give p value given with
      | .ok given => readOptions verb given rest
      | .error cause => .error cause
    | .option p =>
      match rest with
      | [] => .error .usage
      | value :: rest =>
        if isValue value then
          match give p value given with
          | .ok given => readOptions verb given rest
          | .error cause => .error cause
        else .error .usage
    | .endOfOptions => if rest.isEmpty then .ok given else .error .usage
    | .operand => .error .usage

def complete (verb : Verb) (given : Given) : Except Interruption Command :=
  match verb with
  | .generate =>
    .ok (.generate (given.lookup .outputDirectory) (given.lookup .basePath)
      ((given.filter (·.1 == .arch)).map (·.2)).reverse (given.lookup .rules))
  | .validate =>
    match given.lookup .file with
    | some file => .ok (.validate file)
    | none => .error .usage
  | .version => .ok .version

/-- What the words behind the name of the help ask for. -/
def readHelp : List String → Interruption
  | [] => .help
  | [name] => if name == "help" || (Verb.ofName? name).isSome then .help else .usage
  | _ => .usage

def readArguments : List String → Except Interruption Command
  | [] => .error .usage
  | word :: rest =>
    match Word.ofString none word with
    | .flags => readArguments rest
    | .interruption cause => .error cause
    | .operand =>
      match Verb.ofName? word with
      | some verb => do complete verb (← readOptions verb [] rest)
      | none => if word == "help" then .error (readHelp rest) else .error .usage
    | _ => .error .usage

end TopdownMetrics.CommandLine
