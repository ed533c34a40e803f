import AnnotationReport.Settings.Help

/-! # Arguments

The words of a command line are read one by one. A flag takes its value from behind an equals sign
or from the next word; a value from the next word is judged when the next flag comes or the words
end, so that a word that has no meaning is reported before it. What no flag gives is taken from the
environment.
-/
namespace AnnotationReport

inductive Display where
  | help
  | version
deriving DecidableEq, Repr

def Display.flagName : Display → String
  | help => "help"
  | version => "version"

namespace Arguments

/-- Why arguments are refused. With an unknown word stand the settings that the words before it
give, if the word looks like a flag; with a needless value, whether the words before it give any. -/
inductive Error where
  | missingValue (s : Setting)
  | repeated (s : Setting)
  | unknown (word : String) (given : List Setting)
  | needless (d : Display) (value : String) (given : Bool)
  | concurrency (value : String) (cause : Concurrency.Error)
deriving DecidableEq, Repr

def Error.message : Error → String
  | missingValue s => "a value is required for '" ++ s.usage ++ "' but none was supplied"
  | repeated s => "the argument '" ++ s.usage ++ "' cannot be used multiple times"
  | unknown word _ => "unexpected argument '" ++ Text.Plain.ofText word ++ "' found"
  | needless d value _ => "unexpected value '" ++ Text.Plain.ofText value ++ "' for '--" ++
      d.flagName ++ "' found; no more were expected"
  | concurrency value cause => "invalid value '" ++ Text.Plain.ofText value ++ "' for '" ++
      Setting.concurrency.usage ++ "': " ++ cause.message

def choice : String := "<" ++ String.intercalate "|" (Setting.all.map Setting.usage) ++ ">"

/-- The reminder of how the command is used, where that would have helped. It repeats what was
understood so far. -/
def Error.usage? : Error → Option String
  | missingValue _ | concurrency _ _ => none
  | repeated _ | unknown _ [] => some Settings.Help.usage
  | unknown _ given => some (String.intercalate " " (Settings.Help.synopsis ::
      given.map Setting.usage))
  | needless d _ given => some (Settings.Help.synopsis ++ " --" ++ d.flagName ++
      if given then " " ++ choice else "")

/-- What the argument library says, in place of the reminder, of an unknown word that resembles a flag. -/
class Advice where
  on? : String → List Setting → Option String

/-- Without a measure of likeness no word resembles another. -/
instance Advice.noLikeness : Advice := ⟨fun _ _ => none⟩

def Error.hint? [Advice] : Error → Option String
  | unknown word given => (Advice.on? word given).or (usage? (.unknown word given))
  | e => e.usage?

def Error.text [Advice] (e : Error) : String :=
  "error: " ++ e.message ++ "\n\n" ++ e.hint?.elim "" (· ++ "\n\n") ++
    "For more information, try '--help'.\n"

inductive Stop where
  | display (d : Display)
  | refused (e : Error)
deriving DecidableEq, Repr

inductive Flag where
  | setting (s : Setting)
  | display (d : Display)
deriving DecidableEq, Repr

def Flag.ofName? (name : String) : Option Flag :=
  match Setting.all.find? (·.flagName = name) with
  | some s => some (.setting s)
  | none => ([Display.help, Display.version].find? (·.flagName = name)).map .display

def Flag.ofLetter? (c : Char) : Option Flag :=
  if c = 'h' then some (.display .help)
  else if c = 'V' then some (.display .version)
  else none

inductive Word where
  | separator
  | long (name : String) (value : Option String)
  | short (letter : Char)
  | plain
deriving DecidableEq, Repr

def Word.ofChars : List Char → Word
  | ['-', '-'] => .separator
  | '-' :: '-' :: r =>
    .long (String.ofList (r.takeWhile (· != '='))) <|
      match r.dropWhile (· != '=') with
      | [] => none
      | _ :: value => some (String.ofList value)
  | '-' :: c :: _ => .short c
  | _ => .plain

/-- The values taken so far, and the flag that still waits for its value or for its value to be
judged. After the separator no word is a flag. -/
structure Progress where
  taken : List (Setting × String)
  pending : Option (Setting × Option String)
  separated : Bool
deriving DecidableEq, Repr

namespace Progress

def start : Progress := ⟨[], none, false⟩

def fault? (s : Setting) (value : String) : Option Error :=
  match s, Concurrency.ofText value with
  | .concurrency, .error cause => some (.concurrency value cause)
  | _, _ => none

def take (p : Progress) (s : Setting) (value : String) : Except Stop Progress :=
  if (p.taken.lookup s).isSome then .error (.refused (.repeated s))
  else match fault? s value with
    | some e => .error (.refused e)
    | none => .ok { p with taken := p.taken ++ [(s, value)] }

def settle (p : Progress) : Except Stop Progress :=
  match p.pending with
  | none => .ok p
  | some (s, none) => .error (.refused (.missingValue s))
  | some (s, some value) => { p with pending := none }.take s value

/-- The settings given so far. A flag that waits counts if it has a value, even a bad one; one that
is given for the second time counts as not given. -/
def given (p : Progress) : List Setting :=
  let taken := p.taken.map Prod.fst
  match p.pending with
  | some (s, some _) => if taken.contains s then taken.erase s else taken ++ [s]
  | _ => taken

def unknown (word : String) (given : List Setting) : Except Stop Progress :=
  .error (.refused (.unknown word given))

def flag (p : Progress) : Flag → Option String → Except Stop Progress
  | .setting s, some value => p.settle.bind (·.take s value)
  | .setting s, none => p.settle.map ({ · with pending := some (s, none) })
  | .display d, some value => .error (.refused (.needless d value !p.taken.isEmpty))
  | .display d, none => p.settle.bind fun _ => .error (.display d)

def step (p : Progress) (word : String) : Except Stop Progress :=
  if p.separated then unknown word []
  else match Word.ofChars word.toList with
    | .separator => .ok { p with separated := true }
    | .long name value =>
      match Flag.ofName? name with
      | some f => p.flag f value
      | none => unknown ("--" ++ name) p.given
    | .short c =>
      match Flag.ofLetter? c with
      | some f => p.flag f none
      | none => unknown (String.ofList ['-', c]) []
    | .plain =>
      match p.pending with
      | some (s, none) => .ok { p with pending := some (s, some word) }
      | _ => unknown word []

def run (p : Progress) : List String → Except Stop Progress
  | [] => p.settle
  | word :: r => (p.step word).bind (run · r)

end Progress

/-- The text of a setting: its flag's value, else what the environment gives. -/
def chosen? (env : Environment) (taken : List (Setting × String)) (s : Setting) : Option String :=
  (taken.lookup s).or (env s.variableName)

def concurrencyOf : Option String → Except Stop Concurrency
  | none => .ok .one
  | some text =>
    match Concurrency.ofText text with
    | .ok c => .ok c
    | .error cause => .error (.refused (.concurrency text cause))

def settingsOf (env : Environment) (taken : List (Setting × String)) : Except Stop Settings :=
  let text := chosen? env taken
  (concurrencyOf (text .concurrency)).map fun c =>
    ⟨text .token, text .runId, text .repository, text .apiUrl, c⟩

def read (env : Environment) (words : List String) : Except Stop Settings :=
  (Progress.start.run words).bind fun p => settingsOf env p.taken

end Arguments
end AnnotationReport
