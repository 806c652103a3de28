namespace LessonPlot

/-- An option of a command: its long name, its letter, and whether a value follows it. -/
structure OptionSpec where
  long : String
  letter : Option Char
  takesValue : Bool
  /-- Whether it may be given more than once. -/
  repeats : Bool
  /-- Whether a text is accepted as its value. -/
  accepts : String → Bool

/-- What a command takes. -/
structure CommandSpec where
  options : List OptionSpec
  /-- Whether a text is accepted for its one argument. -/
  accepts : String → Bool

/-- What was given to a command: its options in order, with their values, and its argument. -/
structure Given where
  options : List (String × String)
  argument : Option String

/-- Why the words after a command are not carried out. -/
inductive Refusal where
  | usage
  | help
deriving DecidableEq, Repr

namespace Given

def empty : Given := ⟨[], none⟩

/-- The values of an option in the order in which they were given. -/
def values (given : Given) (long : String) : List String :=
  (given.options.filter (fun entry => entry.1 = long)).map Prod.snd

def has (given : Given) (long : String) : Bool :=
  given.options.any (fun entry => entry.1 = long)

/-- Adds an option unless it was given before and may not be repeated, or its value is refused. -/
def add (option : OptionSpec) (value : String) (given : Given) : Except Refusal Given :=
  if given.has option.long && !option.repeats then .error .usage
  else if option.takesValue && !option.accepts value then .error .usage
  else .ok { given with options := given.options ++ [(option.long, value)] }

/-- Sets the argument, of which there is only one. -/
def addArgument (spec : CommandSpec) (word : String) (given : Given) : Except Refusal Given :=
  if given.argument.isSome || !spec.accepts word then .error .usage
  else .ok { given with argument := some word }

end Given

/-- What a cluster of letters leaves: nothing, or the option that still needs a value. -/
abbrev Waiting := Option OptionSpec

namespace CommandSpec

/-- An option under its long name, a value attached to it or not. -/
def takeLong (spec : CommandSpec) (name : List Char) (given : Given) :
    Except Refusal (Given × Waiting) :=
  let long := String.ofList (name.takeWhile (· ≠ '='))
  let attached :=
    match name.dropWhile (· ≠ '=') with
    | [] => none
    | _ :: value => some (String.ofList value)
  if long = "help" then .error (if attached.isSome then .usage else .help)
  else
    match spec.options.find? (fun option => option.long = long), attached with
    | none, _ => .error .usage
    | some option, some value =>
      if option.takesValue then (given.add option value).map (·, none) else .error .usage
    | some option, none =>
      if option.takesValue then .ok (given, some option) else (given.add option "").map (·, none)

/-- Options by their letters; the first that takes a value takes what follows it. -/
def takeLetters (spec : CommandSpec) : List Char → Given → Except Refusal (Given × Waiting)
  | [], given => .ok (given, none)
  | letter :: rest, given =>
    if letter = 'h' then .error .help
    else
      match spec.options.find? (fun option => option.letter = some letter) with
      | none => .error .usage
      | some option =>
        if option.takesValue then
          match rest with
          | [] => .ok (given, some option)
          | '=' :: value => (given.add option (String.ofList value)).map (·, none)
          | value => (given.add option (String.ofList value)).map (·, none)
        else do
          let given ← given.add option ""
          spec.takeLetters rest given

/-- Adds words none of which is an option. -/
def takeArguments (spec : CommandSpec) : List String → Given → Except Refusal Given
  | [], given => .ok given
  | word :: rest, given => do
    let given ← given.addArgument spec word
    spec.takeArguments rest given

/-- Reads the words after a command; after `--` none of them is an option. -/
def take (spec : CommandSpec) : Waiting → List String → Given → Except Refusal Given
  | none, [], given => .ok given
  | some _, [], _ => .error .usage
  | waiting, word :: rest, given =>
    match word.toList, waiting with
    | ['-', '-'], none => spec.takeArguments rest given
    | '-' :: '-' :: name, none => do
      let (given, waiting) ← spec.takeLong name given
      spec.take waiting rest given
    | '-' :: letter :: letters, none => do
      let (given, waiting) ← spec.takeLetters (letter :: letters) given
      spec.take waiting rest given
    | '-' :: _ :: _, some _ => .error .usage
    | _, some option => do
      let given ← given.add option word
      spec.take none rest given
    | _, none => do
      let given ← given.addArgument spec word
      spec.take none rest given

end CommandSpec

end LessonPlot
