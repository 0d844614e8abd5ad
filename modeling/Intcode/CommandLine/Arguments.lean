/-!
# Arguments of a command

A command takes one file, flags such as `--dump`, and options with a value such as
`--input 1,2` or `--input=1,2`, in any order. Each flag and option can be given
once. An argument `--` ends the options, and everything after it is a file. An
argument that starts with a dash is never taken for a value or a file before
that, unless it is a single dash.
-/

namespace Intcode.CommandLine

/-- What is wrong with the arguments. -/
inductive UsageError where
  | missingCommand
  | unknownCommand (name : String)
  | missingFile
  | emptyFile
  | unexpected (argument : String)
  | repeated (option : String)
  | missingValue (option : String)
  | unneededValue (option : String)
  | invalidValue (option value : String)
deriving DecidableEq

/-- The text of the error. -/
def UsageError.message : UsageError → String
  | missingCommand => "a command is required"
  | unknownCommand name => "unknown command '" ++ name ++ "'"
  | missingFile => "a file is required"
  | emptyFile => "the name of the file is empty"
  | unexpected argument => "unexpected argument '" ++ argument ++ "'"
  | repeated option => "'--" ++ option ++ "' is given more than once"
  | missingValue option => "'--" ++ option ++ "' needs a value"
  | unneededValue option => "'--" ++ option ++ "' takes no value"
  | invalidValue option value => "invalid value '" ++ value ++ "' for '--" ++ option ++ "'"

/-- An argument by its form. -/
inductive Argument where
  /-- The end of the options. -/
  | separator
  /-- An option with two dashes, and the value after an equals sign if there is one. -/
  | long (name : String) (value? : Option String)
  /-- An option with one dash. -/
  | short (letters : String)
  /-- A file or a value. -/
  | plain (text : String)
deriving DecidableEq

/-- The form of an argument. -/
def Argument.ofText (text : String) : Argument :=
  match text.toList with
  | ['-', '-'] => .separator
  | '-' :: '-' :: option =>
    let name := String.ofList (option.takeWhile (· ≠ '='))
    match option.dropWhile (· ≠ '=') with
    | [] => .long name none
    | _ :: value => .long name (some (String.ofList value))
  | '-' :: c :: letters => .short (String.ofList (c :: letters))
  | _ => .plain text

/-- The flags and options of a command. -/
structure Signature where
  flags : List String
  options : List String

/-- The arguments of a command. -/
structure Arguments where
  file? : Option String
  flags : List String
  values : List (String × String)

namespace Arguments

/-- No arguments. -/
def empty : Arguments :=
  ⟨none, [], []⟩

/-- Adds the file. -/
def addFile (a : Arguments) (file : String) : Except UsageError Arguments :=
  if a.file?.isSome then .error (.unexpected file)
  else if file.isEmpty then .error .emptyFile
  else .ok { a with file? := some file }

/-- Adds a flag. -/
def addFlag (a : Arguments) (flag : String) : Except UsageError Arguments :=
  if flag ∈ a.flags then .error (.repeated flag)
  else .ok { a with flags := flag :: a.flags }

/-- Adds an option with its value. -/
def addValue (a : Arguments) (option value : String) : Except UsageError Arguments :=
  if (a.values.lookup option).isSome then .error (.repeated option)
  else .ok { a with values := (option, value) :: a.values }

/-- Adds files only. -/
def collectFiles (a : Arguments) : List String → Except UsageError Arguments
  | [] => .ok a
  | file :: files => do (← a.addFile file).collectFiles files

/-- Adds arguments one after the other. There is no result if help is asked for. -/
def collect (s : Signature) (a : Arguments) : List String → Except UsageError (Option Arguments)
  | [] => .ok (some a)
  | text :: rest =>
    match Argument.ofText text with
    | .separator => (a.collectFiles rest).map some
    | .plain file => do (← a.addFile file).collect s rest
    | .short letters =>
      if letters.startsWith "h" then .ok none else .error (.unexpected text)
    | .long name none =>
      if name = "help" then .ok none
      else if name ∈ s.flags then do (← a.addFlag name).collect s rest
      else if name ∈ s.options then
        match rest with
        | [] => .error (.missingValue name)
        | value :: rest =>
          match Argument.ofText value with
          | .plain value => do (← a.addValue name value).collect s rest
          | _ => .error (.missingValue name)
      else .error (.unexpected text)
    | .long name (some value) =>
      if name ∈ s.options then do (← a.addValue name value).collect s rest
      else if name ∈ s.flags then .error (.unneededValue name)
      else .error (.unexpected text)

end Arguments

end Intcode.CommandLine
