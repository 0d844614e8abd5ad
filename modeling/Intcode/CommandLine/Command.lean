import Intcode.CommandLine.Arguments
import Intcode.Machine.Run

/-!
# Commands

There are three commands: one runs a program, one assembles a source, and one
lists a program as assembly text.
-/

namespace Intcode.CommandLine

/-- How a program file is run. -/
structure RunOptions where
  file : String
  /-- The input values, as the text of a program. -/
  input : Option String
  /-- Whether memory is shown after the run. -/
  dump : Bool
  config : Config
deriving DecidableEq

/-- What the program is asked to do. -/
inductive Command where
  | run (options : RunOptions)
  | assemble (file : String)
  | disassemble (file : String)
deriving DecidableEq

/-- What is shown when help is asked for. -/
def usage : String :=
  "Run, assemble and disassemble Intcode programs\n\nUsage:\n"
    ++ "  intcode run <FILE> [--input <VALUES>] [--dump] [--trace] [--max-cycles <N>]\n"
    ++ "  intcode asm <FILE>\n"
    ++ "  intcode disasm <FILE>\n"

namespace Command

/-- Reads a number of cycles, which has to be below 2^64. -/
def cycles (text : String) : Except UsageError Nat :=
  match Text.Decimal.unsigned? text.toList with
  | some n => if n < 0x10000000000000000 then .ok n else .error (.invalidValue "max-cycles" text)
  | none => .error (.invalidValue "max-cycles" text)

/-- The file that a command reads. -/
def file : Command → String
  | run options => options.file
  | assemble file => file
  | disassemble file => file

/-- The file among the arguments of a command. -/
def requiredFile (a : Arguments) : Except UsageError String :=
  match a.file? with
  | some file => .ok file
  | none => .error .missingFile

/-- The command that runs a program. -/
def ofRunArguments (a : Arguments) : Except UsageError Command := do
  let maxCycles ←
    match a.values.lookup "max-cycles" with
    | some text => (cycles text).map some
    | none => .ok none
  return .run
    { file := ← requiredFile a
      input := a.values.lookup "input"
      dump := "dump" ∈ a.flags
      config := { trace := "trace" ∈ a.flags, maxCycles } }

/-- Reads the arguments after the name of a command. There is no command if help is asked
for. -/
def collect (s : Signature) (command : Arguments → Except UsageError Command)
    (arguments : List String) : Except UsageError (Option Command) := do
  match ← Arguments.empty.collect s arguments with
  | some a => (command a).map some
  | none => .ok none

/-- Whether help on these names can be given: on the program, or on one of its commands. -/
def help : List String → Except UsageError Unit
  | [] | ["run"] | ["asm"] | ["disasm"] | ["help"] => .ok ()
  | "run" :: name :: _ | "asm" :: name :: _ | "disasm" :: name :: _ | "help" :: name :: _
  | name :: _ => .error (.unknownCommand name)

/-- Reads a command from the arguments of the program. There is no command if help is asked
for. -/
def ofArguments : List String → Except UsageError (Option Command)
  | [] => .error .missingCommand
  | "run" :: rest => collect ⟨["dump", "trace"], ["input", "max-cycles"]⟩ ofRunArguments rest
  | "asm" :: rest => collect ⟨[], []⟩ (fun a => (requiredFile a).map assemble) rest
  | "disasm" :: rest => collect ⟨[], []⟩ (fun a => (requiredFile a).map disassemble) rest
  | "help" :: names => (help names).map fun _ => none
  | "--help" :: _ | "-h" :: _ => .ok none
  | name :: _ => .error (.unknownCommand name)

end Command

end Intcode.CommandLine
