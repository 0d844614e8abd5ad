import Intcode.Assembly.Layout
import Intcode.CommandLine.Command
import Intcode.Device.Terminal
import Intcode.Listing

/-!
# Carrying out commands

What a command does is a function of the files and the input it is given, and its
result is a report: an exit code and two texts. A failure has a context, which
says what was tried, and a cause.
-/

namespace Intcode.CommandLine

/-- Why a file cannot be read, with the code of the operating system. -/
structure FileError where
  reason : String
  code : Nat
deriving DecidableEq

/-- The text of the error. -/
def FileError.message (e : FileError) : String :=
  e.reason ++ " (os error " ++ Text.Decimal.ofNat e.code ++ ")"

/-- The files that commands can read. -/
abbrev Files := String → Except FileError (List UInt8)

/-- Why a command fails. -/
structure Failure where
  context : String
  cause : String
deriving DecidableEq

/-- The text of a failure. -/
def Failure.message (f : Failure) : String :=
  "Error: " ++ f.context ++ "\n\nCaused by:\n    " ++ f.cause ++ "\n"

/-- The result of a command. -/
structure Report where
  code : Nat
  out : String
  err : String
deriving DecidableEq

namespace Report

/-- The report of a command that succeeds. -/
def success (out : String) : Report :=
  ⟨0, out, ""⟩

/-- The report of a command that fails after it has shown some text. -/
def failure (out : String) (f : Failure) : Report :=
  ⟨1, out, f.message⟩

/-- The report of a command that shows a text or fails. -/
def ofExcept : Except Failure String → Report
  | .ok out => success out
  | .error f => failure "" f

/-- The report on arguments that make no command. -/
def misuse (e : UsageError) : Report :=
  ⟨2, "", "error: " ++ e.message ++ "\n\n" ++ usage⟩

end Report

/-! ## Reading files -/

/-- The text of a file. -/
def readText (files : Files) (file : String) : Except Failure String :=
  match files file with
  | .error e => .error ⟨"Failed to read " ++ file, e.message⟩
  | .ok bytes =>
    match Text.ofUtf8? bytes with
    | some text => .ok text
    | none => .error ⟨"Failed to read " ++ file, Text.invalidUtf8⟩

/-- The program in a file. -/
def readProgram (files : Files) (file : String) : Except Failure Program := do
  let text ← readText files file
  match Program.ofText text with
  | .ok program => .ok program
  | .error e => .error ⟨"Failed to parse program " ++ file, e.message⟩

/-! ## Commands -/

/-- The program of a source file, as text. -/
def assembleFile (files : Files) (file : String) : Except Failure String := do
  let source ← readText files file
  match Assembly.assemble source with
  | .ok program => .ok (program.toText ++ "\n")
  | .error e => .error ⟨"Failed to assemble " ++ file, e.message⟩

/-- The listing of a program file. -/
def disassembleFile (files : Files) (file : String) : Except Failure String := do
  let program ← readProgram files file
  return Listing.render program.words

namespace RunOptions

/-- The values that are given instead of console input. -/
def script? (o : RunOptions) : Except Failure (Option Script) :=
  match o.input with
  | none => .ok none
  | some text =>
    match Program.ofText text with
    | .ok values => .ok (some ⟨values.words⟩)
    | .error e => .error ⟨"Invalid --input list", e.message⟩

/-- The machine to run, with the given bytes as console input. -/
def machine (o : RunOptions) (files : Files) (input : List UInt8) :
    Except Failure (Machine Terminal) := do
  let program ← readProgram files o.file
  let script? ← o.script?
  return Machine.ofProgram program.words ⟨script?, .ofBytes input⟩

/-- The stored cells, one to a line. -/
def dumpText (memory : Memory) : String :=
  String.join (memory.snapshot.map fun (address, value) =>
    Text.Decimal.ofNat address ++ ": " ++ value.toText ++ "\n")

/-- The report on a run that has ended. -/
def report (o : RunOptions) (m : Machine Terminal) (result : RunResult) : Report :=
  let shown := m.device.console.screen.shown
  let out := if o.dump then shown ++ dumpText m.memory else shown
  match result with
  | .ok _ => .success out
  | .error fault => .failure out ⟨"Run of " ++ o.file ++ " faulted", fault.message⟩

/-- The report on a run, if it ends within the given number of turns. -/
def perform (o : RunOptions) (files : Files) (input : List UInt8) (turns : Nat) :
    Option Report :=
  match o.machine files input with
  | .error f => some (.failure "" f)
  | .ok m => (m.run o.config turns).map fun (m, result) => o.report m result

end RunOptions

/-- The report on a command, if it ends within the given number of turns. -/
def Command.perform (files : Files) (input : List UInt8) (turns : Nat) : Command → Option Report
  | .run options => options.perform files input turns
  | .assemble file => some (.ofExcept (assembleFile files file))
  | .disassemble file => some (.ofExcept (disassembleFile files file))

/-- The report on the arguments of the program, if it ends within the given number of turns. -/
def perform (files : Files) (input : List UInt8) (turns : Nat) (arguments : List String) :
    Option Report :=
  match Command.ofArguments arguments with
  | .error e => some (.misuse e)
  | .ok none => some (.success usage)
  | .ok (some command) => command.perform files input turns

end Intcode.CommandLine
