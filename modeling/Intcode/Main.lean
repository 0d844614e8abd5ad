import Intcode.CommandLine.Report

/-!
# The command line program

The outer layer: it reads files and standard input, shows what the library says,
and decides nothing. Console input is read a line at a time, so that the prompt and
the output of a program appear as they come.
-/

namespace Intcode.CommandLine

/-- The refusal of the operating system to read a file. A code may come with its sign
changed, and a reason without its capital. -/
def FileError.ofSystem (code : UInt32) (reason : String) : FileError :=
  ⟨reason.capitalize, if code < 0x80000000 then code.toNat else 0x100000000 - code.toNat⟩

/-- The refusal of the operating system that an error stands for. -/
def FileError.ofIO : IO.Error → FileError
  | .noFileOrDirectory _ code reason | .permissionDenied _ code reason
  | .inappropriateType _ code reason | .resourceExhausted _ code reason
  | .invalidArgument _ code reason => .ofSystem code reason
  | .otherError code reason | .hardwareFault code reason => .ofSystem code reason
  | e => ⟨toString e, 0⟩

/-- The bytes of a file. -/
def readFile (file : String) : IO (Except FileError (List UInt8)) := do
  try
    return .ok (← IO.FS.readBinFile file).toList
  catch e =>
    return .error (.ofIO e)

/-- The bytes up to and including the next newline; none at the end of the stream. -/
partial def readLine (stream : IO.FS.Stream) (line : ByteArray) : IO (List UInt8) := do
  let byte ← stream.read 1
  if byte.isEmpty || byte.toList = [10] then
    return (line ++ byte).toList
  else
    readLine stream (line ++ byte)

/-- Shows a text. -/
def display (text : String) : IO Unit := do
  unless text.isEmpty do
    let out ← IO.getStdout
    out.putStr text
    out.flush

/-- Shows the events that matter: all of them if the run is traced, and warnings otherwise. -/
def displayEvents (config : Config) (events : List Event) : IO Unit :=
  for e in events do
    if config.trace || e.level = .warn then
      let fields := e.fields.map fun (name, value) => " " ++ name ++ "=" ++ value
      IO.eprintln (e.level.name ++ " " ++ e.message ++ String.join fields)

/-- Takes turns until the run ends. A turn that finds no line of input is taken again with
one more, unless the input is closed; `shown` characters of its text were shown before. -/
partial def drive (config : Config) (closed : Bool) (shown : Nat) (m : Machine Terminal) :
    IO (Machine Terminal × Ending) := do
  let (next, ending?) := m.turn config
  let console := next.device.console
  let text := console.screen.shown.toList
  display (String.ofList (text.drop shown))
  if !closed && next.log.contains .inputClosed then
    match ← readLine (← IO.getStdin) .empty with
    | [] => drive config true text.length m
    | line =>
      let console := { m.device.console with lines := m.device.console.lines ++ [line] }
      drive config false text.length { m with device := { m.device with console } }
  else
    displayEvents config next.log.toList
    let console := { console with screen := .working "" }
    let next := { next with device := { next.device with console }, log := #[] }
    match ending? with
    | some ending => return (next, ending)
    | none => drive config closed 0 next

/-- Shows a report and gives its exit code. -/
def Report.emit (r : Report) : IO UInt32 := do
  display r.out
  IO.eprint r.err
  return r.code.toUInt32

/-- Runs a program file. -/
def RunOptions.live (o : RunOptions) (files : Files) : IO UInt32 :=
  match o.machine files [] with
  | .error f => (Report.failure "" f).emit
  | .ok m => do
    let (m, ending) ← drive o.config false 0 m.start
    let m := m.finish ending
    displayEvents o.config m.log.toList
    (o.report m (m.result ending)).emit

/-- Carries out a command. -/
def Command.live (command : Command) : IO UInt32 := do
  let content ← readFile command.file
  let files : Files := fun _ => content
  match command with
  | .run options => options.live files
  | .assemble file => (Report.ofExcept (assembleFile files file)).emit
  | .disassemble file => (Report.ofExcept (disassembleFile files file)).emit

/-- Carries out what the arguments of the program ask for. -/
def live (arguments : List String) : IO UInt32 :=
  match Command.ofArguments arguments with
  | .error e => (Report.misuse e).emit
  | .ok none => (Report.success usage).emit
  | .ok (some command) => command.live

end Intcode.CommandLine

/-- The command line program. -/
def main (arguments : List String) : IO UInt32 :=
  Intcode.CommandLine.live arguments
