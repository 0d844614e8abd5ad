import Intcode.Device

/-!
# The console

A console shows a prompt for each value it needs and reads a line. A line that is
no literal is reported and asked for again; the end of the input, or a line that
is no text, gives no value. Output values are shown one to a line.

The prompt and the output go to the same screen. A screen that does not work
changes nothing but what is reported.
-/

namespace Intcode

/-- Where text is shown. -/
inductive Screen where
  /-- The text shown so far. -/
  | working (shown : String)
  /-- The error that every attempt to show something gives. -/
  | broken (error : String)

namespace Screen

/-- The text shown so far. -/
def shown : Screen → String
  | working text => text
  | broken _ => ""

/-- Shows a text, or gives an error. -/
def write (s : Screen) (text : String) : Except String Screen :=
  match s with
  | working shown => .ok (working (shown ++ text))
  | broken error => .error error

/-- Shows a text, or reports the failure as the given event. -/
def display (s : Screen) (text : String) (failed : String → Event) : Delivery Screen :=
  match s.write text with
  | .ok s => ⟨[], s⟩
  | .error error => ⟨[failed error], s⟩

end Screen

/-- A screen, a prompt, and the lines of input that are left. -/
structure Console where
  lines : List (List UInt8)
  prompt : String
  screen : Screen

namespace Console

/-- The usual prompt. -/
def defaultPrompt : String := "? "

/-- A console with the given input and an empty screen. -/
def ofBytes (bytes : List UInt8) : Console :=
  ⟨Text.lines bytes, defaultPrompt, .working ""⟩

/-- Asks for values until a line answers or the input ends. -/
def ask (prompt : String) (screen : Screen) : List (List UInt8) → Reply Console
  | [] =>
    let ⟨events, screen⟩ := screen.display prompt .promptFailed
    ⟨none, events ++ [.inputClosed], ⟨[], prompt, screen⟩⟩
  | line :: lines =>
    let ⟨events, screen⟩ := screen.display prompt .promptFailed
    match Text.ofUtf8? line with
    | none => ⟨none, events ++ [.inputFailed], ⟨lines, prompt, screen⟩⟩
    | some text =>
      match Word.ofLiteral text with
      | .ok value => ⟨some value, events, ⟨lines, prompt, screen⟩⟩
      | .error error =>
        let reply := ask prompt screen lines
        { reply with events := events ++ .reprompting error :: reply.events }

instance : Source Console where
  request c := ask c.prompt c.screen c.lines

instance : Sink Console where
  emit c value :=
    let delivery := c.screen.display (value.toText ++ "\n") fun error => .outputFailed error value
    ⟨delivery.events, { c with screen := delivery.device }⟩

end Console

end Intcode
