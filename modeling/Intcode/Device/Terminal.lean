import Intcode.Device.Console
import Intcode.Device.Script

/-!
# Terminals

A terminal is a console whose input can be replaced by a script. Output goes to
the console in both cases.
-/

namespace Intcode

/-- A console, and the script that stands in for its input if there is one. -/
structure Terminal where
  script? : Option Script
  console : Console

instance : Source Terminal where
  request t :=
    match t.script? with
    | some script =>
      let reply := Source.request script
      { reply with device := { t with script? := some reply.device } }
    | none =>
      let reply := Source.request t.console
      { reply with device := { t with console := reply.device } }

instance : Sink Terminal where
  emit t value :=
    let delivery := Sink.emit t.console value
    { delivery with device := { t with console := delivery.device } }

end Intcode
