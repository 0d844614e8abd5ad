import Intcode.Device.Console
import Intcode.Device.Script

/-!
# Feeds

A feed is a source whose kind is chosen while the machine is in use.
-/

namespace Intcode

/-- A source of any kind. -/
inductive Feed where
  | script (script : Script)
  | console (console : Console)
  | generator (generator : Generator)

instance : Source Feed where
  request := fun
    | .script s =>
      let reply := Source.request s
      { reply with device := .script reply.device }
    | .console c =>
      let reply := Source.request c
      { reply with device := .console reply.device }
    | .generator g =>
      let reply := Source.request g
      { reply with device := .generator reply.device }

end Intcode
