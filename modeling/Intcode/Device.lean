import Intcode.Event

/-!
# Devices

A machine takes its input from a *source* and gives its output to a *sink*. A
device can be both; a pair of a source and a sink always is.
-/

namespace Intcode

/-- The answer of a source to a request. -/
structure Reply (σ : Type) where
  /-- The value, if there is one. -/
  value? : Option Word
  /-- What was reported meanwhile. -/
  events : List Event
  /-- The source afterwards. -/
  device : σ

/-- A device that can be asked for values. -/
class Source (σ : Type) where
  request : σ → Reply σ

/-- The result of giving a value to a sink. -/
structure Delivery (σ : Type) where
  /-- What was reported meanwhile. -/
  events : List Event
  /-- The sink afterwards. -/
  device : σ

/-- A device that values can be given to. -/
class Sink (σ : Type) where
  emit : σ → Word → Delivery σ

instance {σ τ : Type} [Source σ] : Source (σ × τ) where
  request := fun (source, sink) =>
    let reply := Source.request source
    { reply with device := (reply.device, sink) }

instance {σ τ : Type} [Sink τ] : Sink (σ × τ) where
  emit := fun (source, sink) value =>
    let delivery := Sink.emit sink value
    { delivery with device := (source, delivery.device) }

end Intcode
