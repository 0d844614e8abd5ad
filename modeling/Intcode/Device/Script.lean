import Intcode.Device

/-!
# Prepared input and collected output

Devices that need nothing from outside: a script holds the values it will give, a
generator computes them, and a collector keeps what it is given.
-/

namespace Intcode

/-- Values to give, in order. -/
structure Script where
  queue : List Word
deriving DecidableEq

/-- Adds a value to give after all others. -/
def Script.push (s : Script) (value : Word) : Script :=
  ⟨s.queue ++ [value]⟩

instance : Source Script where
  request := fun
    | ⟨[]⟩ => ⟨none, [], ⟨[]⟩⟩
    | ⟨value :: queue⟩ => ⟨some value, [], ⟨queue⟩⟩

/-- Values computed from the number of requests before. -/
structure Generator where
  next : Nat → Option Word
  asked : Nat

instance : Source Generator where
  request g := ⟨g.next g.asked, [], { g with asked := g.asked + 1 }⟩

/-- The values given so far, each seen through a function. -/
structure Collector where
  view : Word → Word
  values : Array Word

/-- A collector of values as they are. -/
def Collector.plain : Collector :=
  ⟨id, #[]⟩

/-- The collector with its values taken out. -/
def Collector.clear (c : Collector) : Collector :=
  { c with values := #[] }

instance : Sink Collector where
  emit c value := ⟨[], { c with values := c.values.push (c.view value) }⟩

end Intcode
