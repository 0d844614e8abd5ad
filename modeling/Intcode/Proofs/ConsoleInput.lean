import Intcode.Device.Console
import Intcode.Device.Script
import Intcode.Proofs.Counters
import Intcode.Proofs.Devices
import Intcode.Proofs.EncodedLines

/-!
# Console input and prepared input

A console asks again until a line is a literal, so all that a machine gets from
it are the values of the lines that are literals. A script of these values does
the same service (`Reads.request`). The two are without a value at the same
time, and therefore no program can tell one from the other
(`run_console_eq_script`), whatever the lines between the literals are.
-/

namespace Intcode

/-- The value of a line of input, if the line is a literal. -/
def Word.ofLine? (line : List Char) : Option Word :=
  (Word.ofLiteral (String.ofList line)).toOption

/-- The values of the lines of a text that are literals, in order. -/
def literals (text : String) : List Word :=
  (Text.textLines text.toList).filterMap Word.ofLine?

/-- The values that so many requests give, one after the other. -/
def Source.replies {σ : Type} [Source σ] : Nat → σ → List (Option Word)
  | 0, _ => []
  | n + 1, d => (Source.request d).value? :: replies n (Source.request d).device

/-! ## One request -/

/-- The console has lines of text left, and the script the values of those that are
literals. -/
def Reads (c : Console) (s : Script) : Prop :=
  ∃ texts : List (List Char), c.lines = texts.map Text.encode
    ∧ s.queue = texts.filterMap Word.ofLine?

theorem ask_encoded (prompt : String) (screen : Screen) (texts : List (List Char)) :
    (Console.ask prompt screen (texts.map Text.encode)).value?
        = (texts.filterMap Word.ofLine?).head?
      ∧ ∃ rest : List (List Char), (Console.ask prompt screen (texts.map Text.encode)).device.lines
          = rest.map Text.encode
        ∧ rest.filterMap Word.ofLine? = (texts.filterMap Word.ofLine?).tail := by
  induction texts generalizing screen with
  | nil => exact ⟨rfl, [], rfl, rfl⟩
  | cons line texts ih =>
      cases hliteral : Word.ofLiteral (String.ofList line) with
      | ok value =>
          have hline : Word.ofLine? line = some value := by rw [Word.ofLine?, hliteral]; rfl
          rw [List.filterMap_cons_some hline]
          simp only [List.map_cons, Console.ask, Text.ofUtf8?_encode, hliteral]
          exact ⟨rfl, texts, rfl, rfl⟩
      | error e =>
          have hline : Word.ofLine? line = none := by rw [Word.ofLine?, hliteral]; rfl
          rw [List.filterMap_cons_none hline]
          simp only [List.map_cons, Console.ask, Text.ofUtf8?_encode, hliteral]
          exact ih _

theorem request_queue (s : Script) :
    (Source.request s).value? = s.queue.head? ∧ (Source.request s).device.queue = s.queue.tail := by
  obtain ⟨_ | ⟨value, queue⟩⟩ := s <;> exact ⟨rfl, rfl⟩

theorem Reads.request {c : Console} {s : Script} (h : Reads c s) :
    (Source.request s).value? = (Source.request c).value?
      ∧ Reads (Source.request c).device (Source.request s).device := by
  obtain ⟨texts, hlines, hqueue⟩ := h
  obtain ⟨hvalue, rest, hrest, htail⟩ := ask_encoded c.prompt c.screen texts
  obtain ⟨hvalue', htail'⟩ := request_queue s
  rw [← hlines] at hvalue hrest
  refine ⟨?_, rest, hrest, ?_⟩
  · rw [hvalue', hqueue]
    exact hvalue.symm
  · rw [htail', hqueue, htail]

theorem Reads.replies {c : Console} {s : Script} (h : Reads c s) (n : Nat) :
    Source.replies n c = Source.replies n s := by
  induction n generalizing c s with
  | zero => rfl
  | succ n ih =>
      obtain ⟨hvalue, hnext⟩ := h.request
      rw [Source.replies, Source.replies, hvalue, ih hnext]

theorem reads_lines {bytes : List UInt8} {text : String} (h : Text.ofUtf8? bytes = some text)
    (prompt : String) (screen : Screen) :
    Reads ⟨Text.lines bytes, prompt, screen⟩ ⟨literals text⟩ := by
  refine ⟨Text.textLines text.toList, ?_, rfl⟩
  show Text.lines bytes = _
  rw [Text.eq_encode_of_ofUtf8? h, Text.lines_encode]

/-! ## Runs -/

namespace Machine

variable {δ σ τ : Type}

/-- What a run shows, its source apart. -/
def observed (result : Machine (σ × τ) × RunResult) : RunResult × Memory × Registers × τ :=
  (result.2, result.1.memory, result.1.registers, result.1.device.2)

/-- The same sink, with a console on one side and a script of its values on the other. -/
def SameSink (d : Console × τ) (e : Script × τ) : Prop :=
  Reads d.1 e.1 ∧ e.2 = d.2

theorem observed_eq {m : Machine (Console × τ)} {n : Machine (Script × τ)} {result : RunResult}
    (h : Alike SameSink m n) : observed (m, result) = observed (n, result) := by
  simp only [observed, h.memory, h.registers, h.device.2]

variable [Sink τ]

theorem answers_sameSink : Answers (SameSink : Console × τ → Script × τ → Prop) where
  request := by
    rintro ⟨c, sink⟩ ⟨s, _⟩ ⟨hreads, rfl⟩
    obtain ⟨hvalue, hnext⟩ := hreads.request
    exact ⟨hvalue, hnext, rfl⟩
  emit := by
    rintro ⟨c, sink⟩ ⟨s, _⟩ ⟨hreads, rfl⟩ value
    exact ⟨hreads, rfl⟩

/-- A machine with the console shows what it shows with the script. -/
theorem map_observed_of_reads {c : Console} {s : Script} (h : Reads c s) (m : Machine δ)
    (sink : τ) (config : Config) (turns : Nat) :
    ((m.plug (c, sink)).run config turns).map observed
      = ((m.plug (s, sink)).run config turns).map observed := by
  have halike : Alike SameSink (m.plug (c, sink)) (m.plug (s, sink)) := ⟨rfl, rfl, h, rfl⟩
  simp only [Option.map_eq_bind]
  exact halike.bind_run answers_sameSink config turns
    fun result hresult => congrArg some (observed_eq hresult)

/-- **Interchange.** A console over a text and a script of the values of those lines of the
text that are literals give the same replies to any number of requests. So a run with the one
shows what the run with the other shows: its result, memory, registers and outputs. -/
theorem run_console_eq_script (bytes : List UInt8) (text : String)
    (h : Text.ofUtf8? bytes = some text) (prompt : String) (screen : Screen) :
    (∀ n, Source.replies n (Console.mk (Text.lines bytes) prompt screen)
        = Source.replies n (Script.mk (literals text)))
      ∧ ∀ (m : Machine δ) (sink : τ) (config : Config) (turns : Nat),
          ((m.plug (Console.mk (Text.lines bytes) prompt screen, sink)).run config turns).map
              observed
            = ((m.plug (Script.mk (literals text), sink)).run config turns).map observed := by
  have hreads := reads_lines h prompt screen
  exact ⟨fun n => hreads.replies n, map_observed_of_reads hreads⟩

/-- Five lines, of which the second and the last are literals. -/
theorem run_console_eq_script_malformedLines :
    let c : Console :=
      .mk (Text.lines (Text.encode "fünf\n 5 \n\n007\n-3".toList)) "? " (.working "")
    Source.replies 3 c = [some 5, some (-3), none]
      ∧ ∃ result, ((((new ()).load [3, 0, 3, 1, 4, 0, 4, 1, 99]).plug (c, Collector.plain)).run
            .plain 8).map observed = some result
        ∧ result.1 = .ok ⟨5, .halt⟩ ∧ result.2.2.2.values = #[5, -3] := by
  have htext := Text.ofUtf8?_encode "fünf\n 5 \n\n007\n-3".toList
  rw [String.ofList_toList] at htext
  have hliterals : literals "fünf\n 5 \n\n007\n-3" = [5, -3] := rfl
  obtain ⟨hreplies, hrun⟩ :=
    run_console_eq_script (δ := Unit) (τ := Collector) _ _ htext "? " (.working "")
  rw [hliterals] at hreplies hrun
  refine ⟨hreplies 3, ?_⟩
  rw [hrun]
  exact ⟨_, rfl, rfl, rfl⟩

end Machine

end Intcode
