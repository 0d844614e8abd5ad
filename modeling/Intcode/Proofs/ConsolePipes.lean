import Mathlib.Data.List.Induction
import Intcode.Proofs.ConsoleRequests
import Intcode.Proofs.InputLiterals
import Intcode.Proofs.Reassembly

/-!
# What a console shows is what a console reads

Values that are given to a console are shown one to a line. The text on the screen
has the same lines when it is the input of another console (`textLines_printed`), and
each of them is the literal of its value. So this console has a value for every
line, asks once for each, and has nothing to report before the end
(`after_outputLines`).

For a machine the other console is therefore a script of the values
(`reads_printed`), and a machine that prints its outputs is one that collects them
(`answers_prints`). Together, the output of one machine can be the input of another
as text or as values (`printed_read_back`).
-/

namespace Intcode

/-- The sink after values were given to it one after the other. -/
def Sink.emitAll {σ : Type} [Sink σ] (d : σ) (values : List Word) : σ :=
  values.foldl (fun d value => (Sink.emit d value).device) d

/-- The text that a console shows when values are given to it. -/
def printed (values : List Word) : String :=
  (Sink.emitAll (Console.ofBytes []) values).screen.shown

/-- A console with a text for its input. -/
def Console.reading (text prompt : String) (screen : Screen) : Console :=
  ofStream prompt (Text.encode text.toList) screen

/-! ## Printed values -/

/-- The line of output for a value. -/
def outputLine (value : Word) : List Char :=
  value.toText.toList ++ ['\n']

theorem Console.emit_screen (c : Console) (value : Word) :
    (Sink.emit c value).device.screen = c.screen.showing (String.ofList (outputLine value)) := by
  have htext : String.ofList (outputLine value) = value.toText ++ "\n" := by
    rw [← String.toList_inj]
    simp [outputLine]
  rw [htext]
  obtain ⟨lines, prompt, _ | _⟩ := c <;> rfl

/-- The text that values are shown as. -/
def outputText (values : List Word) : String :=
  String.ofList (values.flatMap outputLine)

theorem outputText_concat (values : List Word) (value : Word) :
    outputText (values ++ [value]) = outputText values ++ String.ofList (outputLine value) := by
  simp [outputText]

theorem Console.emitAll_screen (c : Console) (values : List Word) :
    (Sink.emitAll c values).screen = c.screen.showing (outputText values) := by
  -- by the last value: it is what stands at the end of the screen
  induction values using List.reverseRecOn with
  | nil => cases hc : c.screen <;> simp [Sink.emitAll, hc, Screen.showing, outputText]
  | append_singleton values value ih =>
      rw [Sink.emitAll, List.foldl_append, ← Sink.emitAll, outputText_concat,
        ← Screen.showing_showing, ← ih]
      exact emit_screen _ value

theorem printed_eq (values : List Word) : printed values = outputText values := by
  rw [printed, Console.emitAll_screen]
  simp [Console.ofBytes, Screen.showing, Screen.shown]

/-! ## Lines of printed values -/

theorem Text.textLines_append_newline {body : List Char} (h : '\n' ∉ body) (rest : List Char) :
    textLines (body ++ '\n' :: rest) = (body ++ ['\n']) :: textLines rest := by
  induction body with
  | nil => rfl
  | cons c body ih =>
      obtain ⟨hc, hbody⟩ := not_or.mp (List.mem_cons.not.mp h)
      rw [List.cons_append, textLines, if_neg (Ne.symm hc), ih hbody]
      rfl

theorem textLines_printed (values : List Word) :
    Text.textLines (printed values).toList = values.map outputLine := by
  rw [printed_eq, outputText, String.toList_ofList]
  induction values with
  | nil => rfl
  | cons value values ih =>
      have hline : outputLine value ++ values.flatMap outputLine
          = value.toText.toList ++ '\n' :: values.flatMap outputLine := by simp [outputLine]
      rw [List.flatMap_cons, hline,
        Text.textLines_append_newline (Listing.newline_not_mem_toText value), ih]
      rfl

theorem ofLiteral_outputLine (value : Word) :
    Word.ofLiteral (String.ofList (outputLine value)) = .ok value := by
  have hnewline : Text.IsWhite ['\n'] := by simp [Text.IsWhite]; decide
  rw [Word.ofLiteral_eq_ok_iff, String.toList_ofList, outputLine, Text.trim_append_right hnewline,
    Text.trim_of_no_white Program.no_white_of_mem_toText]

theorem lines_printed (values : List Word) :
    Text.lines (Text.encode (printed values).toList)
      = values.map fun value => Text.encode (outputLine value) := by
  rw [Text.lines_encode, textLines_printed, List.map_map]
  rfl

/-- A console that reads printed values serves as a script of the values. -/
theorem reads_printed (values : List Word) (prompt : String) (screen : Screen) :
    Reads (.reading (printed values) prompt screen) ⟨values⟩ := by
  refine ⟨values.map outputLine, ?_, ?_⟩
  · rw [Console.reading, Console.ofStream, lines_printed, List.map_map]
    rfl
  · have hline : Word.ofLine? ∘ outputLine = some := by
      funext value
      rw [Function.comp_apply, Word.ofLine?, ofLiteral_outputLine]
      rfl
    rw [List.filterMap_map, hline, List.filterMap_some]

/-! ## Requests -/

theorem replies_script (values : List Word) (k : Nat) :
    Source.replies (values.length + k) (Script.mk values)
      = values.map some ++ List.replicate k none := by
  induction values with
  | nil =>
      rw [List.length_nil, Nat.zero_add, List.map_nil, List.nil_append]
      induction k with
      | zero => rfl
      | succ k ih => exact congrArg (none :: ·) ih
  | cons value values ih =>
      rw [List.length_cons, Nat.add_right_comm]
      exact congrArg (some value :: ·) ih

/-- A console that reads lines of output shows one prompt for each request, and reports nothing
but the end. -/
theorem after_outputLines (n : Nat) (values : List Word) (prompt shown : String) :
    (Source.after n (Console.mk (values.map fun value => Text.encode (outputLine value)) prompt
          (.working shown))).screen = .working (shown ++ copies n prompt)
      ∧ Source.reported n (Console.mk (values.map fun value => Text.encode (outputLine value))
          prompt (.working shown)) = List.replicate (n - values.length) .inputClosed := by
  induction n generalizing values shown with
  | zero => simp [Source.after, Source.reported, copies]
  | succ n ih =>
      rw [Source.after, Source.reported, copies_succ, ← String.append_assoc]
      cases values with
      | nil =>
          obtain ⟨hscreen, hreported⟩ := ih [] (shown ++ prompt)
          refine ⟨hscreen, ?_⟩
          exact congrArg (.inputClosed :: ·) hreported
      | cons value values =>
          have hrequest : Source.request (Console.mk
                ((value :: values).map fun value => Text.encode (outputLine value)) prompt
                (.working shown))
              = ⟨some value, [], ⟨values.map fun value => Text.encode (outputLine value), prompt,
                  .working (shown ++ prompt)⟩⟩ :=
            Console.ask_literal prompt _ (Text.ofUtf8?_encode _) (ofLiteral_outputLine value) _
          rw [hrequest, List.length_cons, Nat.add_sub_add_right]
          exact ih values (shown ++ prompt)

/-! ## Machines -/

namespace Machine

variable {δ ε σ τ : Type}

/-- The same source, with the values that were collected on the one side on the screen of the
other. -/
def Prints (d : σ × Console) (e : σ × Collector) : Prop :=
  e.1 = d.1 ∧ e.2.view = id ∧ d.2.screen = .working (outputText e.2.values.toList)

theorem alike_prints (m : Machine δ) (source : σ) :
    Alike Prints (m.plug (source, Console.ofBytes [])) (m.plug (source, Collector.plain)) :=
  ⟨rfl, rfl, rfl, rfl, rfl⟩

variable [Source σ] [Sink τ]

theorem answers_prints : Answers (Prints : σ × Console → σ × Collector → Prop) where
  request := by
    rintro ⟨source, console⟩ ⟨_, collector⟩ ⟨rfl, hview, hscreen⟩
    exact ⟨rfl, rfl, hview, hscreen⟩
  emit := by
    rintro ⟨source, console⟩ ⟨_, collector⟩ ⟨rfl, hview, hscreen⟩ value
    refine ⟨rfl, hview, ?_⟩
    have hvalues : (Sink.emit collector value).device.values.toList
        = collector.values.toList ++ [value] := by
      show (collector.values.push (collector.view value)).toList = _
      rw [show collector.view = id from hview]
      exact Array.toList_push
    show (Sink.emit console value).device.screen
      = .working (outputText (Sink.emit collector value).device.values.toList)
    rw [Console.emit_screen, hscreen, hvalues, outputText_concat]
    rfl

/-- **Reading back.** A console that reads what a console has shown for values gives these values in
order, and none after that. Each request shows one prompt, and there is nothing to report before
the end. A machine with a console for its output shows the values that a collector gets from it, and
to have this text for the input of a second machine is the same as to have the values for its
script. -/
theorem printed_read_back (values : List Word) (prompt shown : String) (first : Machine δ)
    (source : σ) (second : Machine ε) (sink : τ) (config config' : Config) (turns turns' : Nat) :
    (∀ k, Source.replies (values.length + k)
          (Console.reading (printed values) prompt (.working shown))
        = values.map some ++ List.replicate k none)
      ∧ (∀ n, (Source.after n (Console.reading (printed values) prompt (.working shown))).screen
            = .working (shown ++ copies n prompt)
          ∧ Source.reported n (Console.reading (printed values) prompt (.working shown))
            = List.replicate (n - values.length) .inputClosed)
      ∧ ((first.plug (source, Console.ofBytes [])).run config turns).map
            (fun (m, result) => (result, m.memory, m.registers, m.device.2.screen.shown))
          = ((first.plug (source, Collector.plain)).run config turns).map
            (fun (m, result) =>
              (result, m.memory, m.registers, printed m.device.2.values.toList))
      ∧ ((first.plug (source, Console.ofBytes [])).run config turns).bind (fun (m, _) =>
            ((second.plug (Console.reading m.device.2.screen.shown prompt (.working shown),
              sink)).run config' turns').map observed)
          = ((first.plug (source, Collector.plain)).run config turns).bind (fun (m, _) =>
            ((second.plug (Script.mk m.device.2.values.toList, sink)).run config' turns').map
              observed) := by
  have hshown {m : Machine (σ × Console)} {n : Machine (σ × Collector)} (h : Alike Prints m n) :
      m.device.2.screen.shown = printed n.device.2.values.toList := by
    rw [h.device.2.2, printed_eq]
    rfl
  refine ⟨?_, ?_, ?_, ?_⟩
  · intro k
    rw [(reads_printed values prompt _).replies, replies_script]
  · intro n
    rw [Console.reading, Console.ofStream, lines_printed]
    exact after_outputLines n values prompt shown
  · simp only [Option.map_eq_bind]
    refine (alike_prints first source).bind_run answers_prints config turns fun result h => ?_
    simp only [Function.comp_apply, hshown h, h.memory, h.registers]
  · refine (alike_prints first source).bind_run answers_prints config turns fun result h => ?_
    simp only [hshown h]
    exact map_observed_of_reads (reads_printed _ prompt _) second sink config' turns'

end Machine

end Intcode
