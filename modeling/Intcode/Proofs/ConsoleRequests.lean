import Intcode.Proofs.ConsoleInput

/-!
# An account of console input

A console that is asked for values goes through its lines from the first to the
last. Each request takes the lines that are text but no literals, and then the one
that ends it: a literal, which is the reply, or a line that is no text, which is
consumed all the same. If there is no such line, the request ends with the stream
(`Answered`).

The lines, the prompts and the reports are tied together by what a single request
does (`exists_call`): it shows one prompt for each line that it takes, and one more
if it finds the end. Requests one after the other only add up
(`exists_calls`). The screen comes into this in one place, where it shows
the prompts or does not. So a screen that does not work has no influence on what is
read.
-/

namespace Intcode

/-! ## Requests one after the other -/

section Session

variable {σ : Type} [Source σ]

/-- The source after so many requests. -/
def Source.after : Nat → σ → σ
  | 0, d => d
  | n + 1, d => after n (Source.request d).device

/-- What is reported during so many requests. -/
def Source.reported : Nat → σ → List Event
  | 0, _ => []
  | n + 1, d => (Source.request d).events ++ reported n (Source.request d).device

end Session

/-! ## Lines -/

/-- The bytes are cut into lines: each goes up to a newline and has it at its end, and the last
one may be without. -/
inductive Text.Cut : List UInt8 → List (List UInt8) → Prop where
  | nil : Cut [] []
  | last {body : List UInt8} (hne : body ≠ []) (h : 10 ∉ body) : Cut body [body]
  | line {body bytes : List UInt8} {lines : List (List UInt8)} (h : 10 ∉ body)
      (hrest : Cut bytes lines) : Cut (body ++ 10 :: bytes) ((body ++ [10]) :: lines)

theorem Text.Cut.cons {b : UInt8} (hb : b ≠ 10) {bytes : List UInt8} {lines : List (List UInt8)}
    (h : Cut bytes lines) : Cut (b :: bytes) (prependLine [b] lines) := by
  have hcons {body : List UInt8} (hbody : 10 ∉ body) : 10 ∉ b :: body :=
    List.not_mem_cons_of_ne_of_not_mem (Ne.symm hb) hbody
  cases h with
  | nil => exact .last (List.cons_ne_nil _ _) (hcons List.not_mem_nil)
  | last hne hbody => exact .last (List.cons_ne_nil _ _) (hcons hbody)
  | line hbody hrest => exact .line (hcons hbody) hrest

theorem Text.cut_lines (bytes : List UInt8) : Cut bytes (lines bytes) := by
  induction bytes with
  | nil => exact .nil
  | cons b bytes ih =>
      by_cases hb : b = 10
      · subst hb
        exact @Cut.line [] bytes _ List.not_mem_nil ih
      · rw [lines_cons hb]
        exact ih.cons hb

/-- What is wrong with a line of input that is text, but no literal. -/
def rejection? (line : List UInt8) : Option MalformedLiteral :=
  match Text.ofUtf8? line with
  | none => none
  | some text =>
    match Word.ofLiteral text with
    | .ok _ => none
    | .error e => some e

/-- What is wrong with the line that is asked for again. -/
def Event.rejected? : Event → Option MalformedLiteral
  | reprompting e => some e
  | _ => none

namespace Console

/-! ## One request -/

/-- A request: the lines that it took, whether it found the end of the stream, and its reply. -/
structure Call where
  consumed : List (List UInt8)
  atEnd : Bool
  value? : Option Word

/-- How many prompts a request shows: one for each line, and one if it finds the end. -/
def Call.prompts (call : Call) : Nat :=
  call.consumed.length + if call.atEnd then 1 else 0

/-- A request with the given lines ahead of it takes lines up to the first that is a literal or no
text, or all that there are, and leaves the others. -/
inductive Answered : List (List UInt8) → Call → List (List UInt8) → Prop where
  | literal {rejected rest : List (List UInt8)} {line : List UInt8} {text : String} {value : Word}
      (hrejected : ∀ l ∈ rejected, (rejection? l).isSome) (htext : Text.ofUtf8? line = some text)
      (hvalue : Word.ofLiteral text = .ok value) :
      Answered (rejected ++ line :: rest) ⟨rejected ++ [line], false, some value⟩ rest
  | notText {rejected rest : List (List UInt8)} {line : List UInt8}
      (hrejected : ∀ l ∈ rejected, (rejection? l).isSome) (hline : Text.ofUtf8? line = none) :
      Answered (rejected ++ line :: rest) ⟨rejected ++ [line], false, none⟩ rest
  | closed {rejected : List (List UInt8)} (hrejected : ∀ l ∈ rejected, (rejection? l).isSome) :
      Answered rejected ⟨rejected, true, none⟩ []

/-- A rejected line in front is taken by the same request. -/
theorem Answered.cons {line : List UInt8} (hline : (rejection? line).isSome)
    {lines rest : List (List UInt8)} {call : Call} (h : Answered lines call rest) :
    Answered (line :: lines) { call with consumed := line :: call.consumed } rest := by
  cases h with
  | literal hrejected htext hvalue =>
      exact .literal (List.forall_mem_cons.mpr ⟨hline, hrejected⟩) htext hvalue
  | notText hrejected hline' => exact .notText (List.forall_mem_cons.mpr ⟨hline, hrejected⟩) hline'
  | closed hrejected => exact .closed (List.forall_mem_cons.mpr ⟨hline, hrejected⟩)

theorem Answered.lines_eq {lines rest : List (List UInt8)} {call : Call}
    (h : Answered lines call rest) : lines = call.consumed ++ rest := by
  cases h <;> simp

end Console

/-- The screen with more text on it, if it works. -/
def Screen.showing (s : Screen) (text : String) : Screen :=
  match s with
  | working shown => working (shown ++ text)
  | broken error => broken error

theorem Screen.showing_showing (s : Screen) (text text' : String) :
    (s.showing text).showing text' = s.showing (text ++ text') := by
  cases s with
  | working shown => simp [showing, String.append_assoc]
  | broken error => rfl

/-- So many copies of a text. -/
def copies (n : Nat) (text : String) : String :=
  String.join (List.replicate n text)

theorem copies_succ (n : Nat) (text : String) : copies (n + 1) text = text ++ copies n text := by
  simp [copies, List.replicate_succ]

theorem copies_add (n k : Nat) (text : String) :
    copies (n + k) text = copies n text ++ copies k text := by
  simp [copies, ← List.replicate_append_replicate, String.join_append]

namespace Console

variable (prompt : String)

/-- What is reported when the prompt is shown. -/
def promptEvents (screen : Screen) : List Event :=
  (screen.display prompt .promptFailed).events

theorem filterMap_promptEvents (screen : Screen) :
    (promptEvents prompt screen).filterMap Event.rejected? = [] := by
  cases screen <;> rfl

section Ask

variable (screen : Screen) {line : List UInt8} {text : String}

theorem ask_nil : ask prompt screen [] =
    ⟨none, promptEvents prompt screen ++ [.inputClosed], ⟨[], prompt, screen.showing prompt⟩⟩ := by
  cases screen <;> rfl

theorem ask_notText (h : Text.ofUtf8? line = none) (lines : List (List UInt8)) :
    ask prompt screen (line :: lines) =
      ⟨none, promptEvents prompt screen ++ [.inputFailed],
        ⟨lines, prompt, screen.showing prompt⟩⟩ := by
  cases screen <;> simp only [ask, h] <;> rfl

theorem ask_literal (htext : Text.ofUtf8? line = some text) {value : Word}
    (hvalue : Word.ofLiteral text = .ok value) (lines : List (List UInt8)) :
    ask prompt screen (line :: lines) =
      ⟨some value, promptEvents prompt screen, ⟨lines, prompt, screen.showing prompt⟩⟩ := by
  cases screen <;> simp only [ask, htext, hvalue] <;> rfl

theorem ask_rejected (htext : Text.ofUtf8? line = some text) {e : MalformedLiteral}
    (he : Word.ofLiteral text = .error e) (lines : List (List UInt8)) :
    ask prompt screen (line :: lines) =
      { ask prompt (screen.showing prompt) lines with
        events := promptEvents prompt screen
          ++ .reprompting e :: (ask prompt (screen.showing prompt) lines).events } := by
  cases screen <;> simp only [ask, htext, he] <;> rfl

end Ask

/-- The account of one request: whatever the screen is, the reply and the lines that are left are
those of the call, its prompts are shown if the screen works, and each line that was rejected is
reported. -/
theorem exists_call (lines : List (List UInt8)) :
    ∃ call rest, Answered lines call rest ∧ ∀ screen,
      (ask prompt screen lines).value? = call.value?
        ∧ (ask prompt screen lines).device
          = ⟨rest, prompt, screen.showing (copies call.prompts prompt)⟩
        ∧ (ask prompt screen lines).events.filterMap Event.rejected?
          = call.consumed.filterMap rejection? := by
  have hone : copies 1 prompt = prompt := by simp [copies]
  -- The call is found from the lines alone, so that it serves for every screen.
  induction lines with
  | nil =>
      refine ⟨_, _, @Answered.closed [] nofun, fun screen => ?_⟩
      rw [ask_nil]
      simp [Call.prompts, hone, filterMap_promptEvents, Event.rejected?]
  | cons line lines ih =>
      cases htext : Text.ofUtf8? line with
      | none =>
          refine ⟨_, _, @Answered.notText [] lines line nofun htext, fun screen => ?_⟩
          rw [ask_notText prompt screen htext]
          simp [Call.prompts, hone, filterMap_promptEvents, Event.rejected?, rejection?, htext]
      | some text =>
          cases hliteral : Word.ofLiteral text with
          | ok value =>
              refine ⟨_, _, @Answered.literal [] lines line text value nofun htext hliteral,
                fun screen => ?_⟩
              rw [ask_literal prompt screen htext hliteral]
              simp [Call.prompts, hone, filterMap_promptEvents, rejection?, htext, hliteral]
          | error e =>
              obtain ⟨call, rest, hanswered, hcall⟩ := ih
              have hline : rejection? line = some e := by simp only [rejection?, htext, hliteral]
              refine ⟨_, rest, hanswered.cons (Option.isSome_of_eq_some hline), fun screen => ?_⟩
              obtain ⟨hvalue, hdevice, hevents⟩ := hcall (screen.showing prompt)
              have hprompts : Call.prompts { call with consumed := line :: call.consumed }
                  = call.prompts + 1 := by
                simp only [Call.prompts, List.length_cons]
                omega
              rw [ask_rejected prompt screen htext hliteral, hprompts, copies_succ,
                ← Screen.showing_showing]
              refine ⟨hvalue, hdevice, ?_⟩
              simp [filterMap_promptEvents, Event.rejected?, hevents, hline]

/-! ## Any number of requests -/

/-- Requests one after the other, each with the lines ahead of it that those before have left. -/
inductive AnsweredAll : List (List UInt8) → List Call → List (List UInt8) → Prop where
  | nil (lines : List (List UInt8)) : AnsweredAll lines [] lines
  | cons {lines mid rest : List (List UInt8)} {call : Call} {calls : List Call}
      (h : Answered lines call mid) (hrest : AnsweredAll mid calls rest) :
      AnsweredAll lines (call :: calls) rest

/-- Every line is taken at most once, and in order. -/
theorem AnsweredAll.lines_eq {lines rest : List (List UInt8)} {calls : List Call}
    (h : AnsweredAll lines calls rest) : lines = calls.flatMap Call.consumed ++ rest := by
  induction h with
  | nil => rfl
  | cons hcall hrest ih => rw [hcall.lines_eq, ih, List.flatMap_cons, List.append_assoc]

/-- The lines that requests took, and how often they found the end of the stream. -/
def promptsOf (calls : List Call) : Nat :=
  (calls.flatMap Call.consumed).length + calls.countP Call.atEnd

theorem promptsOf_cons (call : Call) (calls : List Call) :
    promptsOf (call :: calls) = call.prompts + promptsOf calls := by
  simp only [promptsOf, Call.prompts, List.flatMap_cons, List.length_append, List.countP_cons]
  omega

/-- The account of any number of requests. -/
theorem exists_calls (n : Nat) (lines : List (List UInt8)) :
    ∃ calls rest, calls.length = n ∧ AnsweredAll lines calls rest ∧ ∀ screen,
      Source.replies n (Console.mk lines prompt screen) = calls.map Call.value?
        ∧ Source.after n (Console.mk lines prompt screen)
          = ⟨rest, prompt, screen.showing (copies (promptsOf calls) prompt)⟩
        ∧ (Source.reported n (Console.mk lines prompt screen)).filterMap Event.rejected?
          = (calls.flatMap Call.consumed).filterMap rejection? := by
  induction n generalizing lines with
  | zero =>
      refine ⟨[], lines, rfl, .nil lines, fun screen => ⟨rfl, ?_, rfl⟩⟩
      cases screen <;> simp [Source.after, Screen.showing, copies, promptsOf]
  | succ n ih =>
      obtain ⟨call, mid, hanswered, hcall⟩ := exists_call prompt lines
      obtain ⟨calls, rest, hlength, hall, hcalls⟩ := ih mid
      refine ⟨call :: calls, rest, by rw [List.length_cons, hlength], .cons hanswered hall,
        fun screen => ?_⟩
      obtain ⟨hvalue, hdevice, hevents⟩ := hcall screen
      obtain ⟨hvalues, hafter, hreported⟩ := hcalls (screen.showing (copies call.prompts prompt))
      have hrequest : Source.request (Console.mk lines prompt screen) = ask prompt screen lines :=
        rfl
      refine ⟨?_, ?_, ?_⟩
      · rw [Source.replies, hrequest, hvalue, hdevice, hvalues, List.map_cons]
      · rw [Source.after, hrequest, hdevice, hafter, Screen.showing_showing, ← copies_add,
          promptsOf_cons]
      · rw [Source.reported, hrequest, hdevice, List.filterMap_append, hevents, hreported,
          List.flatMap_cons, List.filterMap_append]

/-- A console with a stream of bytes for its input. -/
def ofStream (bytes : List UInt8) (screen : Screen) : Console :=
  ⟨Text.lines bytes, prompt, screen⟩

/-- **Accounting.** The bytes of the stream are cut into lines, and any number of requests takes
lines from the front, each of them once. A request takes lines up to the first literal, which is its
reply, or the first line that is no text, or the end of the stream. There is one prompt for each
line taken and one for each time that the end was found, and one report for each line that is text
but no literal. On a screen that does not work the replies and the lines taken are the same. -/
theorem requests_account (bytes : List UInt8) (shown : String) (n : Nat) :
    Text.Cut bytes (Text.lines bytes)
      ∧ ∃ calls : List Call, calls.length = n
        ∧ AnsweredAll (Text.lines bytes) calls
            (Source.after n (ofStream prompt bytes (.working shown))).lines
        ∧ (calls.flatMap Call.consumed).flatten
            ++ (Source.after n (ofStream prompt bytes (.working shown))).lines.flatten = bytes
        ∧ Source.replies n (ofStream prompt bytes (.working shown)) = calls.map Call.value?
        ∧ (Source.after n (ofStream prompt bytes (.working shown))).screen
          = .working (shown ++ copies
              ((calls.flatMap Call.consumed).length + calls.countP Call.atEnd) prompt)
        ∧ (Source.reported n (ofStream prompt bytes (.working shown))).filterMap Event.rejected?
          = (calls.flatMap Call.consumed).filterMap rejection?
        ∧ ∀ error,
          Source.replies n (ofStream prompt bytes (.broken error))
              = Source.replies n (ofStream prompt bytes (.working shown))
            ∧ (Source.after n (ofStream prompt bytes (.broken error))).lines
              = (Source.after n (ofStream prompt bytes (.working shown))).lines := by
  obtain ⟨calls, rest, hlength, hall, hcalls⟩ := exists_calls prompt n (Text.lines bytes)
  have hvalues (screen : Screen) :
      Source.replies n (ofStream prompt bytes screen) = calls.map Call.value? := (hcalls screen).1
  have hafter (screen : Screen) : Source.after n (ofStream prompt bytes screen)
      = ⟨rest, prompt, screen.showing (copies (promptsOf calls) prompt)⟩ := (hcalls screen).2.1
  refine ⟨Text.cut_lines bytes, calls, hlength, ?_, ?_, hvalues _, ?_, (hcalls _).2.2,
    fun error => ?_⟩
  · rw [hafter]
    exact hall
  · rw [hafter, ← List.flatten_append, ← hall.lines_eq, Text.flatten_lines]
  · rw [hafter]
    rfl
  · rw [hvalues, hvalues, hafter, hafter]
    exact ⟨rfl, rfl⟩

/-- Four requests to a stream of a literal with a blank before it, a number with zeros in front, a
line that is no text, and a literal without a newline. -/
example :
    let bytes := Text.encode " 5\n007\n".toList ++ [0xff, 10] ++ Text.encode "-3".toList
    let c := ofStream "? " bytes (.working "")
    Source.replies 4 c = [some 5, none, some (-3), none]
      ∧ (Source.after 4 c).screen = .working "? ? ? ? ? "
      ∧ (Source.reported 4 c).filterMap Event.rejected? = [⟨['0', '0', '7']⟩] :=
  ⟨rfl, rfl, rfl⟩

end Console

end Intcode
