import Intcode.Device.Feed
import Intcode.Device.Terminal
import Intcode.Proofs.Devices
import Intcode.Proofs.Endings

/-!
# Tracing

With tracing on, a machine reports every instruction before it executes it. The
log is written and never read, so this has no influence on anything else: taking
the reports on instructions out of the log commutes with all that a machine does
(`silence_step`), and turns a traced run into the run without tracing
(`silence_run`).

The reports that are taken out are an exact account of the run. A step adds one of
them if there is an instruction at the cursor (`traces_step`), so their number is
that of the instructions completed, and one more if the run stops in the middle
of an instruction (`run_traced`).

The devices may report what they like, but not instructions (`QuietSource`,
`QuietSink`).
-/

namespace Intcode

/-! ## Devices that report no instructions -/

/-- None of the events is the report on an instruction. -/
def Quiet (events : List Event) : Prop :=
  ∀ e ∈ events, e.level ≠ .trace

namespace Quiet

variable {e : Event} {events events' : List Event}

theorem nil : Quiet [] :=
  nofun

theorem cons (h : e.level ≠ .trace) (h' : Quiet events) : Quiet (e :: events) :=
  List.forall_mem_cons.mpr ⟨h, h'⟩

theorem append (h : Quiet events) (h' : Quiet events') : Quiet (events ++ events') :=
  List.forall_mem_append.mpr ⟨h, h'⟩

theorem filter_trace (h : Quiet events) : events.filter (·.level = .trace) = [] := by
  simpa [Quiet] using h

theorem filter_ne_trace (h : Quiet events) : events.filter (·.level ≠ .trace) = events := by
  simpa [Quiet] using h

end Quiet

/-- A source that leaves it to the machine to report instructions. -/
class QuietSource (σ : Type) [Source σ] : Prop where
  quiet_request : ∀ d : σ, Quiet (Source.request d).events

/-- A sink that leaves it to the machine to report instructions. -/
class QuietSink (σ : Type) [Sink σ] : Prop where
  quiet_emit : ∀ (d : σ) (value : Word), Quiet (Sink.emit d value).events

theorem Screen.quiet_display (screen : Screen) (text : String) {failed : String → Event}
    (h : ∀ error, (failed error).level ≠ .trace) : Quiet (screen.display text failed).events := by
  cases screen with
  | working shown => exact .nil
  | broken error => exact .cons (h error) .nil

theorem Console.quiet_ask (prompt : String) (screen : Screen) (lines : List (List UInt8)) :
    Quiet (ask prompt screen lines).events := by
  have hprompt (screen : Screen) : Quiet (screen.display prompt .promptFailed).events :=
    screen.quiet_display prompt nofun
  induction lines generalizing screen with
  | nil => exact (hprompt screen).append (.cons nofun .nil)
  | cons line lines ih =>
      have hprompt := hprompt screen
      rw [ask]
      generalize screen.display prompt .promptFailed = delivery at hprompt
      obtain ⟨events, screen⟩ := delivery
      dsimp only
      split
      next => exact hprompt.append (.cons nofun .nil)
      next =>
        split
        next => exact hprompt
        next => exact hprompt.append (.cons nofun (ih screen))

instance : QuietSource Script where
  quiet_request := by
    rintro ⟨_ | ⟨value, queue⟩⟩
    · exact .nil
    · exact .nil

instance : QuietSource Generator where
  quiet_request _ := .nil

instance : QuietSource Console where
  quiet_request c := Console.quiet_ask c.prompt c.screen c.lines

instance : QuietSource Feed where
  quiet_request
    | .script s => QuietSource.quiet_request s
    | .console c => QuietSource.quiet_request c
    | .generator g => QuietSource.quiet_request g

instance : QuietSource Terminal where
  quiet_request
    | ⟨some s, _⟩ => QuietSource.quiet_request s
    | ⟨none, c⟩ => QuietSource.quiet_request c

instance {σ τ : Type} [Source σ] [QuietSource σ] : QuietSource (σ × τ) where
  quiet_request d := QuietSource.quiet_request d.1

instance : QuietSink Collector where
  quiet_emit _ _ := .nil

instance : QuietSink Console where
  quiet_emit c _ := c.screen.quiet_display _ nofun

instance : QuietSink Terminal where
  quiet_emit t := QuietSink.quiet_emit t.console

instance {σ τ : Type} [Sink τ] [QuietSink τ] : QuietSink (σ × τ) where
  quiet_emit d := QuietSink.quiet_emit d.2

/-! ## The log without reports on instructions -/

section

variable {δ : Type}

/-- Takes the reports on instructions out of the log. -/
def Machine.silence (m : Machine δ) : Machine δ :=
  { m with log := m.log.filter fun e => e.level ≠ .trace }

/-- The reports on instructions in the log. -/
def Machine.traces (m : Machine δ) : List Event :=
  m.log.toList.filter fun e => e.level = .trace

def Outcome.silence (o : Outcome δ) : Outcome δ :=
  { o with machine := o.machine.silence }

end

namespace Machine

variable {δ : Type} {m m' mid : Machine δ}

@[simp]
theorem silence_memory (m : Machine δ) : m.silence.memory = m.memory :=
  rfl

@[simp]
theorem silence_registers (m : Machine δ) : m.silence.registers = m.registers :=
  rfl

theorem silence_report (m : Machine δ) (events : List Event) :
    (m.report events).silence = m.silence.report (events.filter (·.level ≠ .trace)) := by
  have hlog : (m.log ++ events).filter (·.level ≠ .trace) =
      m.log.filter (·.level ≠ .trace) ++ events.filter (·.level ≠ .trace) := by
    rw [← Array.toList_inj]
    simp
  simp only [silence, report, hlog]

theorem silence_report_of_quiet {events : List Event} (h : Quiet events) :
    (m.report events).silence = m.silence.report events := by
  rw [silence_report, h.filter_ne_trace]

theorem traces_report (m : Machine δ) (events : List Event) :
    (m.report events).traces = m.traces ++ events.filter (·.level = .trace) := by
  simp [traces, report]

theorem traces_report_of_quiet {events : List Event} (h : Quiet events) :
    (m.report events).traces = m.traces := by
  rw [traces_report, h.filter_trace, List.append_nil]

theorem silence_fetched (trace : Bool) (m : Machine δ) (i : Instruction) :
    (m.fetched trace i).silence = m.silence.fetched false i := by
  cases trace with
  | false => rfl
  | true =>
      have htrace : (m.fetched true i).silence =
          (m.moveTo (m.registers.cursor + 1)).silence.report [] := silence_report _ _
      rw [htrace]
      simp [report, fetched, moveTo, silence]

theorem silence_store (m : Machine δ) (target value : Word) :
    m.silence.store target value = (m.store target value).silence := by
  rw [store, store, silence_memory]
  cases m.memory.write target value with
  | ok memory => rfl
  | error fault => rfl

theorem silence_counted (o : Outcome δ) : counted o.silence = (counted o).silence := by
  obtain ⟨m, _ | fault⟩ := o
  · rfl
  · rfl

theorem silence_start (m : Machine δ) : m.silence.start = m.start.silence := by
  have hquiet : Quiet [.starting m.memory.loadedLength] := .cons nofun .nil
  rw [start, start, silence_report_of_quiet hquiet]
  rfl

theorem silence_finish (m : Machine δ) (ending : Ending) :
    m.silence.finish ending = (m.finish ending).silence := by
  cases ending with
  | ok reason =>
      have hquiet : Quiet [.halted m.registers.cycles reason] :=
        .cons (by simp [Event.level]) .nil
      rw [finish, finish, silence_report_of_quiet hquiet]
      rfl
  | error fault =>
      have hquiet : Quiet [.faulted m.registers.cursor fault] :=
        .cons (by simp [Event.level]) .nil
      rw [finish, finish, silence_report_of_quiet hquiet]
      rfl

theorem silence_result (m : Machine δ) (ending : Ending) :
    m.silence.result ending = m.result ending :=
  result_congr rfl ending

theorem traces_start (m : Machine δ) : m.start.traces = m.traces :=
  traces_report_of_quiet (m := { m with registers := .initial }) (.cons nofun .nil)

theorem traces_finish (m : Machine δ) (ending : Ending) :
    (m.finish ending).traces = m.traces := by
  cases ending with
  | ok reason => exact traces_report_of_quiet (m := m.become _) (.cons nofun .nil)
  | error fault => exact traces_report_of_quiet (m := m.become _) (.cons nofun .nil)

theorem silence_request [Source δ] [QuietSource δ] (m : Machine δ) :
    m.silence.request = (m.request.1, m.request.2.silence) := by
  have hquiet : Quiet (Source.request m.device).events := QuietSource.quiet_request m.device
  rw [request, request, silence_report_of_quiet hquiet]
  rfl

theorem silence_emit [Sink δ] [QuietSink δ] (m : Machine δ) (value : Word) :
    m.silence.emit value = (m.emit value).silence := by
  have hquiet : Quiet (Sink.emit m.device value).events := QuietSink.quiet_emit m.device value
  rw [emit, emit, silence_report_of_quiet hquiet]
  rfl

section Silence

variable [Source δ] [Sink δ] [QuietSource δ] [QuietSink δ]

theorem silence_perform (m : Machine δ) (address : Nat) (e : Effect) :
    m.silence.perform address e = (m.perform address e).silence := by
  cases e with
  | store target value => exact silence_store m target value
  | input target =>
      rw [perform, perform, silence_request]
      cases m.request with
      | mk value? m₁ =>
          cases value? with
          | some value => exact silence_store m₁ target value
          | none => rfl
  | output value =>
      rw [perform, perform, silence_emit]
      rfl
  | jump target =>
      rw [perform, perform]
      cases target.toAddress? with
      | some cursor => rfl
      | none => rfl
  | proceed => rfl
  | rebase base => rfl
  | halt =>
      have hquiet : Quiet [.halting address] := .cons (by simp [Event.level]) .nil
      rw [perform, perform, ← silence_report_of_quiet hquiet]
      rfl

theorem silence_execute (m : Machine δ) (i : Instruction) (address : Nat) :
    m.silence.execute i address = (m.execute i address).silence := by
  have hframe : m.silence.frame address = m.frame address := rfl
  rw [execute, execute, hframe, silence_registers]
  cases (m.frame address).effect i m.registers.cursor with
  | ok e cursor => exact silence_perform (m.moveTo cursor) address e
  | error fault cursor => rfl

/-- A step without tracing is a traced step whose report is taken out of the log. -/
theorem silence_step (trace : Bool) (m : Machine δ) :
    m.silence.step false = (m.step trace).silence := by
  cases hi : Instruction.ofWord? (m.memory.get m.registers.cursor) with
  | none =>
      simp only [step, silence_memory, silence_registers, hi]
      rfl
  | some i =>
      have hi' : Instruction.ofWord? (m.silence.memory.get m.silence.registers.cursor) = some i :=
        hi
      rw [step_of_ofWord? hi, step_of_ofWord? hi', silence_registers, ← silence_fetched trace,
        silence_execute, silence_counted]

theorem silence_turn (trace : Bool) (limit : Option Nat) (m : Machine δ) :
    m.silence.turn ⟨false, limit⟩ =
      ((m.turn ⟨trace, limit⟩).1.silence, (m.turn ⟨trace, limit⟩).2) := by
  by_cases hrunning : m.registers.status = .running
  · by_cases hlimit : m.LimitReached ⟨trace, limit⟩
    · rw [turn_of_limitReached hrunning hlimit]
      exact turn_of_limitReached (m := m.silence) hrunning hlimit
    · by_cases hextent : m.memory.extent ≤ m.registers.cursor
      · rw [turn_of_outside hrunning hlimit hextent]
        exact turn_of_outside (m := m.silence) hrunning hlimit hextent
      · have hinside := Nat.lt_of_not_le hextent
        have hlimit' : ¬m.silence.LimitReached ⟨false, limit⟩ := hlimit
        rw [turn_of_inside hrunning hlimit hinside, turn_of_inside (m := m.silence) hrunning
          hlimit' hinside, silence_step trace]
        rfl
  · rw [turn_of_halted hrunning]
    exact turn_of_halted (m := m.silence) hrunning

theorem silence_runFor (trace : Bool) (limit : Option Nat) (turns : Nat) (m : Machine δ) :
    runFor ⟨false, limit⟩ turns m.silence =
      (runFor ⟨trace, limit⟩ turns m).map fun (m', ending) => (m'.silence, ending) := by
  induction turns generalizing m with
  | zero => rfl
  | succ turns ih =>
      rw [runFor, runFor, silence_turn trace]
      cases m.turn ⟨trace, limit⟩ with
      | mk m₁ ending? =>
          cases ending? with
          | some ending =>
              simp only [silence_finish]
              rfl
          | none => exact ih m₁

/-- A run without tracing is a traced run whose reports are taken out of the log. -/
theorem silence_run (trace : Bool) (limit : Option Nat) (turns : Nat) (m : Machine δ) :
    m.silence.run ⟨false, limit⟩ turns =
      (m.run ⟨trace, limit⟩ turns).map fun (m', result) => (m'.silence, result) := by
  rw [run, run, silence_start, silence_runFor trace]
  cases runFor ⟨trace, limit⟩ turns m.start with
  | none => rfl
  | some ended =>
      obtain ⟨m', ending⟩ := ended
      simp only [Option.map_some, silence_result]

end Silence

/-! ## The account of a run -/

/-- How many instructions a run that ends like this has begun and not completed. -/
def unfinished {α : Type} : Except Fault α → Nat
  | .ok _ => 0
  | .error (.invalidOperation ..) => 0
  | .error _ => 1

theorem unfinished_result (m : Machine δ) (ending : Ending) :
    unfinished (m.result ending) = unfinished ending := by
  cases ending with
  | ok reason => rfl
  | error fault => cases fault <;> rfl

section Account

variable [Source δ] [Sink δ]

/-- The run fetches an instruction after it has completed `k` others; `mid` is the machine
just before. -/
def Fetches (config : Config) (m : Machine δ) (k : Nat) (mid : Machine δ) (i : Instruction) :
    Prop :=
  m.start.after config k = some mid ∧ mid.Active config
    ∧ Instruction.ofWord? (mid.memory.get mid.registers.cursor) = some i

/-- Every instruction that is completed was fetched. -/
theorem exists_fetches {config : Config} {k n : Nat} (h : m.start.after config n = some mid)
    (hk : k < n) : ∃ x i, m.Fetches config k x i := by
  obtain ⟨x', hx'⟩ := after_of_le h hk
  obtain ⟨x, hx, hturn⟩ := exists_last hx'
  obtain ⟨i, hi⟩ := ofWord?_of_step (step_of_turn hturn).2.2.2
  exact ⟨x, i, hx, active_of_turn hturn, hi⟩

variable [QuietSource δ] [QuietSink δ]

theorem traces_perform (m : Machine δ) (address : Nat) (e : Effect) :
    (m.perform address e).machine.traces = m.traces := by
  have hstore (m : Machine δ) (target value : Word) :
      (m.store target value).machine.traces = m.traces := by
    unfold store
    split <;> rfl
  cases e with
  | store target value => exact hstore m target value
  | input target =>
      have hrequest : m.request.2.traces = m.traces :=
        traces_report_of_quiet (QuietSource.quiet_request m.device)
      rw [perform]
      split
      next heq => rw [hstore, ← hrequest, heq]
      next heq => rw [← hrequest, heq]
  | output value => exact traces_report_of_quiet (QuietSink.quiet_emit m.device value)
  | jump target =>
      rw [perform]
      split <;> rfl
  | proceed => rfl
  | rebase base => rfl
  | halt => exact traces_report_of_quiet (m := m) (.cons (by simp [Event.level]) .nil)

theorem traces_execute (m : Machine δ) (i : Instruction) (address : Nat) :
    (m.execute i address).machine.traces = m.traces := by
  rw [execute]
  split
  next e cursor heffect => exact traces_perform (m.moveTo cursor) address e
  next => rfl

/-- A traced step reports the instruction at the cursor if there is one. -/
theorem traces_step (m : Machine δ) :
    (m.step true).machine.traces =
      m.traces ++ ((Instruction.ofWord? (m.memory.get m.registers.cursor)).map
        (m.traceEvent · m.registers.cursor)).toList := by
  rcases step_cases true m with ⟨word, rfl, hnone, hstep⟩ | ⟨i, hi, hstep⟩
  · rw [hstep, hnone, Option.map_none, Option.toList_none, List.append_nil]
    rfl
  · have hfetched : (m.fetched true i).traces =
        m.traces ++ [m.traceEvent i m.registers.cursor] := traces_report _ _
    have hexecute := traces_execute (m.fetched true i) i m.registers.cursor
    rw [hi, Option.map_some, Option.toList_some, ← hfetched, ← hexecute]
    rcases hstep with ⟨m₁, heq, hstep⟩ | ⟨m₁, fault, heq, hstep⟩
    · rw [hstep, heq]
      rfl
    · rw [hstep, heq]

theorem traces_of_turn {limit : Option Nat} (h : m.turn ⟨true, limit⟩ = (m', none))
    {i : Instruction} (hi : Instruction.ofWord? (m.memory.get m.registers.cursor) = some i) :
    m'.traces = m.traces ++ [m.traceEvent i m.registers.cursor] := by
  have htraces := traces_step m
  rw [(step_of_turn h).2.2.2, hi] at htraces
  exact htraces

/-- The turn that ends a run reports the instruction that is left unfinished. -/
theorem traces_of_ending {limit : Option Nat} {ending : Ending}
    (h : m.turn ⟨true, limit⟩ = (m', some ending)) :
    (unfinished ending = 0 ∧ m'.traces = m.traces
        ∧ ∀ i, m.Active ⟨true, limit⟩ →
          Instruction.ofWord? (m.memory.get m.registers.cursor) ≠ some i)
      ∨ ∃ i, unfinished ending = 1 ∧ m.Active ⟨true, limit⟩
        ∧ Instruction.ofWord? (m.memory.get m.registers.cursor) = some i
        ∧ m'.traces = m.traces ++ [m.traceEvent i m.registers.cursor] := by
  rcases turn_cases h with ⟨rfl, rfl, hstatus⟩ | ⟨-, rfl, rfl, hlimit⟩
    | ⟨-, -, rfl, rfl, hextent⟩ | ⟨hrunning, hlimit, hextent, fault, rfl, hstep⟩
  · exact .inl ⟨rfl, rfl, fun i hactive => absurd hactive.1 hstatus⟩
  · exact .inl ⟨rfl, rfl, fun i hactive => absurd hlimit hactive.2.1⟩
  · exact .inl ⟨rfl, rfl, fun i hactive => absurd hactive.2.2 (Nat.not_lt_of_le hextent)⟩
  · have htraces := traces_step m
    rw [hstep] at htraces
    rcases (failure_of_step hstep).2 with ⟨word, rfl, hnone, rfl, -⟩ | ⟨i, fetched, hi, hfailure, -⟩
    · rw [hnone] at htraces
      refine .inl ⟨rfl, htraces.trans (List.append_nil _), fun i _ hi => ?_⟩
      rw [hnone] at hi
      cases hi
    · rw [hi] at htraces
      refine .inr ⟨i, ?_, ⟨hrunning, hlimit, hextent⟩, hi, htraces⟩
      cases hfailure with
      | fetch hfetch =>
          rcases hfetch.cases_fault with ⟨rfl, -⟩ | ⟨w, rfl, -⟩
          · rfl
          · rfl
      | negative _ => rfl
      | exhausted _ => rfl

/-- The instructions that were completed are the ones reported, in order. -/
theorem traces_of_after {limit : Option Nat} {k : Nat}
    (h : m.after ⟨true, limit⟩ k = some mid) :
    ∃ events, mid.traces = m.traces ++ events ∧ events.length = k
      ∧ ∀ j x i, j < k → m.after ⟨true, limit⟩ j = some x →
        Instruction.ofWord? (x.memory.get x.registers.cursor) = some i →
        events[j]? = some (x.traceEvent i x.registers.cursor) := by
  induction k generalizing mid with
  | zero =>
      obtain rfl := Option.some.inj h
      exact ⟨[], (List.append_nil _).symm, rfl, fun j _ _ hj => absurd hj (Nat.not_lt_zero j)⟩
  | succ k ih =>
      obtain ⟨prev, hprev, hturn⟩ := exists_last h
      obtain ⟨events, htraces, rfl, hevents⟩ := ih hprev
      obtain ⟨i, hi⟩ := ofWord?_of_step (step_of_turn hturn).2.2.2
      refine ⟨events ++ [prev.traceEvent i prev.registers.cursor], ?_, by simp, ?_⟩
      · rw [traces_of_turn hturn hi, htraces, List.append_assoc]
      · intro j x i' hj hx hi'
        by_cases hlast : j = events.length
        · subst hlast
          obtain rfl := Option.some.inj (hprev.symm.trans hx)
          obtain rfl := Option.some.inj (hi.symm.trans hi')
          exact List.getElem?_concat_length
        · have hlt : j < events.length := by omega
          rw [List.getElem?_append_left hlt]
          exact hevents j x i' hlt hx hi'

/-- A traced run adds one report to the log for each instruction that it fetches. -/
theorem traces_of_run {limit : Option Nat} {turns : Nat} {result : RunResult}
    (h : m.run ⟨true, limit⟩ turns = some (m', result)) :
    ∃ events, m'.traces = m.traces ++ events
      ∧ events.length = m'.registers.cycles + unfinished result
      ∧ (∀ k < events.length, ∃ mid i, m.Fetches ⟨true, limit⟩ k mid i)
      ∧ ∀ k mid i, m.Fetches ⟨true, limit⟩ k mid i →
        events[k]? = some (mid.traceEvent i mid.registers.cursor) := by
  obtain ⟨n, mid, last, ending, -, hafter, hturn, ⟨⟩⟩ := run_eq_some_iff.mp h
  obtain ⟨events, htraces, rfl, hevents⟩ := traces_of_after hafter
  have hcycles : (last.finish ending).registers.cycles = events.length := by
    rw [finish_cycles, cycles_of_ending hturn, cycles_of_after_start hafter]
  rw [traces_start] at htraces
  rw [hcycles, traces_finish, unfinished_result]
  rcases traces_of_ending hturn with ⟨hzero, hlast, hnone⟩ | ⟨i, hone, hactive, hi, hlast⟩
  · refine ⟨events, hlast.trans htraces, by rw [hzero, Nat.add_zero], ?_, ?_⟩
    · intro k hk
      exact exists_fetches hafter hk
    · rintro k x i ⟨hx, hactive, hi⟩
      -- the last turn fetches nothing, so the instruction was completed before
      rcases Nat.lt_or_eq_of_le (le_of_ending hafter hturn hx) with hlt | rfl
      · exact hevents k x i hlt hx hi
      · obtain rfl := Option.some.inj (hx.symm.trans hafter)
        exact absurd hi (hnone i hactive)
  · refine ⟨events ++ [mid.traceEvent i mid.registers.cursor], ?_, ?_, ?_, ?_⟩
    · rw [hlast, htraces, List.append_assoc]
    · rw [hone, List.length_append, List.length_singleton]
    · intro k hk
      rw [List.length_append, List.length_singleton] at hk
      rcases Nat.lt_succ_iff_lt_or_eq.mp hk with hlt | rfl
      · exact exists_fetches hafter hlt
      · exact ⟨mid, i, hafter, hactive, hi⟩
    · rintro k x i' ⟨hx, -, hi'⟩
      rcases Nat.lt_or_eq_of_le (le_of_ending hafter hturn hx) with hlt | rfl
      · rw [List.getElem?_append_left hlt]
        exact hevents k x i' hlt hx hi'
      · obtain rfl := Option.some.inj (hx.symm.trans hafter)
        obtain rfl := Option.some.inj (hi.symm.trans hi')
        exact List.getElem?_concat_length

end Account

/-- **Tracing.** A run with tracing ends if the run without does, and nothing differs but
the log, from which the reports on instructions can be taken out again. Those reports are
numbered from zero. There is one for each instruction that the run fetches, made with the
parameter words that memory holds just before, and so there are as many as instructions
were completed, and one more if the run stops in the middle of one. -/
theorem run_traced [Source δ] [Sink δ] [QuietSource δ] [QuietSink δ] (words : List Word)
    (device : δ) (limit : Option Nat) (turns : Nat) :
    ((ofProgram words device).run ⟨true, limit⟩ turns).map
        (fun (m', result) => (m'.silence, result)) =
        (ofProgram words device).run ⟨false, limit⟩ turns
      ∧ ∀ m' result, (ofProgram words device).run ⟨true, limit⟩ turns = some (m', result) →
        m'.traces.length = m'.registers.cycles + unfinished result
          ∧ (∀ k, (∃ mid i, (ofProgram words device).Fetches ⟨true, limit⟩ k mid i) ↔
              k < m'.traces.length)
          ∧ ∀ k mid i, (ofProgram words device).Fetches ⟨true, limit⟩ k mid i →
              ∃ e, m'.traces[k]? = some e ∧ e.level = .trace
                ∧ e.message = i.text (mid.memory.slice (mid.registers.cursor + 1)
                    i.opcode.parameterCount)
                ∧ e.fields = [("cycle", Text.Decimal.ofNat k),
                    ("address", Text.Decimal.ofNat mid.registers.cursor)] := by
  have hsilent : (ofProgram words device).silence = ofProgram words device := rfl
  refine ⟨?_, ?_⟩
  · rw [← silence_run true, hsilent]
  · intro m' result h
    obtain ⟨events, htraces, hlength, hfetched, hevents⟩ := traces_of_run h
    obtain rfl : m'.traces = events := htraces
    refine ⟨hlength, fun k => ⟨?_, hfetched k⟩, ?_⟩
    · rintro ⟨mid, i, hi⟩
      exact (List.getElem?_eq_some_iff.mp (hevents k mid i hi)).1
    · intro k mid i hi
      refine ⟨_, hevents k mid i hi, rfl, rfl, ?_⟩
      rw [← cycles_of_after_start hi.1]
      rfl

/-- Writes an input instruction and executes it, with nothing to read. -/
def inputWritten : Machine (Feed × Collector) :=
  ofProgram [1101, 3, 0, 4, 0, 10] (.console (.ofBytes []), .plain)

theorem run_traced_inputWritten :
    ∃ m', inputWritten.run ⟨true, some 9⟩ 2 = some (m', .error (.inputExhausted 4))
      ∧ inputWritten.run ⟨false, some 9⟩ 2 = some (m'.silence, .error (.inputExhausted 4))
      ∧ m'.traces.map Event.message = ["add 3, 0, [4]", "in [10]"]
      ∧ m'.registers.cycles = 1 ∧ m'.traces.length = 1 + 1
      ∧ ∃ mid i, inputWritten.Fetches ⟨true, some 9⟩ 1 mid i := by
  obtain ⟨m', hrun, hcycles, hmessages⟩ : ∃ m',
      inputWritten.run ⟨true, some 9⟩ 2 = some (m', .error (.inputExhausted 4))
        ∧ m'.registers.cycles = 1
        ∧ m'.traces.map Event.message = ["add 3, 0, [4]", "in [10]"] := ⟨_, rfl, rfl, rfl⟩
  obtain ⟨hsilent, haccount⟩ :=
    run_traced [1101, 3, 0, 4, 0, 10] (Feed.console (.ofBytes []), Collector.plain) (some 9) 2
  obtain ⟨hlength, hfetches, -⟩ := haccount m' _ hrun
  have hlength' : m'.traces.length = 1 + 1 := by
    rw [hlength, hcycles]
    rfl
  refine ⟨m', hrun, ?_, hmessages, hcycles, hlength', (hfetches 1).mpr (by omega)⟩
  rw [inputWritten, ← hsilent]
  exact congrArg (Option.map _) hrun

end Machine

end Intcode
