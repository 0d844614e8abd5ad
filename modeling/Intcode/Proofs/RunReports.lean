import Intcode.CommandLine.Report
import Intcode.Proofs.EncodedLines
import Intcode.Proofs.LineGrammar
import Intcode.Proofs.MemoryHistory
import Intcode.Proofs.Tracing

/-!
# Reports on runs

The command that runs a program has two flags that show more of it. What they
leave alone is stated here: the flag for a dump adds text after everything that
was shown without it, and the flag for tracing changes the log only, which is no
part of the report (`report_silence`). The exit code tells whether there was a
program to run (`Loads`), and whether its run ended without a fault.

A command either fails before there is a machine, or runs it and reports what it
finds then (`perform_cases`). Neither the machine nor the failure depends on the
flags.
-/

namespace Intcode.CommandLine

/-- The file can be read, its bytes are text, and the text is that of a program. -/
def HoldsProgram (files : Files) (file : String) (program : Program) : Prop :=
  ∃ bytes text, files file = .ok bytes ∧ Text.ofUtf8? bytes = some text
    ∧ Program.ofText text = .ok program

/-- The text has a line for each stored cell, in the order of the addresses. -/
def ShowsCells (memory : Memory) (text : String) : Prop :=
  ∃ cells : List (Nat × Word), cells.Pairwise (fun p q => p.1 < q.1)
    ∧ (∀ a w, (a, w) ∈ cells ↔ memory.cells[a]? = some w)
    ∧ text = String.join (cells.map fun (a, w) =>
        Text.Decimal.ofNat a ++ ": " ++ w.toText ++ "\n")

namespace RunOptions

/-- What stands in for the console as the source of input. -/
def Scripts (o : RunOptions) : Option Script → Prop
  | none => o.input = none
  | some script => ∃ text, o.input = some text ∧ Program.ofText text = .ok ⟨script.queue⟩

/-- There is a program to run, and the machine is ready to do so. -/
def Loads (o : RunOptions) (files : Files) (input : List UInt8) (m : Machine Terminal) : Prop :=
  ∃ program script?, HoldsProgram files o.file program ∧ o.Scripts script?
    ∧ m = .ofProgram program.words ⟨script?, .ofBytes input⟩

end RunOptions

/-! ## Loading -/

variable {files : Files} {input : List UInt8}

theorem readText_eq_ok_iff {file text : String} :
    readText files file = .ok text ↔
      ∃ bytes, files file = .ok bytes ∧ Text.ofUtf8? bytes = some text := by
  rw [readText]
  cases files file with
  | error e => simp
  | ok bytes =>
      cases htext : Text.ofUtf8? bytes with
      | none => simp [htext]
      | some text' => simp [htext]

theorem readProgram_eq_ok_iff {file : String} {program : Program} :
    readProgram files file = .ok program ↔ HoldsProgram files file program := by
  rw [readProgram, Assembly.bind_eq_ok_iff]
  constructor
  · rintro ⟨text, hread, hprogram⟩
    obtain ⟨bytes, hbytes, htext⟩ := readText_eq_ok_iff.mp hread
    refine ⟨bytes, text, hbytes, htext, ?_⟩
    split at hprogram
    next heq =>
      cases hprogram
      exact heq
    next => cases hprogram
  · rintro ⟨bytes, text, hbytes, htext, hprogram⟩
    refine ⟨text, readText_eq_ok_iff.mpr ⟨bytes, hbytes, htext⟩, ?_⟩
    rw [hprogram]

namespace RunOptions

theorem script?_eq_ok_iff {o : RunOptions} {script? : Option Script} :
    o.script? = .ok script? ↔ o.Scripts script? := by
  rw [RunOptions.script?]
  cases hinput : o.input with
  | none => cases script? <;> simp [Scripts, hinput]
  | some text =>
      cases htext : Program.ofText text with
      | error e => cases script? <;> simp [Scripts, hinput, htext]
      | ok values =>
          cases script? with
          | none => simp [Scripts, hinput, htext]
          | some script =>
              obtain ⟨queue⟩ := script
              obtain ⟨words⟩ := values
              simp [Scripts, hinput, htext]

theorem machine_eq_ok_iff {o : RunOptions} {m : Machine Terminal} :
    o.machine files input = .ok m ↔ o.Loads files input m := by
  rw [RunOptions.machine, Assembly.bind_eq_ok_iff]
  constructor
  · rintro ⟨program, hprogram, h⟩
    obtain ⟨script?, hscript, heq⟩ := Assembly.bind_eq_ok_iff.mp h
    cases heq
    exact ⟨program, script?, readProgram_eq_ok_iff.mp hprogram, script?_eq_ok_iff.mp hscript, rfl⟩
  · rintro ⟨program, script?, hprogram, hscript, rfl⟩
    refine ⟨program, readProgram_eq_ok_iff.mpr hprogram, ?_⟩
    exact Assembly.bind_eq_ok_iff.mpr ⟨script?, script?_eq_ok_iff.mpr hscript, rfl⟩

/-! ## Reports -/

theorem showsCells_dumpText (memory : Memory) : ShowsCells memory (dumpText memory) :=
  ⟨memory.snapshot, Memory.ascending_snapshot memory,
    fun _ _ => Std.TreeMap.mem_toList_iff_getElem?_eq_some, rfl⟩

/-- A dump is shown after all else. -/
theorem report_dump (o : RunOptions) (m : Machine Terminal) (result : RunResult) :
    { o with dump := true }.report m result =
      { { o with dump := false }.report m result with
        out := ({ o with dump := false }.report m result).out ++ dumpText m.memory } := by
  cases result with
  | ok summary => rfl
  | error fault => rfl

theorem report_code (o : RunOptions) (m : Machine Terminal) (result : RunResult) :
    (o.report m result).code = 0 ↔ ∃ summary, result = .ok summary := by
  cases result with
  | ok summary => exact ⟨fun _ => ⟨summary, rfl⟩, fun _ => rfl⟩
  | error fault => exact ⟨nofun, nofun⟩

/-- The log is no part of a report. -/
theorem report_silence (o : RunOptions) (m : Machine Terminal) (result : RunResult) :
    o.report m.silence result = o.report m result :=
  rfl

theorem map_report_run (o : RunOptions) (trace : Bool) (limit : Option Nat) (turns : Nat)
    (m : Machine Terminal) :
    (m.run ⟨trace, limit⟩ turns).map (fun (m, result) => o.report m result) =
      (m.silence.run ⟨false, limit⟩ turns).map fun (m, result) => o.report m result := by
  rw [Machine.silence_run trace, Option.map_map]
  simp only [Function.comp_def, report_silence]

/-- A command fails before there is a machine, or it runs the machine and reports on that. The
flags come in with the report. -/
theorem perform_cases (o : RunOptions) (files : Files) (input : List UInt8) (turns : Nat) :
    (∃ f, (∀ m, ¬o.Loads files input m)
        ∧ ∀ dump config, { o with dump, config }.perform files input turns =
          some (.failure "" f))
      ∨ ∃ m, (∀ m', o.Loads files input m' ↔ m' = m)
        ∧ ∀ dump config, { o with dump, config }.perform files input turns =
          (m.run config turns).map fun (m', result) =>
            { o with dump, config }.report m' result := by
  have hperform (dump : Bool) (config : Config) :
      { o with dump, config }.machine files input = o.machine files input := rfl
  simp only [perform, hperform]
  cases hmachine : o.machine files input with
  | error f =>
      refine .inl ⟨f, fun m hm => ?_, fun _ _ => rfl⟩
      rw [← machine_eq_ok_iff, hmachine] at hm
      cases hm
  | ok m =>
      refine .inr ⟨m, fun m' => ?_, fun _ _ => rfl⟩
      rw [← machine_eq_ok_iff, hmachine, Except.ok.injEq, eq_comm]

variable {o : RunOptions} {turns : Nat}

theorem perform_dump {r : Report}
    (h : { o with dump := false }.perform files input turns = some r) :
    ∃ dump, { o with dump := true }.perform files input turns =
        some { r with out := r.out ++ dump }
      ∧ (dump ≠ "" → ∃ m, o.Loads files input m)
      ∧ ∀ m, o.Loads files input m →
        ∃ m' result, m.run o.config turns = some (m', result) ∧ ShowsCells m'.memory dump := by
  rcases perform_cases o files input turns with ⟨f, hnone, hperform⟩ | ⟨m, hloads, hperform⟩
  · refine ⟨"", ?_, fun hne => absurd rfl hne, fun m hm => absurd hm (hnone m)⟩
    rw [hperform true o.config, ← hperform false o.config, h, String.append_empty]
  · rw [hperform false o.config] at h
    obtain ⟨⟨m', result⟩, hrun, rfl⟩ := Option.map_eq_some_iff.mp h
    refine ⟨dumpText m'.memory, ?_, fun _ => ⟨m, (hloads m).mpr rfl⟩, ?_⟩
    · rw [hperform true o.config, hrun]
      exact congrArg some (report_dump o m' result)
    · intro m₁ hm₁
      obtain rfl := (hloads m₁).mp hm₁
      exact ⟨m', result, hrun, showsCells_dumpText m'.memory⟩

theorem perform_dump_eq_none
    (h : { o with dump := false }.perform files input turns = none) :
    { o with dump := true }.perform files input turns = none := by
  rcases perform_cases o files input turns with ⟨f, -, hperform⟩ | ⟨m, -, hperform⟩
  · rw [hperform false o.config] at h
    cases h
  · rw [hperform false o.config, Option.map_eq_none_iff] at h
    rw [hperform true o.config, Option.map_eq_none_iff]
    exact h

/-- Tracing makes no difference to the report. -/
theorem perform_trace (o : RunOptions) (files : Files) (input : List UInt8) (turns : Nat)
    (trace : Bool) :
    { o with config.trace := trace }.perform files input turns =
      { o with config.trace := false }.perform files input turns := by
  rcases perform_cases o files input turns with ⟨f, -, hperform⟩ | ⟨m, -, hperform⟩
  · rw [hperform o.dump ⟨trace, o.config.maxCycles⟩, hperform o.dump ⟨false, o.config.maxCycles⟩]
  · rw [hperform o.dump ⟨trace, o.config.maxCycles⟩, hperform o.dump ⟨false, o.config.maxCycles⟩]
    have hreport (traced : Bool) := map_report_run o traced o.config.maxCycles turns m
    exact (hreport trace).trans (hreport false).symm

theorem code_of_perform {r : Report} (h : o.perform files input turns = some r) :
    r.code = 0 ↔ ∃ m m' summary, o.Loads files input m
      ∧ m.run o.config turns = some (m', .ok summary) := by
  rcases perform_cases o files input turns with ⟨f, hnone, hperform⟩ | ⟨m, hloads, hperform⟩
  · obtain rfl := Option.some.inj ((hperform o.dump o.config).symm.trans h)
    constructor
    · intro hcode
      cases hcode
    · rintro ⟨m, -, -, hm, -⟩
      exact absurd hm (hnone m)
  · obtain ⟨⟨m', result⟩, hrun, rfl⟩ :=
      Option.map_eq_some_iff.mp ((hperform o.dump o.config).symm.trans h)
    rw [report_code]
    constructor
    · rintro ⟨summary, rfl⟩
      exact ⟨m, m', summary, (hloads m).mpr rfl, hrun⟩
    · rintro ⟨m₁, m₁', summary, hm₁, hrun₁⟩
      obtain rfl := (hloads m₁).mp hm₁
      rw [hrun] at hrun₁
      cases hrun₁
      exact ⟨summary, rfl⟩

/-- **Flags and exit codes.** Whatever there is to read and however the run ends: with the
flag for a dump a command ends if it does without, with the same code and the same error,
and shows a dump after all else. The dump is empty unless there is a machine to run, and shows
the memory that the run leaves if there is one. The flag for tracing changes nothing. The
exit code is zero if there is a machine to run and its run ends without a fault, and not
otherwise. -/
theorem perform_flags (o : RunOptions) (files : Files) (input : List UInt8) (turns : Nat) :
    (∀ r, Command.perform files input turns (.run { o with dump := false }) = some r →
        ∃ dump, Command.perform files input turns (.run { o with dump := true }) =
            some { r with out := r.out ++ dump }
          ∧ (dump ≠ "" → ∃ m, o.Loads files input m)
          ∧ ∀ m, o.Loads files input m →
            ∃ m' result, m.run o.config turns = some (m', result) ∧ ShowsCells m'.memory dump)
      ∧ (Command.perform files input turns (.run { o with dump := false }) = none →
          Command.perform files input turns (.run { o with dump := true }) = none)
      ∧ Command.perform files input turns (.run { o with config.trace := true }) =
          Command.perform files input turns (.run { o with config.trace := false })
      ∧ ∀ r, Command.perform files input turns (.run o) = some r →
        (r.code = 0 ↔ ∃ m m' summary, o.Loads files input m
          ∧ m.run o.config turns = some (m', .ok summary)) := by
  simp only [Command.perform]
  refine ⟨?_, perform_dump_eq_none, ?_, ?_⟩
  · intro r hr
    exact perform_dump hr
  · exact perform_trace o files input turns true
  · intro r hr
    exact code_of_perform hr

/-- A program that shows a value, stores another in a cell behind its end, and comes to a
word that spells no instruction. -/
def faultyProgram : Files :=
  fun _ => .ok (Text.encode "104,5,1101,2,3,8,0".toList)

def faultyRun : RunOptions :=
  ⟨"prog", none, false, ⟨false, some 9⟩⟩

theorem perform_flags_faultyProgram :
    Command.perform faultyProgram [] 3 (.run faultyRun) = some ⟨1, "5\n",
        "Error: Run of prog faulted\n\nCaused by:\n    Invalid operation 0 at address 6\n"⟩
      ∧ ∃ m m' result, faultyRun.Loads faultyProgram [] m
        ∧ m.run faultyRun.config 3 = some (m', result)
        ∧ ShowsCells m'.memory "0: 104\n1: 5\n2: 1101\n3: 2\n4: 3\n5: 8\n6: 0\n8: 5\n" := by
  have hbare : Command.perform faultyProgram [] 3 (.run faultyRun) = some ⟨1, "5\n",
      "Error: Run of prog faulted\n\nCaused by:\n    Invalid operation 0 at address 6\n"⟩ := rfl
  have hdumped : Command.perform faultyProgram [] 3 (.run { faultyRun with dump := true }) =
      some ⟨1, "5\n" ++ "0: 104\n1: 5\n2: 1101\n3: 2\n4: 3\n5: 8\n6: 0\n8: 5\n",
        "Error: Run of prog faulted\n\nCaused by:\n    Invalid operation 0 at address 6\n"⟩ := rfl
  obtain ⟨m, hm⟩ : ∃ m, faultyRun.machine faultyProgram [] = .ok m := ⟨_, rfl⟩
  have hloads : faultyRun.Loads faultyProgram [] m := machine_eq_ok_iff.mp hm
  obtain ⟨dump, hdump, -, hshown⟩ := (perform_flags faultyRun faultyProgram [] 3).1 _ hbare
  have hout := congrArg Report.out (Option.some.inj (hdumped.symm.trans hdump))
  obtain rfl := (String.append_right_inj _).mp hout
  obtain ⟨m', result, hrun, hcells⟩ := hshown m hloads
  exact ⟨hbare, m, m', result, hloads, hrun, hcells⟩

end RunOptions

end Intcode.CommandLine
