import BuildRunner.Proofs.Execution.ScratchFiles

/-!
# The results of one command line agree

A command line is run for its exit code, for its output, for a verdict, or for its two outputs
apart.  The verdict is always the one on the captured output, and a text that is no command line is
told so and changes nothing.  Where the scratch directory stands, all four tell the same exit code,
or the same failure.
-/

namespace BuildRunner

variable {κ : Type}

/-- The run of a command line for what is wanted of it. -/
def Job.ofLine (wanted : Wanted) (command : String) : Job := { wanted, target := .line command }

/-- The call of a command line. -/
def Wanted.callOf (wanted : Wanted) (capture : Capture) (words : List String) : Call :=
  { wanted
    program := words.headD ""
    argv := words.drop 1
    capture
    out := capture.sinks.1
    err := capture.sinks.2 }

/-- The verdict on captured output. -/
def JobResult.judged : JobResult → JobResult
  | .output code text => .ofRun code text
  | result => result

namespace Act

theorem run_prepare_ofLine (wanted : Wanted) (command : String) (m : Machine κ) :
    (prepare (.ofLine wanted command)).run m =
      match Command.parse command with
      | none => (.ok (.inl (wanted.invalid command)), m)
      | some words =>
        match (prepareCapture wanted).run m with
        | (.ok capture, m') => (.ok (.inr (wanted.callOf capture words)), m')
        | (.error failure, m') => (.error failure, m') := by
  have hwords : (Job.ofLine wanted command).target.words? =
      (Command.parse command).map fun words => (words.headD "", words.drop 1) := rfl
  unfold prepare
  rw [hwords]
  cases Command.parse command with
  | none => rfl
  | some words =>
      dsimp only [Option.map_some]
      rw [run_bind, show (Job.ofLine wanted command).wanted = wanted from rfl]
      rcases (prepareCapture wanted).run m with ⟨failure | capture, m'⟩
      · rfl
      · cases capture with
        | _ => rfl

/-! ## The verdict on captured output -/

theorem ensuring_map {α β : Type} (f : α → β) (action : Act κ α) (final : Act κ Unit) :
    ensuring (f <$> action) final = f <$> ensuring action final := by
  funext m
  show (ensuring (f <$> action) final).run m = (f <$> ensuring action final).run m
  have hafter : stateAfter (f <$> action) m = stateAfter action m := by
    rw [stateAfter, run_map, stateAfter]
    rcases action.run m with ⟨failure | a, m'⟩
    · rfl
    · rfl
  have hresult : resultOf (f <$> action) m = (resultOf action m).map f := by
    rw [resultOf, run_map, resultOf]
    rcases action.run m with ⟨failure | a, m'⟩
    · rfl
    · rfl
  rw [run_map, run_ensuring, run_ensuring, hafter, hresult]
  rcases final.run (stateAfter action m) with ⟨failure | _, m'⟩
  · rfl
  · dsimp only
    cases resultOf action m with
    | _ => rfl

theorem collect_verdict (capture : Capture) (words : List String) (code : Int) :
    (collect (Wanted.verdict.callOf capture words) code : Act κ JobResult) =
      JobResult.judged <$> collect (Wanted.output.callOf capture words) code := by
  cases capture with
  | nowhere => rfl
  | joined log =>
      simp only [collect, Wanted.callOf, map_bind, map_pure]
      rfl
  | apart out err =>
      simp only [collect, Wanted.callOf, map_bind, map_pure]
      rfl

variable [Program κ]

/-- A text that is no command line is told so, and nothing has changed. -/
theorem run_runBlocking_of_invalid {command : String} (hparse : Command.parse command = none)
    (wanted : Wanted) (m : Machine κ) :
    (runBlocking (.ofLine wanted command)).run m = (.ok (wanted.invalid command), m) := by
  rw [run_runBlocking, run_prepare_ofLine, hparse]

theorem block_verdict (capture : Capture) (words : List String) :
    (block (Wanted.verdict.callOf capture words) : Act κ JobResult) =
      JobResult.judged <$> block (Wanted.output.callOf capture words) := by
  unfold block
  rw [← ensuring_map, map_bind]
  simp only [collect_verdict]
  rfl

/-- A verdict is the one on the captured output, whatever the program does. -/
theorem runBlocking_verdict (command : String) :
    (runBlocking (.ofLine .verdict command) : Act κ JobResult) =
      JobResult.judged <$> runBlocking (.ofLine .output command) := by
  funext m
  show (runBlocking (.ofLine .verdict command)).run m =
    (JobResult.judged <$> runBlocking (.ofLine .output command)).run m
  rw [run_map, run_runBlocking, run_runBlocking, run_prepare_ofLine, run_prepare_ofLine]
  cases Command.parse command with
  | none => rfl
  | some words =>
      have hcapture : (prepareCapture .verdict : Act κ Capture) = prepareCapture .output := rfl
      rw [hcapture]
      rcases (prepareCapture .output : Act κ Capture).run m with ⟨failure | capture, m'⟩
      · rfl
      · dsimp only
        rw [block_verdict, run_map]

end Act

/-! ## One exit code -/

/-- What the run of a command line gives, or how it fails. -/
def Machine.outcome [Program κ] (m : Machine κ) (wanted : Wanted) (command : String) :
    Except Failure JobResult :=
  resultOf (Act.runBlocking (.ofLine wanted command)) m

/-- The four runs of a command line tell the same exit code. -/
structure Machine.Coheres [Program κ] (m : Machine κ) (command : String) : Prop where
  /-- The exit code is the one that comes with the output. -/
  output : ∀ code, m.outcome .status command = .ok (.status code) ↔
    ∃ text, m.outcome .output command = .ok (.output code text)
  verdict : m.outcome .verdict command = .ok (.verdict none) ↔
    m.outcome .status command = .ok (.status 0)
  streams : (∃ out err, m.outcome .streams command = .ok (.streams true out err)) ↔
    m.outcome .status command = .ok (.status 0)
  /-- If one of them fails, all of them fail alike. -/
  failure : ∀ failure wanted, m.outcome wanted command = .error failure ↔
    m.outcome .status command = .error failure

theorem Machine.outcome_verdict [Program κ] (m : Machine κ) (command : String) :
    m.outcome .verdict command = (m.outcome .output command).map JobResult.judged := by
  rw [outcome, Act.runBlocking_verdict, resultOf, run_map, outcome, resultOf]
  rcases (Act.runBlocking (.ofLine .output command)).run m with ⟨failure | result, m'⟩
  · rfl
  · rfl

/-- Runs that make their results of one exit code, or share one failure, cohere. -/
theorem Machine.coheres_of_exit [Program κ] {m : Machine κ} {command : String}
    {exit : Except Failure Int}
    (hexit : ∀ wanted : Wanted, ∃ first second,
      m.outcome wanted command = exit.map fun code => wanted.result code first second) :
    m.Coheres command := by
  obtain ⟨_, _, hstatus⟩ := hexit .status
  obtain ⟨text, _, houtput⟩ := hexit .output
  obtain ⟨errors, _, hverdict⟩ := hexit .verdict
  obtain ⟨out, err, hstreams⟩ := hexit .streams
  have hfailure : ∀ failure wanted, m.outcome wanted command = .error failure ↔
      exit = .error failure := by
    intro failure wanted
    obtain ⟨first, second, hwanted⟩ := hexit wanted
    rw [hwanted]
    cases exit with
    | error other => simp [Except.map]
    | ok code => simp [Except.map]
  have hok : ∀ code, m.outcome .status command = .ok (.status code) ↔ exit = .ok code := by
    intro code
    rw [hstatus]
    cases exit with
    | error failure => simp [Except.map]
    | ok other => simp [Except.map, Wanted.result]
  constructor
  · intro code
    rw [hok, houtput]
    cases exit with
    | error failure => simp [Except.map]
    | ok other => simp [Except.map, Wanted.result]
  · rw [hok, hverdict]
    cases exit with
    | error failure => simp [Except.map]
    | ok code =>
        simp only [Except.map, Wanted.result, JobResult.ofRun, Except.ok.injEq,
          JobResult.verdict.injEq]
        rw [ite_eq_left_iff, not_imp_comm]
        simp [successCode]
  · rw [hok, hstreams]
    cases exit with
    | error failure => simp [Except.map]
    | ok code =>
        simp only [Except.map, Wanted.result, Except.ok.injEq, JobResult.streams.injEq, successCode]
        constructor
        · rintro ⟨_, _, hzero, -, -⟩
          exact of_decide_eq_true hzero
        · intro hzero
          exact ⟨out, err, decide_eq_true hzero, rfl, rfl⟩
  · intro failure wanted
    rw [hfailure, hfailure]

namespace Act

variable [Program κ] {conduct : Conduct}

/-- What is left of a run whose files have been named. -/
theorem outcome_of_prepared {words : List String} {command : String}
    (hparse : Command.parse command = some words) {m m' : Machine (Actor conduct)}
    {wanted : Wanted} {capture : Capture}
    (hcapture : (prepareCapture wanted).run m = (.ok capture, m')) :
    m.outcome wanted command = resultOf (block (wanted.callOf capture words)) m' := by
  have hprepare := run_prepare_ofLine wanted command m
  rw [hparse, hcapture] at hprepare
  rw [Machine.outcome, resultOf, run_runBlocking, hprepare]
  rfl

/-- Where the scratch directory stands, all runs of a command line have one exit code or one
failure. -/
theorem exists_exit_of_line {words : List String} {command : String}
    (hparse : Command.parse command = some words) {m : Machine (Actor conduct)} {base : String}
    (hscratch : m.OffersScratch base) :
    ∃ exit : Except Failure Int, ∀ wanted : Wanted, ∃ first second,
      m.outcome wanted command = exit.map fun code => wanted.result code first second := by
  obtain ⟨exit, -, hruns⟩ := exists_exit conduct m.disk (words.headD "") (words.drop 1)
  refine ⟨exit, fun wanted => ?_⟩
  obtain ⟨capture, next, d', places, hcapture, hreadies, hat⟩ :=
    exists_run_prepareCapture hscratch wanted
  rw [outcome_of_prepared hparse hcapture]
  exact @hruns { m with scratch := next } (wanted.callOf capture words) d' places rfl rfl rfl
    hreadies hat

/-- A run for the exit code needs no scratch directory.  The code is the one that the process ends
with, or that of a failure if it is not started. -/
theorem outcome_status {words arguments : List String} {command : String}
    (hparse : Command.parse command = some words) {m : Machine (Actor conduct)}
    (hexpanded : m.disk.expanded (words.drop 1) = .ok arguments)
    (hshown : conduct.answer.IsShown) :
    m.outcome .status command =
      .ok (.status (if conduct.launches (words.headD "" :: arguments) then
        conduct.answer.exitCode else failureCode)) := by
  obtain ⟨exit, hcode, hruns⟩ := exists_exit conduct m.disk (words.headD "") (words.drop 1)
  have hat : m.disk.AreAt [] fun _ => [] :=
    ⟨fun path hpath => absurd hpath List.not_mem_nil,
      fun path hpath => absurd hpath List.not_mem_nil⟩
  obtain ⟨first, second, hresult⟩ := @hruns m (Wanted.status.callOf .nowhere words) m.disk _
    rfl rfl rfl .inherited hat
  rw [outcome_of_prepared hparse rfl, hresult, hcode hshown arguments hexpanded]
  rfl

/-- Where the settings cannot be read, no output can be captured, and nothing has changed. -/
theorem run_runBlocking_of_unreadable {words : List String} {command : String}
    (hparse : Command.parse command = some words) {m : Machine κ} {failure : Failure}
    (hsettings : Settings.read m.environment = .error failure) {wanted : Wanted}
    (hwanted : wanted ≠ .status) :
    (runBlocking (.ofLine wanted command)).run m = (.error failure, m) := by
  have hscratch : (scratchPath : Act κ String).run m = (.error failure, m) := by
    unfold scratchPath scratchDirectory
    rw [run_bind, run_bind, run_settings, hsettings]
  have hcapture : (prepareCapture wanted : Act κ Capture).run m = (.error failure, m) := by
    cases wanted with
    | status => exact absurd rfl hwanted
    | _ =>
        unfold prepareCapture
        rw [run_bind, hscratch]
  rw [run_runBlocking, run_prepare_ofLine, hparse]
  dsimp only
  rw [hcapture]

/-- Runs of one command line agree: the verdict is the one on the captured output, all four tell the
same exit code, which is that of the process if it is started, and a text that is no command line is
told so and changes nothing. -/
theorem command_results_cohere (conduct : Conduct) (command : String)
    {m : Machine (Actor conduct)} {base : String} (hscratch : m.OffersScratch base) :
    (runBlocking (.ofLine .verdict command) : Act (Actor conduct) JobResult) =
        JobResult.judged <$> runBlocking (.ofLine .output command) ∧
      m.Coheres command ∧
      (∀ words arguments, Command.parse command = some words →
        m.disk.expanded (words.drop 1) = .ok arguments → conduct.answer.IsShown →
          m.outcome .status command =
            .ok (.status (if conduct.launches (words.headD "" :: arguments) then
              conduct.answer.exitCode else failureCode))) ∧
      (Command.parse command = none →
        (runBlocking (.ofLine .status command)).run m = (.ok (.status (-1)), m) ∧
        (runBlocking (.ofLine .output command)).run m =
          (.ok (.output (-1) ("invalid command: " ++ command)), m) ∧
        (runBlocking (.ofLine .verdict command)).run m =
          (.ok (.verdict (some ("invalid command: " ++ command))), m) ∧
        (runBlocking (.ofLine .streams command)).run m =
          (.ok (.streams false "" ("invalid command: " ++ command)), m)) := by
  refine ⟨runBlocking_verdict command, ?_, ?_, fun hparse => ?_⟩
  · cases hparse : Command.parse command with
    | none =>
        have hinvalid : ∀ wanted, m.outcome wanted command = .ok (wanted.invalid command) := by
          intro wanted
          rw [Machine.outcome, resultOf, run_runBlocking_of_invalid hparse]
        refine @Machine.coheres_of_exit _ _ m command (.ok failureCode) fun wanted => ?_
        rw [hinvalid wanted]
        cases wanted with
        | status => exact ⟨"", "", rfl⟩
        | output => exact ⟨_, "", rfl⟩
        | verdict => exact ⟨_, "", rfl⟩
        | streams => exact ⟨_, _, rfl⟩
    | some words =>
        obtain ⟨exit, hruns⟩ := exists_exit_of_line hparse hscratch
        exact Machine.coheres_of_exit hruns
  · intro words arguments hparse hexpanded hshown
    exact outcome_status hparse hexpanded hshown
  · exact ⟨run_runBlocking_of_invalid hparse _ m, run_runBlocking_of_invalid hparse _ m,
      run_runBlocking_of_invalid hparse _ m, run_runBlocking_of_invalid hparse _ m⟩

/-- A process that prints a line and exits with 0. -/
def printing : Conduct := .started [("done\n".toUTF8.toList, [])] (.exits 0)

/-- A machine with an empty scratch directory. -/
def scratchMachine (environment : Environment) : Machine (Actor printing) where
  disk :=
    { tree := .dir [("tmp", .dir [(scratchName, .dir [] none)] none)] none
      cwd := .root }
  environment

theorem offersScratch_scratchMachine : (scratchMachine []).OffersScratch "/tmp" where
  settings := ⟨_, rfl, rfl⟩
  stands := by decide
  short := by decide
  free := by decide
  numbered := by decide

theorem command_results_cohere_scratchMachine :
    (scratchMachine []).OffersScratch "/tmp" ∧
      (scratchMachine []).outcome .status "true" = .ok (.status 0) ∧
        (scratchMachine []).outcome .verdict "true" = .ok (.verdict none) ∧
          (runBlocking (.ofLine .streams "'")).run (scratchMachine []) =
            (.ok (.streams false "" "invalid command: '"), scratchMachine []) := by
  obtain ⟨-, hcoheres, hcode, -⟩ :=
    command_results_cohere printing "true" offersScratch_scratchMachine
  obtain ⟨-, -, -, hinvalid⟩ := command_results_cohere printing "'" offersScratch_scratchMachine
  have hstatus := hcode ["true"] [] (by decide) rfl trivial
  exact ⟨offersScratch_scratchMachine, hstatus, hcoheres.verdict.mpr hstatus,
    (hinvalid (by decide)).2.2.2⟩

/-- With a poll interval that is no number a program can be run for its exit code, but its output is
not captured. -/
theorem capture_needs_settings :
    (scratchMachine [(intervalVariable, "x")]).disk.isDirectory "/tmp/.buildos" = true ∧
      (scratchMachine [(intervalVariable, "x")]).outcome .status "true" = .ok (.status 0) ∧
        (scratchMachine [(intervalVariable, "x")]).outcome .output "true" =
          .error (.pollNotNumber "x") := by
  have hparse : Command.parse "true" = some ["true"] := by decide
  refine ⟨by decide, outcome_status hparse rfl trivial, ?_⟩
  have hsettings : Settings.read [(intervalVariable, "x")] = .error (.pollNotNumber "x") := rfl
  rw [Machine.outcome, resultOf, run_runBlocking_of_unreadable hparse hsettings (by decide)]

end Act

end BuildRunner
