import BuildRunner.Proofs.Disk.Writing
import BuildRunner.Proofs.Execution.ScratchFiles
import BuildRunner.Proofs.Text.Decoding

/-!
# What a run captures

A run whose two outputs are captured apart gives the texts of exactly the bytes that its program has
written to each of them, however the turns of the programs that run beside it are mixed with its
own.
-/

namespace BuildRunner

open Text

variable {conduct : Conduct}

/-! ## A process and its two files -/

/-- A process fills two files: what they hold and what it has still to write make up given bytes, and
no other process writes to them. -/
structure Machine.Fills (m : Machine (Actor conduct)) (index first second : Nat)
    (out err : Location) (o e : Bytes) : Prop where
  apart : first ≠ second
  process : ∃ left ending told hinted,
    m.programs[index]? = some ⟨some first, some second, left, ending⟩ ∧
      m.disk.Takes first out told ∧ told ++ (left.map Prod.fst).flatten = o ∧
        m.disk.Takes second err hinted ∧ hinted ++ (left.map Prod.snd).flatten = e
  others : ∀ other actor, other ≠ index → m.programs[other]? = some actor →
    ∀ file, actor.out = some file ∨ actor.err = some file → file ≠ first ∧ file ≠ second

/-- A process keeps its outputs. -/
theorem outputs_advance (time : Nat) (d : Disk) (actor : Actor conduct) :
    (Program.advance time d actor).2.out = actor.out ∧
      (Program.advance time d actor).2.err = actor.err := by
  obtain ⟨out, err, left, ending⟩ := actor
  cases left with
  | nil => exact ⟨rfl, rfl⟩
  | cons pair left => exact ⟨rfl, rfl⟩

section

variable {d : Disk} {index : Nat} {location : Location} {bytes : Bytes}

theorem Disk.Takes.writeOutput (htakes : d.Takes index location bytes) {file : Option Nat}
    (hfile : file ≠ some index) (more : Bytes) :
    (d.writeOutput file more).Takes index location bytes := by
  cases file with
  | none => exact htakes
  | some other => exact htakes.write_other (fun h => hfile (congrArg some h)) more

/-- A process that writes elsewhere leaves a file alone. -/
theorem Disk.Takes.advance (htakes : d.Takes index location bytes) {actor : Actor conduct}
    (hout : actor.out ≠ some index) (herr : actor.err ≠ some index) (time : Nat) :
    (Program.advance time d actor).1.Takes index location bytes := by
  obtain ⟨out, err, left, ending⟩ := actor
  cases left with
  | nil => exact htakes
  | cons pair left => exact (htakes.writeOutput hout pair.1).writeOutput herr pair.2

end

namespace Machine

variable {m : Machine (Actor conduct)} {index first second : Nat} {out err : Location} {o e : Bytes}

/-- The turn of one process lets the files fill as before. -/
theorem Fills.advanceOne (hfills : m.Fills index first second out err o e) (turn : Nat) :
    (m.advanceOne turn).Fills index first second out err o e := by
  obtain ⟨hapart, ⟨left, ending, told, hinted, hprocess, hout, ho, herr, he⟩, hothers⟩ := hfills
  unfold Machine.advanceOne
  cases hturn : m.programs[turn]? with
  | none => exact ⟨hapart, ⟨left, ending, told, hinted, hprocess, hout, ho, herr, he⟩, hothers⟩
  | some actor =>
      have hlt := (List.getElem?_eq_some_iff.mp hturn).1
      refine ⟨hapart, ?_, fun other mover hother hmover file hfile => ?_⟩
      · by_cases hsame : turn = index
        · subst hsame
          rw [hturn, Option.some.injEq] at hprocess
          subst hprocess
          cases left with
          | nil =>
              exact ⟨[], ending, told, hinted, List.getElem?_set_self hlt, hout, ho, herr, he⟩
          | cons pair left =>
              refine ⟨left, ending, told ++ pair.1, hinted ++ pair.2, List.getElem?_set_self hlt,
                ?_, ?_, ?_, ?_⟩
              · exact (hout.write pair.1).write_other (Ne.symm hapart) pair.2
              · rw [← ho, List.map_cons, List.flatten_cons, List.append_assoc]
              · exact (herr.write_other hapart pair.1).write pair.2
              · rw [← he, List.map_cons, List.flatten_cons, List.append_assoc]
        · have hmine := hothers turn actor hsame hturn
          refine ⟨left, ending, told, hinted, ?_, ?_, ho, ?_, he⟩
          · rw [← hprocess]
            exact List.getElem?_set_ne hsame
          · exact hout.advance (fun h => (hmine first (Or.inl h)).1 rfl)
              (fun h => (hmine first (Or.inr h)).1 rfl) m.clock
          · exact herr.advance (fun h => (hmine second (Or.inl h)).2 rfl)
              (fun h => (hmine second (Or.inr h)).2 rfl) m.clock
      · dsimp only at hmover
        rw [List.getElem?_set] at hmover
        split at hmover
        · next hsame =>
            subst hsame
            obtain rfl := Option.some.inj hmover
            obtain ⟨hkeptOut, hkeptErr⟩ := outputs_advance m.clock m.disk actor
            rw [hkeptOut, hkeptErr] at hfile
            exact hothers turn actor hother hturn file hfile
        · exact hothers other mover hother hmover file hfile

theorem Fills.elapse (hfills : m.Fills index first second out err o e) (ticks : Nat) :
    (m.elapse ticks).Fills index first second out err o e := by
  refine @elapse_of_frame (Actor conduct) _ (fun m m' => m.Fills index first second out err o e →
    m'.Fills index first second out err o e) ⟨fun _ => id, fun h h' => h' ∘ h⟩
    (fun m turn h => h.advanceOne turn) (fun m h => ?_) ticks m hfills
  exact ⟨h.apart, h.process, h.others⟩

/-- When the process has ended, its files hold all that it had to write. -/
theorem Fills.takes (hfills : m.Fills index first second out err o e)
    (hended : m.answerOf index ≠ .running) :
    m.disk.Takes first out o ∧ m.disk.Takes second err e := by
  obtain ⟨left, ending, told, hinted, hprocess, hout, ho, herr, he⟩ := hfills.process
  cases left with
  | nil =>
      rw [List.map_nil, List.flatten_nil, List.append_nil] at ho he
      exact ⟨ho ▸ hout, he ▸ herr⟩
  | cons pair left =>
      refine absurd ?_ hended
      unfold answerOf
      rw [hprocess]
      rfl

/-- Open files are entries of the tree, and the processes on their way write to open files. -/
structure WritesToFiles (m : Machine (Actor conduct)) : Prop where
  there : ∀ file ∈ m.disk.files, ∀ location, file.location = some location →
    m.disk.tree.kindAt location ≠ none
  opened : ∀ actor ∈ m.programs, ∀ file, actor.out = some file ∨ actor.err = some file →
    file < m.disk.files.length

end Machine

namespace Act

section

variable {writes : List (Bytes × Bytes)} {ending : Ending}
  {m : Machine (Actor (.started writes ending))}

/-- A run whose outputs go to two new files gives what its program has written to each of them. -/
theorem resultOf_block_apart {call : Call} {out err : String} {places : String → Location}
    {arguments : List String} (hfiles : m.WritesToFiles) (hout : m.disk.Names out (places out))
    (hfirst : m.disk.IsSpare (places out)) (herr : m.disk.Names err (places err))
    (hsecond : m.disk.IsSpare (places err)) (hne : places out ≠ places err)
    (hcapture : call.capture = .apart out err) (houtSink : call.out = .path out)
    (herrSink : call.err = .path err) (hexpanded : m.disk.expanded call.argv = .ok arguments)
    (hnul : (call.program :: arguments).any Disk.hasNul = false)
    (hshown : ending.answer.IsShown) :
    resultOf (block call) m = .ok (call.wanted.result ending.answer.exitCode
      (String.ofList (decode (writes.map Prod.fst).flatten))
      (String.ofList (decode (writes.map Prod.snd).flatten))) := by
  obtain ⟨d₁, d', hopenOut, hopenErr, htakesOut, htakesErr⟩ :=
    Disk.exists_openFile_pair hout hfirst herr hsecond hne
  have hpaths : out ≠ err := fun h => hne (congrArg places h)
  have hat : d'.AreAt call.capture.paths places := by
    have hbefore : m.disk.AreAt [out, err] places := by
      constructor
      · intro path hpath
        rcases List.mem_pair.mp hpath with rfl | rfl
        · exact hout
        · exact herr
      · intro path hpath
        rcases List.mem_pair.mp hpath with rfl | rfl
        · exact Or.inr hfirst.free
        · exact Or.inr hsecond.free
    rw [hcapture]
    exact (hbefore.of_opens (Disk.openFile_inv hopenOut).2.2).of_opens
      (Disk.openFile_inv hopenErr).2.2
  obtain ⟨line, hrun⟩ := run_startTraced call.program call.argv call.out call.err m
  rw [hexpanded, houtSink, herrSink] at hrun
  obtain ⟨held, owned, hlaunch⟩ := run_openAndLaunch_apart (m := { m with err := m.err ++ line })
    hpaths hout.no_nul hopenOut herr.no_nul hopenErr call.program arguments
  obtain ⟨started, actor, hstart, hruns, hactorOut, hactorErr⟩ :=
    run_start_of_openAndLaunch hlaunch (by rw [Conduct.launches, hnul]; rfl)
  rw [← houtSink, ← herrSink] at hrun hstart
  obtain ⟨settled, hcode, hsettledShown, hsettled⟩ :=
    @exists_settled (Actor (.started writes ending)) call.program ending.answer
  obtain ⟨now, ticks, hdisk, hprograms, hanswer, hresult⟩ := resultOf_block_of_runs hsettled
    (hrun.trans hstart) ⟨hruns.disk, hruns.programs, hruns.fresh, hruns.handle⟩ hat
  obtain ⟨hleft, -⟩ : writes = actor.left ∧ ending = actor.ending := by
    simpa using hruns.fresh.conduct
  -- the new files are behind those that the other programs write to
  have hfills : now.Fills m.programs.length m.disk.files.length (m.disk.files.length + 1)
      (places out) (places err) (actor.left.map Prod.fst).flatten
      (actor.left.map Prod.snd).flatten := by
    refine ⟨by omega, ⟨actor.left, actor.ending, [], [], ?_, hdisk ▸ htakesOut,
      List.nil_append _, hdisk ▸ htakesErr, List.nil_append _⟩,
      fun other mover hother hmover file hfile => ?_⟩
    · rw [hprograms, List.getElem?_concat_length, ← hactorOut, ← hactorErr]
    · rw [hprograms, List.getElem?_append] at hmover
      split at hmover
      · have hopened := hfiles.opened mover (List.mem_of_getElem? hmover) file hfile
        omega
      · have hlt := (List.getElem?_eq_some_iff.mp hmover).1
        simp only [List.length_cons, List.length_nil] at hlt
        omega
  obtain ⟨htextOut, htextErr⟩ := (hfills.elapse ticks).takes <| by
    rw [hanswer]
    exact actor.ending.answer_ne_running
  obtain ⟨result, rfl⟩ := hsettledShown hshown
  rw [hresult, hcapture, Capture.texts, htextOut.textAt, htextErr.textAt, ← hleft]
  exact congrArg (fun code => Except.ok (call.wanted.result code _ _)) hcode

end

/-- Where the scratch directory has been made, the files of a run are named as if it had stood. -/
theorem run_prepareCapture_of_scratch {κ : Type} {m m₁ : Machine κ} {base : String}
    (hmade : scratchDirectory.run m = (.ok (Path.join base scratchName), m₁))
    (hscratch : m₁.OffersScratch base) (wanted : Wanted) (hwanted : wanted ≠ .status) :
    ∃ next, (prepareCapture wanted).run m =
      (.ok (wanted.capture base m₁.scratch), { m₁ with scratch := next }) := by
  have hpath : (scratchPath : Act κ String).run m = scratchPath.run m₁ := by
    unfold scratchPath
    rw [run_bind, run_bind, hmade, run_scratchDirectory hscratch.settings hscratch.stands]
  obtain ⟨next, hcapture⟩ := run_prepareCapture hscratch wanted
  refine ⟨next, ?_⟩
  rw [← hcapture]
  cases wanted with
  | status => exact absurd rfl hwanted
  | _ =>
      unfold prepareCapture
      rw [run_bind, run_bind, hpath]

/-- A run whose two outputs are wanted gives the text of what its program has written to each. -/
theorem resultOf_runBlocking_apart {writes : List (Bytes × Bytes)} {ending : Ending}
    {m m₁ : Machine (Actor (.started writes ending))} {base program : String} {target : Target}
    {argv arguments : List String} (hwords : target.words? = some (program, argv))
    (hmade : scratchDirectory.run m = (.ok (Path.join base scratchName), m₁))
    (hscratch : m₁.OffersScratch base) (hfiles : m₁.WritesToFiles)
    (hexpanded : m₁.disk.expanded argv = .ok arguments)
    (hnul : (program :: arguments).any Disk.hasNul = false) (hshown : ending.answer.IsShown) :
    resultOf (runBlocking { wanted := .streams, target }) m =
      .ok (.streams (ending.answer.exitCode = successCode)
        (String.ofList (decode (writes.map Prod.fst).flatten))
        (String.ofList (decode (writes.map Prod.snd).flatten))) := by
  obtain ⟨next, hcapture⟩ := run_prepareCapture_of_scratch hmade hscratch .streams (by decide)
  obtain ⟨places, hplaces⟩ := exists_places hscratch.stands hscratch.short
  have hnumbered := hscratch.numbered
  have hspare : ∀ n, n < 16 ^ 32 → m₁.disk.entryExists (scratchFile base n) = false →
      m₁.disk.Names (scratchFile base n) (places (scratchFile base n)) ∧
        m₁.disk.IsSpare (places (scratchFile base n)) := by
    intro n hn hfree
    obtain ⟨hnames, hnone, hparent⟩ := hplaces n hn hfree
    exact ⟨hnames, hnone, hparent, fun file hfile hlocation =>
      hfiles.there file hfile _ hlocation hnone⟩
  obtain ⟨hout, hfirst⟩ := hspare m₁.scratch (by omega) (hscratch.free 0 (by decide))
  obtain ⟨herr, hsecond⟩ := hspare (m₁.scratch + 1) hnumbered (hscratch.free 1 (by decide))
  have hprepare : (prepare { wanted := .streams, target }).run m =
      (.ok (.inr { wanted := .streams, program, argv
                   capture := .apart (scratchFile base m₁.scratch)
                     (scratchFile base (m₁.scratch + 1))
                   out := .path (scratchFile base m₁.scratch)
                   err := .path (scratchFile base (m₁.scratch + 1)) }),
        { m₁ with scratch := next }) := by
    unfold prepare
    dsimp only
    rw [hwords]
    dsimp only
    rw [run_bind, hcapture]
    rfl
  rw [resultOf, run_runBlocking, hprepare]
  exact resultOf_block_apart (m := { m₁ with scratch := next }) ⟨hfiles.there, hfiles.opened⟩ hout
    hfirst herr hsecond (ne_of_names_scratchFile hout herr) rfl rfl rfl hexpanded hnul hshown

/-- The two outputs of a run are told apart and as they are: each is the text of exactly the bytes
that the program has written to it.  There is one such text for any bytes, with a replacement
character for each sequence that is cut short or cannot go on and with unified line ends.  A text
without carriage returns is read back, and behind any bytes it is read as it is, unless it begins
with a line feed. -/
theorem captured_text_is_faithful {writes : List (Bytes × Bytes)} {ending : Ending}
    {m m₁ : Machine (Actor (.started writes ending))} {base program : String} {target : Target}
    {argv arguments : List String} (hwords : target.words? = some (program, argv))
    (hmade : scratchDirectory.run m = (.ok (Path.join base scratchName), m₁))
    (hscratch : m₁.OffersScratch base) (hfiles : m₁.WritesToFiles)
    (hexpanded : m₁.disk.expanded argv = .ok arguments)
    (hnul : (program :: arguments).any Disk.hasNul = false) (hshown : ending.answer.IsShown) :
    resultOf (runBlocking { wanted := .streams, target }) m =
        .ok (.streams (ending.answer.exitCode = successCode)
          (String.ofList (decode (writes.map Prod.fst).flatten))
          (String.ofList (decode (writes.map Prod.snd).flatten))) ∧
      (∀ bytes, ∃ text, (∀ reading, Decodes bytes reading ↔ reading = text) ∧
        decode bytes = unifyLineEnds text) ∧
      (∀ text, '\r' ∉ text → decode (encode text) = text) ∧
      ∀ bytes text, '\r' ∉ text → text.head? ≠ some '\n' →
        decode (bytes ++ encode text) = decode bytes ++ text := by
  refine ⟨resultOf_runBlocking_apart hwords hmade hscratch hfiles hexpanded hnul hshown,
    fun bytes => ⟨decodeUtf8 bytes, fun reading => decodes_iff, rfl⟩,
    fun text hreturn => decode_encode hreturn,
    fun bytes text hreturn hfeed => decode_append_encode bytes hreturn hfeed⟩

/-- A process that writes bytes which are no text. -/
def noisy : Conduct :=
  .started [([0x61, 0xff], [0xe2, 0x82]), ([0x0d, 0x0a], [0x0d])] (.exits 0)

/-- A machine with the entries of its directory for temporary files. -/
def noisyMachine (entries : Node.Entries) : Machine (Actor noisy) where
  disk :=
    { tree := .dir [("tmp", .dir entries none)] none
      cwd := .root }
  environment := []

theorem captured_text_is_faithful_noisy :
    (scratchDirectory : Act (Actor noisy) String).run (noisyMachine []) =
        (.ok "/tmp/.buildos", noisyMachine [(scratchName, .dir [] none)]) ∧
      resultOf (runBlocking { wanted := .streams, target := .program "x" [] }) (noisyMachine []) =
        .ok (.streams true "a\uFFFD\n" "\uFFFD\n") := by
  have hmade : (scratchDirectory : Act (Actor noisy) String).run (noisyMachine []) =
      (.ok (Path.join "/tmp" scratchName), noisyMachine [(scratchName, .dir [] none)]) := rfl
  have hscratch : (noisyMachine [(scratchName, .dir [] none)]).OffersScratch "/tmp" :=
    ⟨⟨_, rfl, rfl⟩, by decide, by decide, by decide, by decide⟩
  have hfiles : (noisyMachine [(scratchName, .dir [] none)]).WritesToFiles :=
    ⟨fun file hfile => absurd hfile List.not_mem_nil,
      fun actor hactor => absurd hactor List.not_mem_nil⟩
  have hwords : (Target.program "x" []).words? = some ("x", []) := rfl
  obtain ⟨hresult, -⟩ :=
    captured_text_is_faithful hwords hmade hscratch hfiles rfl (by decide) trivial
  exact ⟨hmade, hresult.trans rfl⟩

end Act

end BuildRunner
