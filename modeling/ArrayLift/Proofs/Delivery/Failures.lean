import ArrayLift.Proofs.Delivery.Separate

/-! Failing inputs of a batch. They are counted and reported, and change nothing else: the other inputs are delivered
as if the failing ones, and with strict options all behind the first of them, had not been named. -/
namespace ArrayLift

/-- Everything that is delivered to the sink can be written. -/
def Sink.Accepts (volume : Volume) (outputs : List (String × String)) : Sink → Prop
  | .stream _ => True
  | .combined path _ => ∃ content written, volume.write path content = .ok written
  | .separate directory => ∃ written, volume.writeIn directory outputs = .ok written

namespace Batch

open Machine

variable (options : Options)

/-- The output of a batch can be opened and takes everything that is delivered. -/
def Writable (machine : Machine) (outputs : List (String × String)) : Prop :=
  ∃ sink opened, Machine.run (openSink host options) machine = (.ok sink, opened) ∧
    sink.Accepts opened.volume outputs

/-- The inputs that are translated; with strict options only those before the first failure. -/
def translated (machine : Machine) (inputs : List String) : List String :=
  if options.strict then inputs.takeWhile fun path => (result options machine path).isOk
  else inputs.filter fun path => (result options machine path).isOk

/-- The failures that a batch comes to. With strict options the first one is the last. -/
def processedFailures (machine : Machine) (inputs : List String) : Nat :=
  let failing := inputs.countP fun path => !(result options machine path).isOk
  if options.strict then min 1 failing else failing

section
variable {options} {machine : Machine} {path : String} {rest : List String}

theorem processedFailures_ok {compiled : Compiled} (made : result options machine path = .ok compiled) :
    processedFailures options machine (path :: rest) = processedFailures options machine rest := by
  simp [processedFailures, made, Except.isOk, Except.toBool]

theorem processedFailures_error {error : FileError} (failed : result options machine path = .error error) :
    processedFailures options machine (path :: rest) =
      if options.strict then 1 else processedFailures options machine rest + 1 := by
  by_cases strict : options.strict <;> simp [processedFailures, failed, strict, Except.isOk, Except.toBool]

theorem processedFailures_ne_zero {inputs : List String} : processedFailures options machine inputs ≠ 0 ↔
    ∃ path ∈ inputs, ∃ error, result options machine path = .error error := by
  have failing (path : String) : (!(result options machine path).isOk) = true ↔
      ∃ error, result options machine path = .error error := by
    cases result options machine path <;> simp [Except.isOk, Except.toBool]
  have counted : processedFailures options machine inputs ≠ 0 ↔
      0 < inputs.countP fun path => !(result options machine path).isOk := by
    simp only [processedFailures]
    split <;> omega
  simp only [counted, List.countP_pos_iff, failing]

theorem map_fst_translations (machine : Machine) (inputs : List String) :
    (translations options machine inputs).map Prod.fst = translated options machine inputs := by
  induction inputs with
  | nil => simp [translations, translated]
  | cons path rest ih =>
    cases made : result options machine path <;> by_cases strict : options.strict <;>
      simp_all [translations, translated, Except.isOk, Except.toBool]

end

/-! Settling. -/

theorem onFiles_settle (palette : Diagnostic.Palette) (sink : Sink) (result : Except FileError Compiled) :
    OnFiles (settle host options palette sink result) := by
  cases result with
  | error error => exact .pure _
  | ok compiled =>
    refine (OnFiles.complain _).bind fun _ => ?_
    cases compiled.code with
    | none => exact .pure _
    | some code =>
      cases sink with
      | stream started => exact (OnFiles.print _).bind fun _ => .pure _
      | combined path text => exact .pure _
      | separate directory =>
        refine (OnFiles.write _ _).bind fun written => ?_
        cases written with
        | error fault => exact .pure _
        | ok _ =>
          simp only
          split
          · exact (OnFiles.print _).bind fun _ => .pure _
          · exact .pure _

theorem onFiles_openSink : OnFiles (openSink host options) := by
  unfold openSink
  split
  · exact .pure _
  · refine (OnFiles.createReversed _ _).bind fun made => ?_
    cases made <;> exact .pure _

theorem onFiles_closeSink (sink : Sink) : OnFiles (closeSink host sink) := by
  cases sink with
  | stream started => exact .pure _
  | separate directory => exact .pure _
  | combined path text =>
    refine (OnFiles.write path text).bind fun written => ?_
    cases written <;> exact .pure _

variable {options}

/-- What a sink accepts is delivered, and the sink accepts the rest. -/
theorem settle_accepted (palette : Diagnostic.Palette) {sink : Sink} {compiled : Compiled} {code : String}
    (coded : compiled.code = some code) {machine : Machine} {outputs : List (String × String)}
    (accepts : sink.Accepts machine.volume
      ((Path.outputName compiled.source, compiled.text options true code) :: outputs)) :
    ∃ after behind, Machine.run (settle host options palette sink (.ok compiled)) machine = (.ok after, behind) ∧
      after.Accepts behind.volume outputs := by
  cases sink with
  | stream started =>
    simp only [settle, coded, deliver, run_bind, run_complain, run_print, run_pure]
    exact ⟨_, _, rfl, trivial⟩
  | combined path text =>
    simp only [settle, coded, deliver, run_bind, run_complain, run_pure]
    exact ⟨_, _, rfl, accepts⟩
  | separate directory =>
    obtain ⟨written, all⟩ := accepts
    obtain ⟨volume, here, all⟩ := Volume.writeIn_cons_iff.mp all
    obtain ⟨behind, settled, same⟩ := run_settle_separate palette coded here
    exact ⟨_, behind, settled, written, same ▸ all⟩

/-- A sink that accepts everything can be closed. -/
theorem closeSink_accepted {sink : Sink} {machine : Machine} (accepts : sink.Accepts machine.volume []) :
    (Machine.run (closeSink host sink) machine).1 = .ok () := by
  cases sink with
  | stream started => rfl
  | separate directory => rfl
  | combined path text =>
    obtain ⟨content, written, possible⟩ := accepts
    obtain ⟨changed, here⟩ := Volume.write_other possible text.toUTF8
    simp only [closeSink, run_bind, run_write, here, run_pure]

/-- Two machines settle results, the one those of all inputs and the other those of the translated ones alone. They
deliver the same, and only the one counts failures. -/
theorem settleAll_translated (goal : options.goal ≠ .resolveOnly) (palette : Diagnostic.Palette) (start : Machine) :
    ∀ (inputs : List String) {sink : Sink} (failures : Nat) {one other : Machine}, one.volume = other.volume →
      sink.Accepts one.volume ((translations options start inputs).map (outputOf options)) →
      ∃ last after behind,
        Machine.run (settleAll host options palette (inputs.map (result options start)) sink failures) one =
          ((last, failures + processedFailures options start inputs), after) ∧
        Machine.run (settleAll host options palette
            (((translations options start inputs).map Prod.fst).map (result options start)) sink 0) other =
          ((last, 0), behind) ∧
        Alike one other after behind ∧ last.Accepts after.volume []
  | [], sink, failures, one, other, same, accepts => by
    have none : processedFailures options start [] = 0 := by simp [processedFailures]
    rw [none]
    exact ⟨sink, one, other, rfl, rfl, .start same, accepts⟩
  | path :: rest, sink, failures, one, other, same, accepts => by
    rw [translations] at accepts ⊢
    rw [List.map_cons]
    cases made : result options start path with
    | error error =>
      -- The failure is counted; nothing is delivered.
      have reported : Alike one other { one with errors := one.errors ++ error.report } other :=
        ⟨same, (Alike.start same).printed⟩
      rw [processedFailures_error made]
      simp only [made] at accepts
      simp only [settleAll, settle, run_bind, run_pure, run_complain]
      by_cases strict : options.strict
      · simp only [strict, if_true] at accepts ⊢
        exact ⟨_, _, other, rfl, rfl, reported, accepts⟩
      · simp only [if_neg strict] at accepts ⊢
        obtain ⟨last, after, behind, whole, own, alike, accepts⟩ :=
          settleAll_translated goal palette start rest (failures + 1) reported.volume accepts
        rw [Nat.add_assoc, Nat.add_comm 1] at whole
        exact ⟨last, after, behind, whole, own, reported.trans alike, accepts⟩
    | ok compiled =>
      obtain ⟨source, none⟩ := source_and_code_of_result made
      obtain ⟨code, coded⟩ := Option.ne_none_iff_exists'.mp (mt none.mp goal)
      simp only [made, List.map_cons, outputOf, coded, Option.getD_some, ← source] at accepts ⊢
      obtain ⟨next, between, settled, accepts⟩ := settle_accepted palette coded accepts
      -- The same is delivered on both machines.
      obtain ⟨answers, alike⟩ := onFiles_settle options palette sink (.ok compiled) one other same
      rw [settled] at answers alike
      obtain ⟨last, after, behind, whole, own, later, accepts⟩ :=
        settleAll_translated goal palette start rest failures alike.volume accepts
      refine ⟨last, after, behind, ?_, ?_, alike.trans later, accepts⟩
      · rw [processedFailures_ok made]
        simp only [settleAll, run_bind, settled]
        exact whole
      · simp only [settleAll, run_bind, ← answers]
        exact own

theorem run_announceAll_quiet (quiet : options.verbose = false) (machine : Machine) :
    ∀ (position : Nat) (paths : List String),
      Machine.run (announceAll host options position paths) machine = ((), machine)
  | _, [] => rfl
  | position, path :: rest => by
    simp only [announceAll, announce, quiet, Bool.false_eq_true, if_false, run_bind, run_pure]
    exact run_announceAll_quiet quiet machine (position + 1) rest

/-- If everything can be written, a batch ends like that of the translated inputs alone, up to the count of failures. -/
theorem conclude_translated (goal : options.goal ≠ .resolveOnly) {machine one other : Machine} {inputs : List String}
    (writable : Writable options machine ((translations options machine inputs).map (outputOf options)))
    (first : one.volume = machine.volume) (second : other.volume = machine.volume) :
    let failures := processedFailures options machine inputs
    let whole := Machine.run (conclude options (inputs.map (result options machine))) one
    let own := Machine.run (conclude options ((translated options machine inputs).map (result options machine))) other
    own.1 = .ok 0 ∧ whole.1 = .ok (if failures = 0 then 0 else 1) ∧ whole.2.volume = own.2.volume ∧
      ∃ delivered, own.2.output = other.output ++ delivered ∧
        whole.2.output = one.output ++ delivered ++
          if failures = 0 then "" else "Errors: " ++ toString failures ++ "\n" := by
  intro failures whole own
  obtain ⟨sink, opened, opening, accepts⟩ := writable
  obtain ⟨here, files⟩ := onFiles_openSink options one machine first
  obtain ⟨alike, begun⟩ := onFiles_openSink options one other (first.trans second.symm)
  rw [opening] at here files
  rw [here] at alike
  rw [← files.volume] at accepts
  obtain ⟨last, after, behind, settled, alone, delivering, accepts⟩ :=
    settleAll_translated goal .plain machine inputs 0 begun.volume accepts
  rw [map_fst_translations, Nat.zero_add] at *
  have closed := closeSink_accepted accepts
  obtain ⟨closes, closing⟩ := onFiles_closeSink last after behind delivering.volume
  rw [closed] at closes
  obtain ⟨delivered, left, right⟩ := ((begun.trans delivering).trans closing).printed
  have ownRun : own = (.ok 0, (Machine.run (closeSink host last) behind).2) := by
    simp only [own, conclude, run_bind, ← alike, alone, ← closes, run_pure, if_true]
  have wholeRun : whole = Machine.run (if failures = 0 then pure (.ok 0) else do
      host.print ("Errors: " ++ toString failures ++ "\n")
      pure (.ok 1)) (Machine.run (closeSink host last) after).2 := by
    simp only [whole, conclude, run_bind, here, settled, closed]
    rfl
  rw [ownRun, wholeRun]
  by_cases none : failures = 0
  · simp only [none, if_true, run_pure, String.append_empty]
    exact ⟨trivial, trivial, closing.volume, delivered, right, left⟩
  · simp only [none, if_false, run_bind, run_print, run_pure, left]
    exact ⟨trivial, trivial, closing.volume, delivered, right, rfl⟩

/-- The translated inputs are files of the command line that are compiled. -/
theorem selected_translated (machine : Machine) (paths : List String) :
    selected options (translated options machine (selected options paths)) =
      translated options machine (selected options paths) := by
  have chosen : ∀ path ∈ selected options paths, Path.select path options.exclude = .compile :=
    fun path member => by simpa using (List.mem_filter.mp member).2
  refine List.filter_eq_self.mpr fun path member => ?_
  have inside : path ∈ selected options paths := by
    unfold translated at member
    split at member
    · exact (List.takeWhile_sublist _).subset member
    · exact (List.filter_sublist).subset member
  simpa using chosen path inside

/-- If everything can be written, failing inputs leave no trace but their count. A batch ends with the files behind the
batch of its translated inputs alone, with strict options of those before the first failure, and prints what that one
delivers. It ends with a failure exactly if an input fails, and then the count of the failures it has come to is
printed last; the batch of the translated inputs ends well. -/
theorem failures_leave_no_trace {paths : List String} {machine : Machine} (goal : options.goal ≠ .resolveOnly)
    (writable : Writable options machine
      ((translations options machine (selected options paths)).map (outputOf options))) :
    let inputs := selected options paths
    let others := translated options machine inputs
    let failures := processedFailures options machine inputs
    let whole := Machine.run (Batch.run host options paths) machine
    let own := Machine.run (Batch.run host options others) machine
    let announced (paths : List String) := (Machine.run (announceAll host options 1 paths) machine).2.output
    whole.2.volume = own.2.volume ∧ own.1 = .ok 0 ∧
      (whole.1 = .ok 0 ∨ whole.1 = .ok 1) ∧
      (whole.1 = .ok 1 ↔ ∃ path ∈ inputs, ∃ error, result options machine path = .error error) ∧
      ∃ delivered, own.2.output = announced others ++ delivered ∧
        whole.2.output = announced paths ++ delivered ++
          if failures = 0 then "" else "Errors: " ++ toString failures ++ "\n" := by
  intro inputs others failures whole own announced
  have first := still_announceAll options 1 paths machine
  have second := still_announceAll options 1 others machine
  obtain ⟨ended, status, files, printed⟩ := conclude_translated goal writable first second
  have wholeRun : whole = _ := run_conclude options paths machine
  have ownRun : own = _ := run_conclude options others machine
  rw [results, selected_translated] at ownRun
  rw [← ownRun] at ended files printed
  rw [results] at wholeRun
  rw [← wholeRun] at status files printed
  refine ⟨files, ended, ?_, ?_, printed⟩
  · rw [status]
    split
    · exact .inl rfl
    · exact .inr rfl
  · rw [status, ← processedFailures_ne_zero]
    split
    · rename_i none
      exact iff_of_false (by simp) (not_not_intro none)
    · rename_i some
      exact iff_of_true rfl some

/-- A batch to the standard output, without the header. -/
def printing : Options := { output := some streamMark, header := false }

/-- A missing input between two others, all of them printed. -/
theorem failures_leave_no_trace_missing :
    let before := machineWithTwo "a/x.m.json" "b/y.json"
    let paths := ["a/x.m.json", "none.m.json", "b/y.json"]
    let whole := Machine.run (Batch.run host printing paths) before
    let own := Machine.run (Batch.run host printing ["a/x.m.json", "b/y.json"]) before
    whole.2.volume = own.2.volume ∧ whole.1 = .ok 1 ∧ own.1 = .ok 0 ∧
      ∃ delivered, own.2.output = delivered ∧ whole.2.output = delivered ++ "Errors: 1\n" := by
  intro before paths whole own
  have first : result printing before "a/x.m.json" = .ok ⟨"x.m", some "pass\n", []⟩ := result_pass rfl rfl
  have missing : result printing before "none.m.json" = .error (.inaccessible "none.m.json" .missing) :=
    result_unread rfl
  have last : result printing before "b/y.json" = .ok ⟨"y", some "break\n", []⟩ := result_break rfl rfl
  have chosen : selected printing paths = paths := by decide
  have lax : printing.strict = false := rfl
  have others : translated printing before (selected printing paths) = ["a/x.m.json", "b/y.json"] := by
    rw [chosen]
    simp [paths, translated, lax, first, missing, last, Except.isOk, Except.toBool]
  have failures : processedFailures printing before (selected printing paths) = 1 := by
    rw [chosen]
    simp [paths, processedFailures, lax, first, missing, last, Except.isOk, Except.toBool]
  have silent (paths : List String) : (Machine.run (announceAll host printing 1 paths) before).2.output = "" := by
    rw [run_announceAll_quiet rfl]
    rfl
  have isolated := @failures_leave_no_trace printing paths before (by decide) ⟨.stream false, before, rfl, trivial⟩
  simp only [others, failures, silent] at isolated
  obtain ⟨files, ended, -, failing, delivered, alone, all⟩ := isolated
  have line : (if 1 = 0 then "" else "Errors: " ++ toString 1 ++ "\n") = "Errors: 1\n" := by decide
  rw [line, String.empty_append] at all
  rw [String.empty_append] at alone
  have status := failing.mpr (processedFailures_ne_zero.mp (by rw [failures]; decide))
  simp only [whole, own]
  exact ⟨files, status, ended, delivered, alone, all⟩

end Batch
end ArrayLift
