import ArrayLift.Proofs.Delivery.Failures
import ArrayLift.Proofs.Layout.Ownership
import ArrayLift.Proofs.Layout.Reading

/-! Batches to the standard output and to one file. What is printed in the one case is what is written in the other. The
standard output remembers whether it has been started, and the file goes by its text being empty; both come to the same,
since no program has an empty text. -/
namespace ArrayLift

namespace Code

variable {words : ReservedWords}

theorem headerLines_ne_nil (name : Ident) (params : List Ident) (level : Nat) :
    Yields (· ≠ []) (headerLines words name params level) :=
  .bind .trivial fun _ _ => .bind .trivial fun _ _ => .pure (by simp)

/-- Every statement has a line. -/
theorem stmtLines_ne_nil (statement : Stmt) (level : Nat) (keyword : String) :
    Yields (· ≠ []) (stmtLines words statement level keyword) := by
  match statement with
  | .expression .. | .assign .. | .return _ (some _) => exact .bind .trivial fun _ _ => .pure (by simp)
  | .branch _ _ _ none => exact .bind .trivial fun _ _ => .bind .trivial fun _ _ => .pure (by simp)
  | .branch _ _ _ (some elseBody) =>
    rw [stmtLines_else]
    exact .bind .trivial fun _ _ => .bind .trivial fun _ _ => .bind .trivial fun _ _ => .pure (by simp)
  | .forEach .. => exact .bind .trivial fun _ _ => .bind .trivial fun _ _ => .bind .trivial fun _ _ => .pure (by simp)
  | .attempt .. =>
    rw [stmtLines_attempt]
    exact .bind .trivial fun _ _ => .bind .trivial fun _ _ => .bind .trivial fun _ _ => .pure (by simp)
  | .whileLoop .. => exact .bind .trivial fun _ _ => .bind .trivial fun _ _ => .pure (by simp)
  | .function _ name params _ =>
    exact .bind (headerLines_ne_nil name params level) fun _ some => .bind .trivial fun _ _ => .pure (by simp [some])
  | .declare _ _ names =>
    rw [stmtLines]
    split
    · exact .error _
    · exact .bind .trivial fun _ _ => .pure (by simp)
  | .return _ none => exact .pure (by simp)
  | .word _ word => cases word <;> exact .pure (by simp)
  | .comment .. => exact .pure (by simp)

/-- Every list of statements has a line, be it only the one that does nothing. -/
theorem blockLines_ne_nil (statements : List Stmt) (level : Nat) :
    Yields (· ≠ []) (blockLines words statements level) := by
  cases statements with
  | nil => exact .pure (by simp [closed])
  | cons statement rest =>
    have some : Yields (· ≠ []) (sectionLines words (statement :: rest) level level false) := by
      rw [sectionLines]
      split
      all_goals
        refine .bind (stmtLines_ne_nil statement level "if") fun _ some => ?_
        exact .bind .trivial fun _ _ => .pure (by simp [some])
    refine .bind some fun lines some => .pure ?_
    unfold closed
    split <;> simp [some]

/-- No program has an empty text: its last line is ended. -/
theorem generate_ends (settings : Settings) (program : Program) :
    Yields (fun code => ∃ start, code = start ++ "\n") (generate settings program) :=
  .bind (blockLines_ne_nil program.statements 0) fun _ some => .pure (Line.layout_ends settings some)

end Code

open Code

/-- A text that a line feed ends. -/
def Ended (code : String) : Prop :=
  ∃ start, code = start ++ "\n"

theorem Program.ended_of_compileFor {options : Options} {source : String} {program : Program} {compiled : Compiled}
    (made : program.compileFor options source = .ok compiled) {code : String} (coded : compiled.code = some code) :
    Ended code := by
  rw [Program.compileFor] at made
  cases goal : options.goal with
  | full =>
    simp only [goal, Program.compile] at made
    cases checks : (program.checked (options.settingsFor source)).2 with
    | error cause => simp [checks, bind, Except.bind] at made
    | ok resolution =>
      cases generated : generate (options.settingsFor source) (program.checked (options.settingsFor source)).1 with
      | error fault => simp [checks, generated, bind, Except.bind] at made
      | ok text =>
        simp only [checks, generated, bind, Except.bind, Except.ok.injEq] at made
        obtain rfl : text = code := by simpa [← made] using coded
        exact generate_ends _ _ _ generated
  | unresolved =>
    simp only [goal, Program.compileAsIs] at made
    cases generated : generate (options.settingsFor source) program with
    | error fault => simp [generated, bind, Except.bind] at made
    | ok text =>
      simp only [generated, bind, Except.bind, Except.ok.injEq] at made
      obtain rfl : text = code := by simpa [← made] using coded
      exact generate_ends _ _ _ generated
  | resolveOnly =>
    rw [← Program.compileFor] at made
    rw [(Batch.source_and_code made).2.mpr goal] at coded
    cases coded

namespace Batch

open Machine

variable {options : Options}

theorem ended_of_result {machine : Machine} {path : String} {compiled : Compiled}
    (made : result options machine path = .ok compiled) {code : String} (coded : compiled.code = some code) :
    Ended code := by
  simp only [result, compileFile, run_bind] at made
  split at made
  · cases made
  · obtain ⟨program, compiles⟩ := compileFor_of_compileContent made
    exact Program.ended_of_compileFor compiles coded

theorem text_ne_empty (options : Options) (compiled : Compiled) {code : String} (ended : Ended code) (first : Bool) :
    (compiled.text options first code).isEmpty = false := by
  obtain ⟨start, rfl⟩ := ended
  simp [Compiled.text]

variable (options)

/-- The texts of results one behind the other, in an output to which nothing or something has been written. -/
def textsFrom : (first : Bool) → List Compiled → String
  | _, [] => ""
  | first, compiled :: rest => compiled.text options first (compiled.code.getD "") ++ textsFrom false rest

/-- What a batch delivers to one output: the code of the translated inputs in their order, the first behind the prologue
where headers are wanted, and every later one behind a blank line and its name. -/
def delivered (machine : Machine) (inputs : List String) : String :=
  match (translations options machine inputs).map Prod.snd with
  | [] => ""
  | first :: later =>
    (if options.header then prologue options.encoding options.runtimeModule first.source else "")
      ++ first.code.getD ""
      ++ String.join (later.map fun compiled => "\n# " ++ compiled.source ++ "\n" ++ compiled.code.getD "")

theorem textsFrom_false (results : List Compiled) :
    textsFrom options false results =
      String.join (results.map fun compiled => "\n# " ++ compiled.source ++ "\n" ++ compiled.code.getD "") := by
  induction results with
  | nil => rfl
  | cons compiled rest ih =>
    rw [textsFrom, ih, List.map_cons, String.join_cons]
    simp [Compiled.text, String.append_assoc]

theorem textsFrom_true (machine : Machine) (inputs : List String) :
    textsFrom options true ((translations options machine inputs).map Prod.snd) = delivered options machine inputs := by
  rw [delivered]
  cases (translations options machine inputs).map Prod.snd with
  | nil => rfl
  | cons first later =>
    rw [textsFrom, textsFrom_false]
    simp [Compiled.text]

variable {options}

/-- What a translated input leaves of its diagnostics. -/
def reportOf (palette : Diagnostic.Palette) (compiled : Compiled) : String :=
  String.join (compiled.diagnostics.map (Diagnostic.report compiled.source palette))

section
variable {compiled : Compiled} {code : String} (coded : compiled.code = some code) (palette : Diagnostic.Palette)
include coded

/-- A translated input is printed. -/
theorem settle_stream (started : Bool) (machine : Machine) :
    Machine.run (settle host options palette (.stream started) (.ok compiled)) machine =
      (.ok (.stream true),
        { machine with
          output := machine.output ++ compiled.text options (!started) code
          errors := machine.errors ++ reportOf palette compiled }) := by
  simp only [settle, coded, deliver, run_bind, run_complain, run_print, run_pure, reportOf]

/-- A translated input is put behind the text of the file. -/
theorem settle_combined (file text : String) (machine : Machine) :
    Machine.run (settle host options palette (.combined file text) (.ok compiled)) machine =
      (.ok (.combined file (text ++ compiled.text options text.isEmpty code)),
        { machine with errors := machine.errors ++ reportOf palette compiled }) := by
  simp only [settle, coded, deliver, run_bind, run_complain, run_pure, reportOf]

end

/-- Results settled to the standard output, which is started, and to a file, whose text is begun. What is printed in the
one case is what the text grows by in the other. -/
theorem settleAll_delivered (goal : options.goal ≠ .resolveOnly) (palette : Diagnostic.Palette) (start : Machine)
    (file : String) : ∀ (inputs : List String) (text : String) (failures : Nat) (one other : Machine),
      let delivered := textsFrom options text.isEmpty ((translations options start inputs).map Prod.snd)
      let results := inputs.map (result options start)
      let failing := failures + processedFailures options start inputs
      ∃ reported complained,
        Machine.run (settleAll host options palette results (.stream (!text.isEmpty)) failures) one =
          ((.stream (!(text ++ delivered).isEmpty), failing),
            { one with output := one.output ++ delivered, errors := reported }) ∧
        Machine.run (settleAll host options palette results (.combined file text) failures) other =
          ((.combined file (text ++ delivered), failing), { other with errors := complained })
  | [], text, failures, one, other => by
    refine ⟨one.errors, other.errors, ?_, ?_⟩ <;> simp [settleAll, translations, textsFrom, processedFailures]
  | path :: rest, text, failures, one, other => by
    intro delivered results failing
    cases made : result options start path with
    | error error =>
      by_cases strict : options.strict
      · -- The first failure is the last result that counts.
        refine ⟨one.errors ++ error.report, other.errors ++ error.report, ?_, ?_⟩ <;>
          simp [results, delivered, failing, settleAll, settle, translations, textsFrom, made, strict,
            processedFailures_error made]
      · obtain ⟨reported, complained, printed, written⟩ := settleAll_delivered goal palette start file rest text
          (failures + 1) { one with errors := one.errors ++ error.report }
          { other with errors := other.errors ++ error.report }
        have same : translations options start (path :: rest) = translations options start rest := by
          simp [translations, made, strict]
        have more : failing = failures + 1 + processedFailures options start rest := by
          simp only [failing, processedFailures_error made, if_neg strict]
          omega
        refine ⟨reported, complained, ?_, ?_⟩
        · simp only [results, delivered, same, more, List.map_cons, settleAll, settle, made, run_bind, run_pure,
            run_complain, if_neg strict]
          exact printed
        · simp only [results, delivered, same, more, List.map_cons, settleAll, settle, made, run_bind, run_pure,
            run_complain, if_neg strict]
          exact written
    | ok compiled =>
      obtain ⟨-, none⟩ := source_and_code_of_result made
      obtain ⟨code, coded⟩ := Option.ne_none_iff_exists'.mp (mt none.mp goal)
      have ended := ended_of_result made coded
      let piece := compiled.text options text.isEmpty code
      -- A result that is settled leaves neither output empty.
      have begun : (text ++ piece).isEmpty = false := by
        have written := text_ne_empty options compiled ended text.isEmpty
        simp_all [piece]
      obtain ⟨reported, complained, printed, written⟩ := settleAll_delivered goal palette start file rest
        (text ++ piece) failures
        { one with output := one.output ++ piece, errors := one.errors ++ reportOf palette compiled }
        { other with errors := other.errors ++ reportOf palette compiled }
      have more : delivered = piece ++ textsFrom options false ((translations options start rest).map Prod.snd) := by
        simp only [delivered, translations, made, List.map_cons, textsFrom, coded, Option.getD_some, piece]
      have same : failing = failures + processedFailures options start rest := by
        simp only [failing, processedFailures_ok made]
      simp only [begun, Bool.not_false] at printed written
      refine ⟨reported, complained, ?_, ?_⟩
      · simp only [results, more, same, List.map_cons, made, settleAll, run_bind, settle_stream coded, Bool.not_not,
          ← String.append_assoc]
        exact printed
      · simp only [results, more, same, List.map_cons, made, settleAll, run_bind, settle_combined coded,
          ← String.append_assoc]
        exact written

section
variable (options) (output : Option String)

theorem settleAll_withOutput (palette : Diagnostic.Palette) (results : List (Except FileError Compiled)) (sink : Sink)
    (failures : Nat) : settleAll host { options with output } palette results sink failures =
      settleAll host options palette results sink failures := by
  induction results generalizing sink failures with
  | nil => rfl
  | cons result rest ih =>
    simp only [settleAll, ih]
    rfl

end

/-- A translated input is named for its source, and its code ends with a line feed. -/
theorem ended_of_mem_translations (goal : options.goal ≠ .resolveOnly) {machine : Machine} {inputs : List String}
    {translation : String × Compiled} (member : translation ∈ translations options machine inputs) :
    translation.2.source = Path.sourceName translation.1 ∧ ∃ code, translation.2.code = some code ∧ Ended code := by
  obtain ⟨before, behind, -, made, -⟩ := mem_translations_iff.mp member
  obtain ⟨source, none⟩ := source_and_code_of_result made
  obtain ⟨code, coded⟩ := Option.ne_none_iff_exists'.mp (mt none.mp goal)
  exact ⟨source, code, coded, ended_of_result made coded⟩

/-- The last line of a batch with failures. -/
def failureLine (failures : Nat) : String :=
  if failures = 0 then "" else "Errors: " ++ toString failures ++ "\n"

theorem run_summary (failures : Nat) (machine : Machine) :
    Machine.run (if failures = 0 then pure (.ok 0) else do
        host.print ("Errors: " ++ toString failures ++ "\n")
        pure (.ok 1) : StateM Machine (Except String Nat)) machine =
      (.ok (if failures = 0 then 0 else 1), { machine with output := machine.output ++ failureLine failures }) := by
  unfold failureLine
  split
  · simp
  · simp only [run_bind, run_print, run_pure]

section
variable (machine start : Machine) (inputs : List String) (goal : options.goal ≠ .resolveOnly)
include goal

/-- What a batch to the standard output comes to. -/
theorem conclude_stream :
    let ended := Machine.run (conclude { options with output := some streamMark } (inputs.map (result options start)))
      machine
    ended.1 = .ok (if processedFailures options start inputs = 0 then 0 else 1) ∧
      ended.2.output = machine.output ++ delivered options start inputs ++
        failureLine (processedFailures options start inputs) := by
  intro ended
  obtain ⟨reported, -, printed, -⟩ := settleAll_delivered goal .plain start "" inputs "" 0 machine machine
  have opening : Machine.run (openSink host { options with output := some streamMark }) machine =
      (.ok (.stream false), machine) := rfl
  have nothing : "".isEmpty = true := rfl
  simp only [nothing, Bool.not_true, textsFrom_true, String.empty_append, Nat.zero_add] at printed
  simp only [ended, conclude, run_bind, opening, settleAll_withOutput, printed, closeSink, run_pure, run_summary,
    and_self]

/-- What a batch to one file comes to, if the file can be written. -/
theorem conclude_combined {file : String} (different : file ≠ streamMark)
    (writable : ∃ content written, machine.volume.write file content = .ok written) :
    let ended := Machine.run (conclude { options with output := some file } (inputs.map (result options start))) machine
    ended.1 = .ok (if processedFailures options start inputs = 0 then 0 else 1) ∧
      ended.2.volume.entry file = .ok (.file (delivered options start inputs).toUTF8) ∧
      ended.2.output = machine.output ++ failureLine (processedFailures options start inputs) := by
  intro ended
  obtain ⟨-, complained, -, settled⟩ := settleAll_delivered goal .plain start file inputs "" 0 machine machine
  have opening : Machine.run (openSink host { options with output := some file }) machine =
      (.ok (.combined file ""), machine) := by
    simp only [openSink, if_neg different, run_pure]
  obtain ⟨content, written, possible⟩ := writable
  obtain ⟨changed, here⟩ := Volume.write_other possible (delivered options start inputs).toUTF8
  have nothing : "".isEmpty = true := rfl
  simp only [nothing, textsFrom_true, String.empty_append, Nat.zero_add] at settled
  simp only [ended, conclude, run_bind, opening, settleAll_withOutput, settled, closeSink, run_write, here, run_pure,
    run_summary, Volume.entry_write here, and_self]

end

/-- The standard output and one file for all. What is printed in the one case is what is written in the other, and
behind it is the count of failures. It is the code of the translated inputs, with strict options of those before the
first failure: the first behind the prologue, if there are headers, and every other one behind an empty line and the
line of its name. -/
theorem printed_eq_written {paths : List String} {machine : Machine} {file : String} (quiet : options.verbose = false)
    (goal : options.goal ≠ .resolveOnly) (different : file ≠ streamMark)
    (writable : ∃ content written, machine.volume.write file content = .ok written) :
    let inputs := selected options paths
    let code := delivered options machine inputs
    let failures := processedFailures options machine inputs
    let toStream := Machine.run (Batch.run host { options with output := some streamMark } paths) machine
    let toFile := Machine.run (Batch.run host { options with output := some file } paths) machine
    toStream.1 = .ok (if failures = 0 then 0 else 1) ∧ toFile.1 = toStream.1 ∧
      toStream.2.output = machine.output ++ code ++ failureLine failures ∧
      toFile.2.volume.entry file = .ok (.file code.toUTF8) ∧
      toFile.2.output = machine.output ++ failureLine failures ∧
      (translations options machine inputs).map Prod.fst = translated options machine inputs ∧
      ∀ translation ∈ translations options machine inputs,
        translation.2.source = Path.sourceName translation.1 ∧ ∃ text, translation.2.code = some text ∧ Ended text := by
  intro inputs code failures toStream toFile
  have stream : toStream = _ := run_conclude { options with output := some streamMark } paths machine
  have combined : toFile = _ := run_conclude { options with output := some file } paths machine
  have silent (output : Option String) :
      Machine.run (announceAll host { options with output } 1 paths) machine = ((), machine) :=
    @run_announceAll_quiet { options with output } quiet machine 1 paths
  rw [silent] at stream combined
  obtain ⟨ended, printed⟩ := conclude_stream machine machine inputs goal
  obtain ⟨closed, written, counted⟩ :=
    conclude_combined machine machine inputs goal different writable
  refine ⟨?_, ?_, ?_, ?_, ?_, map_fst_translations machine inputs, fun _ => ended_of_mem_translations goal⟩
  · rw [stream]
    exact ended
  · rw [stream, combined]
    exact closed.trans ended.symm
  · rw [stream]
    exact printed
  · rw [combined]
    exact written
  · rw [combined]
    exact counted

/-- Options without the header, which stop at the first failure or do not. -/
def headless (strict : Bool) : Options := { header := false, strict }

/-- A missing input between two others, printed and written. -/
theorem printed_eq_written_missing :
    let before := machineWithTwo "a/x.m.json" "b/y.json"
    let paths := ["a/x.m.json", "none.m.json", "b/y.json"]
    let toStream := Machine.run (Batch.run host { headless false with output := some streamMark } paths) before
    let toFile := Machine.run (Batch.run host { headless false with output := some "out.py" } paths) before
    toStream.2.output = "pass\n\n# y\nbreak\nErrors: 1\n" ∧
      toFile.2.volume.entry "out.py" = .ok (.file "pass\n\n# y\nbreak\n".toUTF8) ∧ toFile.2.output = "Errors: 1\n" := by
  intro before paths toStream toFile
  have writable := exists_ok (before.volume.write "out.py" "".toUTF8) (by decide)
  have outputs := @printed_eq_written (headless false) paths before "out.py" rfl (by decide) (by decide)
    ⟨_, writable⟩
  have chosen : selected (headless false) paths = paths := by decide
  have lax : (headless false).strict = false := rfl
  have first : result (headless false) before "a/x.m.json" = .ok ⟨"x.m", some "pass\n", []⟩ := result_pass rfl rfl
  have last : result (headless false) before "b/y.json" = .ok ⟨"y", some "break\n", []⟩ := result_break rfl rfl
  have missing : result (headless false) before "none.m.json" = .error (.inaccessible "none.m.json" .missing) :=
    result_unread rfl
  have code : delivered (headless false) before (selected (headless false) paths) = "pass\n\n# y\nbreak\n" := by
    have inputs : translations (headless false) before paths =
        [("a/x.m.json", ⟨"x.m", some "pass\n", []⟩), ("b/y.json", ⟨"y", some "break\n", []⟩)] := by
      simp [paths, translations, lax, first, missing, last]
    rw [chosen, delivered, inputs]
    decide
  have line : failureLine (processedFailures (headless false) before (selected (headless false) paths)) =
      "Errors: 1\n" := by
    have failures : processedFailures (headless false) before paths = 1 := by
      simp [paths, processedFailures, lax, first, missing, last, Except.isOk, Except.toBool]
    rw [chosen, failures]
    decide
  have silent : before.output = "" := rfl
  simp only [code, line, silent, String.empty_append] at outputs
  obtain ⟨-, -, printed, written, counted, -⟩ := outputs
  have whole : "pass\n\n# y\nbreak\n" ++ "Errors: 1\n" = "pass\n\n# y\nbreak\nErrors: 1\n" := by decide
  simp only [toStream, toFile, printed, written, counted, whole, and_self]

/-- With strict options the input behind the missing one, which has a translation, is in neither output. -/
theorem printed_ne_translations :
    let before := machineWithTwo "a/x.m.json" "b/y.json"
    let paths := ["a/x.m.json", "none.m.json", "b/y.json"]
    let toStream := Machine.run (Batch.run host { headless true with output := some streamMark } paths) before
    let toFile := Machine.run (Batch.run host { headless true with output := some "out.py" } paths) before
    let all := textsFrom (headless true) true (paths.filterMap fun path => (result (headless true) before path).toOption)
    all = "pass\n\n# y\nbreak\n" ∧ toStream.2.output = "pass\nErrors: 1\n" ∧
      toFile.2.volume.content? ["out.py"] = some "pass\n".toUTF8 ∧ toStream.2.output ≠ all ++ failureLine 1 := by
  intro before paths toStream toFile all
  have whole : all = "pass\n\n# y\nbreak\n" := by decide +kernel
  have printed : toStream.2.output = "pass\nErrors: 1\n" := by decide +kernel
  refine ⟨whole, printed, by decide +kernel, ?_⟩
  rw [whole, printed]
  decide

end Batch
end ArrayLift
