import ArrayLift.Proofs.Delivery.Frame

/-! Batches with an output of its own for every file. The name of an output forgets the directory of its input and
part of its extension, and of outputs with one name the last one stays. -/
namespace ArrayLift

namespace Volume

/-- Write files into a directory one after the other; every write must succeed. -/
def writeIn (directory : String) : Volume → List (String × String) → Except FileFault Volume
  | volume, [] => .ok volume
  | volume, (name, text) :: rest =>
    match volume.write (Path.join directory name) text.toUTF8 with
    | .ok volume => writeIn directory volume rest
    | .error fault => .error fault

variable {directory : String}

theorem writeIn_cons_iff {volume after : Volume} {name text : String} {rest : List (String × String)} :
    volume.writeIn directory ((name, text) :: rest) = .ok after ↔
      ∃ between, volume.write (Path.join directory name) text.toUTF8 = .ok between ∧
        between.writeIn directory rest = .ok after := by
  rw [writeIn]
  cases volume.write (Path.join directory name) text.toUTF8 with
  | ok between => simp
  | error fault => simp

theorem writeIn_append {volume after : Volume} {before behind : List (String × String)}
    (written : volume.writeIn directory (before ++ behind) = .ok after) :
    ∃ between, volume.writeIn directory before = .ok between ∧ between.writeIn directory behind = .ok after := by
  induction before generalizing volume with
  | nil => exact ⟨volume, rfl, written⟩
  | cons file rest ih =>
    obtain ⟨next, first, written⟩ := writeIn_cons_iff.mp written
    obtain ⟨between, before, behind⟩ := ih written
    exact ⟨between, writeIn_cons_iff.mpr ⟨next, first, before⟩, behind⟩

/-- Files of other names leave a file alone. -/
theorem entry_writeIn_of_ne {name : String} (plain : Path.IsName name) {files : List (String × String)} :
    ∀ {volume after : Volume} {place : Location}, volume.locate (Path.join directory name) = .ok place →
      (∀ file ∈ files, Path.IsName file.1 ∧ file.1 ≠ name) → volume.writeIn directory files = .ok after →
      after.entry (Path.join directory name) = volume.entry (Path.join directory name) := by
  induction files with
  | nil =>
    intro volume after place there others written
    cases written
    rfl
  | cons file rest ih =>
    intro volume after place there others written
    obtain ⟨⟨plain', different⟩, others⟩ := List.forall_mem_cons.mp others
    obtain ⟨between, first, written⟩ := writeIn_cons_iff.mp written
    obtain ⟨location, reached, -⟩ := write_eq_ok first
    have apart := locate_join_ne plain' plain different.symm reached there
    exact (ih ((keepsDirectories_write first).locate there) others written).trans
      (entry_write_of_ne first reached there apart)

/-- Of the files of one name the last one stays. -/
theorem entry_writeIn_last {volume after : Volume} {before behind : List (String × String)} {name text : String}
    (plain : ∀ file ∈ before ++ (name, text) :: behind, Path.IsName file.1)
    (last : ∀ file ∈ behind, file.1 ≠ name)
    (written : volume.writeIn directory (before ++ (name, text) :: behind) = .ok after) :
    after.entry (Path.join directory name) = .ok (.file text.toUTF8) := by
  obtain ⟨between, -, written⟩ := writeIn_append written
  obtain ⟨-, own⟩ := List.forall_mem_append.mp plain
  obtain ⟨own, others⟩ := List.forall_mem_cons.mp own
  obtain ⟨next, here, written⟩ := writeIn_cons_iff.mp written
  obtain ⟨location, reached, -⟩ := write_eq_ok here
  have there := (keepsDirectories_write here).locate reached
  rw [entry_writeIn_of_ne own there (fun file member => ⟨others file member, last file member⟩) written]
  exact entry_write here

/-- The last file of a name that a list has. -/
theorem exists_last {files : List (String × String)} {name : String} (listed : name ∈ files.map Prod.fst) :
    ∃ before text behind, files = before ++ (name, text) :: behind ∧ ∀ file ∈ behind, file.1 ≠ name := by
  induction files with
  | nil => cases listed
  | cons file rest ih =>
    by_cases later : name ∈ rest.map Prod.fst
    · obtain ⟨before, text, behind, rfl, last⟩ := ih later
      exact ⟨file :: before, text, behind, rfl, last⟩
    · have here : name = file.1 := by simpa [later] using listed
      refine ⟨[], file.2, rest, by simp [here], fun other member same => later ?_⟩
      exact List.mem_map.mpr ⟨other, member, same⟩

/-- Every file stays as it was written exactly if files of one name have one text. -/
theorem entries_writeIn_iff {volume after : Volume} {files : List (String × String)}
    (plain : ∀ file ∈ files, Path.IsName file.1) (written : volume.writeIn directory files = .ok after) :
    (∀ file ∈ files, after.entry (Path.join directory file.1) = .ok (.file file.2.toUTF8)) ↔
      ∀ file ∈ files, ∀ other ∈ files, file.1 = other.1 → file.2 = other.2 := by
  constructor
  · intro kept file member other member' same
    have one := kept file member
    rw [same, kept other member'] at one
    injection one with one
    injection one with one
    exact (String.toByteArray_inj.mp one).symm
  · intro alike file member
    obtain ⟨before, text, behind, rfl, last⟩ := exists_last (List.mem_map.mpr ⟨file, member, rfl⟩)
    rw [alike file member (file.1, text) (by simp) rfl]
    exact entry_writeIn_last plain last written

end Volume

namespace Batch

open Machine

variable (options : Options)

/-- The inputs that are translated, each with its result: with strict options those before the first failure. -/
def translations (machine : Machine) : List String → List (String × Compiled)
  | [] => []
  | path :: rest =>
    match result options machine path with
    | .ok compiled => (path, compiled) :: translations machine rest
    | .error _ => if options.strict then [] else translations machine rest

/-- The output of a translated input: its name, and its text. -/
def outputOf (translation : String × Compiled) : String × String :=
  (Path.outputName (Path.sourceName translation.1),
    translation.2.text options true (translation.2.code.getD ""))

theorem isName_outputOf (translation : String × Compiled) : Path.IsName (outputOf options translation).1 :=
  Path.isName_outputName (Path.sourceName_undivided translation.1)

variable {options}

theorem run_settle_separate (palette : Diagnostic.Palette) {compiled : Compiled} {code directory : String}
    (coded : compiled.code = some code) {machine : Machine} {volume : Volume}
    (written : machine.volume.write (Path.join directory (Path.outputName compiled.source))
      (compiled.text options true code).toUTF8 = .ok volume) :
    ∃ after : Machine, Machine.run (settle host options palette (.separate directory) (.ok compiled)) machine =
      (.ok (.separate directory), after) ∧ after.volume = volume := by
  simp only [settle, coded, deliver, run_bind, run_complain, run_write, written]
  split
  · exact ⟨_, rfl, rfl⟩
  · exact ⟨_, rfl, rfl⟩

/-- What is settled into a directory are the outputs of the translated inputs, one after the other, if all of them can
be written. -/
theorem settleAll_separate (goal : options.goal ≠ .resolveOnly) (palette : Diagnostic.Palette) (directory : String)
    (start : Machine) : ∀ (paths : List String) (failures : Nat) {machine : Machine} {after : Volume},
      machine.volume.writeIn directory ((translations options start paths).map (outputOf options)) = .ok after →
      let settled := Machine.run (settleAll host options palette (paths.map (result options start))
        (.separate directory) failures) machine
      settled.1.1 = .separate directory ∧ settled.2.volume = after
  | [], _, _, _, written => by
    cases written
    exact ⟨rfl, rfl⟩
  | path :: rest, failures, machine, after, written => by
    rw [translations] at written
    rw [List.map_cons]
    cases made : result options start path with
    | error error =>
      simp only [made] at written
      simp only [settleAll, settle, run_bind, run_pure, run_complain]
      split
      · rename_i strict
        rw [if_pos strict] at written
        cases written
        exact ⟨rfl, rfl⟩
      · rename_i lenient
        rw [if_neg lenient] at written
        exact settleAll_separate goal palette directory start rest (failures + 1) written
    | ok compiled =>
      obtain ⟨source, none⟩ := source_and_code_of_result made
      obtain ⟨code, coded⟩ := Option.ne_none_iff_exists'.mp (mt none.mp goal)
      simp only [made, List.map_cons, outputOf, coded, Option.getD_some, ← source] at written
      obtain ⟨volume, here, written⟩ := Volume.writeIn_cons_iff.mp written
      obtain ⟨between, settled, same⟩ := run_settle_separate palette coded here
      simp only [settleAll, run_bind, settled]
      rw [← same] at written
      exact settleAll_separate goal palette directory start rest failures written

/-- Behind a batch with separate outputs are the outputs of the translated inputs, written one after the other. -/
theorem volume_separate {paths : List String} {machine : Machine} {after : Volume} (separate : options.output = none)
    (goal : options.goal ≠ .resolveOnly)
    (opened : (Machine.run (host.createDirectories options.outputDirectory) machine).1 = .ok ())
    (written : (Machine.run (host.createDirectories options.outputDirectory) machine).2.volume.writeIn
      options.outputDirectory
      ((translations options machine (selected options paths)).map (outputOf options)) = .ok after) :
    (Machine.run (Batch.run host options paths) machine).2.volume = after := by
  obtain ⟨begun, before, behind⟩ := volume_run options paths machine
  obtain ⟨answers, between⟩ := OnFiles.createReversed _ (Path.components options.outputDirectory).reverse
    begun machine before
  have opening : Machine.run (openSink host options) begun =
      (.ok (.separate options.outputDirectory),
        (Machine.run (host.createDirectories options.outputDirectory) begun).2) := by
    simp only [openSink, separate, run_bind]
    rw [show (Machine.run (host.createDirectories options.outputDirectory) begun).1 = .ok () from answers.trans opened]
    rfl
  have same : (Machine.run (host.createDirectories options.outputDirectory) begun).2.volume =
      (Machine.run (host.createDirectories options.outputDirectory) machine).2.volume := between.volume
  rw [← same] at written
  obtain ⟨sink, volume⟩ := settleAll_separate goal .plain _ machine (selected options paths) 0 written
  rw [behind, opening]
  simp only [results, sink, closeSink, run_pure, volume]

/-- An input counts if it is translated and, with strict options, all inputs before it are. -/
theorem mem_translations_iff {machine : Machine} {path : String} {compiled : Compiled} : ∀ {paths : List String},
    (path, compiled) ∈ translations options machine paths ↔
      ∃ before behind, paths = before ++ path :: behind ∧ result options machine path = .ok compiled ∧
        (options.strict → ∀ earlier ∈ before, ∃ other, result options machine earlier = .ok other)
  | [] => by simp [translations]
  | first :: rest => by
    have inner := @mem_translations_iff machine path compiled rest
    rw [translations]
    constructor
    · intro member
      split at member
      · rename_i other made
        rcases List.mem_cons.mp member with same | later
        · cases same
          exact ⟨[], rest, rfl, made, fun _ _ none => (nomatch none)⟩
        · obtain ⟨before, behind, rfl, own, earlier⟩ := inner.mp later
          refine ⟨first :: before, behind, rfl, own, fun strict => ?_⟩
          exact List.forall_mem_cons.mpr ⟨⟨other, made⟩, earlier strict⟩
      · split at member
        · cases member
        · rename_i lenient
          obtain ⟨before, behind, rfl, own, -⟩ := inner.mp member
          exact ⟨first :: before, behind, rfl, own, fun strict => absurd strict lenient⟩
    · rintro ⟨_ | ⟨head, before⟩, behind, same, own, earlier⟩
      · cases same
        simp [own]
      · cases same
        have later : options.strict → ∀ other ∈ before, ∃ compiled, result options machine other = .ok compiled :=
          fun strict => (List.forall_mem_cons.mp (earlier strict)).2
        have listed := inner.mpr ⟨before, behind, rfl, own, later⟩
        split
        · exact List.mem_cons_of_mem _ listed
        · rename_i error failed
          rw [if_neg ?_]
          · exact listed
          · intro strict
            obtain ⟨other, made⟩ := (List.forall_mem_cons.mp (earlier strict)).1
            rw [failed] at made
            cases made

/-- If every output can be written, of the translated inputs with one output name the last one has its text in the
file of that name. So every translated input has its own text in its file exactly if those with one output name
have one text. -/
theorem keeps_translations_iff {paths : List String} {machine : Machine} {written : Volume}
    (separate : options.output = none) (goal : options.goal ≠ .resolveOnly)
    (opened : (Machine.run (host.createDirectories options.outputDirectory) machine).1 = .ok ())
    (writes : (Machine.run (host.createDirectories options.outputDirectory) machine).2.volume.writeIn
      options.outputDirectory
      ((translations options machine (selected options paths)).map (outputOf options)) = .ok written) :
    let after := (Machine.run (Batch.run host options paths) machine).2.volume
    let translated := translations options machine (selected options paths)
    let Kept (translation : String × Compiled) : Prop :=
      after.entry (Path.join options.outputDirectory (outputOf options translation).1) =
        .ok (.file (outputOf options translation).2.toUTF8)
    (∀ path compiled, (path, compiled) ∈ translated ↔
      ∃ before behind, selected options paths = before ++ path :: behind ∧ result options machine path = .ok compiled ∧
        (options.strict → ∀ earlier ∈ before, ∃ other, result options machine earlier = .ok other)) ∧
    (∀ before translation behind, translated = before ++ translation :: behind →
      (∀ later ∈ behind, (outputOf options later).1 ≠ (outputOf options translation).1) → Kept translation) ∧
    ((∀ translation ∈ translated, Kept translation) ↔
      ∀ one ∈ translated, ∀ other ∈ translated, (outputOf options one).1 = (outputOf options other).1 →
        (outputOf options one).2 = (outputOf options other).2) := by
  intro after translated Kept
  have behind : after = written := volume_separate separate goal opened writes
  have plain : ∀ file ∈ translated.map (outputOf options), Path.IsName file.1 :=
    List.forall_mem_map.mpr fun translation _ => isName_outputOf options translation
  refine ⟨fun path compiled => mem_translations_iff, ?_, ?_⟩
  · intro before translation later same last
    have split : translated.map (outputOf options) =
        before.map (outputOf options) ++ outputOf options translation :: later.map (outputOf options) := by
      rw [same, List.map_append, List.map_cons]
    rw [split] at plain
    simp only [Kept, behind]
    exact Volume.entry_writeIn_last plain (List.forall_mem_map.mpr last) (split ▸ writes)
  · have each := Volume.entries_writeIn_iff plain writes
    simp only [List.forall_mem_map] at each
    simpa only [Kept, behind] using each

/-! The results of inputs of one word. -/

variable {machine : Machine} {path : String}

theorem result_read {content : ByteArray} (read : (Machine.run (host.read path) machine).1 = .ok content) :
    result options machine path = compileContent options path content := by
  rw [result, compileFile, run_bind, read]
  rfl

theorem result_unread {fault : FileFault} (read : (Machine.run (host.read path) machine).1 = .error fault) :
    result options machine path = .error (.inaccessible path fault) := by
  rw [result, compileFile, run_bind, read]
  rfl

/-- The text of a program of one word is a line with this word, and there is nothing to report. -/
theorem compileFor_word (goal : options.goal = .full) (source : String) {word : Word} {text : String}
    (lines : ∀ words, Code.programLines words ⟨[.word 1 word]⟩ = .ok [Code.lineAt 0 text])
    (shown : text.isEmpty = false) :
    Program.compileFor options source ⟨[.word 1 word]⟩ = .ok ⟨source, some (text ++ "\n"), []⟩ := by
  have same : (Program.resolve (options.settingsFor source) ⟨[.word 1 word]⟩).program = ⟨[.word 1 word]⟩ := by
    cases word <;> rfl
  have silent : (Program.resolve (options.settingsFor source) ⟨[.word 1 word]⟩).diagnostics = [] := by
    cases word <;> exact List.mergeSort_nil
  have generated : Code.generate (options.settingsFor source) ⟨[.word 1 word]⟩ = .ok (text ++ "\n") := by
    rw [Code.generate, lines]
    simp [Code.Line.layout, Code.Line.render, Code.lineAt, shown, Settings.indent, Settings.blanks, Code.Line.content,
      pure, Except.pure, bind, Except.bind]
  simp [Program.compileFor, goal, Program.compile, Program.checked, same, silent, generated, Resolution.isRejected,
    Resolution.strictErrors, bind, Except.bind]

theorem compileContent_word (goal : options.goal = .full) {content : String}
    (small : content.toUTF8.size ≤ FileError.sizeLimit) {json : Json} (spelled : Json.parse? content = some json)
    {word : Word} (holds : Program.ofJson? json = some ⟨[.word 1 word]⟩) {text : String}
    (lines : ∀ words, Code.programLines words ⟨[.word 1 word]⟩ = .ok [Code.lineAt 0 text])
    (shown : text.isEmpty = false) :
    compileContent options path content.toUTF8 = .ok ⟨Path.sourceName path, some (text ++ "\n"), []⟩ := by
  have valid : String.fromUTF8? content.toUTF8 = some content := dif_pos content.isValidUTF8
  have parsed : Program.parse? content = some ⟨[.word 1 word]⟩ := by
    rw [Program.parse?, spelled, Option.bind_some, holds]
  rw [compileContent, if_neg (Nat.not_lt.mpr small), valid]
  simp only [parsed, compileFor_word goal (Path.sourceName path) lines shown]

theorem result_pass (goal : options.goal = .full)
    (read : (Machine.run (host.read path) machine).1 = .ok "[[[\"pass\",1]]]".toUTF8) :
    result options machine path = .ok ⟨Path.sourceName path, some "pass\n", []⟩ := by
  have spelled : Json.parse? "[[[\"pass\",1]]]" = some (.array [.array [.array [.ofText "pass", .ofInt 1]]]) := by rfl
  have lines (words : ReservedWords) : Code.programLines words ⟨[.word 1 .pass]⟩ = .ok [Code.lineAt 0 "pass"] := rfl
  rw [result_read read]
  exact compileContent_word goal (by decide) spelled rfl lines (by decide)

theorem result_break (goal : options.goal = .full)
    (read : (Machine.run (host.read path) machine).1 = .ok "[[[\"break\",1]]]".toUTF8) :
    result options machine path = .ok ⟨Path.sourceName path, some "break\n", []⟩ := by
  have spelled : Json.parse? "[[[\"break\",1]]]" = some (.array [.array [.array [.ofText "break", .ofInt 1]]]) := by rfl
  have lines (words : ReservedWords) : Code.programLines words ⟨[.word 1 .break]⟩ = .ok [Code.lineAt 0 "break"] := rfl
  rw [result_read read]
  exact compileContent_word goal (by decide) spelled rfl lines (by decide)

/-! Two inputs in two directories. -/

/-- Two files are equal if their contents are. -/
instance : DecidableEq Entry
  | .directory, .directory => isTrue rfl
  | .file one, .file other =>
    @decidable_of_iff _ (one = other) ⟨congrArg Entry.file, Entry.file.inj⟩ (ByteArray.instDecidableEq one other)
  | .directory, .file _ | .file _, .directory => isFalse Entry.noConfusion

def machineWithTwo (one other : String) : Machine :=
  .ofVolume (.ofFiles [(one, "[[[\"pass\",1]]]".toUTF8), (other, "[[[\"break\",1]]]".toUTF8)])

/-- A batch into a directory of its own, without the header. -/
def bare : Options := { outputDirectory := "build/py", header := false }

theorem exists_ok {α β : Type} (step : Except α β) (succeeds : step.isOk = true) :
    ∃ value, step = .ok value := by
  cases step with
  | error => cases succeeds
  | ok value => exact ⟨value, rfl⟩

/-- Two inputs with outputs of two names: both translations stay. -/
theorem keeps_translations_apart :
    let before := machineWithTwo "a/x.m.json" "b/y.json"
    let paths := ["a/x.m.json", "b/y.json"]
    let after := (Machine.run (Batch.run host bare paths) before).2.volume
    let translated := translations bare before (selected bare paths)
    translated.map (outputOf bare) = [("x.py", "pass\n"), ("y.py", "break\n")] ∧
      ∀ translation ∈ translated,
        after.entry (Path.join bare.outputDirectory (outputOf bare translation).1) =
          .ok (.file (outputOf bare translation).2.toUTF8) := by
  intro before paths after translated
  have first : result bare before "a/x.m.json" = .ok ⟨"x.m", some "pass\n", []⟩ := result_pass rfl rfl
  have last : result bare before "b/y.json" = .ok ⟨"y", some "break\n", []⟩ := result_break rfl rfl
  have chosen : selected bare paths = paths := by decide
  have listed : translated =
      [("a/x.m.json", ⟨"x.m", some "pass\n", []⟩), ("b/y.json", ⟨"y", some "break\n", []⟩)] := by
    simp [translated, chosen, paths, translations, first, last]
  have outputs : translated.map (outputOf bare) = [("x.py", "pass\n"), ("y.py", "break\n")] := by
    rw [listed]
    decide
  let opened := Machine.run (host.createDirectories bare.outputDirectory) before
  obtain ⟨_, made⟩ := exists_ok opened.1 (by decide)
  obtain ⟨_, writes⟩ := exists_ok
    (opened.2.volume.writeIn bare.outputDirectory [("x.py", "pass\n"), ("y.py", "break\n")]) (by decide)
  rw [← outputs] at writes
  have kept := keeps_translations_iff rfl (by decide) made writes
  refine ⟨outputs, kept.2.2.mpr ?_⟩
  simp only [translated] at listed
  rw [listed]
  decide

/-- Two inputs with outputs of one name: every write succeeds, and the translation of the first input is gone. -/
theorem loses_first_translation :
    let before := machineWithTwo "a/x.m.json" "b/x.m.json"
    let paths := ["a/x.m.json", "b/x.m.json"]
    let opened := Machine.run (host.createDirectories bare.outputDirectory) before
    let after := (Machine.run (Batch.run host bare paths) before).2.volume
    let translated := translations bare before (selected bare paths)
    opened.1 = .ok () ∧
      (∃ written, opened.2.volume.writeIn bare.outputDirectory (translated.map (outputOf bare)) = .ok written) ∧
      translated.map (outputOf bare) = [("x.py", "pass\n"), ("x.py", "break\n")] ∧
      after.content? ["build", "py", "x.py"] = some "break\n".toUTF8 ∧
      ¬∀ translation ∈ translated,
        after.entry (Path.join bare.outputDirectory (outputOf bare translation).1) =
          .ok (.file (outputOf bare translation).2.toUTF8) := by
  intro before paths opened after translated
  have first : result bare before "a/x.m.json" = .ok ⟨"x.m", some "pass\n", []⟩ := result_pass rfl rfl
  have last : result bare before "b/x.m.json" = .ok ⟨"x.m", some "break\n", []⟩ := result_break rfl rfl
  have chosen : selected bare paths = paths := by decide
  have listed : translated =
      [("a/x.m.json", ⟨"x.m", some "pass\n", []⟩), ("b/x.m.json", ⟨"x.m", some "break\n", []⟩)] := by
    simp [translated, chosen, paths, translations, first, last]
  have outputs : translated.map (outputOf bare) = [("x.py", "pass\n"), ("x.py", "break\n")] := by
    rw [listed]
    decide
  obtain ⟨_, made⟩ := exists_ok opened.1 (by decide)
  let files := opened.2.volume.writeIn bare.outputDirectory [("x.py", "pass\n"), ("x.py", "break\n")]
  obtain ⟨written, writes⟩ := exists_ok files (by decide)
  have content : files.toOption.bind (·.content? ["build", "py", "x.py"]) = some "break\n".toUTF8 := by rfl
  rw [writes] at content
  simp only [files, ← outputs] at writes
  have behind : after = written := volume_separate rfl (by decide) made writes
  refine ⟨made, ⟨written, writes⟩, outputs, behind ▸ content, fun kept => ?_⟩
  have plain : ∀ file ∈ translated.map (outputOf bare), Path.IsName file.1 :=
    List.forall_mem_map.mpr fun translation _ => isName_outputOf bare translation
  rw [behind] at kept
  have alike := (Volume.entries_writeIn_iff plain writes).mp (List.forall_mem_map.mpr kept)
  rw [outputs] at alike
  revert alike
  decide

end Batch
end ArrayLift
