import ArrayLift.Proofs.Delivery.Steps

/-! A batch that produces no code. It makes the output directory if outputs are separate, and touches no file at all
unless everything goes to one file: that file is then written in any case, and so it is emptied. -/
namespace ArrayLift

namespace Machine

/-- A step changes no file; it may make directories. -/
def KeepsFiles {α : Type} (step : StateM Machine α) : Prop :=
  ∀ machine : Machine, machine.volume.SameFiles (run step machine).2.volume

section
variable {α β : Type}

theorem Still.keepsFiles {step : StateM Machine α} (still : Still step) : KeepsFiles step :=
  fun machine => by rw [still machine]; exact .refl _

theorem KeepsFiles.bind {step : StateM Machine α} {next : α → StateM Machine β} (first : KeepsFiles step)
    (second : ∀ value, KeepsFiles (next value)) : KeepsFiles (step >>= next) :=
  fun machine => (first machine).trans (second _ _)

theorem still_isDirectory (path : String) : Still (host.isDirectory path) := by
  refine Still.bind (fun _ => rfl) fun content => ?_
  split <;> exact .pure _

theorem keepsFiles_createDirectory (path : String) : KeepsFiles (host.createDirectory path) := by
  intro machine
  change machine.volume.SameFiles (change (·.createDirectory path) machine).2.volume
  rw [change]
  cases made : machine.volume.createDirectory path with
  | error fault => exact .refl _
  | ok volume => exact Volume.sameFiles_createDirectory made

theorem keepsFiles_settleDirectory (path : String) : KeepsFiles (host.settleDirectory path) := by
  refine (keepsFiles_createDirectory path).bind fun made => ?_
  split
  · exact (Still.pure _).keepsFiles
  · exact ((still_isDirectory path).bind fun _ => .pure _).keepsFiles

theorem keepsFiles_createReversed (root : String) : ∀ names : List String, KeepsFiles (host.createReversed root names)
  | [] => (Still.pure _).keepsFiles
  | name :: parents => by
    refine (keepsFiles_settleDirectory _).bind fun made => ?_
    split
    · refine (keepsFiles_createReversed root parents).bind fun around => ?_
      split
      · exact (Still.pure _).keepsFiles
      · exact keepsFiles_settleDirectory _
    · exact (Still.pure _).keepsFiles

end

end Machine

namespace Batch

open Machine

variable (options : Options)

/-- A batch is asked for none, or has no file that can be translated. -/
def ProducesNoCode (paths : List String) (machine : Machine) : Prop :=
  options.goal = .resolveOnly ∨
    ∀ path ∈ selected options paths, ∃ error, result options machine path = .error error

/-- Results without code. -/
def Codeless (results : List (Except FileError Compiled)) : Prop :=
  ∀ result ∈ results, ∀ compiled, result = .ok compiled → compiled.code = none

/-- A result is named for its source, and it has no code exactly if none was asked for. -/
theorem source_and_code {options : Options} {source : String} {program : Program} {compiled : Compiled}
    (made : program.compileFor options source = .ok compiled) :
    compiled.source = source ∧ (compiled.code = none ↔ options.goal = .resolveOnly) := by
  rw [Program.compileFor] at made
  cases goal : options.goal with
  | full =>
    simp only [goal] at made
    cases compiles : (program.compile (options.settingsFor source)).2 <;>
      simp [compiles, bind, Except.bind] at made
    simp [← made]
  | unresolved =>
    simp only [goal] at made
    cases compiles : program.compileAsIs (options.settingsFor source) <;> simp [compiles, bind, Except.bind] at made
    simp [← made]
  | resolveOnly =>
    simp only [goal] at made
    cases checks : (program.checked (options.settingsFor source)).2 <;> simp [checks, bind, Except.bind] at made
    simp [← made]

theorem compileFor_of_compileContent {options : Options} {path : String} {content : ByteArray} {compiled : Compiled}
    (made : compileContent options path content = .ok compiled) :
    ∃ program : Program, program.compileFor options (Path.sourceName path) = .ok compiled := by
  rw [compileContent] at made
  split at made
  · cases made
  split at made
  · cases made
  split at made
  · cases made
  split at made
  · cases made
    exact ⟨_, ‹_›⟩
  · cases made

theorem source_and_code_of_result {options : Options} {machine : Machine} {path : String} {compiled : Compiled}
    (made : result options machine path = .ok compiled) :
    compiled.source = Path.sourceName path ∧ (compiled.code = none ↔ options.goal = .resolveOnly) := by
  simp only [result, compileFile, run_bind] at made
  split at made
  · cases made
  · obtain ⟨program, compiles⟩ := compileFor_of_compileContent made
    exact source_and_code compiles

theorem codeless_results {paths : List String} {machine : Machine} (idle : ProducesNoCode options paths machine) :
    Codeless (results options paths machine) := by
  intro result member compiled made
  obtain ⟨path, listed, rfl⟩ := List.mem_map.mp member
  rcases idle with goal | failing
  · exact (source_and_code_of_result made).2.mpr goal
  · obtain ⟨error, failed⟩ := failing path listed
    rw [failed] at made
    cases made

/-- A result without code writes nothing and leaves the output as it was. -/
theorem settle_codeless (palette : Diagnostic.Palette) (sink : Sink) {result : Except FileError Compiled}
    (none : ∀ compiled, result = .ok compiled → compiled.code = none) :
    Still (settle host options palette sink result) ∧ ∀ (machine : Machine) (after : Sink),
      (Machine.run (settle host options palette sink result) machine).1 = .ok after → after = sink := by
  cases result with
  | error error =>
    refine ⟨.pure _, fun machine after settled => ?_⟩
    cases settled
  | ok compiled =>
    simp only [settle, none compiled rfl]
    refine ⟨(Still.complain _).bind fun _ => .pure _, fun machine after settled => ?_⟩
    cases settled
    rfl

/-- Results without code write nothing and leave the output as it was. -/
theorem settleAll_codeless (palette : Diagnostic.Palette) : ∀ (results : List (Except FileError Compiled)) (sink : Sink)
    (failures : Nat), Codeless results → ∀ machine : Machine,
      (Machine.run (settleAll host options palette results sink failures) machine).1.1 = sink ∧
        (Machine.run (settleAll host options palette results sink failures) machine).2.volume = machine.volume
  | [], _, _, _, _ => ⟨rfl, rfl⟩
  | result :: rest, sink, failures, codeless, machine => by
    have others : Codeless rest := fun result member => codeless result (List.mem_cons_of_mem _ member)
    obtain ⟨still, kept⟩ := settle_codeless options palette sink (codeless result List.mem_cons_self)
    have here := still machine
    simp only [settleAll, run_bind]
    split
    · rename_i after settled
      obtain rfl := kept machine after settled
      rw [← here]
      exact settleAll_codeless palette rest after failures others _
    · simp only [run_bind, run_complain]
      rw [← here]
      split
      · exact ⟨rfl, rfl⟩
      · exact settleAll_codeless palette rest sink (failures + 1) others _

/-- The path of the one file that everything goes to. -/
def singleFile? : Option String :=
  options.output.filter (· ≠ streamMark)

theorem openSink_singleFile {path : String} (single : singleFile? options = some path) (machine : Machine) :
    Machine.run (openSink host options) machine = (.ok (.combined path ""), machine) := by
  obtain ⟨named, marked⟩ := Option.filter_eq_some_iff.mp single
  simp only [openSink, named, if_neg (of_decide_eq_true marked)]
  rfl

theorem openSink_without_singleFile (none : singleFile? options = none) :
    KeepsFiles (openSink host options) ∧ ∀ (machine : Machine) (sink : Sink),
      (Machine.run (openSink host options) machine).1 = .ok sink → closeSink host sink = pure (.ok ()) := by
  cases output : options.output with
  | some path =>
    have marked : path = streamMark := by simpa [singleFile?, output] using none
    simp only [openSink, output, if_pos marked]
    refine ⟨(Still.pure _).keepsFiles, fun machine sink opened => ?_⟩
    cases opened
    rfl
  | none =>
    simp only [openSink, output]
    refine ⟨(keepsFiles_createReversed _ _).bind fun made => ?_, fun machine sink opened => ?_⟩
    · split <;> exact (Still.pure _).keepsFiles
    · simp only [run_bind] at opened
      split at opened
      · cases opened
        rfl
      · cases opened

variable {options}

/-- Without code and without a single file for everything, no file changes. -/
theorem sameFiles_of_no_code {paths : List String} {machine : Machine} (idle : ProducesNoCode options paths machine)
    (none : singleFile? options = none) :
    machine.volume.SameFiles (Machine.run (Batch.run host options paths) machine).2.volume := by
  obtain ⟨begun, before, behind⟩ := volume_run options paths machine
  obtain ⟨keeps, closes⟩ := openSink_without_singleFile options none
  have opening := keeps begun
  have closing := closes begun
  rw [behind, ← before]
  revert opening closing
  rcases Machine.run (openSink host options) begun with ⟨_ | sink, opened⟩ <;> intro opening closing
  · exact opening
  · obtain ⟨unchanged, still⟩ :=
      settleAll_codeless options .plain _ sink 0 (codeless_results options idle) opened
    simp only [unchanged, closing sink rfl, run_pure, still]
    exact opening

/-- Without code, the single file for everything is written all the same, and it is empty. -/
theorem volume_of_no_code {paths : List String} {machine : Machine} (idle : ProducesNoCode options paths machine)
    {path : String} (single : singleFile? options = some path) :
    (Machine.run (Batch.run host options paths) machine).2.volume =
      match machine.volume.write path "".toUTF8 with
      | .ok emptied => emptied
      | .error _ => machine.volume := by
  obtain ⟨begun, before, behind⟩ := volume_run options paths machine
  obtain ⟨unchanged, still⟩ :=
    settleAll_codeless options .plain _ (.combined path "") 0 (codeless_results options idle) begun
  rw [behind, openSink_singleFile options single]
  simp only [unchanged, closeSink, run_bind, run_write, still, before]
  cases machine.volume.write path "".toUTF8 <;> simp [still, before]

/-- The only file that a batch without code can change is the single file for everything, which it leaves empty. So
all files stay as they are exactly if there is no such file, if it cannot be written, or if it was empty before. -/
theorem keeps_files_iff {paths : List String} {machine : Machine} (idle : ProducesNoCode options paths machine) :
    let after := (Machine.run (Batch.run host options paths) machine).2.volume
    (∀ location, after.content? location ≠ machine.volume.content? location →
      ∃ path, singleFile? options = some path ∧ machine.volume.locate path = .ok location ∧
        after.content? location = some "".toUTF8) ∧
    (machine.volume.SameFiles after ↔
      ∀ path, singleFile? options = some path → ∀ emptied, machine.volume.write path "".toUTF8 = .ok emptied →
        machine.volume.entry path = .ok (.file "".toUTF8)) := by
  intro after
  cases single : singleFile? options with
  | none =>
    have same := sameFiles_of_no_code idle single
    exact ⟨fun location changed => absurd (same location) changed, fun _ _ none => (nomatch none), fun _ => same⟩
  | some path =>
    have behind : after = _ := volume_of_no_code idle single
    cases written : machine.volume.write path "".toUTF8 with
    | error fault =>
      simp only [written] at behind
      rw [behind]
      refine ⟨fun location changed => absurd rfl changed, fun _ _ named emptied possible => ?_, fun _ => .refl _⟩
      cases named
      rw [written] at possible
      cases possible
    | ok emptied =>
      simp only [written] at behind
      obtain ⟨location, reached, -⟩ := Volume.write_eq_ok written
      have contents := Volume.content?_write written reached
      have there := Volume.entry_eq_file_iff written reached "".toUTF8
      rw [behind]
      refine ⟨fun other changed => ⟨path, rfl, ?_⟩, fun same other named _ _ => ?_, fun empty other => ?_⟩
      · rw [contents] at changed ⊢
        split at changed
        · rename_i here
          subst here
          exact ⟨reached, if_pos rfl⟩
        · exact absurd rfl changed
      · cases named
        rw [there, ← same location, contents, if_pos rfl]
      · rw [contents]
        split
        · rename_i here
          rw [here, ← there.mp (empty path rfl emptied written)]
        · rfl

/-- A machine with one file. -/
def machineWith (path text : String) : Machine :=
  .ofVolume (.ofFiles [(path, text.toUTF8)])

/-- With separate outputs, to resolve only makes a directory and changes no file. -/
theorem keeps_files_separately :
    let before := machineWith "out.py" "x = 1\n"
    let resolving : Options := { outputDirectory := "build", goal := .resolveOnly, strict := true }
    ProducesNoCode resolving ["a.m.json"] before ∧
      before.volume.SameFiles (Machine.run (Batch.run host resolving ["a.m.json"]) before).2.volume := by
  intro before resolving
  have idle : ProducesNoCode resolving ["a.m.json"] before := .inl rfl
  refine ⟨idle, (keeps_files_iff idle).2.mpr fun path single => ?_⟩
  cases single

/-- To resolve only empties the file that was there, and so does a batch whose only input is missing. -/
theorem emptied_by_no_code :
    let before := machineWith "out.py" "x = 1\n"
    let resolving : Options := { output := some "out.py", goal := .resolveOnly }
    let translating : Options := { output := some "out.py" }
    ProducesNoCode resolving [] before ∧ ProducesNoCode translating ["a.m.json"] before ∧
      before.volume.content? ["out.py"] = some "x = 1\n".toUTF8 ∧
      (Machine.run (Batch.run host resolving []) before).2.volume.content? ["out.py"] = some "".toUTF8 ∧
      (Machine.run (Batch.run host translating ["a.m.json"]) before).2.volume.content? ["out.py"] = some "".toUTF8 := by
  intro before resolving translating
  refine ⟨.inl rfl, .inr fun path listed => ⟨.inaccessible path .missing, ?_⟩, ?_, ?_, ?_⟩
  · have named : path = "a.m.json" := List.mem_singleton.mp (List.mem_filter.mp listed).1
    subst named
    rfl
  · rfl
  · rfl
  · rfl

end Batch
end ArrayLift
