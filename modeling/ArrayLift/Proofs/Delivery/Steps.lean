import ArrayLift.CommandLine.Batch
import ArrayLift.Proofs.Delivery.Names

/-! A batch on a machine in memory, step by step. Announcing, compiling and reporting write to the streams of text
alone; compiled is what is there when the batch starts. -/
namespace ArrayLift

namespace Machine

/-- The answer of a step on a machine, and the machine behind it. -/
def run {α : Type} (step : StateM Machine α) (machine : Machine) : α × Machine := step machine

section
variable {α β : Type}

@[simp] theorem run_pure (value : α) (machine : Machine) :
    run (pure value) machine = (value, machine) := rfl

@[simp] theorem run_bind (step : StateM Machine α) (next : α → StateM Machine β) (machine : Machine) :
    run (step >>= next) machine = run (next (run step machine).1) (run step machine).2 := rfl

@[simp] theorem run_map (apply : α → β) (step : StateM Machine α) (machine : Machine) :
    run (apply <$> step) machine = (apply (run step machine).1, (run step machine).2) := rfl

@[simp] theorem run_print (text : String) (machine : Machine) :
    run (host.print text) machine = ((), { machine with output := machine.output ++ text }) := rfl

@[simp] theorem run_complain (text : String) (machine : Machine) :
    run (host.complain text) machine = ((), { machine with errors := machine.errors ++ text }) := rfl

@[simp] theorem run_colored (machine : Machine) : run host.colored machine = (false, machine) := rfl

theorem run_write (path text : String) (machine : Machine) :
    run (host.write path text) machine = match machine.volume.write path text.toUTF8 with
      | .ok volume => (.ok (), { machine with volume })
      | .error fault => (.error fault, machine) := by
  change change (·.write path text.toUTF8) machine = _
  rw [change]
  cases machine.volume.write path text.toUTF8 <;> rfl

/-- A step leaves the volume alone. -/
def Still (step : StateM Machine α) : Prop :=
  ∀ machine, (run step machine).2.volume = machine.volume

theorem Still.pure (value : α) : Still (pure value) := fun _ => rfl

theorem Still.bind {step : StateM Machine α} {next : α → StateM Machine β} (first : Still step)
    (second : ∀ value, Still (next value)) : Still (step >>= next) :=
  fun machine => (second _ _).trans (first machine)

theorem Still.print (text : String) : Still (host.print text) := fun _ => rfl

theorem Still.complain (text : String) : Still (host.complain text) := fun _ => rfl

/-- Two machines have gone on alike: they hold the same files, and the same has been printed on both since. -/
structure Alike (one other after behind : Machine) : Prop where
  volume : after.volume = behind.volume
  printed : ∃ text, after.output = one.output ++ text ∧ behind.output = other.output ++ text

section
variable {one other after behind : Machine}

theorem Alike.start (same : one.volume = other.volume) : Alike one other one other :=
  ⟨same, "", String.append_empty.symm, String.append_empty.symm⟩

theorem Alike.trans {last final : Machine} (first : Alike one other after behind)
    (second : Alike after behind last final) : Alike one other last final := by
  obtain ⟨text, left, right⟩ := first.printed
  obtain ⟨more, left', right'⟩ := second.printed
  exact ⟨second.volume, text ++ more, by rw [left', left, String.append_assoc],
    by rw [right', right, String.append_assoc]⟩

end

/-- What a step answers, does to the files and prints depends on the files alone, and not on what has been written to
the streams. -/
def OnFiles (step : StateM Machine α) : Prop :=
  ∀ one other : Machine, one.volume = other.volume →
    (run step one).1 = (run step other).1 ∧ Alike one other (run step one).2 (run step other).2

theorem OnFiles.pure (value : α) : OnFiles (pure value) := fun _ _ same => ⟨rfl, .start same⟩

theorem OnFiles.bind {step : StateM Machine α} {next : α → StateM Machine β} (first : OnFiles step)
    (second : ∀ value, OnFiles (next value)) : OnFiles (step >>= next) := by
  intro one other same
  obtain ⟨answers, between⟩ := first one other same
  simp only [run_bind, answers]
  obtain ⟨answers, behind⟩ := second _ _ _ between.volume
  exact ⟨answers, between.trans behind⟩

theorem OnFiles.print (text : String) : OnFiles (host.print text) :=
  fun _ _ same => ⟨rfl, same, text, rfl, rfl⟩

theorem OnFiles.complain (text : String) : OnFiles (host.complain text) :=
  fun _ _ same => ⟨rfl, same, (Alike.start same).printed⟩

theorem OnFiles.read (path : String) : OnFiles (host.read path) := by
  intro one other same
  refine ⟨?_, .start same⟩
  simp only [run, host, same]

/-- A change of the volume prints nothing. -/
theorem OnFiles.change (step : Volume → Except FileFault Volume) : OnFiles (change step) := by
  intro one other same
  simp only [run, Machine.change, same]
  cases step other.volume with
  | error fault => exact ⟨rfl, .start same⟩
  | ok volume => exact ⟨rfl, rfl, (Alike.start same).printed⟩

theorem OnFiles.createDirectory (path : String) : OnFiles (host.createDirectory path) :=
  .change (·.createDirectory path)

theorem OnFiles.write (path text : String) : OnFiles (host.write path text) :=
  .change (·.write path text.toUTF8)

theorem OnFiles.settleDirectory (path : String) : OnFiles (host.settleDirectory path) := by
  refine (createDirectory path).bind fun made => ?_
  split
  · exact .pure _
  · refine OnFiles.bind ((OnFiles.read path).bind fun content => ?_) fun _ => .pure _
    split <;> exact .pure _

theorem OnFiles.createReversed (root : String) : ∀ names : List String, OnFiles (host.createReversed root names)
  | [] => .pure _
  | name :: parents => by
    refine (settleDirectory _).bind fun made => ?_
    split
    · refine (createReversed root parents).bind fun around => ?_
      split
      · exact .pure _
      · exact settleDirectory _
    · exact .pure _

end

end Machine

namespace Batch

open Machine

variable (options : Options)

theorem still_announce (position : Nat) (path : String) : Still (announce host options position path) := by
  rw [announce]
  split
  · refine (Still.print _).bind fun _ => ?_
    split
    · exact .print _
    · exact .pure _
  · exact .pure _

theorem still_announceAll : ∀ (position : Nat) (paths : List String),
    Still (announceAll host options position paths)
  | _, [] => .pure _
  | position, path :: rest => (still_announce options position path).bind fun _ => still_announceAll (position + 1) rest

/-- The result of a file on a machine. -/
def result (machine : Machine) (path : String) : Except FileError Compiled :=
  (Machine.run (compileFile host options path) machine).1

theorem run_compileFile (path : String) (machine : Machine) :
    Machine.run (compileFile host options path) machine = (result options machine path, machine) := by
  refine Prod.ext rfl ?_
  simp only [compileFile, run_bind]
  split <;> rfl

theorem run_compileFiles (paths : List String) (machine : Machine) :
    Machine.run (paths.mapM (compileFile host options)) machine = (paths.map (result options machine), machine) := by
  induction paths with
  | nil => rfl
  | cons path rest ih => simp [run_compileFile, ih]

/-- The result of a file depends on the files alone. -/
theorem result_congr {one other : Machine} (same : one.volume = other.volume) :
    result options one = result options other := by
  funext path
  have step : OnFiles (compileFile host options path) := by
    refine (OnFiles.read path).bind fun content => ?_
    split <;> exact .pure _
  exact (step one other same).1

/-- The results of the files that a batch compiles. -/
def results (paths : List String) (machine : Machine) : List (Except FileError Compiled) :=
  (selected options paths).map (result options machine)

/-- What a batch does once its files are compiled. -/
def conclude (results : List (Except FileError Compiled)) : StateM Machine (Except String Nat) := do
  match ← openSink host options with
  | .error message => pure (.error message)
  | .ok sink =>
    let (sink, failures) ← settleAll host options .plain results sink 0
    match ← closeSink host sink with
    | .error message => pure (.error message)
    | .ok _ =>
      if failures = 0 then pure (.ok 0)
      else
        host.print ("Errors: " ++ toString failures ++ "\n")
        pure (.ok 1)

/-- The files are announced first, and compiled as they are at the start. -/
theorem run_conclude (paths : List String) (machine : Machine) :
    Machine.run (Batch.run host options paths) machine =
      Machine.run (conclude options (results options paths machine))
        (Machine.run (announceAll host options 1 paths) machine).2 := by
  have before := result_congr options (still_announceAll options 1 paths machine)
  simp only [Batch.run, run_bind, run_compileFiles, run_colored, before]
  rfl

private theorem still_summary (failures : Nat) :
    Still (if failures = 0 then pure (.ok 0)
      else do
        host.print ("Errors: " ++ toString failures ++ "\n")
        pure (.ok 1) : StateM Machine (Except String Nat)) := by
  split
  · exact .pure _
  · exact (Still.print _).bind fun _ => .pure _

/-- The files behind a batch are those behind the closing of the output; without an output they are those behind the
attempt to open it. -/
theorem volume_run (paths : List String) (machine : Machine) :
    ∃ begun : Machine, begun.volume = machine.volume ∧
      (Machine.run (Batch.run host options paths) machine).2.volume =
        match Machine.run (openSink host options) begun with
        | (.error _, opened) => opened.volume
        | (.ok sink, opened) =>
          let settled := Machine.run (settleAll host options .plain (results options paths machine) sink 0) opened
          (Machine.run (closeSink host settled.1.1) settled.2).2.volume := by
  refine ⟨(Machine.run (announceAll host options 1 paths) machine).2, still_announceAll options 1 paths machine, ?_⟩
  simp only [run_conclude, conclude, run_bind]
  rcases Machine.run (openSink host options) _ with ⟨_ | sink, opened⟩
  · rfl
  · -- What comes behind the closing of the output only prints.
    simp only [run_bind]
    split
    · rfl
    · exact still_summary _ _

end Batch
end ArrayLift
