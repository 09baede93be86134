import ArrayLift.Proofs.Annotation.Mentions
import ArrayLift.Proofs.Annotation.Unnumbered
import ArrayLift.Proofs.Numbering.Shape

/-! What numbering does to a program: identities from zero on, one for each identifier, that the shape of the program
decides; and the names of the functions that are declared anywhere in it. -/
namespace ArrayLift

/-! Functions at any depth. -/

/-- The lists of statements in a handler. -/
def Handler.blocks : Handler → List (List Stmt)
  | .absent => []
  | .present _ body => [body]

/-- The lists of statements that stand directly in a statement. -/
def Stmt.blocks : Stmt → List (List Stmt)
  | .branch _ _ thenBody elseBody => thenBody :: elseBody.toList
  | .forEach _ _ _ body | .whileLoop _ _ body | .function _ _ _ body => [body]
  | .attempt _ body handler finallyBody => body :: handler.blocks ++ finallyBody.toList
  | .expression .. | .assign .. | .declare .. | .return .. | .word .. | .comment .. => []

/-- A statement stands in a list of statements, at some depth. -/
inductive Stmt.LiesIn (statement : Stmt) : List Stmt → Prop where
  | here {statements : List Stmt} : statement ∈ statements → LiesIn statement statements
  | inside {statements block : List Stmt} {outer : Stmt} : outer ∈ statements → block ∈ outer.blocks →
    LiesIn statement block → LiesIn statement statements

/-- A function of this name is declared in a list of statements, at some depth. -/
def Stmt.DeclareFunction (statements : List Stmt) (name : String) : Prop :=
  ∃ line ident params body, (Stmt.function line ident params body).LiesIn statements ∧ ident.name = name

section
variable {statements block : List Stmt} {outer statement : Stmt} {name : String}

theorem Stmt.sizeOf_lt_of_mem_blocks (within : block ∈ outer.blocks) : sizeOf block < sizeOf outer := by
  cases outer with
  | branch line condition thenBody elseBody => cases elseBody <;> simp [blocks] at within <;> grind
  | attempt line body handler finallyBody =>
    cases handler <;> cases finallyBody <;> simp [blocks, Handler.blocks] at within <;> grind
  | forEach | whileLoop | function => simp [blocks] at within; grind
  | _ => simp [blocks] at within

/-- A statement declares its own name, if it is a function, and what is declared in the lists in it. -/
theorem Stmt.mem_declaredFunctions_iff :
    name ∈ statement.declaredFunctions ↔
      (∃ line ident params body, statement = .function line ident params body ∧ ident.name = name) ∨
        ∃ block ∈ statement.blocks, name ∈ Stmt.declaredFunctionsList block := by
  cases statement with
  | branch line condition thenBody elseBody => cases elseBody <;> simp [blocks, declaredFunctions]
  | attempt line body handler finallyBody =>
    cases handler <;> cases finallyBody <;>
      simp [blocks, Handler.blocks, declaredFunctions, Handler.declaredFunctions]
  | function line ident params body =>
    simp only [blocks, declaredFunctions, List.mem_cons, List.not_mem_nil, or_false, exists_eq_left]
    grind
  | _ => simp [blocks, declaredFunctions]

theorem Stmt.mem_declaredFunctionsList_iff :
    name ∈ Stmt.declaredFunctionsList statements ↔ ∃ outer ∈ statements, name ∈ outer.declaredFunctions := by
  induction statements with
  | nil => simp [declaredFunctionsList]
  | cons first rest ih => simp [declaredFunctionsList, ih]

theorem Stmt.mem_of_liesIn {line : SourceLine} {ident : Ident} {params : List Ident} {body : List Stmt}
    (lies : (Stmt.function line ident params body).LiesIn statements) :
    ident.name ∈ Stmt.declaredFunctionsList statements := by
  induction lies with
  | here member =>
    exact mem_declaredFunctionsList_iff.mpr
      ⟨_, member, mem_declaredFunctions_iff.mpr (.inl ⟨line, ident, params, body, rfl, rfl⟩)⟩
  | inside member within _ ih =>
    exact mem_declaredFunctionsList_iff.mpr ⟨_, member, mem_declaredFunctions_iff.mpr (.inr ⟨_, within, ih⟩)⟩

theorem Stmt.declareFunction_of_mem (statements : List Stmt) (member : name ∈ Stmt.declaredFunctionsList statements) :
    Stmt.DeclareFunction statements name := by
  obtain ⟨outer, listed, declared⟩ := mem_declaredFunctionsList_iff.mp member
  obtain ⟨line, ident, params, body, rfl, same⟩ | ⟨block, within, deeper⟩ := mem_declaredFunctions_iff.mp declared
  · exact ⟨line, ident, params, body, .here listed, same⟩
  · obtain ⟨line, ident, params, body, lies, same⟩ := declareFunction_of_mem block deeper
    exact ⟨line, ident, params, body, .inside listed within lies, same⟩
termination_by sizeOf statements
decreasing_by exact Nat.lt_trans (sizeOf_lt_of_mem_blocks within) (List.sizeOf_lt_of_mem listed)

end

namespace Program

/-- A function of this name is declared in the program, at some depth. -/
def DeclaresFunction (program : Program) (name : String) : Prop :=
  Stmt.DeclareFunction program.statements name

theorem mem_declaredFunctions_iff (program : Program) (name : String) :
    name ∈ program.declaredFunctions ↔ program.DeclaresFunction name := by
  refine ⟨Stmt.declareFunction_of_mem program.statements, ?_⟩
  rintro ⟨line, ident, params, body, lies, rfl⟩
  exact Stmt.mem_of_liesIn lies

/-! Identities. -/

/-- Where identifiers stand in the program, and nothing else. -/
def bareShape (program : Program) : Shape Unit :=
  program.shape fun _ => ()

/-- Where identifiers stand in the program, with their identities. -/
def identities (program : Program) : Shape (Option IdentId) :=
  program.shape Ident.id

theorem length_mentions_withIds (program : Program) :
    program.withIds.1.mentions.length = program.mentions.length := by
  have alike : program.withIds.1.unmarked.mentions.length = program.unmarked.mentions.length := by
    rw [program.unmarked_withIds]
  simpa [mentions_unmarked] using alike

/-- Numbering gives each of the identifiers of a program one of the numbers from zero on, whatever identities the
program has. It counts them depth first over the bare shape of the program, which alone decides; it writes nothing else;
and the functions that are noted are those that are declared at any depth. -/
theorem withIds_counts (program : Program) :
    (program.withIds.1.mentions.map fun mention => mention.ident.id) =
        (List.range program.mentions.length).map some ∧
      program.withIds.2 = program.mentions.length ∧
      program.withIds.1.identities = (program.bareShape.count 0).1 ∧
      program.withIds.1.unnumbered = program.unnumbered ∧
      ∀ name, name ∈ program.declaredFunctions ↔ program.DeclaresFunction name := by
  have counted := program.counted_withIds
  have length := counted.length_eq
  rw [program.length_mentions_withIds, Nat.zero_add] at length
  refine ⟨?_, length.symm, ?_, program.unnumbered_withIds, program.mem_declaredFunctions_iff⟩
  · rw [counted.ids_eq, program.length_mentions_withIds, List.range_eq_range']
  · exact (congrArg Prod.fst (program.count_shape fun _ => ())).symm

-- an index that is undecided and a call of another name, with annotations of its own
example :
    (Program.mk [.expression 1 (.index 1 .apply (.named "f" 1) [.named "x" 1])]).bareShape =
      (Program.mk [.expression 2 (.index 2 (.call 1) (.ident 2 (.mk "g" none .function true (some 7)))
        [.named "y" 2])]).bareShape := rfl

end Program
end ArrayLift
