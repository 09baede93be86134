import ArrayLift.Compilation
import ArrayLift.Proofs.Annotation.Coverage
import ArrayLift.Proofs.Layout.Ownership
import ArrayLift.Proofs.Rendering.Nodes

/-! The fault of a tree. Generation looks at the nodes one after the other and ends at the first that is malformed;
without such a node there is text. Which node that is depends on the tree alone: neither the settings nor what
resolution writes into the tree have a part in it. -/
namespace ArrayLift
namespace Code

/-- The fault that a result is. -/
def faultOf {α : Type} : Except Fault α → Option Fault
  | .ok _ => none
  | .error fault => some fault

/-- The first malformed node of all. -/
def firstFault (nodes : List Node) : Option Fault :=
  nodes.findSome? Node.fault?

/-- The result is the fault of the first malformed node, or a value if there is none. -/
def Stops {α : Type} (nodes : List Node) (result : Except Fault α) : Prop :=
  firstFault nodes = faultOf result

theorem firstFault_append (before after : List Node) :
    firstFault (before ++ after) = (firstFault before).or (firstFault after) :=
  List.findSome?_append

theorem firstFault_cons (node : Node) (nodes : List Node) :
    firstFault (node :: nodes) = node.fault?.or (firstFault nodes) := by
  rw [firstFault, List.findSome?_cons]
  cases node.fault? <;> rfl

namespace Stops

variable {α β : Type} {nodes before after : List Node} {node : Node} {result : Except Fault α}

theorem pure (value : α) : Stops [] (Pure.pure value) := rfl

theorem append (first : Stops before result) {next : α → Except Fault β} (rest : ∀ value, Stops after (next value)) :
    Stops (before ++ after) (result >>= next) := by
  rw [Stops, firstFault_append, first]
  cases result with
  | error => rfl
  | ok value => exact rest value

theorem map (stops : Stops nodes result) (make : α → β) :
    Stops nodes (do
      let value ← result
      Pure.pure (make value)) := by
  simpa using stops.append fun value => .pure (make value)

/-- A node with nothing wrong about it. -/
theorem sound (stops : Stops nodes result) (sound : node.fault? = none) : Stops (node :: nodes) result := by
  rw [Stops, firstFault_cons, sound]
  exact stops

theorem fault {fault : Fault} (malformed : node.fault? = some fault) :
    Stops (node :: nodes) (.error fault : Except Fault α) := by
  rw [Stops, firstFault_cons, malformed]
  rfl

theorem mapM {items : List α} {inside : α → List Node} {make : α → Except Fault β}
    (each : ∀ item ∈ items, Stops (inside item) (make item)) : Stops (items.flatMap inside) (items.mapM make) := by
  induction items with
  | nil => exact .pure _
  | cons item rest ih =>
    obtain ⟨first, later⟩ := List.forall_mem_cons.mp each
    rw [List.flatMap_cons, List.mapM_cons]
    exact first.append fun value => (ih later).map _

end Stops

/-! Operands. -/

namespace Operand

/-- The text of the operand stops at what is malformed inside. -/
def Stops (operand : Operand) : Prop := Code.Stops operand.nodes operand.text

variable {operand : Operand} {operands : List Operand}

theorem grouped_stops (stops : operand.Stops) : Code.Stops operand.nodes operand.grouped :=
  stops.map _

theorem placed_stops (stops : operand.Stops) (spelling : String) :
    Code.Stops operand.nodes (operand.placed spelling) := by
  unfold Operand.placed
  split
  · exact grouped_stops stops
  · exact stops

theorem joined_stops (each : ∀ operand ∈ operands, operand.Stops) (separator : String) :
    Code.Stops (operands.flatMap nodes) (joined separator operands) :=
  .map (.mapM each) _

theorem bracketed_stops {rows : List (List Operand)} (each : ∀ row ∈ rows, ∀ operand ∈ row, operand.Stops) :
    Code.Stops (rows.flatMap (·.flatMap nodes)) (bracketed rows) :=
  .map (.mapM fun row member => .map (joined_stops (each row member) ",") _) _

end Operand

/-- The text of an operation, whatever its operator is. -/
theorem compose_stops {operands : List Operand} (each : ∀ operand ∈ operands, operand.Stops) {line : SourceLine}
    {spelling : String} {result : Option Rendered} {binding : List Node}
    (bound : Stops binding (bindingText spelling operands.length result)) {node : Node}
    (head : node.fault? = countFault? line spelling operands.length) :
    Stops (node :: (binding ++ (arranged spelling operands).flatMap Operand.nodes))
      (compose line spelling operands result) := by
  have inside (operand : Operand) (member : operand ∈ arranged spelling operands) :
      Stops operand.nodes (operand.placed spelling) :=
    Operand.placed_stops (each operand (mem_of_mem_arranged member)) spelling
  rw [compose_eq]
  cases count : countFault? line spelling operands.length with
  | some fault => exact .fault (head.trans count)
  | none =>
    refine .sound ?_ (head.trans count)
    cases folded : folded? spelling operands with
    | none => exact bound.append fun name => .map (.mapM inside) _
    | some sum =>
      obtain ⟨plus, two, literals⟩ := of_folded? folded
      rw [bindingText_of_not_writesResult (by simp [writesResult, two])] at bound
      have clear : firstFault ((arranged spelling operands).flatMap Operand.nodes) = none := by
        refine List.findSome?_eq_none_iff.mpr fun node member => ?_
        obtain ⟨operand, known, member⟩ := List.mem_flatMap.mp member
        obtain ⟨line, value, literal⟩ := literals operand (mem_of_mem_arranged known)
        rw [Operand.nodes, literal, Expr.nodes, List.mem_singleton] at member
        exact member ▸ rfl
      rw [Stops, firstFault_append, bound, clear]
      rfl

theorem subscript_stops {nodes : List Node} {target : Rendered} (stops : Stops nodes target)
    {arguments : List Operand} (each : ∀ operand ∈ arguments, operand.Stops) :
    Stops (nodes ++ arguments.flatMap Operand.nodes) (subscript target arguments) := by
  refine stops.append fun text => ?_
  split
  · exact .pure _
  · exact .map (Operand.joined_stops each ",") _

theorem composeCall_stops (target : Operand) (stops : target.Stops) {arguments : List Operand}
    (each : ∀ operand ∈ arguments, operand.Stops) (results : Nat) :
    Stops (target.nodes ++ arguments.flatMap Operand.nodes) (composeCall target arguments results) :=
  stops.append fun _ => .map (Operand.joined_stops each ",") _

theorem composeIndex_stops (target : Operand) (stops : target.Stops) {arguments : List Operand}
    (each : ∀ operand ∈ arguments, operand.Stops) (form : IndexForm) :
    Stops (target.nodes ++ arguments.flatMap Operand.nodes) (composeIndex form target arguments) := by
  cases form with
  | apply => exact composeCall_stops target stops each 1
  | call results => exact composeCall_stops target stops each results
  | arrayRef | cellRef => exact subscript_stops stops each

theorem composeRows_stops (brackets : Brackets) {rows : List (List Operand)}
    (each : ∀ row ∈ rows, ∀ operand ∈ row, operand.Stops) :
    Stops (rows.flatMap (·.flatMap Operand.nodes)) (composeRows brackets rows) := by
  unfold composeRows
  cases brackets with
  | cell => exact .map (Operand.bracketed_stops each) _
  | matrix =>
    dsimp only
    split_ifs with hollow
    · rw [flatMap_nodes_of_hollow hollow]
      exact .pure _
    · rw [← flatMap_nodes_flatten]
      refine Operand.joined_stops (fun operand member => ?_) " + "
      obtain ⟨row, inside, member⟩ := List.mem_flatten.mp member
      exact each row inside operand member
    · exact .map (Operand.bracketed_stops each) _

end Code

open Code

variable (words : ReservedWords)

mutual
theorem Ident.identText_stops : ∀ ident : Ident, Stops ident.nodes (identText words ident)
  | .mk _ none _ _ _ => .sound (.pure _) rfl
  | .mk _ (some init) _ _ _ => .sound (.map (Expr.exprText_stops init) _) rfl

theorem Expr.exprText_stops : ∀ expr : Expr, Stops expr.nodes (exprText words expr)
  | .ident _ named => .sound (Ident.identText_stops named) rfl
  | .literal .. => .sound (.pure _) rfl
  | .operation line spelling operands none => by
    rw [Expr.nodes, exprText, flatten_arranged words]
    have bound : Stops [] (bindingText spelling (operandsOf words operands).length none) := .pure ""
    refine compose_stops (Expr.operandsOf_stops operands) bound ?_
    exact congrArg (countFault? line spelling) (length_operandsOf words operands).symm
  | .operation line spelling operands (some result) => by
    have bound : Stops (if writesResult spelling operands.length then result.nodes else [])
        (bindingText spelling (operandsOf words operands).length (some (identText words result))) := by
      rw [length_operandsOf, bindingText]
      split
      · exact .map (Ident.identText_stops result) _
      · exact .pure ""
    rw [Expr.nodes, exprText, flatten_arranged words]
    refine compose_stops (Expr.operandsOf_stops operands) bound ?_
    exact congrArg (countFault? line spelling) (length_operandsOf words operands).symm
  | .field _ object _ => .sound (.map (Expr.exprText_stops object) _) rfl
  | .dynamicField _ object selector =>
    .sound (.append (Expr.exprText_stops object) fun _ => .map (Expr.exprText_stops selector) _) rfl
  | .index _ form target arguments => by
    rw [Expr.nodes, exprText, flatten_nodesEach words]
    refine .sound (composeIndex_stops ⟨target, _⟩ ?_ (Expr.operandsOf_stops arguments) form) rfl
    exact Expr.exprText_stops target
  | .rows _ brackets rows => by
    rw [Expr.nodes, exprText, flatten_nodesRows words]
    exact .sound (composeRows_stops brackets (Expr.rowsOf_stops rows)) rfl
  | .lambda _ params body =>
    .sound (.append (Ident.identTexts_stops params) fun _ => .map (Expr.exprText_stops body) _) rfl

theorem Expr.operandsOf_stops : ∀ exprs : List Expr, ∀ operand ∈ operandsOf words exprs, operand.Stops
  | [] => nofun
  | expr :: rest => List.forall_mem_cons.mpr ⟨Expr.exprText_stops expr, Expr.operandsOf_stops rest⟩

theorem Expr.rowsOf_stops : ∀ rows : List (List Expr), ∀ row ∈ rowsOf words rows, ∀ operand ∈ row, operand.Stops
  | [] => nofun
  | row :: rest => List.forall_mem_cons.mpr ⟨Expr.operandsOf_stops row, Expr.rowsOf_stops rest⟩

theorem Ident.identTexts_stops : ∀ idents : List Ident, Stops (Ident.nodesList idents) (identTexts words idents)
  | [] => .pure _
  | ident :: rest => .append (Ident.identText_stops ident) fun _ => .map (Ident.identTexts_stops rest) _
end

theorem Expr.targetText_stops : ∀ target : Expr, Stops target.nodes (targetText words target)
  | .index _ _ target arguments => by
    rw [Expr.nodes, targetText, flatten_nodesEach words]
    exact .sound (subscript_stops (Expr.targetText_stops target) (Expr.operandsOf_stops words arguments)) rfl
  | .field _ object _ => .sound (.map (Expr.targetText_stops object) _) rfl
  | .ident .. | .literal .. | .operation .. | .dynamicField .. | .rows .. | .lambda .. => Expr.exprText_stops words _

namespace Code

theorem assignText_stops (line : SourceLine) (targets : List Expr) (value : Expr) :
    Stops (value.nodes ++ .statement (.assign line targets value) :: (Expr.nodesEach targets).flatten)
      (assignText words line targets value) := by
  match targets with
  | [] => exact .append (value.exprText_stops words) fun _ => .fault rfl
  | [.field _ object _] =>
    rw [flatten_nodesOne]
    exact .append (value.exprText_stops words) fun _ => .sound (.sound (.map (object.targetText_stops words) _) rfl) rfl
  | [.dynamicField _ object selector] =>
    rw [flatten_nodesOne]
    refine .append (value.exprText_stops words) fun _ => .sound (.sound ?_ rfl) rfl
    exact .append (object.targetText_stops words) fun _ => .map (selector.exprText_stops words) _
  | [.ident ..] | [.literal ..] | [.operation ..] | [.index ..] | [.rows ..] | [.lambda ..] =>
    rw [flatten_nodesOne]
    exact .append (value.exprText_stops words) fun _ => .sound (.map (Expr.targetText_stops words _) _) rfl
  | first :: second :: rest =>
    rw [assignText_several, flatten_nodesEach_eq]
    refine .append (value.exprText_stops words) fun text => .sound (.map (.mapM fun target _ => ?_) _) rfl
    exact target.targetText_stops words

theorem headerLines_stops (name : Ident) (params : List Ident) (level : Nat) :
    Stops (name.nodes ++ Ident.nodesList params) (headerLines words name params level) :=
  .append (name.identText_stops words) fun _ => .map (Ident.identTexts_stops words params) _

mutual
theorem stmtLines_stops : ∀ (statement : Stmt) (level : Nat) (keyword : String),
    Stops statement.nodes (stmtLines words statement level keyword)
  | .expression _ value, _, _ => .sound (.map (value.exprText_stops words) _) rfl
  | .assign line targets value, _, _ => .map (assignText_stops words line targets value) _
  | .branch _ condition thenBody none, level, _ =>
    .sound (.append (condition.exprText_stops words) fun _ => .map (sectionLines_stops thenBody _ _ _) _) rfl
  | .branch line condition thenBody (some elseBody), level, keyword => by
    have others : Stops (Stmt.nodesList elseBody) (elseLines words elseBody level) := by
      match elseBody with
      | [] | _ :: _ :: _ =>
        rw [elseLines_suite words (by rfl)]
        exact .map (sectionLines_stops _ _ _ _) _
      | [only] =>
        cases branch : isBranch only with
        | false =>
          rw [elseLines_suite words (loneBranch?_one branch)]
          exact .map (sectionLines_stops [only] _ _ _) _
        | true =>
          rw [elseLines_branch words branch, Stmt.nodesList, Stmt.nodesList, List.append_nil]
          exact stmtLines_stops only level "elif"
    rw [stmtLines_else, Stmt.nodes]
    exact .sound (.append (condition.exprText_stops words) fun _ =>
      .append (sectionLines_stops thenBody _ _ _) fun _ => .map others _) rfl
  | .forEach _ loopName columns body, level, _ =>
    .sound (.append (loopName.identText_stops words) fun _ =>
      .append (.map (columns.exprText_stops words) _) fun _ => .map (sectionLines_stops body _ _ _) _) rfl
  | .whileLoop _ condition body, level, _ =>
    .sound (.append (condition.exprText_stops words) fun _ => .map (sectionLines_stops body _ _ _) _) rfl
  | .attempt line body handler none, level, keyword => by
    have last : Stops [] (finallyLines words (finalBody? handler none) level) := by
      cases handler with
      | absent => exact .map (sectionLines_stops [] _ _ _) _
      | present => exact .pure _
    rw [stmtLines_attempt, Stmt.nodes]
    refine .sound (.append (sectionLines_stops body _ _ _) fun _ => ?_) rfl
    simpa using (handlerLines_stops handler level).append fun _ => last.map _
  | .attempt line body handler (some finallyBody), level, keyword => by
    have last : Stops (Stmt.nodesList finallyBody)
        (finallyLines words (finalBody? handler (some finallyBody)) level) := by
      cases handler <;> exact .map (sectionLines_stops finallyBody _ _ _) _
    rw [stmtLines_attempt, Stmt.nodes]
    exact .sound (.append (sectionLines_stops body _ _ _) fun _ => .append (handlerLines_stops handler level) fun _ =>
      last.map _) rfl
  | .function _ name params body, level, _ =>
    .sound (.append (headerLines_stops words name params level) fun _ => .map (sectionLines_stops body _ _ _) _) rfl
  | .declare _ _ [], level, _ => .fault rfl
  | .declare _ _ (name :: names), level, _ => .sound (.map (Ident.identTexts_stops words (name :: names)) _) rfl
  | .return _ none, _, _ | .word _ .break, _, _ | .word _ .continue, _, _ | .word _ .pass, _, _
  | .word _ .nothing, _, _ | .comment .., _, _ => .sound (.pure _) rfl
  | .return _ (some value), _, _ => .sound (.map (value.exprText_stops words) _) rfl

theorem handlerLines_stops : ∀ (handler : Handler) (level : Nat),
    Stops handler.nodes (handlerLines words handler level)
  | .absent, _ => .pure _
  | .present none body, level => .map (sectionLines_stops body _ _ _) _
  | .present (some name) body, level =>
    .append (name.identText_stops words) fun _ => .map (sectionLines_stops body _ _ _) _

theorem sectionLines_stops : ∀ (statements : List Stmt) (level current : Nat) (idle : Bool),
    Stops (Stmt.nodesList statements) (sectionLines words statements level current idle)
  | [], _, _, _ => .pure _
  | statement :: rest, level, current, idle => by
    rw [sectionLines]
    split
    · exact .append (stmtLines_stops statement _ _) fun _ => .map (sectionLines_stops rest _ _ _) _
    · exact .append (stmtLines_stops statement _ _) fun _ => .map (sectionLines_stops rest _ _ _) _
end

/-- Generation gives the fault of the first malformed node, or text if there is none. -/
theorem generate_stops (settings : Settings) (program : Program) : Stops program.nodes (generate settings program) :=
  .map (.map (sectionLines_stops settings.reserved program.statements 0 0 false) _) _

end Code

namespace Program

variable (settings : Settings) (program : Program)

theorem generate_error_iff (fault : Fault) :
    generate settings program = .error fault ↔ firstFault program.nodes = some fault := by
  rw [generate_stops settings program]
  cases generate settings program <;> simp [faultOf]

/-- Programs that differ in what resolution writes into them have the same fault. -/
theorem generate_error_congr {one other : Program} (same : one.unmarked = other.unmarked) (fault : Fault) :
    generate settings one = .error fault ↔ generate settings other = .error fault := by
  have faults (program : Program) : firstFault program.unmarked.nodes = firstFault program.nodes := by
    rw [nodes_unmarked, firstFault, List.findSome?_map]
    exact congrArg (List.findSome? · program.nodes) (funext Node.fault?_unmarked)
  rw [generate_error_iff, generate_error_iff, ← faults one, same, faults other]

/-- Compilation that is not strict fails as it does without resolution. -/
theorem compile_error_iff (error : CompileError) :
    (program.compile { settings with strict := false }).2 = .error error ↔
      program.compileAsIs settings = .error error := by
  have same := generate_error_congr settings (program.unmarked_resolve { settings with strict := false })
  let chosen := { settings with strict := false }
  have accepted : program.checked chosen = ((program.resolve chosen).program, .ok (program.resolve chosen)) := rfl
  have failed (fault : Fault) (made : generate chosen (program.resolve chosen).program = .error fault) :
      (program.compile chosen).2 = .error (.malformed fault) := by
    simp [compile, accepted, made, bind, Except.bind]
  have compiled (code : String) (made : generate chosen (program.resolve chosen).program = .ok code) :
      (program.compile chosen).2 =
        .ok ⟨code, (program.resolve chosen).diagnostics, (program.resolve chosen).changes⟩ := by
    simp [compile, accepted, made, bind, Except.bind]
  cases resolved : generate chosen (program.resolve chosen).program with
  | error fault => rw [failed fault resolved, compileAsIs, (same fault).mp resolved]
  | ok code =>
    rw [compiled code resolved, compileAsIs]
    cases given : generate settings program with
    | error fault => cases resolved.symm.trans ((same fault).mpr given)
    | ok => simp

/-- Generation fails exactly if a node is malformed, with the fault of the first such node and on its line; and it
fails alike for the tree as it stands and after resolution. -/
theorem generate_first_fault :
    ((∃ fault, generate settings program = .error fault) ↔ ∃ node ∈ program.nodes, node.fault?.isSome) ∧
    (∀ fault, generate settings program = .error fault ↔
      ∃ before node after, program.nodes = before ++ node :: after ∧ (∀ earlier ∈ before, earlier.fault? = none) ∧
        node.fault? = some fault ∧ node.line? = some fault.line) ∧
    (∀ resolving fault, generate settings (program.resolve resolving).program = .error fault ↔
      generate settings program = .error fault) ∧
    ∀ error, (program.compile { settings with strict := false }).2 = .error error ↔
      program.compileAsIs settings = .error error := by
  have resolved (resolving : Settings) (fault : Fault) :=
    generate_error_congr settings (program.unmarked_resolve resolving) fault
  refine ⟨?_, fun fault => ?_, resolved, fun error => ?_⟩
  · simp only [generate_error_iff, ← Option.isSome_iff_exists, firstFault, List.findSome?_isSome_iff]
  · rw [generate_error_iff, firstFault, List.findSome?_eq_some_iff]
    constructor
    · rintro ⟨before, node, after, split, malformed, sound⟩
      exact ⟨before, node, after, split, sound, malformed, Node.line?_of_fault? malformed⟩
    · rintro ⟨before, node, after, split, sound, malformed, _⟩
      exact ⟨before, node, after, split, malformed, sound⟩
  · exact program.compile_error_iff settings error

end Program
end ArrayLift
