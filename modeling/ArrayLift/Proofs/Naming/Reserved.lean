import ArrayLift.Proofs.Annotation.Mentions
import ArrayLift.Proofs.Layout.Ownership
import ArrayLift.Proofs.Naming.DefaultWords
import ArrayLift.Proofs.Naming.Mangling
import ArrayLift.Proofs.Naming.Renaming

/-! Reserved words as a renaming. The text of a program under a set of reserved words is the text, without any
reserved words, of the program in which each of them has its suffix wherever it is the name of an identifier or of a
field. -/
namespace ArrayLift

/-- Every reserved name gets its suffix, be it that of an identifier or of a field. -/
def ReservedWords.suffixes (words : ReservedWords) : Renaming :=
  ⟨words.mangled, words.mangled⟩

variable {words : ReservedWords}

namespace Code

/-- No identifier carries the flag of a reserved name. -/
def Unflagged : List Mention → Prop :=
  Mention.All fun ident => ident.reserved = false

/-- No call that fills the workspace has a reserved name. -/
def SparesLoaders (words : ReservedWords) : Prop :=
  ∀ name, LibraryName.isWorkspaceLoader name = true → words.contains name = false

/-- No name with the suffix fills the workspace. -/
theorem isWorkspaceLoader_suffixed (name : String) :
    LibraryName.isWorkspaceLoader (name ++ ReservedWords.collisionSuffix) = false := by
  have unlisted : name ++ ReservedWords.collisionSuffix ∉ LibraryName.workspaceLoaders :=
    ReservedWords.suffixed_not_mem (by decide) name
  exact Bool.eq_false_iff.mpr fun loads => unlisted (List.elem_iff.mp loads)

theorem SparesLoaders.isWorkspaceLoader_mangled (spares : SparesLoaders words) (name : String) :
    LibraryName.isWorkspaceLoader (words.mangled name) = LibraryName.isWorkspaceLoader name := by
  cases reserved : words.contains name with
  | false => rw [ReservedWords.mangled_free reserved]
  | true =>
    have other : LibraryName.isWorkspaceLoader name ≠ true := fun loads => by simp [spares name loads] at reserved
    rw [ReservedWords.mangled_reserved reserved, isWorkspaceLoader_suffixed, Bool.eq_false_iff.mpr other]

theorem SparesLoaders.loadsWorkspace_renamed (spares : SparesLoaders words) (expr : Expr) :
    loadsWorkspace (expr.renamed words.suffixes) = loadsWorkspace expr := by
  match expr with
  | .ident _ named =>
    have own : (named.renamed words.suffixes).name = words.mangled named.name := named.name_renamed _
    exact (congrArg LibraryName.isWorkspaceLoader own).trans (spares.isWorkspaceLoader_mangled named.name)
  | .operation _ _ _ none | .operation _ _ _ (some _) => rfl
  | .literal .. | .field .. | .dynamicField .. | .index .. | .rows .. | .lambda .. => rfl

end Code

open Code

mutual
theorem Ident.identText_renamed (spares : SparesLoaders words) : ∀ ident : Ident, Unflagged ident.mentions →
    identText .empty (ident.renamed words.suffixes) = identText words ident
  | .mk name none role reserved id, unflagged => by
    obtain rfl : reserved = false := unflagged _ (List.mem_singleton_self _)
    rfl
  | .mk name (some init) role reserved id, unflagged => by
    obtain ⟨own, inner⟩ := List.forall_mem_cons.mp unflagged
    obtain rfl : reserved = false := own
    simp only [Ident.renamed, identText, Expr.exprText_renamed spares init (Mention.All.passedBy.mp inner)]
    rfl

theorem Expr.exprText_renamed (spares : SparesLoaders words) : ∀ expr : Expr, Unflagged expr.mentions →
    exprText .empty (expr.renamed words.suffixes) = exprText words expr
  | .ident _ named, unflagged => Ident.identText_renamed spares named unflagged
  | .literal .., _ => rfl
  | .operation line spelling operands none, unflagged => by
    simp only [Expr.renamed, exprText, Expr.operandsOf_renamed spares operands unflagged,
      compose_change (Operand.kept_renamed _)]
  | .operation line spelling operands (some result), unflagged => by
    obtain ⟨inOperands, inResult⟩ := Mention.All.append.mp unflagged
    simp only [Expr.renamed, exprText, Expr.operandsOf_renamed spares operands inOperands,
      Ident.identText_renamed spares result inResult, compose_change (Operand.kept_renamed _)]
  | .field _ object name, unflagged => by
    simp only [Expr.renamed, exprText, Expr.exprText_renamed spares object unflagged]
    rfl
  | .dynamicField _ object selector, unflagged => by
    obtain ⟨inObject, inSelector⟩ := Mention.All.append.mp unflagged
    simp only [Expr.renamed, exprText, Expr.exprText_renamed spares object inObject,
      Expr.exprText_renamed spares selector inSelector]
  | .index _ form target arguments, unflagged => by
    obtain ⟨inTarget, inArguments⟩ := Mention.All.append.mp unflagged
    have loads := spares.loadsWorkspace_renamed target
    have same := composeIndex_change (Operand.kept_renamed _) form ⟨target, exprText words target⟩ loads
      (operandsOf words arguments)
    simpa only [Expr.renamed, exprText, Expr.operandsOf_renamed spares arguments inArguments,
      Expr.exprText_renamed spares target inTarget, Operand.renamed] using same
  | .rows _ brackets rows, unflagged => by
    simp only [Expr.renamed, exprText, Expr.rowsOf_renamed spares rows unflagged,
      composeRows_change (Operand.kept_renamed _)]
  | .lambda _ params body, unflagged => by
    obtain ⟨inParams, inBody⟩ := Mention.All.append.mp unflagged
    simp only [Expr.renamed, exprText, Ident.identTexts_renamed spares params inParams,
      Expr.exprText_renamed spares body inBody]

theorem Expr.operandsOf_renamed (spares : SparesLoaders words) : ∀ exprs : List Expr,
    Unflagged (Expr.mentionsList exprs) →
      operandsOf .empty (Expr.renamedList words.suffixes exprs) =
        (operandsOf words exprs).map (Operand.renamed words.suffixes)
  | [], _ => rfl
  | expr :: rest, unflagged => by
    obtain ⟨first, others⟩ := Mention.All.append.mp unflagged
    simp only [Expr.renamedList, operandsOf, Expr.exprText_renamed spares expr first,
      Expr.operandsOf_renamed spares rest others]
    rfl

theorem Expr.rowsOf_renamed (spares : SparesLoaders words) : ∀ rows : List (List Expr),
    Unflagged (Expr.mentionsRows rows) →
      rowsOf .empty (Expr.renamedRows words.suffixes rows) =
        (rowsOf words rows).map (List.map (Operand.renamed words.suffixes))
  | [], _ => rfl
  | row :: rest, unflagged => by
    obtain ⟨first, others⟩ := Mention.All.append.mp unflagged
    simp only [Expr.renamedRows, rowsOf, Expr.operandsOf_renamed spares row first,
      Expr.rowsOf_renamed spares rest others, List.map_cons]

theorem Ident.identTexts_renamed (spares : SparesLoaders words) : ∀ idents : List Ident,
    Unflagged (Ident.mentionsList idents) →
      identTexts .empty (Ident.renamedList words.suffixes idents) = identTexts words idents
  | [], _ => rfl
  | ident :: rest, unflagged => by
    obtain ⟨first, others⟩ := Mention.All.append.mp unflagged
    simp only [Ident.renamedList, identTexts, Ident.identText_renamed spares ident first,
      Ident.identTexts_renamed spares rest others]
end

theorem Expr.targetText_renamed (spares : SparesLoaders words) : ∀ target : Expr, Unflagged target.mentions →
    targetText .empty (target.renamed words.suffixes) = targetText words target
  | .index _ _ target arguments, unflagged => by
    obtain ⟨inTarget, inArguments⟩ := Mention.All.append.mp unflagged
    simp only [Expr.renamed, targetText, Expr.targetText_renamed spares target inTarget,
      Expr.operandsOf_renamed spares arguments inArguments, subscript_change (Operand.kept_renamed _)]
  | .field _ object _, unflagged => by
    simp only [Expr.renamed, targetText, Expr.targetText_renamed spares object unflagged]
    rfl
  | .operation line spelling operands none, unflagged =>
    Expr.exprText_renamed spares (.operation line spelling operands none) unflagged
  | .operation line spelling operands (some result), unflagged =>
    Expr.exprText_renamed spares (.operation line spelling operands (some result)) unflagged
  | .ident line named, unflagged => Expr.exprText_renamed spares (.ident line named) unflagged
  | .literal line value, unflagged => Expr.exprText_renamed spares (.literal line value) unflagged
  | .dynamicField line object selector, unflagged =>
    Expr.exprText_renamed spares (.dynamicField line object selector) unflagged
  | .rows line brackets elements, unflagged => Expr.exprText_renamed spares (.rows line brackets elements) unflagged
  | .lambda line params body, unflagged => Expr.exprText_renamed spares (.lambda line params body) unflagged

theorem Expr.targetTexts_renamed (spares : SparesLoaders words) : ∀ targets : List Expr,
    Unflagged (Expr.mentionsList targets) →
      (Expr.renamedList words.suffixes targets).mapM (targetText .empty) = targets.mapM (targetText words)
  | [], _ => rfl
  | target :: rest, unflagged => by
    obtain ⟨first, others⟩ := Mention.All.append.mp unflagged
    simp only [Expr.renamedList, List.mapM_cons, Expr.targetText_renamed spares target first,
      Expr.targetTexts_renamed spares rest others]

namespace Code

theorem assignText_renamed (spares : SparesLoaders words) (line : SourceLine) {targets : List Expr} {value : Expr}
    (inTargets : Unflagged (Expr.mentionsList targets)) (inValue : Unflagged value.mentions) :
    assignText .empty line (Expr.renamedList words.suffixes targets) (value.renamed words.suffixes) =
      assignText words line targets value := by
  have text := value.exprText_renamed spares inValue
  have texts := Expr.targetTexts_renamed spares targets inTargets
  match targets with
  | [] => simp only [assignText, Expr.renamedList, text]
  | [.field line object name] =>
    have inObject : Unflagged object.mentions := (Mention.All.append.mp inTargets).1
    simp only [assignText, Expr.renamedList, Expr.renamed, text, object.targetText_renamed spares inObject]
    rfl
  | [.dynamicField line object selector] =>
    obtain ⟨inObject, inSelector⟩ := Mention.All.append.mp (Mention.All.append.mp inTargets).1
    simp only [assignText, Expr.renamedList, Expr.renamed, text, object.targetText_renamed spares inObject,
      selector.exprText_renamed spares inSelector]
  | [.ident ..] | [.literal ..] | [.operation _ _ _ none] | [.operation _ _ _ (some _)] | [.index ..]
  | [.rows ..] | [.lambda ..] =>
    have left := Expr.targetText_renamed spares _ (Mention.All.append.mp inTargets).1
    simp only [Expr.renamed] at left
    simp only [assignText, Expr.renamedList, Expr.renamed, text, left, Expr.isSome_ident?_renamed] <;> rfl
  | first :: second :: rest =>
    simp only [Expr.renamedList] at texts
    simp only [Expr.renamedList, assignText_several, text, texts]

theorem headerLines_renamed (spares : SparesLoaders words) {name : Ident} {params : List Ident}
    (inName : Unflagged name.mentions) (inParams : Unflagged (Ident.mentionsList params)) (level : Nat) :
    headerLines .empty (name.renamed words.suffixes) (Ident.renamedList words.suffixes params) level =
      headerLines words name params level := by
  simp only [headerLines, name.identText_renamed spares inName, Ident.identTexts_renamed spares params inParams]

theorem closed_renamed (words : ReservedWords) (statements : List Stmt) (level : Nat) (lines : List Line) :
    closed (Stmt.renamedList words.suffixes statements) level lines = closed statements level lines := by
  simp only [closed, Stmt.all_isNoop_renamed]

mutual
theorem stmtLines_renamed (spares : SparesLoaders words) : ∀ (statement : Stmt) (level : Nat) (keyword : String),
    Unflagged statement.mentions →
      stmtLines .empty (statement.renamed words.suffixes) level keyword = stmtLines words statement level keyword
  | .expression _ value, _, _, unflagged => by
    simp only [Stmt.renamed, stmtLines, value.exprText_renamed spares unflagged]
  | .assign line targets value, _, _, unflagged => by
    obtain ⟨inTargets, inValue⟩ := Mention.All.append.mp unflagged
    simp only [Stmt.renamed, stmtLines, assignText_renamed spares line inTargets inValue]
  | .branch _ condition thenBody none, level, _, unflagged => by
    obtain ⟨inCondition, inThen⟩ := Mention.All.append.mp unflagged
    simp only [Stmt.renamed, stmtLines, condition.exprText_renamed spares inCondition,
      sectionLines_renamed spares thenBody _ _ _ inThen, closed_renamed]
  | .branch _ condition thenBody (some elseBody), level, keyword, unflagged => by
    obtain ⟨before, inElse⟩ := Mention.All.append.mp unflagged
    obtain ⟨inCondition, inThen⟩ := Mention.All.append.mp before
    have same : elseLines .empty (Stmt.renamedList words.suffixes elseBody) level = elseLines words elseBody level := by
      have inner := sectionLines_renamed spares elseBody (level + 1) (level + 1) false inElse
      have suite (plain : loneBranch? elseBody = none)
          (kept : loneBranch? (Stmt.renamedList words.suffixes elseBody) = none) :
          elseLines .empty (Stmt.renamedList words.suffixes elseBody) level = elseLines words elseBody level := by
        simp only [elseLines_suite _ plain, elseLines_suite _ kept, inner, closed_renamed]
      match elseBody with
      | [] | _ :: _ :: _ => exact suite rfl rfl
      | [only] =>
        have nested := stmtLines_renamed spares only level "elif" (Mention.All.append.mp inElse).1
        have kept := isBranch_renamed words.suffixes only
        cases branch : isBranch only with
        | false => exact suite (loneBranch?_one branch) (loneBranch?_one (kept.trans branch))
        | true => rw [elseLines_branch _ branch, ← nested, Stmt.renamedList, Stmt.renamedList,
            elseLines_branch _ (kept.trans branch)]
    simp only [Stmt.renamed, stmtLines_else, condition.exprText_renamed spares inCondition,
      sectionLines_renamed spares thenBody _ _ _ inThen, closed_renamed, same]
  | .forEach _ loopName columns body, level, _, unflagged => by
    obtain ⟨before, inBody⟩ := Mention.All.append.mp unflagged
    obtain ⟨inName, inColumns⟩ := Mention.All.append.mp before
    simp only [Stmt.renamed, stmtLines, loopName.identText_renamed spares inName,
      columns.exprText_renamed spares inColumns, Operand.grouped, isAtomic_renamed,
      sectionLines_renamed spares body _ _ _ inBody, closed_renamed]
  | .whileLoop _ condition body, level, _, unflagged => by
    obtain ⟨inCondition, inBody⟩ := Mention.All.append.mp unflagged
    simp only [Stmt.renamed, stmtLines, condition.exprText_renamed spares inCondition,
      sectionLines_renamed spares body _ _ _ inBody, closed_renamed]
  | .attempt _ body handler none, level, _, unflagged => by
    obtain ⟨inBody, inHandler⟩ := Mention.All.append.mp unflagged
    have last : finallyLines .empty (finalBody? (handler.renamed words.suffixes) none) level =
        finallyLines words (finalBody? handler none) level := by
      match handler with
      | .absent | .present none _ | .present (some _) _ => rfl
    simp only [Stmt.renamed, stmtLines_attempt, sectionLines_renamed spares body _ _ _ inBody, closed_renamed,
      handlerLines_renamed spares handler _ inHandler, last]
  | .attempt _ body handler (some finallyBody), level, _, unflagged => by
    obtain ⟨before, inFinally⟩ := Mention.All.append.mp unflagged
    obtain ⟨inBody, inHandler⟩ := Mention.All.append.mp before
    have final := sectionLines_renamed spares finallyBody (level + 1) (level + 1) false inFinally
    have last : finallyLines .empty
        (finalBody? (handler.renamed words.suffixes) (some (Stmt.renamedList words.suffixes finallyBody))) level =
          finallyLines words (finalBody? handler (some finallyBody)) level := by
      match handler with
      | .absent | .present none _ | .present (some _) _ =>
        simp only [Handler.renamed, finalBody?, finallyLines, final, closed_renamed]
    simp only [Stmt.renamed, stmtLines_attempt, sectionLines_renamed spares body _ _ _ inBody, closed_renamed,
      handlerLines_renamed spares handler _ inHandler, last]
  | .function _ name params body, level, _, unflagged => by
    obtain ⟨before, inBody⟩ := Mention.All.append.mp unflagged
    obtain ⟨inName, inParams⟩ := Mention.All.append.mp before
    have header := headerLines_renamed spares inName (Ident.all_mentionsList_of_paramMentions inParams)
    have empty : (Stmt.renamedList words.suffixes body).isEmpty = body.isEmpty := by cases body <;> rfl
    simp only [Stmt.renamed, stmtLines, header, sectionLines_renamed spares body _ _ _ inBody, closed_renamed, empty]
  | .declare _ _ names, level, _, unflagged => by
    have empty : (Ident.renamedList words.suffixes names).isEmpty = names.isEmpty := by cases names <;> rfl
    simp only [Stmt.renamed, stmtLines, Ident.identTexts_renamed spares names unflagged, empty]
  | .return _ none, _, _, _ | .word _ .break, _, _, _ | .word _ .continue, _, _, _ | .word _ .pass, _, _, _
  | .word _ .nothing, _, _, _ | .comment .., _, _, _ => rfl
  | .return _ (some value), _, _, unflagged => by
    simp only [Stmt.renamed, stmtLines, value.exprText_renamed spares unflagged]

theorem handlerLines_renamed (spares : SparesLoaders words) : ∀ (handler : Handler) (level : Nat),
    Unflagged handler.mentions →
      handlerLines .empty (handler.renamed words.suffixes) level = handlerLines words handler level
  | .absent, _, _ => rfl
  | .present none body, _, unflagged => by
    simp only [Handler.renamed, handlerLines, sectionLines_renamed spares body _ _ _ unflagged, closed_renamed]
  | .present (some name) body, _, unflagged => by
    obtain ⟨inName, inBody⟩ := Mention.All.append.mp unflagged
    simp only [Handler.renamed, handlerLines, name.identText_renamed spares inName,
      sectionLines_renamed spares body _ _ _ inBody, closed_renamed]

theorem sectionLines_renamed (spares : SparesLoaders words) : ∀ (statements : List Stmt) (level current : Nat)
    (idle : Bool), Unflagged (Stmt.mentionsList statements) →
      sectionLines .empty (Stmt.renamedList words.suffixes statements) level current idle =
        sectionLines words statements level current idle
  | [], _, _, _, _ => rfl
  | statement :: rest, level, current, idle, unflagged => by
    obtain ⟨first, others⟩ := Mention.All.append.mp unflagged
    simp only [Stmt.renamedList, sectionLines, stmtLines_renamed spares statement _ _ first,
      sectionLines_renamed spares rest _ _ _ others, Stmt.isFunction_renamed, Stmt.isFlatFunction_renamed,
      Stmt.isNoop_renamed]
end

end Code

/-- Without flags, generation under a set of reserved words that leaves out what fills the workspace gives what it
gives without reserved words for the renamed program: the same text, or the same fault. -/
theorem Program.generate_renamed (settings : Settings) (program : Program)
    (unflagged : ∀ mention ∈ program.mentions, mention.ident.reserved = false)
    (spares : ∀ name, LibraryName.isWorkspaceLoader name = true → settings.reserved.contains name = false) :
    generate settings program =
      generate { settings with reserved := .empty } (program.renamed settings.reserved.suffixes) := by
  have lines := sectionLines_renamed spares program.statements 0 0 false unflagged
  simp only [generate, programLines, blockLines, Program.renamed, lines, closed_renamed]
  rfl

/-- A field and a name that are reserved. -/
def Program.reservedField : Program :=
  ⟨[.assign 1 [.field 1 (.ident 1 (.named "s")) "class"] (.ident 1 (.named "len"))]⟩

theorem Program.generate_renamed_reservedField :
    generate {} reservedField = .ok "s.class_ = copy(len_)\n" ∧
      generate { ({} : Settings) with reserved := .empty } (reservedField.renamed ({} : Settings).reserved.suffixes) =
        .ok "s.class_ = copy(len_)\n" := by
  have text : generate {} reservedField = .ok "s.class_ = copy(len_)\n" := by
    rw [ReservedWords.standard_eq]
    decide
  have unflagged : ∀ mention ∈ reservedField.mentions, mention.ident.reserved = false := by decide
  have spares (name : String) (loads : LibraryName.isWorkspaceLoader name = true) :
      ({} : Settings).reserved.contains name = false := by
    obtain rfl : name = "load" := by simpa [LibraryName.isWorkspaceLoader, LibraryName.workspaceLoaders] using loads
    simp [ReservedWords.contains_standard, ReservedWords.defaultWords]
  exact ⟨text, (generate_renamed {} reservedField unflagged spares).symm.trans text⟩

end ArrayLift
