import ArrayLift.Proofs.Naming.DefaultWords
import ArrayLift.Proofs.Rendering.Lines
import ArrayLift.Proofs.Rendering.Mentioned

/-! Which operations name their results in the text. Resolution takes every result for a definition; the text binds it
where the operation is written as a call of its spelling, and nowhere else. -/
namespace ArrayLift
namespace Code

variable {words : ReservedWords} {line : SourceLine} {spelling : String} {operands : List Expr} {result : Ident}

/-- An operation that names its result is neither malformed nor folded. -/
theorem sound_of_writesResult (words : ReservedWords) (line : SourceLine)
    (writes : writesResult spelling operands.length = true) :
    countFault? line spelling operands.length = none ∧ folded? spelling (operandsOf words operands) = none := by
  simp only [writesResult, Bool.and_eq_true, Bool.not_eq_true', decide_eq_true_eq] at writes
  constructor
  · unfold countFault?
    split <;> simp_all [Operator.hasForm]
  · refine Option.eq_none_iff_forall_ne_some.mpr fun sum folded => ?_
    have two := (of_folded? folded).2.1
    rw [length_operandsOf] at two
    omega

/-- The result of an operation has a part in the text only where the text names it. -/
theorem exprText_operation_some :
    exprText words (.operation line spelling operands (some result)) =
      if writesResult spelling operands.length then (do
        let name ← identText words result
        let value ← exprText words (.operation line spelling operands none)
        pure (name ++ "=" ++ value))
      else exprText words (.operation line spelling operands none) := by
  simp only [exprText, compose_eq, length_operandsOf]
  cases writes : writesResult spelling operands.length with
  | false => simp only [bindingText_of_not_writesResult writes, Bool.false_eq_true, if_false]
  | true =>
    obtain ⟨sound, unfolded⟩ := sound_of_writesResult words line writes
    simp [sound, unfolded, bindingText, writes, String.append_assoc]

theorem append_equals_ne (name value : String) : name ++ "=" ++ value ≠ value := by
  intro same
  have lengths := congrArg String.length same
  simp at lengths

/-- The text of an operation binds its result exactly where it names it, and is the value alone elsewhere. -/
theorem exprText_result {text : String}
    (rendered : exprText words (.operation line spelling operands (some result)) = .ok text) :
    ∃ value, exprText words (.operation line spelling operands none) = .ok value ∧
      ((∃ name, identText words result = .ok name ∧ text = name ++ "=" ++ value) ↔
        writesResult spelling operands.length = true) ∧
      (writesResult spelling operands.length = false → text = value) := by
  rw [exprText_operation_some] at rendered
  cases writes : writesResult spelling operands.length with
  | false =>
    rw [writes, if_neg Bool.false_ne_true] at rendered
    refine ⟨text, rendered, ⟨?_, nofun⟩, fun _ => rfl⟩
    rintro ⟨name, -, bound⟩
    exact absurd bound.symm (append_equals_ne name text)
  | true =>
    rw [writes, if_pos rfl] at rendered
    cases named : identText words result with
    | error => rw [named] at rendered; cases rendered
    | ok name =>
      cases alone : exprText words (.operation line spelling operands none) with
      | error => rw [named, alone] at rendered; cases rendered
      | ok value =>
        rw [named, alone] at rendered
        cases rendered
        exact ⟨value, rfl, ⟨fun _ => rfl, fun _ => ⟨name, rfl, rfl⟩⟩, nofun⟩

end Code

open Code

namespace Program

/-- An operation whose result has a name stands in the text as its value with the name bound to it, or as its value
alone. It is bound exactly if the operation has no form of its own and at least three operands. Resolution makes the
result a variable in either case, but for an operation that the walk passes by. -/
theorem result_bound_iff (settings : Settings) (program : Program) {line : SourceLine} {spelling : String}
    {operands : List Expr} {result : Ident}
    (known : .expression (.operation line spelling operands (some result)) ∈ program.nodes) :
    (∀ code, generate settings program = .ok code →
      ∃ text value, exprText settings.reserved (.operation line spelling operands (some result)) = .ok text ∧
        exprText settings.reserved (.operation line spelling operands none) = .ok value ∧ Within text code ∧
        ((∃ name, identText settings.reserved result = .ok name ∧ text = name ++ "=" ++ value) ↔
          writesResult spelling operands.length = true) ∧
        (writesResult spelling operands.length = false → text = value)) ∧
    ∀ (chosen : Settings) (source : Program), program = (source.resolve chosen).program →
      ∃ mention ∈ program.mentions, mention.ident = result ∧ (mention.walked = true → result.role = .variable) := by
  refine ⟨fun code made => ?_, ?_⟩
  · obtain ⟨text, rendered, within⟩ := generate_holds settings program code made _ known _ rfl
    obtain ⟨value, alone, bound⟩ := exprText_result rendered
    exact ⟨text, value, rendered, alone, within, bound⟩
  · rintro chosen source rfl
    exact source.result_variable chosen known

/-- A call of three operands whose result is named, and what resolution makes of it. -/
def boundCall : Program :=
  ⟨[.expression 1 (.operation 1 "horzcat" [.ident 1 (.named "a"), .ident 1 (.named "b"), .ident 1 (.named "c")]
    (some (.named "r")))]⟩

def boundCallResolved : Program :=
  ⟨[.expression 1 (.operation 1 "horzcat" [.ident 1 (.mk "a" none .function false (some 0)),
    .ident 1 (.mk "b" none .function false (some 1)), .ident 1 (.mk "c" none .function false (some 2))]
    (some (.mk "r" none .variable false (some 3))))]⟩

theorem result_bound_boundCall :
    (boundCall.resolve {}).program = boundCallResolved ∧
      generate {} boundCallResolved = .ok "r=horzcat(a,b,c)\n" ∧
      (∃ name value, Within (name ++ "=" ++ value) "r=horzcat(a,b,c)\n") ∧
      ∃ mention ∈ boundCallResolved.mentions, mention.ident.role = .variable := by
  have resolved : (boundCall.resolve {}).program = boundCallResolved := by
    rw [ReservedWords.standard_eq]
    set_option maxRecDepth 100000 in rfl
  have made : generate {} boundCallResolved = .ok "r=horzcat(a,b,c)\n" := by
    rw [ReservedWords.standard_eq]
    decide
  have known : .expression (.operation 1 "horzcat" [.ident 1 (.mk "a" none .function false (some 0)),
      .ident 1 (.mk "b" none .function false (some 1)), .ident 1 (.mk "c" none .function false (some 2))]
      (some (.mk "r" none .variable false (some 3)))) ∈ boundCallResolved.nodes := by
    simp [boundCallResolved, nodes, Stmt.nodesList, Stmt.nodes, Expr.nodes]
  obtain ⟨bound, settled⟩ := boundCallResolved.result_bound_iff {} known
  obtain ⟨_, value, _, _, within, binds, _⟩ := bound _ made
  obtain ⟨name, _, rfl⟩ := binds.mpr (by decide)
  obtain ⟨mention, member, same, _⟩ := settled {} boundCall resolved.symm
  exact ⟨resolved, made, ⟨name, value, within⟩, mention, member, same ▸ rfl⟩

/-- A product whose result is named, and a use of that name as an array. -/
def boundProduct : Program :=
  ⟨[.expression 1 (.operation 1 "*" [.ident 1 (.named "a"), .ident 1 (.named "b")] (some (.named "r"))),
    .expression 2 (.index 2 .apply (.ident 2 (.named "r")) [.literal 2 (.number (.int 1))])]⟩

/-- Resolution takes the name of the result for a variable, and nothing in the text binds it. -/
theorem boundProduct_unbound :
    (boundProduct.resolve {}).diagnostics = [] ∧
      (boundProduct.resolve {}).program.mentions.map (fun mention => (mention.ident.name, mention.ident.role)) =
        [("a", .function), ("b", .function), ("r", .variable), ("r", .variable)] ∧
      generate {} (boundProduct.resolve {}).program = .ok "a * b\nr[1]\n" ∧
      ¬∀ line spelling operands result,
        .expression (.operation line spelling operands (some result)) ∈ boundProduct.nodes →
          ∃ name value, identText .standard result = .ok name ∧
            exprText .standard (.operation line spelling operands (some result)) = .ok (name ++ "=" ++ value) := by
  have generated : generate {} (boundProduct.resolve {}).program = .ok "a * b\nr[1]\n" := by
    rw [ReservedWords.standard_eq]
    decide +kernel
  refine ⟨by decide +kernel, by decide +kernel, generated, fun all => ?_⟩
  obtain ⟨name, value, named, text⟩ := all 1 "*" [.ident 1 (.named "a"), .ident 1 (.named "b")] (.named "r")
    (by simp [boundProduct, nodes, Stmt.nodesList, Stmt.nodes, Expr.nodes])
  have product : exprText .standard
      (.operation 1 "*" [.ident 1 (.named "a"), .ident 1 (.named "b")] (some (.named "r"))) = .ok "a * b" := by
    rw [ReservedWords.standard_eq]
    decide
  have result : identText .standard (.named "r") = .ok "r" := by
    rw [ReservedWords.standard_eq]
    decide
  obtain rfl := Except.ok.inj (named.symm.trans result)
  have same := congrArg String.toList (Except.ok.inj (product.symm.trans text))
  simp at same

end Program

end ArrayLift
