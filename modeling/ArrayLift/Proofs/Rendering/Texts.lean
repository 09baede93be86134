import ArrayLift.Proofs.Layout.Yields
import ArrayLift.Proofs.Rendering.Nodes

/-! Where the texts of nodes stand. Every name and every operation that is rendered has its text in one piece within
the text of the tree. Indexed expressions and fields are left out, since an assignment target writes them in its own
way, and so are literals, since a sum of two may be folded. -/
namespace ArrayLift
namespace Code

/-- The first text stands in one piece within the second. -/
def Within (part whole : String) : Prop :=
  part.toList <:+: whole.toList

namespace Within

variable {part middle whole : String}

theorem refl (text : String) : Within text text := List.infix_rfl

theorem trans (inner : Within part middle) (outer : Within middle whole) : Within part whole :=
  List.IsInfix.trans inner outer

theorem empty (whole : String) : Within "" whole := List.nil_infix

theorem left (within : Within part whole) (rest : String) : Within part (whole ++ rest) := by
  rw [Within, String.toList_append]
  exact List.IsInfix.trans within (List.prefix_append ..).isInfix

theorem right (within : Within part whole) (before : String) : Within part (before ++ whole) := by
  rw [Within, String.toList_append]
  exact List.IsInfix.trans within (List.suffix_append ..).isInfix

-- From here on nothing looks at the characters, unification included.
attribute [irreducible] Within

theorem around (within : Within part whole) (before after : String) : Within part (before ++ whole ++ after) :=
  (within.right before).left after

theorem call (within : Within part whole) (name : LibraryName) : Within part (callOf name whole) :=
  (within.right _).left _

theorem join {separator : String} {texts : List String} (member : whole ∈ texts) (within : Within part whole) :
    Within part (separator.intercalate texts) := by
  induction texts with
  | nil => cases member
  | cons text rest ih =>
    obtain rfl | later := List.mem_cons.mp member
    · cases rest with
      | nil => simpa using within
      | cons next others =>
        rw [String.intercalate_cons_cons]
        exact (within.left separator).left _
    · obtain ⟨next, others, rfl⟩ := List.exists_cons_of_ne_nil (List.ne_nil_of_mem later)
      rw [String.intercalate_cons_cons]
      exact (ih later).right _

/-- Either of two texts with something between them. -/
theorem pair {left right : String} (member : part ∈ [left, right]) (between : String) :
    Within part (left ++ between ++ right) := by
  obtain rfl | member := List.mem_cons.mp member
  · exact ((refl part).left between).left right
  · exact List.mem_singleton.mp member ▸ (refl part).right _

end Within

theorem within_beside {spelling : String} {texts : List String} {text : String} (member : text ∈ texts) :
    Within text (beside spelling texts) := by
  match texts with
  | [only] => exact List.mem_singleton.mp member ▸ (Within.refl text).right _
  | [left, right] =>
    have pair := Within.pair member (" " ++ Operator.respell spelling ++ " ")
    simpa only [beside, String.append_assoc] using pair
  | first :: second :: third :: rest => exact (Within.join member (.refl text)).around _ _

/-- The text of every operand stands within that of the operation. -/
theorem within_assembled {spelling : String} {texts : List String} {text : String} (member : text ∈ texts) :
    Within text (assembled spelling texts) := by
  unfold assembled
  split
  case h_1 => exact List.mem_singleton.mp member ▸ (Within.refl text).call _
  case h_2 | h_3 | h_4 => exact (Within.pair member ",").call _
  case h_5 => exact List.mem_singleton.mp member ▸ Within.refl text
  case h_6 => exact List.mem_singleton.mp member ▸ ((Within.refl text).left _).left _
  case h_7 => exact List.mem_singleton.mp member ▸ (Within.refl text).around _ _
  case h_8 | h_11 | h_12 => cases member
  case h_9 => exact .pair member _
  case h_10 start stop step _ =>
    obtain first | last : text ∈ [start, stop] ∨ text = step := by simpa [or_assoc] using member
    · exact ((Within.pair first _).left _).left _
    · exact last ▸ (Within.refl text).right _
  case h_13 => exact (Within.join member (.refl text)).call _
  case h_14 left right _ | h_15 left right _ =>
    simpa only [String.append_assoc] using (Within.pair member _).around "(" ")"
  case h_16 => exact within_beside member

/-- What a name or an operation is rendered as, wherever it stands. -/
def Node.rendered? (words : ReservedWords) : Node → Option Rendered
  | .name ident => some (identText words ident)
  | .expression (.operation line spelling operands result) =>
    some (exprText words (.operation line spelling operands result))
  | _ => none

/-- Every name and every operation among the nodes has a text, and it is where it is said to stand. -/
def Carries (words : ReservedWords) (nodes : List Node) (stands : String → Prop) : Prop :=
  ∀ node ∈ nodes, ∀ rendered, node.rendered? words = some rendered → ∃ text, rendered = .ok text ∧ stands text

/-- The text, if there is one, holds those of the nodes. -/
def Holds (words : ReservedWords) (nodes : List Node) (result : Rendered) : Prop :=
  Yields (fun text => Carries words nodes (Within · text)) result

variable {words : ReservedWords}

namespace Carries

variable {nodes before after : List Node} {stands wider : String → Prop}

theorem nil : Carries words [] stands := nofun

theorem append (first : Carries words before stands) (rest : Carries words after stands) :
    Carries words (before ++ after) stands :=
  List.forall_mem_append.mpr ⟨first, rest⟩

theorem mono (carries : Carries words nodes stands) (implied : ∀ part, stands part → wider part) :
    Carries words nodes wider :=
  fun node member rendered own =>
    let ⟨text, made, stands⟩ := carries node member rendered own
    ⟨text, made, implied text stands⟩

theorem inside {part whole : String} (carries : Carries words nodes (Within · part)) (within : Within part whole) :
    Carries words nodes (Within · whole) :=
  carries.mono fun _ inner => inner.trans within

theorem cons {node : Node}
    (first : ∀ rendered, node.rendered? words = some rendered → ∃ text, rendered = .ok text ∧ stands text)
    (rest : Carries words nodes stands) : Carries words (node :: nodes) stands :=
  List.forall_mem_cons.mpr ⟨first, rest⟩

theorem flatMap {α : Type} {items : List α} {inner : α → List Node} {texts : List String} {whole : String}
    (each : ∀ item ∈ items, ∃ text ∈ texts, Carries words (inner item) (Within · text))
    (within : ∀ text ∈ texts, Within text whole) : Carries words (items.flatMap inner) (Within · whole) := by
  intro node member
  obtain ⟨item, known, member⟩ := List.mem_flatMap.mp member
  obtain ⟨text, stands, carries⟩ := each item known
  exact carries.inside (within text stands) node member

end Carries

/-- Each item has a value. -/
theorem Yields.mapM_each {α β : Type} {related : α → β → Prop} {items : List α} {make : α → Except Fault β}
    (each : ∀ item ∈ items, Yields (related item) (make item)) :
    Yields (fun values => ∀ item ∈ items, ∃ value ∈ values, related item value) (items.mapM make) := by
  induction items with
  | nil => exact .pure nofun
  | cons item rest ih =>
    obtain ⟨first, later⟩ := List.forall_mem_cons.mp each
    rw [List.mapM_cons]
    refine first.bind fun value holds => (ih later).bind fun values others => .pure ?_
    refine List.forall_mem_cons.mpr ⟨⟨value, List.mem_cons_self, holds⟩, fun item member => ?_⟩
    obtain ⟨value, known, holds⟩ := others item member
    exact ⟨value, List.mem_cons_of_mem _ known, holds⟩

namespace Holds

variable {nodes before after : List Node} {result : Rendered}

theorem empty : Holds words [] result := fun _ _ => .nil

/-- An expression in value position. -/
theorem expression {expr : Expr} (holds : Holds words nodes (exprText words expr)) :
    Holds words (.expression expr :: nodes) (exprText words expr) := by
  refine fun text made => .cons (fun rendered own => ?_) (holds text made)
  match expr with
  | .operation .. =>
    cases own
    exact ⟨text, made, .refl text⟩
  | .ident .. | .literal .. | .field .. | .dynamicField .. | .index .. | .rows .. | .lambda .. => cases own

theorem name {ident : Ident} (holds : Holds words nodes (identText words ident)) :
    Holds words (.name ident :: nodes) (identText words ident) := by
  refine fun text made => .cons (fun rendered own => ?_) (holds text made)
  cases own
  exact ⟨text, made, .refl text⟩

theorem statement (holds : Holds words nodes result) {statement : Stmt} :
    Holds words (.statement statement :: nodes) result :=
  fun text made => .cons (fun _ => nofun) (holds text made)

theorem field (holds : Holds words nodes result) {line : SourceLine} {object : Expr} {name : String} :
    Holds words (.expression (.field line object name) :: nodes) result :=
  fun text made => .cons (fun _ => nofun) (holds text made)

theorem index (holds : Holds words nodes result) {line : SourceLine} {form : IndexForm} {target : Expr}
    {arguments : List Expr} : Holds words (.expression (.index line form target arguments) :: nodes) result :=
  fun text made => .cons (fun _ => nofun) (holds text made)

theorem map (holds : Holds words nodes result) {make : String → String} (within : ∀ text, Within text (make text)) :
    Holds words nodes (do
      let text ← result
      pure (make text)) :=
  .bind holds fun text carries => .pure (carries.inside (within text))

theorem pair {other : Rendered} (first : Holds words before result) (second : Holds words after other)
    {make : String → String → String} (left : ∀ one two, Within one (make one two))
    (right : ∀ one two, Within two (make one two)) :
    Holds words (before ++ after) (do
      let one ← result
      let two ← other
      pure (make one two)) :=
  .bind first fun one carries => .bind second fun two others =>
    .pure (.append (carries.inside (left one two)) (others.inside (right one two)))

end Holds

/-! Operands. -/

namespace Operand

/-- What is rendered of the operand stands within its text. -/
def Holds (words : ReservedWords) (operand : Operand) : Prop := Code.Holds words operand.nodes operand.text

variable {operand : Operand} {operands : List Operand}

theorem grouped_holds (holds : operand.Holds words) : Code.Holds words operand.nodes operand.grouped :=
  holds.map fun text => by
    split
    · exact .refl text
    · exact (Within.refl text).around _ _

theorem placed_holds (holds : operand.Holds words) (spelling : String) :
    Code.Holds words operand.nodes (operand.placed spelling) := by
  unfold Operand.placed
  split
  · exact grouped_holds holds
  · exact holds

theorem joined_holds (each : ∀ operand ∈ operands, operand.Holds words) (separator : String) :
    Code.Holds words (operands.flatMap nodes) (joined separator operands) :=
  .bind (.mapM_each each) fun _ found => .pure (.flatMap found fun _ member => .join member (.refl _))

theorem bracketed_holds {rows : List (List Operand)} (each : ∀ row ∈ rows, ∀ operand ∈ row, operand.Holds words) :
    Code.Holds words (rows.flatMap (·.flatMap nodes)) (bracketed rows) := by
  have enclosed (row : List Operand) (member : row ∈ rows) : Code.Holds words (row.flatMap nodes) (do
      let text ← listed row
      pure ("[" ++ text ++ "]")) :=
    .map (joined_holds (each row member) ",") fun text => (Within.refl text).around _ _
  exact .bind (.mapM_each enclosed) fun _ found => .pure (.flatMap found fun _ member => .join member (.refl _))

end Operand

/-- The text of an operation, whatever its operator is. -/
theorem compose_holds {operands : List Operand} (each : ∀ operand ∈ operands, operand.Holds words) {line : SourceLine}
    {spelling : String} {result : Option Rendered} {binding : List Node}
    (bound : Holds words binding (bindingText spelling operands.length result)) :
    Holds words (binding ++ (arranged spelling operands).flatMap Operand.nodes)
      (compose line spelling operands result) := by
  have inside (operand : Operand) (member : operand ∈ arranged spelling operands) :
      Holds words operand.nodes (operand.placed spelling) :=
    Operand.placed_holds (each operand (mem_of_mem_arranged member)) spelling
  rw [compose_eq]
  cases countFault? line spelling operands.length with
  | some fault => exact .error fault
  | none =>
    cases folded : folded? spelling operands with
    | none =>
      refine .bind bound fun name carries => .bind (.mapM_each inside) fun texts found => .pure ?_
      refine .append (carries.inside ((Within.refl name).left _)) (.flatMap found fun text member => ?_)
      exact (within_assembled member).right name
    | some sum =>
      obtain ⟨plus, two, literals⟩ := of_folded? folded
      rw [bindingText_of_not_writesResult (by simp [writesResult, two])] at bound
      refine .pure (.append ((bound _ rfl).inside (.empty _)) fun node member => ?_)
      obtain ⟨operand, known, member⟩ := List.mem_flatMap.mp member
      obtain ⟨line, value, literal⟩ := literals operand (mem_of_mem_arranged known)
      rw [Operand.nodes, literal, Expr.nodes, List.mem_singleton] at member
      subst member
      intro text rendered
      cases rendered

theorem subscript_holds {nodes : List Node} {target : Rendered} (holds : Holds words nodes target)
    {arguments : List Operand} (each : ∀ operand ∈ arguments, operand.Holds words) :
    Holds words (nodes ++ arguments.flatMap Operand.nodes) (subscript target arguments) := by
  match arguments with
  | [] =>
    refine .bind holds fun text carries => .pure ?_
    have own : Within text (text ++ "[" ++ Operator.colon.canonical ++ "]") :=
      (((Within.refl text).left _).left _).left _
    simpa using carries.inside own
  | first :: rest =>
    refine .pair holds (Operand.joined_holds each ",") (fun text listed => ?_) fun text listed => ?_
    · exact (((Within.refl text).left _).left _).left _
    · exact (Within.refl listed).around _ _

theorem composeCall_holds (target : Operand) (holds : target.Holds words) {arguments : List Operand}
    (each : ∀ operand ∈ arguments, operand.Holds words) (results : Nat) :
    Holds words (target.nodes ++ arguments.flatMap Operand.nodes) (composeCall target arguments results) := by
  have merged {part call : String} (within : Within part call) : Within part
      (if loadsWorkspace target.expr then
        LibraryName.workspace.spelling ++ "." ++ LibraryName.workspaceMerge ++ "(" ++ call ++ ")"
      else call) := by
    split
    · exact within.around _ _
    · exact within
  refine .pair holds (Operand.joined_holds each ",") (fun callee listed => merged ?_) fun callee listed => merged ?_
  · have own : Within callee (callee ++ "(") := (Within.refl callee).left _
    split_ifs
    · exact (own.left _).left _
    · exact (own.left _).left _
    · exact (((own.left _).left _).left _).left _
  · split_ifs with single none
    · exact (Within.refl listed).around _ _
    · exact String.isEmpty_iff.mp none ▸ .empty _
    · exact ((((Within.refl listed).right _).left _).left _).left _

theorem composeIndex_holds (target : Operand) (holds : target.Holds words) {arguments : List Operand}
    (each : ∀ operand ∈ arguments, operand.Holds words) (form : IndexForm) :
    Holds words (target.nodes ++ arguments.flatMap Operand.nodes) (composeIndex form target arguments) := by
  cases form with
  | apply => exact composeCall_holds target holds each 1
  | call results => exact composeCall_holds target holds each results
  | arrayRef | cellRef => exact subscript_holds holds each

theorem composeRows_holds (brackets : Brackets) {rows : List (List Operand)}
    (each : ∀ row ∈ rows, ∀ operand ∈ row, operand.Holds words) :
    Holds words (rows.flatMap (·.flatMap Operand.nodes)) (composeRows brackets rows) := by
  have bracketed (name : LibraryName) : Holds words (rows.flatMap (·.flatMap Operand.nodes)) (do
      let rows ← Operand.bracketed rows
      pure (callOf name ("[" ++ rows ++ "]"))) :=
    .map (Operand.bracketed_holds each) fun text => ((Within.refl text).around _ _).call name
  unfold composeRows
  cases brackets with
  | cell => exact bracketed .cellArray
  | matrix =>
    dsimp only
    split_ifs with hollow
    · rw [flatMap_nodes_of_hollow hollow]
      exact .empty
    · rw [← flatMap_nodes_flatten]
      refine Operand.joined_holds (fun operand member => ?_) " + "
      obtain ⟨row, inside, member⟩ := List.mem_flatten.mp member
      exact each row inside operand member
    · exact bracketed .concat

end Code

open Code

variable (words : ReservedWords)

mutual
theorem Ident.identText_holds : ∀ ident : Ident, Holds words ident.nodes (identText words ident)
  | .mk _ none _ _ _ => .name .empty
  | .mk _ (some init) _ _ _ => .name (.map (Expr.exprText_holds init) fun text => (Within.refl text).right _)

theorem Expr.exprText_holds : ∀ expr : Expr, Holds words expr.nodes (exprText words expr)
  | .ident _ named => .expression (Ident.identText_holds named)
  | .literal .. => .expression .empty
  | .operation line spelling operands none => by
    have bound : Holds words [] (bindingText spelling (operandsOf words operands).length none) := .empty
    rw [Expr.nodes, flatten_arranged words]
    exact .expression (compose_holds (Expr.operandsOf_holds operands) bound)
  | .operation line spelling operands (some result) => by
    have bound : Holds words (if writesResult spelling operands.length then result.nodes else [])
        (bindingText spelling (operandsOf words operands).length (some (identText words result))) := by
      rw [length_operandsOf, bindingText]
      split
      · exact .map (Ident.identText_holds result) fun text => (Within.refl text).left _
      · exact .empty
    rw [Expr.nodes, flatten_arranged words]
    exact .expression (compose_holds (Expr.operandsOf_holds operands) bound)
  | .field _ object _ => .expression (.map (Expr.exprText_holds object) fun text => ((Within.refl text).left _).left _)
  | .dynamicField _ object selector =>
    .expression (.pair (Expr.exprText_holds object) (Expr.exprText_holds selector)
      (fun one two => ((((Within.refl one).left _).left _).call _)) fun one two => ((Within.refl two).right _).call _)
  | .index _ form target arguments => by
    rw [Expr.nodes, flatten_nodesEach words]
    refine .expression (composeIndex_holds ⟨target, _⟩ ?_ (Expr.operandsOf_holds arguments) form)
    exact Expr.exprText_holds target
  | .rows _ brackets rows => by
    rw [Expr.nodes, flatten_nodesRows words]
    exact .expression (composeRows_holds brackets (Expr.rowsOf_holds rows))
  | .lambda _ params body => by
    refine .expression (.bind (Ident.identTexts_holds params) fun names each => ?_)
    refine .bind (Expr.exprText_holds body) fun value carries => .pure (.append (each.mono ?_) (carries.inside ?_))
    · rintro part ⟨name, member, within⟩
      exact (((within.join member).right _).left _).left _
    · exact (Within.refl value).right _

theorem Expr.operandsOf_holds : ∀ exprs : List Expr, ∀ operand ∈ operandsOf words exprs, operand.Holds words
  | [] => nofun
  | expr :: rest => List.forall_mem_cons.mpr ⟨Expr.exprText_holds expr, Expr.operandsOf_holds rest⟩

theorem Expr.rowsOf_holds : ∀ rows : List (List Expr), ∀ row ∈ rowsOf words rows, ∀ operand ∈ row, operand.Holds words
  | [] => nofun
  | row :: rest => List.forall_mem_cons.mpr ⟨Expr.operandsOf_holds row, Expr.rowsOf_holds rest⟩

theorem Ident.identTexts_holds : ∀ idents : List Ident,
    Yields (fun texts => Carries words (Ident.nodesList idents) fun part => ∃ text ∈ texts, Within part text)
      (identTexts words idents)
  | [] => .pure .nil
  | ident :: rest => by
    refine .bind (Ident.identText_holds ident) fun text carries => ?_
    refine .bind (Ident.identTexts_holds rest) fun texts others => .pure (.append (carries.mono ?_) (others.mono ?_))
    · exact fun part within => ⟨text, List.mem_cons_self, within⟩
    · exact fun part ⟨other, member, within⟩ => ⟨other, List.mem_cons_of_mem _ member, within⟩
end

theorem Expr.targetText_holds : ∀ target : Expr, Holds words target.nodes (targetText words target)
  | .index _ _ target arguments => by
    rw [Expr.nodes, flatten_nodesEach words]
    exact .index (subscript_holds (Expr.targetText_holds target) (Expr.operandsOf_holds words arguments))
  | .field _ object _ => .field (.map (Expr.targetText_holds object) fun text => ((Within.refl text).left _).left _)
  | .ident .. | .literal .. | .operation .. | .dynamicField .. | .rows .. | .lambda .. => Expr.exprText_holds words _

namespace Code

theorem assignText_holds (line : SourceLine) (targets : List Expr) (value : Expr) :
    Holds words (value.nodes ++ .statement (.assign line targets value) :: (Expr.nodesEach targets).flatten)
      (assignText words line targets value) := by
  match targets with
  | [] => exact .bind .trivial fun _ _ => .error _
  | [.field _ object _] =>
    rw [flatten_nodesOne]
    refine .pair (value.exprText_holds words) (.statement (.field (object.targetText_holds words)))
      (fun text left => ?_) fun text left => ?_
    · exact ((Within.refl text).call _).right _
    · exact (((Within.refl left).left _).left _ |>.left _).left _
  | [.dynamicField _ object selector] =>
    rw [flatten_nodesOne]
    refine .bind (value.exprText_holds words) fun text carries => ?_
    refine .bind (object.targetText_holds words) fun one carriesOne => ?_
    refine .bind (selector.exprText_holds words) fun two carriesTwo => .pure ?_
    refine .append (carries.inside ?_) (.cons (fun _ => nofun) (.cons (fun _ => nofun) ?_))
    · exact ((Within.refl text).right _).call _
    · refine .append (carriesOne.inside ?_) (carriesTwo.inside ?_)
      · exact ((((Within.refl one).left _).left _).left _ |>.left _).call _
      · exact (((Within.refl two).right _).left _ |>.left _).call _
  | [.ident ..] | [.literal ..] | [.operation ..] | [.index ..] | [.rows ..] | [.lambda ..] =>
    rw [flatten_nodesOne]
    refine .pair (value.exprText_holds words) (.statement (Expr.targetText_holds words _))
      (fun text left => Within.right ?_ _) fun text left => ((Within.refl left).left _).left _
    split
    · exact (Within.refl text).call _
    · exact .refl text
  | first :: second :: rest =>
    rw [assignText_several, flatten_nodesEach_eq]
    have each := Yields.mapM_each fun target (_ : target ∈ first :: second :: rest) => target.targetText_holds words
    refine .bind (value.exprText_holds words) fun text carries => .bind each fun left found => .pure ?_
    refine .append (carries.inside ?_) (.cons (fun _ => nofun) (.flatMap found fun target member => ?_))
    · exact (Within.refl text).right _
    · exact ((Within.join member (.refl target)).left _).left _

end Code
end ArrayLift
