import ArrayLift.Proofs.Layout.Outline
import ArrayLift.Proofs.Layout.Reading

/-! Lines that show blocks: their rows are those of the blocks, at the level where they stand. -/
namespace ArrayLift.Code
open Stmt

/-- The lines of blocks at a level: no line ends inside another, those that say something are the rows of the blocks,
and no suite is empty. -/
structure Shows (settings : Settings) (level : Nat) (lines : List Line) (blocks : List Block) : Prop where
  unbroken : ∀ line ∈ lines, Unbroken (line.content settings)
  rows : lines.filterMap (Line.row? settings) =
    Block.rowsList settings.indentWidth blocks (settings.indentWidth * level)
  filled : Block.FilledList blocks

section
variable {settings : Settings} {level : Nat}

theorem Shows.nil : Shows settings level [] [] := ⟨by simp, rfl, trivial⟩

theorem Shows.append {one other : List Line} {first second : List Block} (left : Shows settings level one first)
    (right : Shows settings level other second) : Shows settings level (one ++ other) (first ++ second) where
  unbroken := List.forall_mem_append.mpr ⟨left.unbroken, right.unbroken⟩
  rows := by rw [List.filterMap_append, left.rows, right.rows, Block.rowsList_append]
  filled := (Block.filledList_append ..).mpr ⟨left.filled, right.filled⟩

theorem content_lineAt (level : Nat) (text : String) : (lineAt level text).content settings = text := by
  unfold Line.content lineAt
  cases settings.sourceName <;> rfl

/-- A line that says something is a row. -/
theorem row?_solid {line : Line} (text : Solid line.text) (content : Solid (line.content settings)) :
    line.row? settings = some ⟨settings.indentWidth * line.level, line.content settings⟩ := by
  have some : line.text.isEmpty = false := by
    have opened := text.opens
    cases empty : line.text.isEmpty with
    | false => rfl
    | true => rw [String.isEmpty_iff.mp empty] at opened; cases opened
  simp [Line.row?, some, Row.ofLine?_opens _ content.opens]

theorem Shows.line {line : Line} (text : Solid line.text) (content : Solid (line.content settings)) :
    Shows settings line.level [line] [.simple (line.content settings)] where
  unbroken := by simpa using content.unbroken
  rows := by simp [row?_solid text content, Block.rowsList, Block.rows]
  filled := ⟨trivial, trivial⟩

theorem Shows.text {text : String} (solid : Solid text) :
    Shows settings level [lineAt level text] [.simple text] := by
  have content : (lineAt level text).content settings = text := content_lineAt level text
  have filled : Solid ((lineAt level text).content settings) := by rw [content]; exact solid
  have shown := Shows.line solid filled
  rw [content] at shown
  exact shown

/-- A header in front of its suite. -/
theorem Shows.compound {header : String} (solid : Solid header) {lines : List Line} {suite : List Block}
    (some : suite ≠ []) (shown : Shows settings (level + 1) lines suite) :
    Shows settings level (lineAt level header :: lines) [.compound header suite] where
  unbroken := List.forall_mem_cons.mpr ⟨by rw [content_lineAt]; exact solid.unbroken, shown.unbroken⟩
  rows := by
    have content : (lineAt level header).content settings = header := content_lineAt level header
    have filled : Solid ((lineAt level header).content settings) := by rw [content]; exact solid
    have first := row?_solid solid filled
    rw [List.filterMap_cons, first, shown.rows, content]
    simp [Block.rowsList, Block.rows, lineAt, Nat.mul_succ]
  filled := ⟨⟨some, shown.filled⟩, trivial⟩

theorem suite_ne_nil {statements : List Stmt} {blocks : List Block} (busy : blocks.isEmpty = statements.all isNoop) :
    suite statements blocks ≠ [] := by
  unfold suite
  split
  · simp
  · rintro rfl
    exact absurd busy.symm ‹_›

/-- Blocks take lines. -/
theorem Shows.lines_ne_nil {lines : List Line} {blocks : List Block} (shown : Shows settings level lines blocks)
    (some : blocks ≠ []) : lines ≠ [] := by
  rintro rfl
  obtain ⟨block, rest, rfl⟩ := List.exists_cons_of_ne_nil some
  have rows := shown.rows
  cases block <;> simp [Block.rowsList, Block.rows] at rows

theorem Shows.closed {statements : List Stmt} {lines : List Line} {blocks : List Block}
    (shown : Shows settings level lines blocks) (busy : blocks.isEmpty = statements.all isNoop) :
    Shows settings level (closed statements level lines) (suite statements blocks) := by
  unfold Code.closed suite
  split
  -- Without blocks there are only comments and blank lines, and they stay in front of `pass`.
  · have nothing : blocks = [] := by simp_all
    subst nothing
    exact shown.append (Shows.text (by decide))
  · exact shown

/-- What is left of a comment is empty, or starts with the marker of comments. -/
theorem comment_line {text : String} (unbroken : Unbroken text) :
    Comment.line text = "" ∨ ∃ rest, (Comment.line text).toList = '#' :: rest ∧
      ∀ c ∈ rest, isBreak c = false := by
  have body : ∀ c ∈ (Text.trimEnd text.toList).dropWhile Comment.isMarker, isBreak c = false := fun c member =>
    unbroken c <| by
      have trimmed := List.dropWhile_subset _ member
      simpa using List.dropWhile_subset _ (List.mem_reverse.mp trimmed)
  simp only [Comment.line]
  split_ifs
  · exact .inl rfl
  · refine .inr ⟨_, String.toList_ofList, fun c member => ?_⟩
    obtain rfl | member := List.mem_cons.mp member
    · decide
    · exact body c (List.dropWhile_subset _ member)
  · exact .inr ⟨_, String.toList_ofList, body⟩

/-- A comment is not a row. -/
theorem Shows.comment {text : String} (unbroken : Unbroken text) :
    Shows settings level [lineAt level (Comment.line text)] [] := by
  have shown := comment_line unbroken
  generalize Comment.line text = comment at shown
  refine ⟨?_, ?_, trivial⟩
  · simp only [List.forall_mem_singleton, content_lineAt]
    obtain rfl | ⟨rest, shape, inner⟩ := shown
    · decide
    · intro c member
      rw [shape] at member
      obtain rfl | member := List.mem_cons.mp member
      · decide
      · exact inner c member
  · have quiet : (lineAt level comment).row? settings = none := by
      unfold Line.row?
      rw [content_lineAt]
      obtain rfl | ⟨rest, shape, _⟩ := shown
      · rfl
      · simp [shape, Row.ofLine?_comment]
    simp [quiet, Block.rowsList]

theorem Shows.blank : Shows settings level [Line.blank] [] where
  unbroken := by
    unfold Line.content Line.blank
    cases settings.sourceName <;> simp [Unbroken]
  rows := rfl
  filled := trivial

end

/-- The lines of statements show their blocks, and there are none only if the statements do nothing. -/
def Depicts (settings : Settings) (level : Nat) (idle : Bool) (lines : List Line) (blocks : List Block) : Prop :=
  Shows settings level lines blocks ∧ blocks.isEmpty = idle

/-- A header with the suite of a list of statements. -/
theorem Depicts.suite {settings : Settings} {level : Nat} {lines : List Line} {blocks : List Block} {header : String}
    (statements : List Stmt) (depicted : Depicts settings (level + 1) (statements.all isNoop) lines blocks)
    (solid : Solid header) :
    Depicts settings level false (lineAt level header :: closed statements (level + 1) lines)
      [.compound header (Stmt.suite statements blocks)] :=
  ⟨.compound solid (suite_ne_nil depicted.2) (depicted.1.closed depicted.2), rfl⟩

theorem Depicts.append {settings : Settings} {level : Nat} {idle idleRest : Bool} {one other : List Line}
    {first second : List Block} (left : Depicts settings level idle one first)
    (right : Depicts settings level idleRest other second) :
    Depicts settings level (idle && idleRest) (one ++ other) (first ++ second) := by
  refine ⟨left.1.append right.1, ?_⟩
  rw [← left.2, ← right.2]
  cases first <;> simp

/-- A header of a keyword and a text. -/
theorem solid_header {start text : String} (solid : Solid start) (unbroken : Unbroken text) :
    Solid (start ++ text ++ ":") :=
  solid.around unbroken (by decide)

/-- The name of the source file is not broken into lines. -/
def SourceUnbroken (settings : Settings) : Prop :=
  ∀ file ∈ settings.sourceName, Unbroken file

instance (settings : Settings) : Decidable (SourceUnbroken settings) :=
  inferInstanceAs (Decidable (∀ file ∈ settings.sourceName, Unbroken file))

/-- An assignment with the comment that tells where it comes from. -/
theorem Shows.assignment {settings : Settings} (source : SourceUnbroken settings) {level : Nat} {text : String}
    (solid : Solid text) (line : SourceLine) :
    Shows settings level [⟨level, text, some line⟩] [.simple (Line.content settings ⟨0, text, some line⟩)] := by
  have filled : Solid (Line.content settings ⟨level, text, some line⟩) := by
    unfold Line.content
    cases named : settings.sourceName with
    | none => exact solid
    | some file =>
      have marked : Unbroken ("  # " ++ file) := (unbroken_append ..).mpr ⟨by decide, source file named⟩
      have number := (plain_nat line.toNat).solid.unbroken
      exact solid.append ((unbroken_append ..).mpr ⟨(unbroken_append ..).mpr ⟨marked, by decide⟩, number⟩)
  exact Shows.line solid filled

/-- A function with its decorator, and its implicit bindings in front of what it does. -/
theorem Shows.function {settings : Settings} {level : Nat} {name : String} (solid : Solid name) {params : List String}
    (each : ∀ param ∈ params, Solid param) {lines : List Line} {blocks : List Block}
    (shown : Shows settings (level + 1) lines blocks) :
    Shows settings level
      (([lineAt level ("@" ++ LibraryName.functionMark.spelling),
          lineAt level ("def " ++ name ++ "("
            ++ String.intercalate "," (params ++ LibraryName.variadicTail) ++ "):")]
        ++ LibraryName.implicitBindings.map fun binding =>
          lineAt (level + 1) (binding.spelling ++ " = " ++ name ++ "." ++ binding.spelling)) ++ lines)
      [.simple ("@" ++ LibraryName.functionMark.spelling),
        .compound ("def " ++ name ++ "(" ++ String.intercalate "," (params ++ LibraryName.variadicTail) ++ "):")
          ((LibraryName.implicitBindings.map fun binding =>
            Block.simple (binding.spelling ++ " = " ++ name ++ "." ++ binding.spelling)) ++ blocks)] := by
  have binding (binding : LibraryName) : Shows settings (level + 1)
      [lineAt (level + 1) (binding.spelling ++ " = " ++ name ++ "." ++ binding.spelling)]
      [.simple (binding.spelling ++ " = " ++ name ++ "." ++ binding.spelling)] :=
    .text (((solid_library binding).between (by decide) solid).between (by decide) (solid_library binding))
  have parameters : Unbroken (String.intercalate "," (params ++ LibraryName.variadicTail)) := by
    refine unbroken_join (by decide) fun param member => ?_
    obtain member | member := List.mem_append.mp member
    · exact (each param member).unbroken
    · have tail : ∀ param ∈ LibraryName.variadicTail, Unbroken param := by decide
      exact tail param member
  have header : Solid ("def " ++ name ++ "("
      ++ String.intercalate "," (params ++ LibraryName.variadicTail) ++ "):") :=
    (Solid.around (by decide) solid.unbroken (by decide)).around parameters (by decide)
  have inside := ((binding .varargin).append (binding .nargin)).append shown
  have mark : Shows settings level [lineAt level ("@" ++ LibraryName.functionMark.spelling)]
      [.simple ("@" ++ LibraryName.functionMark.spelling)] := .text (by decide)
  exact mark.append (.compound header (by simp [LibraryName.implicitBindings]) inside)

end ArrayLift.Code
