import Mathlib.Data.List.Basic

/-! Blocks by indentation. The suite of a line is the run of deeper lines behind it, all of which stand in it one
level deeper, each with its own suite. Reading the rows of blocks gives the blocks back. -/
namespace ArrayLift.Code

/-- A line of Python with what belongs to it: a statement in one line, or a header with its suite. -/
inductive Block where
  | simple (text : String)
  | compound (header : String) (suite : List Block)

/-- A line that says something: how far it is indented, and its text. -/
structure Row where
  indent : Nat
  text : String

namespace Block

/-- The block of a line; a line with nothing deeper behind it is a statement. -/
def ofLine (text : String) (suite : List Block) : Block :=
  if suite.isEmpty then .simple text else .compound text suite

/-- Put a row in front of the blocks that were read behind it: the run of deeper ones becomes its suite, if all of
them are one level deeper. -/
def attach (width : Nat) (row : Row) (behind : List (Nat × Block)) : Option (List (Nat × Block)) :=
  let deeper (block : Nat × Block) : Bool := row.indent < block.1
  let suite := behind.takeWhile deeper
  if suite.all fun block => block.1 = row.indent + width then
    some ((row.indent, ofLine row.text (suite.map Prod.snd)) :: behind.dropWhile deeper)
  else none

/-- The blocks of rows with their indentations. -/
def group (width : Nat) : List Row → Option (List (Nat × Block))
  | [] => some []
  | row :: rest => (group width rest).bind (attach width row)

/-- The blocks of rows, none of which is indented. -/
def read (width : Nat) (rows : List Row) : Option (List Block) :=
  (group width rows).bind fun blocks =>
    if blocks.all fun block => block.1 = 0 then some (blocks.map Prod.snd) else none

mutual
/-- The rows of a block. -/
def rows (width : Nat) : Block → Nat → List Row
  | .simple text, indent => [⟨indent, text⟩]
  | .compound header suite, indent => ⟨indent, header⟩ :: rowsList width suite (indent + width)

def rowsList (width : Nat) : List Block → Nat → List Row
  | [], _ => []
  | block :: rest, indent => rows width block indent ++ rowsList width rest indent
end

mutual
/-- Every header has something in its suite. -/
def Filled : Block → Prop
  | .simple _ => True
  | .compound _ suite => suite ≠ [] ∧ FilledList suite

def FilledList : List Block → Prop
  | [] => True
  | block :: rest => Filled block ∧ FilledList rest
end

theorem rowsList_append (width : Nat) (one other : List Block) (indent : Nat) :
    rowsList width (one ++ other) indent = rowsList width one indent ++ rowsList width other indent := by
  induction one with
  | nil => rfl
  | cons block rest ih => simp [rowsList, ih]

theorem filledList_append (one other : List Block) :
    FilledList (one ++ other) ↔ FilledList one ∧ FilledList other := by
  induction one with
  | nil => simp [FilledList]
  | cons block rest ih => simp [FilledList, ih, and_assoc]

/-- What was read behind a row does not go deeper than the row at its start. -/
def Shallow (indent : Nat) (behind : List (Nat × Block)) : Prop :=
  ∀ first ∈ behind.head?, first.1 ≤ indent

theorem Shallow.takeWhile {indent : Nat} {behind : List (Nat × Block)} (shallow : Shallow indent behind) :
    behind.takeWhile (fun block => indent < block.1) = [] := by
  cases behind with
  | nil => rfl
  | cons first rest => simp [Nat.not_lt.mpr (shallow first rfl)]

theorem Shallow.dropWhile {indent : Nat} {behind : List (Nat × Block)} (shallow : Shallow indent behind) :
    behind.dropWhile (fun block => indent < block.1) = behind := by
  cases behind with
  | nil => rfl
  | cons first rest => simp [Nat.not_lt.mpr (shallow first rfl)]

/-- A row takes the blocks one level deeper behind it as its suite. -/
theorem attach_suite {width : Nat} (wide : 0 < width) (indent : Nat) (text : String) (suite : List Block)
    {behind : List (Nat × Block)} (shallow : Shallow indent behind) :
    attach width ⟨indent, text⟩ (suite.map ((indent + width, ·)) ++ behind) =
      some ((indent, ofLine text suite) :: behind) := by
  have deeper : ∀ block ∈ suite.map ((indent + width, ·) : Block → Nat × Block),
      decide (indent < block.1) = true := by
    intro block member
    obtain ⟨inner, _, rfl⟩ := List.mem_map.mp member
    simpa using wide
  simp [attach, List.takeWhile_append_of_pos deeper, List.dropWhile_append_of_pos deeper, shallow.takeWhile,
    shallow.dropWhile, Function.comp_def]

mutual
theorem group_rows {width : Nat} (wide : 0 < width) : ∀ (block : Block), block.Filled →
    ∀ (indent : Nat) (rest : List Row) (behind : List (Nat × Block)), group width rest = some behind →
      Shallow indent behind → group width (rows width block indent ++ rest) = some ((indent, block) :: behind)
  | .simple text, _, indent, rest, behind, read, shallow => by
    have attached := attach_suite wide indent text [] shallow
    simpa [rows, group, read, ofLine] using attached
  | .compound header suite, ⟨filled, inner⟩, indent, rest, behind, read, shallow => by
    -- What stands behind is not deeper than the header, so the suite does not go on with it.
    have deeper : Shallow (indent + width) behind := fun first member =>
      Nat.le_add_right_of_le (shallow first member)
    have within := group_rowsList wide suite inner (indent + width) rest behind read deeper
    simp only [rows, List.cons_append, group, within, Option.bind_some, attach_suite wide _ _ _ shallow]
    simp [ofLine, filled]

theorem group_rowsList {width : Nat} (wide : 0 < width) : ∀ (blocks : List Block), FilledList blocks →
    ∀ (indent : Nat) (rest : List Row) (behind : List (Nat × Block)), group width rest = some behind →
      Shallow indent behind →
        group width (rowsList width blocks indent ++ rest) = some (blocks.map ((indent, ·)) ++ behind)
  | [], _, indent, rest, behind, read, shallow => read
  | block :: others, ⟨filled, inner⟩, indent, rest, behind, read, shallow => by
    have after := group_rowsList wide others inner indent rest behind read shallow
    have level : Shallow indent (others.map ((indent, ·)) ++ behind) := by
      cases others with
      | nil => simpa using shallow
      | cons first _ => simp [Shallow]
    have before := group_rows wide block filled indent (rowsList width others indent ++ rest) _ after level
    simpa [rowsList] using before
end

/-- The rows of blocks read back as the blocks. -/
theorem read_rowsList {width : Nat} (wide : 0 < width) {blocks : List Block} (filled : FilledList blocks) :
    read width (rowsList width blocks 0) = some blocks := by
  have grouped := group_rowsList wide blocks filled 0 [] [] rfl (by simp [Shallow])
  simp only [List.append_nil] at grouped
  simp [read, grouped, Function.comp_def]

end Block
end ArrayLift.Code
