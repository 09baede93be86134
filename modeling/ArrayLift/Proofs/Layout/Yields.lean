import ArrayLift.Code.Fault

/-! What holds of the values of results, and how two results agree that may both be faults. -/
namespace ArrayLift.Code

variable {α β γ δ : Type}

/-- Every value of the result has the property. -/
def Yields (property : α → Prop) (result : Except Fault α) : Prop :=
  ∀ value, result = .ok value → property value

/-- Both results are the same fault, or both are values, and related. -/
def Agree (related : α → β → Prop) : Except Fault α → Except Fault β → Prop
  | .ok left, .ok right => related left right
  | .error left, .error right => left = right
  | _, _ => False

namespace Yields

variable {property : α → Prop} {other : β → Prop} {result : Except Fault α}

theorem pure {value : α} (holds : property value) : Yields property (Pure.pure value) := by
  rintro _ ⟨⟩
  exact holds

theorem error (fault : Fault) : Yields property (.error fault) := nofun

theorem bind (first : Yields property result) {next : α → Except Fault β}
    (rest : ∀ value, property value → Yields other (next value)) : Yields other (result >>= next) := by
  intro value made
  cases result with
  | error => cases made
  | ok found => exact rest found (first found rfl) value made

theorem trivial : Yields (fun _ => True) result := fun _ _ => True.intro

theorem mapM (items : List β) (make : β → Except Fault α) (each : ∀ item ∈ items, Yields property (make item)) :
    Yields (fun values => values.length = items.length ∧ ∀ value ∈ values, property value) (items.mapM make) := by
  induction items with
  | nil => exact .pure (by simp)
  | cons item rest ih =>
    obtain ⟨first, later⟩ := List.forall_mem_cons.mp each
    rw [List.mapM_cons]
    refine first.bind fun value holds => (ih later).bind fun values ⟨same, others⟩ => .pure ?_
    simpa [holds, same] using others

end Yields

namespace Agree

variable {related : α → β → Prop} {other : γ → δ → Prop} {left : Except Fault α} {right : Except Fault β}

theorem pure {one : α} {two : β} (holds : related one two) : Agree related (Pure.pure one) (Pure.pure two) := holds

theorem bind (first : Agree related left right) {one : α → Except Fault γ} {two : β → Except Fault δ}
    (rest : ∀ one' two', related one' two' → Agree other (one one') (two two')) :
    Agree other (left >>= one) (right >>= two) := by
  cases left <;> cases right
  · exact first
  · cases first
  · cases first
  · exact rest _ _ first

/-- Two results that go on from the same one. -/
theorem bindSame {property : α → Prop} {result : Except Fault α} (yields : Yields property result)
    {one : α → Except Fault γ} {two : α → Except Fault δ}
    (rest : ∀ value, property value → Agree other (one value) (two value)) :
    Agree other (result >>= one) (result >>= two) := by
  cases result with
  | error => exact rfl
  | ok value => exact rest value (yields value rfl)

theorem mono {wider : α → β → Prop} (agree : Agree related left right)
    (implied : ∀ one two, related one two → wider one two) : Agree wider left right := by
  cases left <;> cases right
  · exact agree
  · cases agree
  · cases agree
  · exact implied _ _ agree

/-- A value on the left has one on the right. -/
theorem right_of_left (agree : Agree related left right) {one : α} (made : left = .ok one) :
    ∃ two, right = .ok two ∧ related one two := by
  subst made
  cases right with
  | error => cases agree
  | ok two => exact ⟨two, rfl, agree⟩

end Agree
end ArrayLift.Code
