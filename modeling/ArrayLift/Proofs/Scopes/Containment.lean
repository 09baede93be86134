import ArrayLift.Proofs.Isolation.Independence

/-! Which function an identifier stands in. The parameters and the body of a function stand inside it, its name does
not. Of several functions around an identifier each has the later ones of the text inside, and the innermost one is
the function whose scope the occurrence of the identifier has. -/
namespace ArrayLift

/-- What a function mentions inside: its parameters and its body. -/
def Stmt.inside : Stmt → List Mention
  | .function _ _ params body => params.flatMap Ident.paramMentions ++ Stmt.mentionsList body
  | _ => []

/-- The identifier with this identity stands inside the function. -/
def Stmt.Contains (function : Stmt) (id : IdentId) : Prop :=
  ∃ mention ∈ function.inside, mention.ident.id = some id

/-- The scope is that of the innermost function that contains the identifier, or that of the script if none does. Every
other function that contains the identifier has all of the innermost one inside. -/
def Stmt.Houses (functions : List Stmt) (id : IdentId) (scope : ScopeId) : Prop :=
  (scope = ScopeTable.script ∧ ∀ function ∈ functions, ¬function.Contains id) ∨
    ∃ index function, functions[index]? = some function ∧ scope = index + 1 ∧ function.Contains id ∧
      ∀ other ∈ functions, other.Contains id → function.inside ⊆ other.inside

theorem Stmt.inside_subset (function : Stmt) : function.inside ⊆ function.mentions := by
  cases function with
  | function line name params body =>
    refine List.append_subset.mpr ⟨?_, List.subset_append_right _ _⟩
    exact List.subset_append_of_subset_left _ (List.subset_append_right _ _)
  | _ => exact List.nil_subset _

/-! Annotation. -/

section
variable (table : ScopeTable) (words : ReservedWords)

theorem Stmt.inside_annotate (function : Stmt) :
    (function.annotate table words).1.inside = function.inside.map (Mention.annotate table words) := by
  cases function with
  | function line name params body =>
    simp only [Stmt.annotate, Stmt.inside, Ident.paramMentions_annotateList, Stmt.mentions_annotateList,
      List.map_append]
  | branch line condition thenBody elseBody => cases elseBody <;> rfl
  | attempt line body handler finallyBody => cases finallyBody <;> rfl
  | «return» line value => cases value <;> rfl
  | _ => rfl

theorem Stmt.contains_annotate (function : Stmt) (id : IdentId) :
    (function.annotate table words).1.Contains id ↔ function.Contains id := by
  have same (mention : Mention) : (mention.annotate table words).ident.id = mention.ident.id :=
    mention.ident.id_annotate table words
  simp only [Stmt.Contains, function.inside_annotate, List.mem_map, exists_exists_and_eq_and, same]

theorem Stmt.Houses.annotate {functions : List Stmt} {id : IdentId} {scope : ScopeId}
    (houses : Stmt.Houses functions id scope) :
    Stmt.Houses (functions.map fun function => (function.annotate table words).1) id scope := by
  rcases houses with ⟨same, none⟩ | ⟨index, function, placed, same, contains, innermost⟩
  · refine .inl ⟨same, List.forall_mem_map.mpr fun function member => ?_⟩
    rw [function.contains_annotate]
    exact none function member
  · refine .inr ⟨index, _, by rw [List.getElem?_map, placed, Option.map_some], same,
      (function.contains_annotate table words id).mpr contains, List.forall_mem_map.mpr fun other member around => ?_⟩
    rw [function.inside_annotate, other.inside_annotate]
    exact List.map_subset _ (innermost other member ((other.contains_annotate table words id).mp around))

end

/-! Functions around one identifier. -/

/-- If both functions contain an identifier, the first has the second inside. -/
def Stmt.Encloses (outer inner : Stmt) : Prop :=
  ∀ id, outer.Contains id → inner.Contains id → inner.inside ⊆ outer.inside

/-- Functions in the order of the text, among mentions with different identities: each encloses those behind it. -/
structure Stmt.Arranged (functions : List Stmt) (mentions : List Mention) : Prop where
  mentioned : ∀ function ∈ functions, function.mentions ⊆ mentions
  nested : (mentions.map fun mention => mention.ident.id).Nodup → functions.Pairwise Stmt.Encloses

namespace Stmt.Arranged

variable {one other : List Stmt} {first second mentions : List Mention}

theorem nil : Arranged [] mentions :=
  ⟨List.forall_mem_nil _, fun _ => .nil⟩

theorem mono (arranged : Arranged one first) (part : first.Sublist mentions) : Arranged one mentions :=
  ⟨fun function member => List.Subset.trans (arranged.mentioned function member) part.subset,
    fun distinct => arranged.nested ((part.map _).nodup distinct)⟩

theorem append (left : Arranged one first) (right : Arranged other second) :
    Arranged (one ++ other) (first ++ second) := by
  refine ⟨List.forall_mem_append.mpr
    ⟨fun function member => List.subset_append_of_subset_left _ (left.mentioned function member),
      fun function member => List.subset_append_of_subset_right _ (right.mentioned function member)⟩,
    fun distinct => ?_⟩
  rw [List.map_append] at distinct
  obtain ⟨distinctFirst, distinctSecond, apart⟩ := List.nodup_append.mp distinct
  refine List.pairwise_append.mpr ⟨left.nested distinctFirst, right.nested distinctSecond, ?_⟩
  -- no identifier stands in both lists
  rintro outer inFirst inner inSecond id ⟨here, insideOuter, numbered⟩ ⟨there, insideInner, same⟩
  have before := left.mentioned outer inFirst (outer.inside_subset insideOuter)
  have behind := right.mentioned inner inSecond (inner.inside_subset insideInner)
  exact absurd (numbered.trans same.symm) (apart _ (List.mem_map_of_mem before) _ (List.mem_map_of_mem behind))

end Stmt.Arranged

mutual
theorem Stmt.arranged : ∀ statement : Stmt, Stmt.Arranged statement.functions statement.mentions
  | .branch _ _ thenBody none => (Stmt.arrangedList thenBody).mono (List.sublist_append_right _ _)
  | .branch _ condition thenBody (some elseBody) => by
    refine ((Stmt.arrangedList thenBody).append (Stmt.arrangedList elseBody)).mono ?_
    rw [Stmt.mentions, List.append_assoc]
    exact List.sublist_append_right _ _
  | .forEach _ _ _ body => (Stmt.arrangedList body).mono (List.sublist_append_right _ _)
  | .whileLoop _ _ body => (Stmt.arrangedList body).mono (List.sublist_append_right _ _)
  | .attempt _ body handler none => (Stmt.arrangedList body).append (Handler.arranged handler)
  | .attempt _ body handler (some finallyBody) =>
    ((Stmt.arrangedList body).append (Handler.arranged handler)).append (Stmt.arrangedList finallyBody)
  | .function line name params body => by
    have inner : Stmt.Arranged (Stmt.functionsList body) (Stmt.function line name params body).mentions :=
      (Stmt.arrangedList body).mono (List.sublist_append_right _ _)
    refine ⟨List.forall_mem_cons.mpr ⟨List.Subset.refl _, inner.mentioned⟩,
      fun distinct => List.pairwise_cons.mpr ⟨fun function member id _ _ => ?_, inner.nested distinct⟩⟩
    have within := (Stmt.arrangedList body).mentioned function member
    exact List.subset_append_of_subset_right _ (List.Subset.trans function.inside_subset within)
  | .expression .. | .assign .. | .declare .. | .return .. | .word .. | .comment .. => .nil

theorem Handler.arranged : ∀ handler : Handler, Stmt.Arranged handler.functions handler.mentions
  | .absent => .nil
  | .present none body => Stmt.arrangedList body
  | .present (some _) body => (Stmt.arrangedList body).mono (List.sublist_append_right _ _)

theorem Stmt.arrangedList : ∀ statements : List Stmt,
    Stmt.Arranged (Stmt.functionsList statements) (Stmt.mentionsList statements)
  | [] => .nil
  | statement :: rest => (Stmt.arranged statement).append (Stmt.arrangedList rest)
end

/-! Routes. -/

namespace Route

/-- The route inside a function. -/
def inside : Route → Route
  | .function _ _ _ body => body
  | _ => .stay

/-- An occurrence stands on the route itself or inside the function whose scope it has. -/
theorem occurrences_scope {route : Route} {scope next : Nat} {occurrence : Occurrence}
    (member : occurrence ∈ route.occurrences scope next) :
    occurrence.scope = scope ∨ ∃ index part, route.functionRoutes[index]? = some part ∧
      occurrence.scope = next + index ∧ occurrence ∈ part.inside.occurrences (next + index) (next + index + 1) := by
  induction route generalizing scope next with
  | stay | jump _ => cases member
  | step action => exact .inl (Step.id?_of_occurrence? (Option.mem_toList.mp member)).2
  | seq first second ihFirst ihSecond | fork first second ihFirst ihSecond | ensure first second ihFirst ihSecond
  | finish first second ihFirst ihSecond =>
    rcases List.mem_append.mp member with inFirst | inSecond
    · refine (ihFirst inFirst).imp_right ?_
      rintro ⟨index, part, found, same, inner⟩
      obtain ⟨early, _⟩ := List.getElem?_eq_some_iff.mp found
      exact ⟨index, part, (List.getElem?_append_left early).trans found, same, inner⟩
    · refine (ihSecond inSecond).imp_right ?_
      rintro ⟨index, part, found, same, inner⟩
      rw [Nat.add_assoc, ← length_functionRoutes] at same inner
      refine ⟨first.functionRoutes.length + index, part, ?_, same, inner⟩
      rw [functionRoutes, List.getElem?_append_right (Nat.le_add_right _ _), Nat.add_sub_cancel_left]
      exact found
  | attempt body ih | loop body ih | aside body ih => exact ih member
  | function id name line body ih =>
    rcases List.mem_append.mp member with own | inner
    · obtain ⟨_, _, rfl⟩ := List.mem_map.mp own
      exact .inl rfl
    · refine .inr ?_
      rcases ih inner with same | ⟨index, part, found, same, deeper⟩
      · exact ⟨0, _, rfl, same, inner⟩
      · rw [Nat.add_right_comm] at same deeper
        exact ⟨index + 1, part, found, same, deeper⟩

/-- Nothing inside a function has a scope before its own. -/
theorem scope_le_of_occurrence {route : Route} {scope : Nat} {occurrence : Occurrence}
    (member : occurrence ∈ route.occurrences scope (scope + 1)) : scope ≤ occurrence.scope := by
  rcases occurrences_scope member with same | ⟨index, part, _, same, _⟩
  · exact Nat.le_of_eq same.symm
  · rw [same]
    omega

/-- What stands inside a part of a route stands on the route. -/
theorem Stands.inside {part whole : Route} {outer own scope next : ScopeId} {again repeated : Bool}
    (stands : part.Stands outer own again whole scope next repeated) :
    part.inside.occurrences own (own + 1) ⊆ whole.occurrences scope next := by
  refine List.Subset.trans ?_ stands.occurrences
  cases part with
  | function id name line body => exact List.subset_append_right _ _
  | _ => exact List.nil_subset _

end Route

theorem Stmt.passes_inside {id : IdentId} {name : String} : ∀ {function : Stmt}, function.isFunction = true →
    (function.functionRoute.inside.Passes id name ↔ Marked id name function.inside)
  | .function line called params [], _ => by
    simp only [functionRoute, Route.inside, Route.Passes, Ident.passes_paramRoutes, bodyRoute, Stmt.inside,
      Stmt.mentionsList, List.append_nil, or_false]
  | .function line called params (head :: tail), _ => by
    simp only [functionRoute, Route.inside, Route.Passes, Ident.passes_paramRoutes, bodyRoute, Stmt.inside,
      Stmt.passes_block, Marked.append]

/-! Programs. -/

namespace Program

variable (program : Program)

variable (explicit : Stmt.ExplicitList program.withIds.1.statements) {occurrence : Occurrence}
  (inside : occurrence ∈ program.census.occurrences)
include explicit inside

/-- A function around an occurrence opens no later scope than the occurrence has. -/
theorem le_scope_of_contains {index : Nat} {function : Stmt}
    (placed : (Stmt.functionsList program.withIds.1.statements)[index]? = some function)
    (contains : function.Contains occurrence.id) : 1 + index ≤ (occurrence.scope : Nat) := by
  have contained := Stmt.containedList program.withIds.1.statements
  have listed := List.mem_of_getElem? placed
  have isFunction := contained.isFunction function listed
  have found : program.withIds.1.route.functionRoutes[index]? = some function.functionRoute := by
    have routes := Stmt.functionRoutes_block program.withIds.1.statements explicit
    refine (congrArg (·[index]?) routes).trans ?_
    rw [List.getElem?_map, placed, Option.map_some]
  obtain ⟨outer, again, stands⟩ := Route.stands_of_functionRoutes found ScopeTable.script 1 false
  obtain ⟨mention, mentioned, numbered⟩ := contains
  -- the mention is the one that the walk comes to, as the program has no other with its identity
  obtain ⟨met, there, walked, same, named⟩ :=
    (program.marked_iff_occurrence occurrence.id occurrence.name).mpr ⟨occurrence, inside, rfl, rfl⟩
  obtain rfl := program.counted_withIds.single
    (contained.mentioned function listed (function.inside_subset mentioned)) there (numbered.trans same.symm)
  have passed := (Stmt.passes_inside isFunction).mpr ⟨mention, mentioned, walked, same, named⟩
  obtain ⟨own, here, alike, _⟩ := (Route.passes_iff_occurrence _ (1 + index) (1 + index + 1)).mp passed
  obtain rfl := program.census.single own (stands.inside here) occurrence inside alike
  exact Route.scope_le_of_occurrence here

/-- An occurrence outside the scope of the script stands in the function that opens its scope. -/
theorem contains_of_scope : occurrence.scope = ScopeTable.script ∨ ∃ index function,
    (Stmt.functionsList program.withIds.1.statements)[index]? = some function ∧ occurrence.scope = 1 + index ∧
      function.Contains occurrence.id := by
  refine (Route.occurrences_scope inside).imp_right ?_
  rintro ⟨index, part, found, same, inner⟩
  have routes : program.withIds.1.route.functionRoutes = _ :=
    Stmt.functionRoutes_block program.withIds.1.statements explicit
  rw [routes, List.getElem?_map, Option.map_eq_some_iff] at found
  obtain ⟨function, placed, rfl⟩ := found
  have isFunction := (Stmt.containedList program.withIds.1.statements).isFunction _ (List.mem_of_getElem? placed)
  have passed := (Route.passes_iff_occurrence _ _ _).mpr ⟨occurrence, inner, rfl, rfl⟩
  obtain ⟨mention, mentioned, _, numbered, _⟩ := (Stmt.passes_inside isFunction).mp passed
  exact ⟨index, function, placed, same, mention, mentioned, numbered⟩

/-- With explicit ownership, an occurrence has the scope of the innermost function that contains it. -/
theorem houses_occurrence :
    Stmt.Houses (Stmt.functionsList program.withIds.1.statements) occurrence.id occurrence.scope := by
  have nested := (Stmt.arrangedList program.withIds.1.statements).nested program.counted_withIds.nodup
  rcases program.contains_of_scope explicit inside with script | ⟨index, function, placed, same, contains⟩
  · refine .inl ⟨script, fun function listed around => ?_⟩
    obtain ⟨index, placed⟩ := List.mem_iff_getElem?.mp listed
    have below := program.le_scope_of_contains explicit inside placed around
    rw [script, ScopeTable.script] at below
    omega
  · refine .inr ⟨index, function, placed, same.trans (Nat.add_comm 1 index), contains, fun other listed around => ?_⟩
    obtain ⟨position, there⟩ := List.mem_iff_getElem?.mp listed
    have below := program.le_scope_of_contains explicit inside there around
    rw [same] at below
    rcases Nat.lt_or_eq_of_le (Nat.le_of_add_le_add_left below) with earlier | equal
    · obtain ⟨inOther, rfl⟩ := List.getElem?_eq_some_iff.mp there
      obtain ⟨inOwn, rfl⟩ := List.getElem?_eq_some_iff.mp placed
      exact List.pairwise_iff_getElem.mp nested position index inOther inOwn earlier occurrence.id around contains
    · rw [equal, placed] at there
      obtain rfl := Option.some.inj there
      exact List.Subset.refl _

end Program
end ArrayLift
