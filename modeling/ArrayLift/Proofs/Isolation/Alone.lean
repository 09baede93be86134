import ArrayLift.Proofs.Isolation.Functions
import ArrayLift.Proofs.Isolation.Regions
import ArrayLift.Proofs.Annotation.Coverage

/-! A function alone, and what its route has in any program: the same occurrences, edges and reads, moved up. -/
namespace ArrayLift

open DefUse

/-! The function alone. -/

namespace Stmt

/-- The function numbered for itself. -/
def alone (function : Stmt) : Stmt := (function.withIds 0).1

/-- The count of its identities. -/
def size (function : Stmt) : Nat := (function.withIds 0).2

/-- The same function is numbered alike, from wherever its numbers start. -/
theorem withIds_alike {function twin : Stmt} (same : function.shifted 0 = twin.shifted 0) (first : Nat) :
    (twin.withIds first).1.shifted 0 = function.alone.shifted first ∧
      (twin.withIds first).2 = function.size + first := by
  have one := twin.withIds_shifted 0 0 first
  have other := function.withIds_shifted first 0 0
  rw [same, Nat.zero_add] at other
  exact Prod.mk.inj (one.symm.trans other)

theorem functionRoute_shifted (distance : Nat) : ∀ statement : Stmt,
    (statement.shifted distance).functionRoute = statement.functionRoute.shifted distance
  | .function line name params [] => by
    simp only [shifted, shiftedList, functionRoute, bodyRoute, Route.shifted, Ident.id_shifted, Ident.name_shifted,
      Ident.paramRoutes_shifted distance line]
  | .function line name params (head :: tail) => by
    have inner := Stmt.block_shifted distance (head :: tail)
    simp only [shiftedList] at inner
    simp only [shifted, shiftedList, functionRoute, bodyRoute, Route.shifted, Ident.id_shifted, Ident.name_shifted,
      Ident.paramRoutes_shifted distance line, inner]
  | .branch line condition thenBody none => Stmt.route_shifted distance (.branch line condition thenBody none)
  | .branch line condition thenBody (some elseBody) =>
    Stmt.route_shifted distance (.branch line condition thenBody (some elseBody))
  | .attempt line body handler none => Stmt.route_shifted distance (.attempt line body handler none)
  | .attempt line body handler (some finallyBody) =>
    Stmt.route_shifted distance (.attempt line body handler (some finallyBody))
  | .return line none => Stmt.route_shifted distance (.return line none)
  | .return line (some value) => Stmt.route_shifted distance (.return line (some value))
  | .expression line value => Stmt.route_shifted distance (.expression line value)
  | .assign line targets value => Stmt.route_shifted distance (.assign line targets value)
  | .forEach line loopName columns body => Stmt.route_shifted distance (.forEach line loopName columns body)
  | .whileLoop line condition body => Stmt.route_shifted distance (.whileLoop line condition body)
  | .declare line declaration names => Stmt.route_shifted distance (.declare line declaration names)
  | .word line kind => Stmt.route_shifted distance (.word line kind)
  | .comment line text => Stmt.route_shifted distance (.comment line text)

theorem passes_functionRoute {id : IdentId} {name : String} : ∀ {function : Stmt}, function.isFunction = true →
    (function.functionRoute.Passes id name ↔ Marked id name function.mentions)
  | .function line called params [], _ => by
    rw [← Stmt.passes_route]
    simp [functionRoute, bodyRoute, Stmt.route, Route.block, Stmt.routes, Route.Passes]
  | .function line called params (head :: tail), _ => Stmt.passes_route (.function line called params (head :: tail))

/-- The steps of a function stand in its scope or in those of the functions inside. -/
theorem places_functionRoute {function : Stmt} (isFunction : function.isFunction = true) {outer own : Nat}
    {place : ScopeId × Step} (member : place ∈ function.functionRoute.places outer own) :
    own ≤ place.1 ∧ own + function.functionRoute.functionIds.length > place.1 := by
  have opened : ∃ id name line body, function.functionRoute = .function id name line body := by
    match function, isFunction with
    | .function .., _ => exact ⟨_, _, _, _, rfl⟩
  obtain ⟨id, name, line, body, same⟩ := opened
  rw [same] at member ⊢
  rw [Route.functionIds, List.length_cons]
  rcases Route.places_scope (show place ∈ body.places own (own + 1) from member) with here | inside
  · rw [here]
    exact ⟨Nat.le_refl own, by omega⟩
  · exact ⟨by omega, by omega⟩

end Stmt

/-! The functions on a route by themselves. -/

namespace Route

/-- What ordinary definitions reach in the functions on the route. -/
def innerEdges (route : Route) (next : ScopeId) : Set (Node × Node) :=
  {edge | edge.1.isBinding = false ∧
    ∃ repeated, ∃ region ∈ route.regions next repeated, region.Reaches [] edge.1 edge.2}

/-- A use in a function on the route has its name defined before it there. -/
def InnerReads (route : Route) (next : ScopeId) (id : IdentId) (name : String) : Prop :=
  ∃ repeated, ∃ region ∈ route.regions next repeated, region.body.Reads id name region.names

theorem innerEdges_shifted (shift : Shift) (route : Route) (next : ScopeId) :
    (route.shifted shift.ids).innerEdges (next + shift.scopes) = shift.edge '' route.innerEdges next := by
  ext edge
  constructor
  · rintro ⟨ordinary, repeated, region, member, reaches⟩
    rw [regions_shifted] at member
    obtain ⟨origin, inside, rfl⟩ := List.mem_map.mp member
    have moved : edge ∈ shift.edge '' {edge | origin.Reaches [] edge.1 edge.2} :=
      origin.reaches_shifted shift ▸ reaches
    obtain ⟨pair, before, rfl⟩ := moved
    exact ⟨pair, ⟨(shift.isBinding_node pair.1).symm.trans ordinary, repeated, origin, inside, before⟩, rfl⟩
  · rintro ⟨pair, ⟨ordinary, repeated, origin, inside, reaches⟩, rfl⟩
    refine ⟨(shift.isBinding_node pair.1).trans ordinary, repeated, origin.shifted shift, ?_, ?_⟩
    · rw [regions_shifted]
      exact List.mem_map_of_mem inside
    · have moved : shift.edge pair ∈ {edge | (origin.shifted shift).Reaches [] edge.1 edge.2} := by
        rw [origin.reaches_shifted shift]
        exact Set.mem_image_of_mem shift.edge reaches
      exact moved

theorem innerReads_shifted (shift : Shift) (route : Route) (next : ScopeId) (id : IdentId) (name : String) :
    (route.shifted shift.ids).InnerReads (next + shift.scopes) (id + shift.ids) name ↔
      route.InnerReads next id name := by
  refine exists_congr fun repeated => ?_
  rw [regions_shifted]
  simp only [List.mem_map, exists_exists_and_eq_and, Region.names_shifted]
  exact exists_congr fun region => and_congr_right' (region.body.reads_shifted shift.ids id name _)

end Route

namespace Shift

theorem node_still (node : Node) : (Shift.mk 0 0).node node = node := by
  cases node <;> rfl

theorem edge_still (edge : Node × Node) : (Shift.mk 0 0).edge edge = edge :=
  Prod.ext (node_still edge.1) (node_still edge.2)

end Shift

namespace Route

/-! Two routes that differ by a distance, and in their lines. -/

variable {part origin : Route} {distance : Nat} (same : part.shifted 0 = origin.shifted distance)
include same

theorem nodes_alike (scope other next start : ScopeId) :
    (part.occurrences scope next).map Occurrence.node =
      (origin.occurrences other start).map fun occurrence => (Shift.mk distance 0).node occurrence.node := by
  have still := part.nodes_shifted (Shift.mk 0 0) other scope start next
  simp only [Shift.node_still] at still
  rw [same] at still
  exact still.symm.trans (origin.nodes_shifted (Shift.mk distance 0) other other start start)

theorem innerEdges_alike (next up : Nat) :
    part.innerEdges (next + up) = (Shift.mk distance up).edge '' origin.innerEdges next := by
  have still := part.innerEdges_shifted (Shift.mk 0 0) (next + up)
  simp only [Shift.edge_still, Set.image_id', same] at still
  exact still.symm.trans (origin.innerEdges_shifted (Shift.mk distance up) next)

theorem innerReads_alike (next up id : Nat) (name : String) :
    part.InnerReads (next + up) (id + distance) name ↔ origin.InnerReads next id name := by
  have still := part.innerReads_shifted (Shift.mk 0 0) (next + up) (id + distance) name
  rw [same] at still
  exact still.symm.trans (origin.innerReads_shifted (Shift.mk distance up) next id name)

end Route

end ArrayLift
