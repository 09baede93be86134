import ArrayLift.Proofs.Scopes.Ledger

/-! What a walk leaves in its ledger. Along a route every function opens the scope that its place among the functions
of the program gives it, once however often it is met, and the names that are declared are those on the route. A loop
may be walked any number of times, but once at least. -/
namespace ArrayLift

variable {census : Census} {headings : List Scope}

namespace Ledger

/-- The open scopes are the first ones of the program, each the scope of its function, and they hold nothing but
declared names. -/
structure Sound (census : Census) (headings : List Scope) (ledger : Ledger) : Prop where
  opened : census.Opens ledger.functionScopes ledger.scopes.length
  headed : ledger.scopes.map Scope.blank = headings.take ledger.scopes.length
  unsummarized : ∀ scope ∈ ledger.scopes, scope.Unsummarized

variable {ledger : Ledger}

theorem length_note (ledger : Ledger) (note : Note) : (ledger.note note).scopes.length = ledger.scopes.length :=
  List.length_modify ..

theorem getElem?_note (note : Note) (id : ScopeId) : (ledger.note note).scopes[id]? =
    ledger.scopes[id]?.map fun scope =>
      if note.scope = id then scope.declaring note.declaration note.name else scope :=
  List.getElem?_modify ..

theorem Sound.note (sound : ledger.Sound census headings) (note : Note) :
    (ledger.note note).Sound census headings := by
  refine ⟨?_, ?_, ?_⟩
  · rw [length_note]
    exact sound.opened
  · rw [length_note, ← sound.headed]
    refine List.ext_getElem? fun id => ?_
    rw [List.getElem?_map, List.getElem?_map, getElem?_note, Option.map_map]
    refine congrArg (Option.map · _) (funext fun scope => ?_)
    simp only [Function.comp]
    split
    · exact Scope.blank_declaring note.declaration note.name
    · rfl
  · intro scope member
    obtain ⟨id, found⟩ := List.mem_iff_getElem?.mp member
    rw [getElem?_note, Option.map_eq_some_iff] at found
    obtain ⟨before, there, rfl⟩ := found
    have unsummarized := sound.unsummarized before (List.mem_of_getElem? there)
    split
    · exact unsummarized.declaring note.declaration note.name
    · exact unsummarized

/-- A declaration in an open scope is noted. -/
theorem notes_note {note : Note} (inside : note.scope < ledger.scopes.length) :
    (ledger.note note).notes = insert note ledger.notes := by
  ext other
  simp only [notes, getElem?_note, Option.map_eq_some_iff, exists_exists_and_eq_and, Set.mem_insert_iff,
    Set.mem_ofPred_eq]
  constructor
  · rintro ⟨scope, there, listed⟩
    split at listed
    · next same =>
      rcases Scope.mem_declaring.mp listed with old | ⟨alike, named⟩
      · exact .inr ⟨scope, there, old⟩
      · obtain ⟨declaration, id, name⟩ := other
        obtain rfl := alike
        obtain rfl := named
        obtain rfl : note.scope = id := same
        exact .inl rfl
    · exact .inr ⟨scope, there, listed⟩
  · rintro (rfl | ⟨scope, there, listed⟩)
    · refine ⟨_, List.getElem?_eq_getElem inside, ?_⟩
      rw [if_pos rfl]
      exact Scope.mem_declaring.mpr (.inr ⟨rfl, rfl⟩)
    · refine ⟨scope, there, ?_⟩
      split
      · exact Scope.mem_declaring.mpr (.inl listed)
      · exact listed

/-- No name is declared in a scope that has just been opened. -/
theorem notes_opened (kind : ScopeKind) (name : Option String) (line : SourceLine)
    (functionScopes : List (IdentId × ScopeId)) :
    (Ledger.mk (ledger.scopes ++ [Scope.fresh ledger.scopes.length kind name line]) functionScopes).notes =
      ledger.notes := by
  have empty (declaration : Declaration) :
      (Scope.fresh ledger.scopes.length kind name line).declaredNames declaration = [] := by
    cases declaration <;> rfl
  ext note
  constructor
  · rintro ⟨scope, there, listed⟩
    rcases Nat.lt_trichotomy note.scope ledger.scopes.length with inside | last | outside
    · exact ⟨scope, (List.getElem?_append_left inside).symm.trans there, listed⟩
    · rw [last, List.getElem?_concat_length] at there
      obtain rfl := Option.some.inj there
      rw [empty] at listed
      cases listed
    · rw [List.getElem?_eq_none (by simpa using Nat.succ_le_of_lt outside)] at there
      cases there
  · rintro ⟨scope, there, listed⟩
    obtain ⟨inside, _⟩ := List.getElem?_eq_some_iff.mp there
    exact ⟨scope, (List.getElem?_append_left inside).trans there, listed⟩

/-- What entering a function leads to. -/
structure Entered (census : Census) (headings : List Scope) (ledger : Ledger) (next : ScopeId)
    (result : ScopeId × Ledger) : Prop where
  own : result.1 = next
  sound : result.2.Sound census headings
  notes : result.2.notes = ledger.notes
  grows : ledger.scopes.length ≤ result.2.scopes.length
  opened : next + 1 ≤ result.2.scopes.length

/-- A function has the scope that its place among the functions gives it. It is opened at the first time, when all
scopes before it are open. -/
theorem Sound.enter (sound : ledger.Sound census headings) {id : IdentId} {name : String} {line : SourceLine}
    {next : ScopeId} (listed : (some id, next) ∈ census.functions.zipIdx 1)
    (heading : headings[next]? = some (.fresh next .function (some name) line))
    (early : next ≤ ledger.scopes.length) :
    ledger.Entered census headings next (ledger.enter (some id) name line) := by
  rcases sound.opened.lookup listed early with ⟨known, inside⟩ | ⟨known, rfl⟩
  · simp only [Ledger.enter, known]
    exact ⟨rfl, sound, rfl, Nat.le_refl _, inside⟩
  · simp only [Ledger.enter, known]
    have longer : (ledger.scopes ++ [Scope.fresh ledger.scopes.length .function (some name) line]).length =
        ledger.scopes.length + 1 := List.length_append
    refine ⟨rfl, ⟨?_, ?_, ?_⟩, notes_opened .function (some name) line _, ?_, ?_⟩
    · rw [longer]
      exact sound.opened.next listed
    · rw [longer, List.map_append, sound.headed, List.take_add_one, heading]
      rfl
    · intro scope member
      rcases List.mem_append.mp member with old | fresh
      · exact sound.unsummarized scope old
      · obtain rfl := List.mem_singleton.mp fresh
        exact Scope.unsummarized_fresh ..
    · rw [longer]
      exact Nat.le_succ _
    · rw [longer]

end Ledger

namespace Route

/-- A route from here on: its functions have their places in the program, and its scope is open. -/
structure Prepared (census : Census) (headings : List Scope) (route : Route) (scope next : ScopeId) (ledger : Ledger) :
    Prop where
  covers : census.Covers route scope next
  headed : ∀ heading ∈ route.scopes next, headings[heading.id]? = some heading
  sound : ledger.Sound census headings
  inside : scope < ledger.scopes.length
  early : next ≤ ledger.scopes.length

/-- What a route leads to: its functions are open, and what it declares is noted. -/
structure Enters (census : Census) (headings : List Scope) (route : Route) (scope next : ScopeId)
    (before after : Ledger) : Prop where
  sound : after.Sound census headings
  notes : after.notes = before.notes ∪ route.notes scope next
  grows : before.scopes.length ≤ after.scopes.length
  opened : next + route.functionIds.length ≤ after.scopes.length

variable {route first second body : Route} {scope next : ScopeId} {before middle after : Ledger}

/-- A route with the same occurrences and functions can be taken as well. -/
theorem Prepared.alike (prepared : first.Prepared census headings scope next before)
    (covers : census.Covers second scope next) (same : second.scopes next = first.scopes next) :
    second.Prepared census headings scope next before :=
  ⟨covers, same ▸ prepared.headed, prepared.sound, prepared.inside, prepared.early⟩

/-- A route can be taken again. -/
theorem Prepared.again (prepared : route.Prepared census headings scope next before)
    (once : route.Enters census headings scope next before after) : route.Prepared census headings scope next after :=
  ⟨prepared.covers, prepared.headed, once.sound, Nat.lt_of_lt_of_le prepared.inside once.grows,
    Nat.le_trans prepared.early once.grows⟩

theorem Enters.again (once : route.Enters census headings scope next before middle)
    (more : route.Enters census headings scope next middle after) :
    route.Enters census headings scope next before after := by
  refine ⟨more.sound, ?_, Nat.le_trans once.grows more.grows, more.opened⟩
  rw [more.notes, once.notes, Set.union_assoc, Set.union_self]

theorem Prepared.left (prepared : (seq first second).Prepared census headings scope next before) :
    first.Prepared census headings scope next before := by
  refine ⟨prepared.covers.left, fun heading member => prepared.headed heading ?_, prepared.sound, prepared.inside,
    prepared.early⟩
  rw [scopes_seq]
  exact List.mem_append_left _ member

theorem Prepared.right (prepared : (seq first second).Prepared census headings scope next before)
    (start : first.Enters census headings scope next before middle) :
    second.Prepared census headings scope (next + first.functionIds.length) middle := by
  refine ⟨prepared.covers.right, fun heading member => prepared.headed heading ?_, start.sound,
    Nat.lt_of_lt_of_le prepared.inside start.grows, start.opened⟩
  rw [scopes_seq]
  exact List.mem_append_right _ member

theorem Enters.seq (start : first.Enters census headings scope next before middle)
    (behind : second.Enters census headings scope (next + first.functionIds.length) middle after) :
    (seq first second).Enters census headings scope next before after := by
  refine ⟨behind.sound, ?_, Nat.le_trans start.grows behind.grows, ?_⟩
  · rw [behind.notes, start.notes, notes_seq, Set.union_assoc]
  · simp only [functionIds, List.length_append, ← Nat.add_assoc]
    exact behind.opened

theorem notes_step (action : Step) (scope next : ScopeId) :
    (step action).notes scope next =
      {note | ∃ id line, action = .declare note.declaration id note.name line ∧ note.scope = scope} := by
  ext note
  simp only [notes, places, List.mem_singleton, Prod.mk.injEq, Set.mem_ofPred_eq]
  exact exists₂_congr fun id line => and_comm.trans (and_congr_left' eq_comm)

theorem Prepared.step {action : Step} {point : Point}
    (prepared : (Route.step action).Prepared census headings scope next point.ledger) :
    (Route.step action).Enters census headings scope next point.ledger (action.walk scope point).ledger := by
  have still (same : (action.walk scope point).ledger = point.ledger)
      (plain : ∀ declaration id name line, action ≠ .declare declaration id name line) :
      (Route.step action).Enters census headings scope next point.ledger (action.walk scope point).ledger := by
    rw [same]
    refine ⟨prepared.sound, ?_, Nat.le_refl _, prepared.early⟩
    rw [notes_step]
    simp [plain]
  cases action with
  | use id name line indexed arrayOnly => exact still (point.ledger_use scope _ line indexed arrayOnly) (by simp)
  | define id name line kind => exact still (point.ledger_define scope _ line kind) (by simp)
  | checkArity line targets source => exact still (point.ledger_checkSource line targets source) (by simp)
  | declare declaration id name line =>
    simp only [Step.walk, point.ledger_declare]
    have noted : (point.ledger.note ⟨declaration, scope, name⟩).notes = _ := Ledger.notes_note prepared.inside
    have length := point.ledger.length_note ⟨declaration, scope, name⟩
    refine ⟨prepared.sound.note _, ?_, by rw [length], by rw [length]; exact prepared.early⟩
    rw [noted, notes_step, Set.insert_eq, Set.union_comm]
    refine congrArg _ (Set.ext fun note => ?_)
    obtain ⟨own, home, called⟩ := note
    simp only [Set.mem_singleton_iff, Note.mk.injEq, Step.declare.injEq, Set.mem_ofPred_eq]
    constructor
    · rintro ⟨rfl, rfl, rfl⟩
      exact ⟨id, line, ⟨rfl, rfl, rfl, rfl⟩, rfl⟩
    · rintro ⟨_, _, ⟨rfl, _, rfl, _⟩, rfl⟩
      exact ⟨rfl, rfl, rfl⟩

end Route

/-- A loop is walked once at least, and walking it again adds nothing. -/
theorem Point.enters_walkLoop {route : Route} {scope next : ScopeId} {body : Point → Point}
    (pass : ∀ point : Point, route.Prepared census headings scope next point.ledger →
      route.Enters census headings scope next point.ledger (body point).ledger)
    (entry : Flow) {passes : Nat} (some_pass : 0 < passes) (point : Point)
    (prepared : route.Prepared census headings scope next point.ledger) :
    route.Enters census headings scope next point.ledger (walkLoop body entry passes point).ledger := by
  induction passes generalizing point with
  | zero => exact absurd some_pass (Nat.lt_irrefl 0)
  | succ passes ih =>
    have once := pass point prepared
    simp only [walkLoop]
    split
    · exact once
    · cases passes with
      | zero => exact once
      | succ passes =>
        let behind := (body point).withFlow (entry.merge (body point).flow)
        exact once.again (ih (Nat.succ_pos passes) behind (prepared.again once))

namespace Route

/-- Following a route opens its functions and notes what it declares. -/
theorem walk_enters {limit : Nat} (some_pass : 0 < limit) (route : Route) :
    ∀ (scope next : ScopeId) (point : Point), route.Prepared census headings scope next point.ledger →
      route.Enters census headings scope next point.ledger (route.walk limit scope point).ledger := by
  induction route with
  | stay | jump _ =>
    intro scope next point prepared
    refine ⟨prepared.sound, ?_, Nat.le_refl _, prepared.early⟩
    simp [notes, places, walk]
  | step action =>
    intro scope next point prepared
    exact prepared.step
  | seq first second ihFirst ihSecond =>
    intro scope next point prepared
    have start := ihFirst scope next point prepared.left
    exact start.seq (ihSecond scope _ _ (prepared.right start))
  | fork left right ihLeft ihRight =>
    intro scope next point prepared
    have prepared : (seq left right).Prepared census headings scope next point.ledger :=
      prepared.alike ⟨prepared.covers.occurrences, prepared.covers.functions⟩ rfl
    have start := ihLeft scope next point prepared.left
    have both := start.seq (ihRight scope _ ((left.walk limit scope point).withFlow point.flow) (prepared.right start))
    exact ⟨both.sound, both.notes, both.grows, both.opened⟩
  | ensure first second ihFirst ihSecond | finish first second ihFirst ihSecond =>
    intro scope next point prepared
    have prepared : (seq first second).Prepared census headings scope next point.ledger :=
      prepared.alike ⟨prepared.covers.occurrences, prepared.covers.functions⟩ rfl
    have start := ihFirst scope next point prepared.left
    have both := start.seq (ihSecond scope _ _ (prepared.right start))
    exact ⟨both.sound, both.notes, both.grows, both.opened⟩
  | attempt body ih | aside body ih =>
    intro scope next point prepared
    have inside := ih scope next point
      (prepared.alike ⟨prepared.covers.occurrences, prepared.covers.functions⟩ rfl)
    exact ⟨inside.sound, inside.notes, inside.grows, inside.opened⟩
  | loop body ih =>
    intro scope next point prepared
    have repeated := Point.enters_walkLoop (fun point => ih scope next point) point.flow some_pass point
      (prepared.alike ⟨prepared.covers.occurrences, prepared.covers.functions⟩ rfl)
    exact ⟨repeated.sound, repeated.notes, repeated.grows, repeated.opened⟩
  | function id name line body ih =>
    intro scope next point prepared
    obtain ⟨known, rfl, listed, _, inner⟩ := prepared.covers.function
    have heading := prepared.headed (.fresh next .function (some name) line) (by simp [scopes, functionRoutes, opens])
    have entered := prepared.sound.enter listed heading prepared.early
    have written := point.ledger_enterFunction scope (some known) name line
    rw [← written] at entered
    have inside := ih next (next + 1) (point.enterFunction scope (.bare name (some known)) [] line).2
      ⟨inner, fun heading member => prepared.headed heading (List.mem_cons_of_mem _ member), entered.sound,
        entered.opened, entered.opened⟩
    have own : (point.enterFunction scope (.bare name (some known)) [] line).1 = next := entered.own
    simp only [walk, own]
    refine ⟨inside.sound, ?_, Nat.le_trans entered.grows inside.grows, ?_⟩
    · exact inside.notes.trans (congrArg (· ∪ _) entered.notes)
    · rw [functionIds, List.length_cons, Nat.add_comm _ 1, ← Nat.add_assoc]
      exact inside.opened

end Route

end ArrayLift
