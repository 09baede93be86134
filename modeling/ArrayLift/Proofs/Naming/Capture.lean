import ArrayLift.Proofs.Naming.Mangling
import ArrayLift.Proofs.Rendering.Lines
import ArrayLift.Proofs.Rendering.Mentioned

/-! Names of the source against the names that generation brings in. None of the latter is reserved by default, so a
source name is rendered as one of them exactly if it is one of them. -/
namespace ArrayLift

namespace LibraryName

/-- The names of the library that mean in generated text what no source name means: the dotted one and those that
sources share with it are left out. -/
def ownNames : List LibraryName :=
  all.filter fun name => name ∉ [linearSolve, varargin, nargin, nargout]

/-- The parameters that every generated function has. -/
def variadicNames : List String :=
  variadicTail.map fun parameter => String.ofList (parameter.toList.dropWhile (· = '*'))

/-- The Python names that generation brings in with a meaning of its own. -/
def introduced : List String :=
  ownNames.map spelling ++ variadicNames

theorem introduced_eq : introduced =
    ["copy", "concat", "matlabarray", "cellarray", "arange", "end", "logical_not", "logical_and", "logical_or",
      "getattr", "setattr", "function", "true", "false", "workspace_", "args", "kwargs"] := by
  rfl

end LibraryName

open LibraryName

/-- By default a name is rendered as one that generation brings in exactly if it is one. -/
theorem ReservedWords.mangled_mem_introduced (name : String) :
    standard.mangled name ∈ introduced ↔ name ∈ introduced := by
  have free : ∀ word ∈ introduced, word ∉ defaultWords := by simp [introduced_eq, defaultWords]
  have bare : ∀ word ∈ defaultWords, word ++ collisionSuffix ∉ introduced := by
    rw [introduced_eq]
    decide
  cases reserved : standard.contains name with
  | false => rw [mangled_free reserved]
  | true =>
    rw [mangled_reserved reserved]
    rw [contains_standard, decide_eq_true_eq] at reserved
    exact iff_of_false (bare name reserved) fun known => free name known reserved

namespace Code

/-- The Python name of an identifier. -/
def pythonName (words : ReservedWords) (ident : Ident) : String :=
  ReservedWords.pythonName ident.name (ident.reserved || words.contains ident.name)

def Node.name? : Node → Option Ident
  | .name ident => some ident
  | _ => none

theorem within_identText {words : ReservedWords} {ident : Ident} {text : String}
    (made : identText words ident = .ok text) : Within (pythonName words ident) text := by
  obtain ⟨name, init, role, reserved, id⟩ := ident
  cases init with
  | none =>
    cases made
    exact .refl _
  | some init =>
    rw [identText] at made
    cases value : exprText words init with
    | error => rw [value] at made; cases made
    | ok value' =>
      rw [value] at made
      cases made
      exact ((Within.refl _).left _).left _

end Code

open Code

theorem Ident.reserved_annotate (table : ScopeTable) (words : ReservedWords) (ident : Ident) :
    (ident.annotate table words).1.reserved = words.contains (ident.annotate table words).1.name := by
  obtain ⟨_, init, _, _, _⟩ := ident
  cases init <;> rfl

namespace Program

/-- The identifiers that are rendered, in the order of rendering. -/
def names (program : Program) : List Ident :=
  program.nodes.filterMap Node.name?

theorem mem_names {program : Program} {ident : Ident} : ident ∈ program.names ↔ .name ident ∈ program.nodes := by
  refine List.mem_filterMap.trans ⟨?_, fun member => ⟨_, member, rfl⟩⟩
  rintro ⟨_ | _ | _, member, same⟩ <;> cases same
  exact member

/-- In a resolved program the flag of every identifier tells whether its name is reserved. -/
theorem pythonName_resolve {settings : Settings} {program : Program} {ident : Ident}
    (rendered : ident ∈ (program.resolve settings).program.names) :
    pythonName settings.reserved ident = settings.reserved.mangled ident.name := by
  have flagged : Mention.All (fun ident => ident.reserved = settings.reserved.contains ident.name)
      (program.resolve settings).program.mentions := by
    rw [Mention.All, program.mentions_resolve, List.forall_mem_map]
    exact fun mention _ => mention.ident.reserved_annotate _ _
  obtain ⟨mention, member, rfl⟩ := (program.resolve settings).program.mentioned_nodes _ (mem_names.mp rendered)
  rw [pythonName, flagged mention member, Bool.or_self]
  rfl

theorem pythonName_mem_introduced {settings : Settings} (standard : settings.reserved = .standard) {program : Program}
    {ident : Ident} (rendered : ident ∈ (program.resolve settings).program.names) :
    pythonName .standard ident ∈ introduced ↔ ident.name ∈ introduced := by
  have same := pythonName_resolve rendered
  rw [standard] at same
  rw [same, ReservedWords.mangled_mem_introduced]

/-- What is rendered of an identifier stands in the text. -/
theorem pythonName_within {settings : Settings} {program : Program} {code : String}
    (made : generate settings program = .ok code) {ident : Ident} (rendered : ident ∈ program.names) :
    Within (pythonName settings.reserved ident) code := by
  obtain ⟨text, named, within⟩ := generate_holds settings program code made _ (mem_names.mp rendered) _ rfl
  exact (within_identText named).trans within

/-- With the words that are reserved by default, every identifier of a resolved program that is rendered stands in the
text under its Python name. That is a name that generation brings in exactly if the source name is. So variables keep
apart from what generation brings in exactly if their source names do. -/
theorem captures_iff (chosen : Settings) (program : Program) :
    let settings := { chosen with reserved := .standard }
    let resolved := (program.resolve settings).program
    (∀ code, generate settings resolved = .ok code → ∀ ident ∈ resolved.names,
      Within (pythonName .standard ident) code) ∧
    (∀ ident ∈ resolved.names, pythonName .standard ident ∈ introduced ↔ ident.name ∈ introduced) ∧
    ((∀ ident ∈ resolved.names, ident.role = .variable → pythonName .standard ident ∉ introduced) ↔
      ∀ ident ∈ resolved.names, ident.role = .variable → ident.name ∉ introduced) := by
  intro settings resolved
  have standard : settings.reserved = .standard := by simp only [settings]
  have each (ident : Ident) (rendered : ident ∈ resolved.names) := pythonName_mem_introduced standard rendered
  refine ⟨fun code made ident rendered => ?_, each, ?_⟩
  · exact standard ▸ pythonName_within made rendered
  · exact forall₂_congr fun ident rendered => imp_congr Iff.rfl (not_congr (each ident rendered))

/-- A name assigned to a name, behind a variable of the name that copies. -/
def shadowedCopy : Program :=
  ⟨[.assign 1 [.ident 1 (.named "a")] (.literal 1 (.number (.int 1))),
    .assign 2 [.ident 2 (.named "copy")] (.literal 2 (.number (.int 2))),
    .assign 3 [.ident 3 (.named "b")] (.ident 3 (.named "a"))]⟩

/-- A function with a parameter of the name of one that every function has. -/
def doubledParameter : Program :=
  ⟨[.function 1 (.named "f") [.named "args"] [.word 2 .pass]]⟩

/-- The call that copies calls the variable, and the parameter stands twice. -/
theorem shadowedCopy_captured :
    (generate {} (shadowedCopy.resolve {}).program = .ok "a=1\ncopy=2\nb=copy(a)\n" ∧
      ¬∀ ident ∈ (shadowedCopy.resolve {}).program.names, ident.role = .variable →
        pythonName .standard ident ∉ introduced) ∧
    generate {} (doubledParameter.resolve {}).program =
        .ok "@function\ndef f(args,*args,**kwargs):\n    varargin = f.varargin\n    nargin = f.nargin\n    pass\n" ∧
      ¬∀ ident ∈ (doubledParameter.resolve {}).program.names, ident.role = .variable →
        pythonName .standard ident ∉ introduced := by
  rw [ReservedWords.standard_eq, introduced_eq]
  refine ⟨⟨?_, ?_⟩, ?_, ?_⟩ <;> decide

end Program

end ArrayLift
