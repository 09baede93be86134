import ArrayLift.CommandLine.Batch
import ArrayLift.Proofs.Format.Counts
import ArrayLift.Proofs.Format.Extent
import ArrayLift.Proofs.Format.Printing
import ArrayLift.Proofs.Format.Spellings

/-! Round trips: a program is decoded from its encoding, and so is every tree that was decoded and perhaps resolved. -/
namespace ArrayLift.Program

/-- The identities of the identifiers of a program have 32 bits, the counts of results of its calls 64, and its
floating-point literals are finite. -/
def Representable (program : Program) : Prop :=
  ArrayLift.Representable program.mentions program.parts program.floats

/-- The spelling of every floating-point literal is read as that literal. -/
def LiteralsReadBack (program : Program) : Prop :=
  ∀ value ∈ program.floats, value.ReadsBack

/-- A program is decoded from its encoding exactly if that is not too deep. -/
theorem ofJson?_encode {program : Program} (fits : (Schema.record .program).Fits program.datum)
    (readable : program.LiteralsReadBack) :
    ofJson? program.encode = if program.encode.depth ≤ Json.depthLimit then some program else none := by
  have spelled := Schema.denoted?_write fits readable
  have deep := Schema.depth_write fits
  rw [write_datum] at spelled deep
  split
  · rename_i shallow
    exact ofJson?_eq_some_iff.mpr ⟨spelled, deep ▸ shallow⟩
  · rename_i tooDeep
    refine Option.eq_none_iff_forall_ne_some.mpr fun other decoded => tooDeep ?_
    exact deep ▸ (ofJson?_eq_some_iff.mp decoded).2

/-- A decoded program, perhaps with other annotations, is decoded again from its encoding. -/
theorem parse?_encode_of_alike {program other : Program} {value : Json} (decoded : ofJson? value = some program)
    (readable : program.LiteralsReadBack) (alike : (Schema.record .program).Alike other.datum program.datum)
    (fits : (Schema.record .program).Fits other.datum) : parse? other.encode.render = some other := by
  obtain ⟨spelled, deep⟩ := ofJson?_eq_some_iff.mp decoded
  have readable' : other.LiteralsReadBack := by
    rw [LiteralsReadBack, floats, alike.floats]
    exact readable
  have shallow : other.encode.depth ≤ Json.depthLimit := by
    rw [← write_datum, alike.depth]
    exact Nat.le_trans (Schema.rewritable_of_denoted? spelled).depth_le deep
  rw [parse?_render, ofJson?_encode fits readable', if_pos shallow]

/-- A character has one to four bytes. -/
theorem utf8ByteSize_bounds (text : String) :
    text.length ≤ text.utf8ByteSize ∧ text.utf8ByteSize ≤ 4 * text.length := by
  have encoded (chars : List Char) :
      chars.length ≤ chars.utf8Encode.size ∧ chars.utf8Encode.size ≤ 4 * chars.length := by
    induction chars with
    | nil => decide
    | cons c rest ih =>
      have positive : 0 < c.utf8Size := c.utf8Size_pos
      have small : c.utf8Size ≤ 4 := c.utf8Size_le_four
      rw [List.utf8Encode_cons, ByteArray.size_append, List.utf8Encode_singleton, List.size_toByteArray,
        String.length_utf8EncodeChar, List.length_cons]
      omega
  rw [← String.length_toList, ← String.size_toByteArray, ← String.utf8Encode_toList]
  exact encoded _

/-- The resolved tree of a text can be represented if the text has fewer characters than there are identities. -/
theorem representable_resolve_of_parse? {text : String} {program : Program} (parsed : parse? text = some program)
    (short : text.length < 2 ^ 32) (settings : Settings) : (program.resolve settings).program.Representable := by
  obtain ⟨value, spelled, decoded⟩ := Option.bind_eq_some_iff.mp parsed
  have rewritable := Schema.rewritable_of_denoted? (ofJson?_eq_some_iff.mp decoded).1
  have few : program.datum.records < 2 ^ 32 :=
    Nat.lt_of_le_of_lt (Nat.le_trans rewritable.records_le (Json.containers_le_of_parse? spelled)) short
  exact program.representable_resolve settings few rewritable.fits.isFinite

/-- A program whose literals read back is decoded from its encoding exactly if that is not too deep. Whatever is decoded
from a text can be encoded and decoded again, and so can the resolved tree. Nothing in a resolved tree outgrows the
format unless the text is larger than any input may be. -/
theorem parse?_encode :
    (∀ program : Program, program.Representable → program.LiteralsReadBack →
      parse? program.encode.render = if program.encode.depth ≤ Json.depthLimit then some program else none) ∧
    ∀ (text : String) (program : Program), parse? text = some program → program.LiteralsReadBack →
      parse? program.encode.render = some program ∧
      ∀ settings,
        ((program.resolve settings).program.Representable →
          parse? (program.resolve settings).program.encode.render = some (program.resolve settings).program) ∧
        (text.utf8ByteSize ≤ FileError.sizeLimit → (program.resolve settings).program.Representable) := by
  refine ⟨fun program representable readable => ?_, fun text program parsed readable => ?_⟩
  · rw [parse?_render]
    exact ofJson?_encode (fits representable) readable
  · obtain ⟨value, -, decoded⟩ := Option.bind_eq_some_iff.mp parsed
    have rewritable := Schema.rewritable_of_denoted? (ofJson?_eq_some_iff.mp decoded).1
    refine ⟨parse?_encode_of_alike decoded readable (.refl _ _) rewritable.fits,
      fun settings => ⟨fun fitting => ?_, ?_⟩⟩
    · exact parse?_encode_of_alike decoded readable (program.alike_resolve settings) (fits fitting)
    · intro allowed
      have short : text.length < 2 ^ 32 :=
        Nat.lt_of_le_of_lt (Nat.le_trans (utf8ByteSize_bounds text).1 allowed) (by decide)
      exact representable_resolve_of_parse? parsed short settings

/-- The literal of one half. -/
def half : Binary64 := .finite false ⟨1022 * Binary64.rangeSize, by decide⟩

theorem numeral_half : Binary64.numeral false (1022 * Binary64.rangeSize) = ⟨false, 0, [5], none⟩ := by
  have point : Binary64.decimalPoint (1022 * Binary64.rangeSize) = 0 := by
    rw [Binary64.decimalPoint, Numeral.length, Nat.toString_eq_repr, ← String.length_toList, Nat.toList_repr]
    decide +kernel
  rw [Binary64.numeral, if_neg (by decide), Binary64.shortest, point]
  decide +kernel

/-- One half is assigned to a name. -/
def halfNamed : Program :=
  ⟨[.assign 1 [.named "x" 1] (.literal 1 (.number (.float half)))]⟩

/-- The program is decoded from its encoding, and so is its resolved tree. -/
theorem parse?_encode_halfNamed :
    parse? halfNamed.encode.render = some halfNamed ∧
      parse? (halfNamed.resolve {}).program.encode.render = some (halfNamed.resolve {}).program := by
  have readable : halfNamed.LiteralsReadBack := by
    refine List.forall_mem_singleton.mpr fun negative rank same => ?_
    cases same
    rw [numeral_half]
    decide +kernel
  have representable : halfNamed.Representable := by
    refine ⟨List.forall_mem_singleton.mpr (fun _ none => nomatch none), ?_, List.forall_mem_singleton.mpr rfl⟩
    simp [halfNamed, parts, Stmt.partsList, Stmt.parts, Expr.parts, Expr.partsList, Expr.named, Ident.named,
      Ident.parts]
  have parsed : parse? halfNamed.encode.render = some halfNamed := by
    rw [parse?_encode.1 halfNamed representable readable]
    rfl
  have small : halfNamed.encode.render.utf8ByteSize ≤ FileError.sizeLimit := by
    refine Nat.le_trans (utf8ByteSize_bounds _).2 ?_
    rw [Json.render, String.length_ofList]
    simp only [halfNamed, half, encode, Stmt.encodeList, Stmt.encode, Expr.encode, Literal.encode, Number.encode,
      numeral_half]
    decide +kernel
  obtain ⟨again, resolved⟩ := parse?_encode.2 _ halfNamed parsed readable
  exact ⟨again, (resolved {}).1 ((resolved {}).2 small)⟩

end ArrayLift.Program
