import ArrayLift.Numeral.Spelling

/-! The tokens of JSON text and the machine that finds them, one character at a time. The reading
is strict: no comments, no leading zeros, no raw control characters in a string. -/
namespace ArrayLift.Json

/-- The text that a string denotes; `none` if its escapes leave one half of a surrogate pair
alone, in which case the string is well formed and still denotes no text. -/
abbrev Text := Option String

inductive Token where
  | openArray
  | closeArray
  | openObject
  | closeObject
  | comma
  | colon
  | null
  | bool (value : Bool)
  | number (numeral : Numeral)
  | string (text : Text)
  deriving DecidableEq, Repr

namespace Token

def isLeadingSurrogate (unit : Nat) : Bool :=
  0xD800 ≤ unit && unit < 0xDC00

def isTrailingSurrogate (unit : Nat) : Bool :=
  0xDC00 ≤ unit && unit < 0xE000

/-- The code point of a surrogate pair. -/
def pairCodePoint (leading trailing : Nat) : Nat :=
  0x10000 + (leading - 0xD800) * 0x400 + (trailing - 0xDC00)

/-- Join surrogate pairs; `none` if one half stands alone. -/
def joinPairs : List Nat → Option (List Char)
  | [] => some []
  | [unit] =>
    if isLeadingSurrogate unit || isTrailingSurrogate unit then none else some [Char.ofNat unit]
  | unit :: next :: rest =>
    if isLeadingSurrogate unit then
      if isTrailingSurrogate next then (joinPairs rest).map (Char.ofNat (pairCodePoint unit next) :: ·)
      else none
    else if isTrailingSurrogate unit then none
    else (joinPairs (next :: rest)).map (Char.ofNat unit :: ·)

/-- The text of a string whose units were read, the last one first. -/
def textOfReversed (units : List Nat) : Text :=
  (joinPairs units.reverse).map String.ofList

/-- What the machine is in the middle of. -/
inductive Stage where
  /-- Between tokens. -/
  | between
  /-- Inside a word, with the character that must follow and those behind it. -/
  | word (next : Char) (missing : List Char) (token : Token)
  /-- Inside a string, with the units read so far, the last one first. -/
  | text (units : List Nat)
  /-- Behind a backslash in a string. -/
  | escape (units : List Nat)
  /-- Inside a four digit escape, with the count of missing digits and the value so far. -/
  | unicode (units : List Nat) (missing value : Nat)
  /-- Behind the sign of a number. -/
  | sign
  /-- Behind a whole part that is the digit zero. -/
  | zero (negative : Bool)
  /-- Inside a whole part. -/
  | whole (negative : Bool) (value : Nat)
  /-- Behind the point of a number. -/
  | point (negative : Bool) (whole : Nat)
  /-- Inside the digits behind the point, the last one first. -/
  | fraction (negative : Bool) (whole : Nat) (digits : List (Fin 10))
  /-- Behind the mark of an exponent. -/
  | mark (negative : Bool) (whole : Nat) (digits : List (Fin 10))
  /-- Behind the sign of an exponent. -/
  | markSign (negative : Bool) (whole : Nat) (digits : List (Fin 10)) (down : Bool)
  /-- Inside the digits of an exponent. -/
  | exponent (negative : Bool) (whole : Nat) (digits : List (Fin 10)) (down : Bool) (value : Nat)

/-- The state of the machine: what it is reading, and the tokens before it, the last one first. -/
structure Scan where
  stage : Stage
  tokens : List Token

/-- The four blank characters of JSON. -/
def isBlank (c : Char) : Bool :=
  c = ' ' || c = '\n' || c = '\t' || c = '\r'

def digit? (c : Char) : Option (Fin 10) :=
  if c.isDigit then some (Numeral.lastDigit (c.toNat - '0'.toNat)) else none

def hexDigit? (c : Char) : Option Nat :=
  if c.isDigit then some (c.toNat - '0'.toNat)
  else if 'a' ≤ c && c ≤ 'f' then some (c.toNat - 'a'.toNat + 10)
  else if 'A' ≤ c && c ≤ 'F' then some (c.toNat - 'A'.toNat + 10)
  else none

/-- The unit that a character denotes behind a backslash. -/
def escaped? : Char → Option Nat
  | '"' => some '"'.toNat
  | '\\' => some '\\'.toNat
  | '/' => some '/'.toNat
  | 'b' => some 8
  | 'f' => some 12
  | 'n' => some 10
  | 'r' => some 13
  | 't' => some 9
  | _ => none

/-- The token of a number whose last character has been read. -/
def numberToken (negative : Bool) (whole : Nat) (reversed : List (Fin 10)) (exponent : Option Int) : Token :=
  .number ⟨negative, whole, reversed.reverse, exponent⟩

/-- The value of an exponent. -/
def signed (down : Bool) (value : Nat) : Int :=
  if down then -(value : Int) else value

/-- A character between tokens. -/
def start? (tokens : List Token) (c : Char) : Option Scan :=
  if isBlank c then some ⟨.between, tokens⟩
  else match c with
    | '[' => some ⟨.between, .openArray :: tokens⟩
    | ']' => some ⟨.between, .closeArray :: tokens⟩
    | '\x7b' => some ⟨.between, .openObject :: tokens⟩
    | '\x7d' => some ⟨.between, .closeObject :: tokens⟩
    | ',' => some ⟨.between, .comma :: tokens⟩
    | ':' => some ⟨.between, .colon :: tokens⟩
    | '"' => some ⟨.text [], tokens⟩
    | 'n' => some ⟨.word 'u' ['l', 'l'] .null, tokens⟩
    | 't' => some ⟨.word 'r' ['u', 'e'] (.bool true), tokens⟩
    | 'f' => some ⟨.word 'a' ['l', 's', 'e'] (.bool false), tokens⟩
    | '-' => some ⟨.sign, tokens⟩
    | '0' => some ⟨.zero false, tokens⟩
    | _ => (digit? c).map fun digit => ⟨.whole false digit, tokens⟩

/-- A character behind a complete number. -/
def behindNumber? (tokens : List Token) (negative : Bool) (whole : Nat)
    (reversed : List (Fin 10)) (exponent : Option Int) (c : Char) : Option Scan :=
  start? (numberToken negative whole reversed exponent :: tokens) c

/-- A character behind the digits of a number, where an exponent may start. -/
def behindDigits? (tokens : List Token) (negative : Bool) (whole : Nat)
    (reversed : List (Fin 10)) (c : Char) : Option Scan :=
  if c = 'e' || c = 'E' then some ⟨.mark negative whole reversed, tokens⟩
  else behindNumber? tokens negative whole reversed none c

/-- A character behind a whole part, where a point or an exponent may start. -/
def behindWhole? (tokens : List Token) (negative : Bool) (whole : Nat) (c : Char) : Option Scan :=
  if c = '.' then some ⟨.point negative whole, tokens⟩
  else behindDigits? tokens negative whole [] c

/-- One character; `none` when no text continues that way. -/
def step? (scan : Scan) (c : Char) : Option Scan :=
  let tokens := scan.tokens
  match scan.stage with
  | .between => start? tokens c
  | .word next missing token =>
    if c = next then
      match missing with
      | [] => some ⟨.between, token :: tokens⟩
      | following :: missing => some ⟨.word following missing token, tokens⟩
    else none
  | .text units =>
    if c = '"' then some ⟨.between, .string (textOfReversed units) :: tokens⟩
    else if c = '\\' then some ⟨.escape units, tokens⟩
    else if c.toNat < 0x20 then none
    else some ⟨.text (c.toNat :: units), tokens⟩
  | .escape units =>
    if c = 'u' then some ⟨.unicode units 4 0, tokens⟩
    else (escaped? c).map fun unit => ⟨.text (unit :: units), tokens⟩
  | .unicode units missing value =>
    (hexDigit? c).map fun digit =>
      let value := value * 16 + digit
      if missing ≤ 1 then ⟨.text (value :: units), tokens⟩
      else ⟨.unicode units (missing - 1) value, tokens⟩
  | .sign =>
    (digit? c).map fun digit =>
      if digit = 0 then ⟨.zero true, tokens⟩ else ⟨.whole true digit, tokens⟩
  | .zero negative =>
    if c.isDigit then none else behindWhole? tokens negative 0 c
  | .whole negative value =>
    match digit? c with
    | some digit => some ⟨.whole negative (value * 10 + digit), tokens⟩
    | none => behindWhole? tokens negative value c
  | .point negative whole =>
    (digit? c).map fun digit => ⟨.fraction negative whole [digit], tokens⟩
  | .fraction negative whole digits =>
    match digit? c with
    | some digit => some ⟨.fraction negative whole (digit :: digits), tokens⟩
    | none => behindDigits? tokens negative whole digits c
  | .mark negative whole digits =>
    if c = '+' || c = '-' then some ⟨.markSign negative whole digits (c = '-'), tokens⟩
    else (digit? c).map fun digit => ⟨.exponent negative whole digits false digit, tokens⟩
  | .markSign negative whole digits down =>
    (digit? c).map fun digit => ⟨.exponent negative whole digits down digit, tokens⟩
  | .exponent negative whole digits down value =>
    match digit? c with
    | some digit => some ⟨.exponent negative whole digits down (value * 10 + digit), tokens⟩
    | none => behindNumber? tokens negative whole digits (some (signed down value)) c

/-- The tokens once the text has ended; `none` in the middle of one. -/
def finish? (scan : Scan) : Option (List Token) :=
  match scan.stage with
  | .between => some scan.tokens.reverse
  | .zero negative => some (numberToken negative 0 [] none :: scan.tokens).reverse
  | .whole negative value => some (numberToken negative value [] none :: scan.tokens).reverse
  | .fraction negative whole digits =>
    some (numberToken negative whole digits none :: scan.tokens).reverse
  | .exponent negative whole digits down value =>
    some (numberToken negative whole digits (some (signed down value)) :: scan.tokens).reverse
  | _ => none

/-- Run the machine over characters. -/
def run? : Scan → List Char → Option Scan
  | scan, [] => some scan
  | scan, c :: rest => (step? scan c).bind fun next => run? next rest

/-- The tokens of a text; `none` if it is not made of tokens. -/
def scan? (text : List Char) : Option (List Token) :=
  (run? ⟨.between, []⟩ text).bind finish?

end Token
end ArrayLift.Json
