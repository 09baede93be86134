/-! Python string literals in single quotes: a backslash, a quote, a line feed, a tab and a
carriage return are escaped, every other character stands for itself. -/
namespace ArrayLift.Text.Quoted

/-- How one character stands between the quotes. -/
def encodeChar (c : Char) : List Char :=
  if c = '\\' then ['\\', '\\']
  else if c = '\'' then ['\\', '\'']
  else if c = '\n' then ['\\', 'n']
  else if c = '\t' then ['\\', 't']
  else if c = '\r' then ['\\', 'r']
  else [c]

/-- The text between the quotes. -/
def encode (text : List Char) : List Char :=
  text.flatMap encodeChar

/-- The literal that denotes the text. -/
def literal (text : String) : String :=
  String.ofList ('\'' :: encode text.toList ++ ['\''])

end ArrayLift.Text.Quoted
