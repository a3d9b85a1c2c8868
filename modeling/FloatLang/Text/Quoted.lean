import FloatLang.Text.Unprintable

/-! # Quoted Text

  A character between single quotes and a name between double quotes, written
  so that the quoted form can be read back: the delimiting quote, the
  backslash and every character that would not show are escaped. The other
  quote stands for itself.
-/

namespace FloatLang

/-- The code point of `c` in lower-case hexadecimal without padding, between
    braces. -/
def codeEscape (c : Char) : List Char :=
  ['\\', 'u', '\x7b'] ++ Nat.toDigits 16 c.toNat ++ ['\x7d']

/-- How `c` is written inside a text delimited by `quote`. -/
def escaped (quote c : Char) : List Char :=
  if c = '\x00' then ['\\', '0']
  else if c = '\t' then ['\\', 't']
  else if c = '\n' then ['\\', 'n']
  else if c = '\r' then ['\\', 'r']
  else if c = '\\' || c = quote then ['\\', c]
  else if isUnprintable c then codeEscape c
  else [c]

/-- The characters `cs` between two of `quote`. -/
def quoted (quote : Char) (cs : List Char) : List Char :=
  quote :: cs.flatMap (escaped quote) ++ [quote]

/-- A character between single quotes. -/
def quotedChar (c : Char) : String :=
  String.ofList (quoted '\'' [c])

/-- A name between double quotes. -/
def quotedName (name : String) : String :=
  String.ofList (quoted '"' name.toList)

end FloatLang
