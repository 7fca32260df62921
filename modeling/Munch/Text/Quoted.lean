import Munch.Text.Extender
import Munch.Text.Printable

namespace Munch.Text

def hex (n : Nat) : String := String.ofList (Nat.toDigits 16 n)

def escape (quote c : Char) : String :=
  if c = '\x00' then "\\0"
  else if c = '\t' then "\\t"
  else if c = '\n' then "\\n"
  else if c = '\r' then "\\r"
  else if c = '\\' || c = quote then String.ofList ['\\', c]
  else if isExtender c || !isPrintable c then "\\u\x7b" ++ hex c.toNat ++ "\x7d"
  else c.toString

def quoteString (s : String) : String :=
  "\"" ++ String.join (s.toList.map (escape '"')) ++ "\""

def quoteChar (c : Char) : String := "'" ++ escape '\'' c ++ "'"

end Munch.Text

namespace Munch

class Quoted (α : Type) where
  quoted : α → String

export Quoted (quoted)

instance : Quoted String := ⟨Text.quoteString⟩

instance : Quoted Char := ⟨Text.quoteChar⟩

instance : Quoted Int := ⟨toString⟩

end Munch
