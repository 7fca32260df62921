import Munch.Text.Quoted

namespace Munch.Text.Json

def twoDigits (n : Nat) : List Char := [(n / 16).digitChar, (n % 16).digitChar]

def escape (c : Char) : List Char :=
  match c with
  | '"' => ['\\', '"']
  | '\\' => ['\\', '\\']
  | '\x08' => ['\\', 'b']
  | '\x0c' => ['\\', 'f']
  | '\n' => ['\\', 'n']
  | '\r' => ['\\', 'r']
  | '\t' => ['\\', 't']
  | c => if c.toNat < 0x20 then ['\\', 'u', '0', '0'] ++ twoDigits c.toNat else [c]

def string (s : List Char) : List Char := '"' :: s.flatMap escape ++ ['"']

def object (fields : List (String × List Char)) : List Char :=
  '\x7b' :: [','].intercalate (fields.map fun (key, value) => string key.toList ++ ':' :: value)
    ++ ['\x7d']

end Munch.Text.Json

namespace Munch

class JsonValue (α : Type) where
  json : α → List Char

instance : JsonValue String := ⟨fun s => Text.Json.string s.toList⟩

instance : JsonValue Int := ⟨fun n => (toString n).toList⟩

end Munch
