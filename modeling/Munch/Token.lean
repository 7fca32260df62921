import Munch.Text.Json

namespace Munch

structure Token (ι : Type) where
  text : String
  alternative : ι
  deriving DecidableEq

namespace Token

variable {ι : Type}

def length (t : Token ι) : Nat := t.text.length

instance : ToString (Token ι) := ⟨text⟩

end Token

inductive Result (ι : Type)
  | matched (token : Token ι)
  | endOfStream
  deriving DecidableEq

namespace Result

variable {ι : Type}

def token? : Result ι → Option (Token ι)
  | .matched t => some t
  | .endOfStream => none

def isEnd : Result ι → Bool
  | .matched _ => false
  | .endOfStream => true

instance : ToString (Result ι) where
  toString
    | .matched t => toString t
    | .endOfStream => "<EOF>"

def json [JsonValue ι] : Result ι → List Char
  | .matched t => Text.Json.object [
      ("kind", JsonValue.json "matched"),
      ("text", JsonValue.json t.text),
      ("alternative", JsonValue.json t.alternative)]
  | .endOfStream => Text.Json.object [("kind", JsonValue.json "end_of_stream")]

end Result

end Munch
