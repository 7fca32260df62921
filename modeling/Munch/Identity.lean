import Munch.Text.Json
import Munch.Text.Quoted

namespace Munch

inductive Identity
  | name (s : String)
  | number (n : Int)
  deriving DecidableEq

namespace Identity

instance : ToString Identity where
  toString
    | .name s => s
    | .number n => toString n

instance : Quoted Identity where
  quoted
    | .name s => quoted s
    | .number n => quoted n

instance : JsonValue Identity where
  json
    | .name s => JsonValue.json s
    | .number n => JsonValue.json n

end Identity

end Munch
