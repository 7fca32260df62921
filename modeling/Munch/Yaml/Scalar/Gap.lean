import Munch.Yaml.Glyph

namespace Munch.Yaml

/-- White space since the last text, last character first. Blanks around breaks do not count. A
first break that was escaped is absent. -/
inductive Gap
  | blanks (cs : List Char)
  | breaks (first : Option Char) (more : List Char)

namespace Gap

def none : Gap := .blanks []

def add (c : Char) : Gap → Gap
  | .blanks cs => if isBreak c then .breaks (some c) [] else .blanks (c :: cs)
  | .breaks first more => if isBreak c then .breaks first (c :: more) else .breaks first more

def isBroken : Gap → Bool
  | .blanks _ => false
  | .breaks _ _ => true

def isNone : Gap → Bool
  | .blanks [] => true
  | _ => false

def folded : Gap → List Char
  | .blanks cs => cs
  | .breaks (some '\n') [] => [' ']
  | .breaks (some '\n') more => more
  | .breaks first more => more ++ first.toList

end Gap

end Munch.Yaml
