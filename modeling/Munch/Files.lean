import Munch.Utf8.Reader

namespace Munch

inductive Place
  | file (bytes : List UInt8)
  | folder

namespace Place

def folderFault : IoError := ⟨.isADirectory, "Is a directory (os error 21)"⟩

/-- Opens a place for reading. A folder opens, but cannot be read. -/
def feed : Place → Utf8.Feed
  | .file bytes => ⟨bytes, []⟩
  | .folder => ⟨[], [.failure folderFault]⟩

def text : Place → Except IoError String
  | .file bytes =>
    match String.fromUTF8? ⟨bytes.toArray⟩ with
    | some s => .ok s
    | none => .error ⟨.invalidData, "stream did not contain valid UTF-8"⟩
  | .folder => .error folderFault

end Place

/-- The places below a working folder. A place lies in all the folders that its path names. -/
structure Files where
  places : List (List String × Place)

namespace Files

def missing : IoError := ⟨.notFound, "No such file or directory (os error 2)"⟩

def nameTooLong : IoError := ⟨.fileNameTooLong, "File name too long (os error 36)"⟩

def notAFolder : IoError := ⟨.notADirectory, "Not a directory (os error 20)"⟩

def at? (fs : Files) (path : List String) : Option Place :=
  match fs.places.lookup path with
  | some p => some p
  | none =>
    if path = [] || fs.places.any (path.isPrefixOf ·.1) then some .folder else none

inductive Spot
  | inside (path : List String)
  | outside

def Spot.place? (fs : Files) : Spot → Option Place
  | .inside path => fs.at? path
  | .outside => some .folder

def Spot.enter (step : String) : Spot → Spot
  | .inside path => .inside (path ++ [step])
  | .outside => .outside

def Spot.leave : Spot → Spot
  | .inside [] => .outside
  | .inside path => .inside path.dropLast
  | .outside => .outside

/-- Walks on step by step. Each step but the last has to lead to a folder, and nothing is known of
the places outside. -/
def walk (fs : Files) (spot : Spot) : List String → Except IoError Place
  | [] =>
    match spot.place? fs with
    | some p => .ok p
    | none => .error missing
  | step :: steps =>
    match spot.place? fs with
    | some .folder =>
      if step = "" || step = "." then walk fs spot steps
      else if step = ".." then walk fs spot.leave steps
      else if 255 < step.utf8ByteSize then .error nameTooLong
      else
        match spot with
        | .inside _ => walk fs (spot.enter step) steps
        | .outside => .error missing
    | some (.file _) => .error notAFolder
    | none => .error missing

def steps (path : String) : List String :=
  (path.toList.splitOn '/').map String.ofList

def find (fs : Files) (path : String) : Except IoError Place :=
  if path.toList.contains '\x00' then
    .error ⟨.invalidInput, "file name contained an unexpected NUL byte"⟩
  else if 4095 < path.utf8ByteSize then .error nameTooLong
  else if path = "" then .error missing
  else fs.walk (if path.toList.head? = some '/' then .outside else .inside []) (steps path)

end Files

structure World where
  input : Utf8.Feed
  find : String → Except IoError Place

namespace World

def empty : World := ⟨⟨[], []⟩, fun _ => .error Files.missing⟩

def learn (w : World) (path : String) (found : Except IoError Place) : World :=
  { w with find := fun p => if p = path then found else w.find p }

end World

end Munch
