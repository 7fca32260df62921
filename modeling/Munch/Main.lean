import Munch.Cli.Run

namespace Munch.Cli

def placeOf : IO.Error → Except IoError Place
  | .noFileOrDirectory .. => .error Files.missing
  | .permissionDenied .. => .error ⟨.permissionDenied, "Permission denied (os error 13)"⟩
  | .inappropriateType _ 21 _ => .ok .folder
  | .inappropriateType .. => .error Files.notAFolder
  | e => .error ⟨.other, toString e⟩

def fetch (path : String) : IO (Except IoError Place) := do
  try return .ok (.file (← IO.FS.readBinFile path).toList)
  catch e => return placeOf e

def Command.grammarPath? : Command → Option String
  | .parse _ path _ => path
  | .bench _ _ path => path
  | .alternatives path => path
  | _ => none

def Command.inputPath? : Command → Option String
  | .parse path _ _ => some path
  | _ => none

/-- Fetches the grammar, and the input only if there is a grammar to read it with. -/
def fetchWorld (c : Command) : IO World := do
  let mut w := World.empty
  if let some path := c.grammarPath? then
    w := w.learn path (← fetch path)
  if let some path := c.inputPath? then
    if (grammar w c.grammarPath?).toBool then
      if path = "-" then
        w := { w with input := ⟨(← (← IO.getStdin).readBinToEnd).toList, []⟩ }
      else if c.grammarPath? ≠ some path then
        w := w.learn path (← fetch path)
  return w

def present (t : Transcript) (elapsed : Nat) : IO Unit := do
  for piece in t.output do
    match piece with
    | .text s => IO.print s
    | .elapsed => IO.print (toString elapsed)
  (← IO.getStdout).flush
  if let some s := t.complaint then IO.eprint s

end Munch.Cli

open Munch Munch.Cli in
def main (args : List String) : IO UInt32 := do
  let w ← match Command.ofArgs args with
    | some c => fetchWorld c
    | none => pure World.empty
  let start ← IO.monoMsNow
  let t := run w args
  let code := UInt32.ofNat t.exitCode
  let stop ← IO.monoMsNow
  present t (stop - start)
  return code
