import Tabletop.CommandLine

/-!
# The command

Reads the arguments, the settings, the script and the input, and prints what `runCommand` answers
with a logger that shows nothing.
-/

namespace Tabletop

/-- The number and the words that the operating system gives for an error, if any. -/
def osError? : IO.Error → Option (UInt32 × String)
  | .alreadyExists _ code details => some (code, details)
  | .otherError code details => some (code, details)
  | .resourceBusy code details => some (code, details)
  | .resourceVanished code details => some (code, details)
  | .unsupportedOperation code details => some (code, details)
  | .hardwareFault code details => some (code, details)
  | .unsatisfiedConstraints code details => some (code, details)
  | .illegalOperation code details => some (code, details)
  | .protocolError code details => some (code, details)
  | .timeExpired code details => some (code, details)
  | .interrupted _ code details => some (code, details)
  | .noFileOrDirectory _ code details => some (code, details)
  | .invalidArgument _ code details => some (code, details)
  | .permissionDenied _ code details => some (code, details)
  | .resourceExhausted _ code details => some (code, details)
  | .inappropriateType _ code details => some (code, details)
  | .noSuchThing _ code details => some (code, details)
  | .unexpectedEof => none
  | .userError _ => none

/-- The words for an error of the operating system. -/
def osMessage (error : IO.Error) : String :=
  match osError? error with
  | some (code, details) => details ++ " (os error " ++ Text.showNat code.toNat ++ ")"
  | none => error.toString

/-- The contents of a file, or the reason why it cannot be read. -/
def readFile (path : String) : IO (Except String (List UInt8)) := do
  try
    let contents ← IO.FS.withFile path .read fun handle => handle.readBinToEnd
    return .ok contents.data.toList
  catch error =>
    return .error (osMessage error)

/-- All that is left of a stream. -/
partial def readRest (stream : IO.FS.Stream) (read : ByteArray) : IO ByteArray := do
  let piece ← stream.read 65536
  if piece.isEmpty then return read else readRest stream (read ++ piece)

end Tabletop

open Tabletop in
def main (arguments : List String) : IO UInt32 := do
  let width ← IO.getEnv Table.widthSetting
  let height ← IO.getEnv Table.heightSetting
  let settings := fun name => if name = Table.widthSetting then width else height
  let logging : Logging := fun _ => .silent
  let script := match Arguments.parse arguments with
    | .ok parsed => parsed.script
    | .error _ => none
  let report ← match script with
    | some path => do
      let contents ← readFile path
      pure (runCommand logging arguments settings (fun _ => contents) [])
    | none => do
      let input ← readRest (← IO.getStdin) .empty
      pure (runCommand logging arguments settings (fun _ => .error "") input.data.toList)
  (← IO.getStdout).write ⟨report.stdout.toArray⟩
  (← IO.getStderr).putStr report.stderr
  return report.exitCode
