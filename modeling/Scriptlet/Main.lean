import Std.Time.DateTime.Timestamp
import Scriptlet.Command

namespace Scriptlet.Command

def faultOf : IO.Error → InputFault
  | .noFileOrDirectory .. => .notFound
  | .inappropriateType _ code _ => if code == 21 then .isDirectory else .notDirectory
  | e => .other e.toString

def clockNow : IO (Nat → Float) := do
  let start := (← Std.Time.Timestamp.now).toMillisecondsSinceUnixEpoch.toInt.toNat
  return fun reading => (start + reading).toFloat

def write (transcript : Transcript) : IO Unit := do
  let out ← IO.getStdout
  out.putStr transcript.output
  out.flush
  (← IO.getStderr).putStr transcript.errors

partial def readLine (input : IO.FS.Stream) (line : ByteArray) : IO ByteArray := do
  let bytes ← input.read 1
  if bytes.isEmpty then return line
  let line := line ++ bytes
  if bytes.data.contains 10 then return line else readLine input line

partial def interact (input : IO.FS.Stream) (s : Session) : IO Nat := do
  write invite
  let line ← readLine input .empty
  if line.isEmpty then
    write (.ofOutput "\n")
    return 0
  let (transcript, next) := answer { s with clock := ← clockNow } line
  write transcript
  match next with
  | some s => interact input s
  | none => return transcript.code

def perform (invocation : Invocation) : IO Nat := do
  match invocation.path with
  | none => interact (← IO.getStdin) (.start (← clockNow))
  | some path =>
    let content ← try .ok <$> IO.FS.readBinFile path catch e => pure (.error (faultOf e))
    let transcript := run (← clockNow) (fun _ => content) .empty invocation
    write transcript
    return transcript.code

end Scriptlet.Command

def main (arguments : List String) : IO UInt32 := do
  return (← Scriptlet.Command.perform (.ofArguments arguments)).toUInt32
