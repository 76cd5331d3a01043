import Scriptlet.Tree.Printer
import Scriptlet.Session

namespace Scriptlet.Command

structure Invocation where
  path : Option String
  showsTrees : Bool
  verbose : Bool
  deriving DecidableEq

/-- Options may stand anywhere before the mark `--`, behind which everything is a path. -/
def Invocation.ofArguments : List String → Invocation
  | [] => ⟨none, false, false⟩
  | "--" :: rest => ⟨rest.head?, false, false⟩
  | "--ast" :: rest => { ofArguments rest with showsTrees := true }
  | "-v" :: rest | "--verbose" :: rest => { ofArguments rest with verbose := true }
  | path :: rest => { ofArguments rest with path := some path }

inductive InputFault
  | notFound
  | isDirectory
  | notDirectory
  | notText
  | other (description : String)
  deriving DecidableEq

def InputFault.message : InputFault → String
  | .notFound => "No such file or directory (os error 2)"
  | .isDirectory => "Is a directory (os error 21)"
  | .notDirectory => "Not a directory (os error 20)"
  | .notText => "stream did not contain valid UTF-8"
  | .other description => description

def decode (bytes : ByteArray) : Except InputFault String :=
  match String.fromUTF8? bytes with
  | some text => .ok text
  | none => .error .notText

structure Transcript where
  output : String
  errors : String
  code : Nat
  deriving DecidableEq

namespace Transcript

def andThen (first second : Transcript) : Transcript :=
  ⟨first.output ++ second.output, first.errors ++ second.errors, second.code⟩

def ofOutput (output : String) : Transcript :=
  ⟨output, "", 0⟩

def ofInputFault (fault : InputFault) : Transcript :=
  ⟨"", s!"I/O error: {fault.message}\n", 1⟩

def unlines (lines : List String) : String :=
  String.join (lines.map (· ++ "\n"))

def ofEvents (events : List Event) : Transcript :=
  { output := unlines (events.filterMap fun
      | .printed value => some value.display
      | _ => none)
    errors := unlines (events.filterMap Event.complaint?)
    code := if events.any Event.isError then 1 else 0 }

/-- A run that did not end regularly is broken off. -/
def ofReport (report : Report) : Transcript :=
  let events := ofEvents report.events
  match report.ending with
  | .regular => events
  | .defective defect => events.andThen ⟨"", defect.message ++ "\n", 101⟩
  | .exhausted => events.andThen ⟨"", "Out of budget\n", 101⟩

end Transcript

def runText (clock : Nat → Float) (text : String) : Transcript :=
  .ofReport ((Session.start clock).run .standard text).2

def showTrees (text : String) : Transcript :=
  let parse := Parse.ofString text 0
  (Transcript.ofOutput ("\n".intercalate parse.program.render ++ "\n")).andThen (.ofEvents parse.events)

def invite : Transcript :=
  .ofOutput "> "

def answer (s : Session) (line : ByteArray) : Transcript × Option Session :=
  match decode line with
  | .error fault => (.ofInputFault fault, none)
  | .ok text =>
    let (s, report) := s.run .standard text
    let transcript := Transcript.ofReport report
    if report.ending = .regular then ({ transcript with code := 0 }, some s) else (transcript, none)

def splitLines : List UInt8 → List (List UInt8)
  | [] => []
  | byte :: rest =>
    if byte == 10 then [byte] :: splitLines rest
    else
      match splitLines rest with
      | [] => [[byte]]
      | line :: lines => (byte :: line) :: lines

def prompt (s : Session) : List (List UInt8) → Transcript
  | [] => invite.andThen (.ofOutput "\n")
  | line :: rest =>
    match answer s ⟨line.toArray⟩ with
    | (transcript, some s) => (invite.andThen transcript).andThen (prompt s rest)
    | (transcript, none) => invite.andThen transcript

/-- Without a path there is nothing to show, so the prompt is started even if statements were asked for. -/
def run (clock : Nat → Float) (readFile : String → Except InputFault ByteArray) (input : ByteArray)
    (invocation : Invocation) : Transcript :=
  match invocation.path with
  | none => prompt (.start clock) (splitLines input.toList)
  | some path =>
    match readFile path >>= decode with
    | .error fault => .ofInputFault fault
    | .ok text => if invocation.showsTrees then showTrees text else runText clock text

end Scriptlet.Command
