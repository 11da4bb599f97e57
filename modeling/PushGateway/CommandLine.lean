import PushGateway.Settings

/-!
Flags of the command line, and the settings as text. A flag and its value are two words, or one with
an equals sign between them.
-/

namespace PushGateway

structure CommandLine where
  given : Overrides
  configFile : Option String
  deriving DecidableEq

namespace CommandLine

def empty : CommandLine := ⟨⟨none, none, none⟩, none⟩

inductive Error
  | unknownFlag (flag : String)
  | noValue (flag : String)
  | duration (flag : String) (error : Duration.Invalid)
  deriving DecidableEq, Repr

def Error.message : Error → String
  | .unknownFlag flag => "unknown flag " ++ Text.quoted flag
  | .noValue flag => "no value for flag " ++ Text.quoted flag
  | .duration flag error => flag ++ ": " ++ error.message

def set (c : CommandLine) (flag value : String) : Except Error CommandLine :=
  if flag = "--addr" then .ok { c with given := { c.given with addr := some value } }
  else if flag = "--persistence.file" then
    .ok { c with given := { c.given with persistenceFile := some value } }
  else if flag = "--persistence.duration" then
    match Duration.parse value with
    | .ok d => .ok { c with given := { c.given with persistenceInterval := some d } }
    | .error e => .error (.duration flag e)
  else if flag = "--config" then .ok { c with configFile := some value }
  else .error (.unknownFlag flag)

def assignment? (word : String) : Option (String × String) :=
  match word.toList.dropWhile (· != '=') with
  | [] => none
  | _ :: value => some (String.ofList (word.toList.takeWhile (· != '=')), String.ofList value)

def readFrom (c : CommandLine) : List String → Except Error CommandLine
  | [] => .ok c
  | [word] => match assignment? word with
    | some (flag, value) => c.set flag value
    | none => .error (.noValue word)
  | word :: next :: rest => match assignment? word with
    | some (flag, value) => do readFrom (← c.set flag value) (next :: rest)
    | none => do readFrom (← c.set word next) rest

def read (words : List String) : Except Error CommandLine := empty.readFrom words

end CommandLine

def Duration.text (d : Duration) : String := toString d.nanos ++ "ns"

def Settings.lines (s : Settings) : List String :=
  ["listening address: " ++ String.ofList s.addr.text,
    "persistence file: " ++ s.persistenceFile.getD "none",
    "persistence interval: " ++ s.persistenceInterval.text,
    "request timeout: " ++ s.requestTimeout.text,
    "queue depth: " ++ toString s.queueDepth,
    "shutdown grace: " ++ s.shutdownGrace.text]

end PushGateway
