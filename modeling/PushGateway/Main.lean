import PushGateway.CommandLine

/-!
The command line: reads the flags and the configuration file, and writes out the settings in effect.
-/

namespace PushGateway.CommandLine

def readConfig : Option String → IO Config
  | none => return .empty
  | some file => do
    match Config.read? (← IO.FS.readFile file) with
    | some config => return config
    | none => throw (.userError ("invalid configuration file " ++ Text.quoted file))

def orFail {E A : Type} (message : E → String) : Except E A → IO A
  | .ok a => return a
  | .error e => throw (.userError (message e))

def settingsOf (words : List String) : IO Settings := do
  let line ← orFail Error.message (read words)
  let config ← readConfig line.configFile
  orFail (fun e => ": ".intercalate (e.message :: e.causes)) (Settings.resolve line.given config)

end PushGateway.CommandLine

def main (words : List String) : IO UInt32 := do
  try
    for line in (← PushGateway.CommandLine.settingsOf words).lines do
      IO.println line
    return 0
  catch e =>
    IO.eprintln (toString e)
    return 1
