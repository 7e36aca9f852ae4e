import Onboarding.Console.Launch

/-!
# Onboarding — the program

The console on the standard streams. Settings come from the environment, output
goes to the standard output and notices to the standard error. This machine has
no network: addresses do not answer.
-/

namespace Onboarding.Program

/-- Say something. -/
def say : Saying → IO Unit
  | .output text => IO.println text
  | .notice text => IO.eprintln text

/-- The text of a file, if it can be read. -/
def readFile? (path : String) : IO (Option String) :=
  try some <$> IO.FS.readFile path catch _ => pure none

/-- The directory of a path. -/
def directoryOf (path : String) : Option String :=
  (Text.splitLast? ['/'] path.toList).map fun (directory, _) => String.ofList directory

/-- Write a file, if that is possible. -/
def writeFile (path text : String) : IO Unit :=
  try
    match directoryOf path with
    | some directory => IO.FS.createDirAll directory
    | none => pure ()
    IO.FS.writeFile path text
  catch _ => pure ()

/-- The pairs of keys with the texts that a look-up finds. -/
def gather (lookup : String → IO (Option String)) (keys : List String) :
    IO (List (String × String)) :=
  keys.filterMapM fun key => do return (← lookup key).map fun text => (key, text)

/-- The text of a key. -/
def textOf (pairs : List (String × String)) (key : String) : Option String :=
  List.lookup key pairs

/-- The reason why an address does not answer. -/
def noNetwork : String := "there is no network"

/-- The host of this machine. -/
def thisHost : IO Host := do
  let settings ← gather (fun key => IO.getEnv key) Settings.keys
  let paths := [Settings.sourceFileName, Settings.cachePathName].filterMap (textOf settings)
  let files ← gather readFile? paths
  return {
    setting := fun key => textOf settings key
    file := fun path => textOf files path
    sourceAt := fun address => { fetch := .error (.requestFailed address noNetwork) }
    assistant := fun _ _ => .error (.requestFailed noNetwork) }

/-- Handle lines until the console or the input ends. -/
partial def drive (input : IO.FS.Stream) (c : Console) : IO Unit := do
  IO.eprint "> "
  let line ← input.getLine
  if line.isEmpty then return
  let (next, said, goesOn) := c.step line
  said.forM say
  if goesOn then drive input next

end Onboarding.Program

open Onboarding Onboarding.Program in
/-- Run the console. -/
def main : IO UInt32 := do
  let launch := Console.launch (← thisHost)
  launch.said.forM say
  match launch.written with
  | some (path, text) => writeFile path text
  | none => pure ()
  match launch.result with
  | .ok c =>
    drive (← IO.getStdin) c
    return 0
  | .error e =>
    IO.eprintln ("Error: " ++ "\n".intercalate e.lines)
    return 1
