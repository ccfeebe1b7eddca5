import LinkedCalls.Command

/-!
The command line: the file named by the first argument is read, the flags are taken from the
environment.
-/
namespace LinkedCalls.Command

def readContent (file : String) : IO (Except Failure Decoded) := do
  try
    let bytes ← IO.FS.readBinFile file
    return .ok (decodeFile bytes.toList)
  catch
    | .noFileOrDirectory .. => return .error (.path .missing (Path.normal file))
    | e => throw e

def readFlags : IO Flags := do
  let values ← Flag.all.mapM fun flag => do
    return (flag.environmentName, ← IO.getEnv flag.environmentName)
  return Flags.ofEnvironment fun name => (values.find? (·.1 == name)).bind Prod.snd

end LinkedCalls.Command

open LinkedCalls

def main (args : List String) : IO UInt32 := do
  let content ← match args with
    | [] => pure (.ok ⟨[], none⟩)
    | file :: _ => Command.readContent file
  match Command.program (fun _ => content) args with
  | .ok program =>
    let ending := Command.run (← Command.readFlags) program
    IO.print ending.text
    return UInt32.ofNat ending.code
  | .error failure =>
    IO.eprintln s!"{failure.kind}: {failure.message}"
    return 1
