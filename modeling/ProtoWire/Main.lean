import ProtoWire.Command.Run

/-!
# The command-line program

Reads the files that a request names, prints what it leads to, and reports a
failed request on standard error.
-/

set_option autoImplicit false

namespace ProtoWire.Command

/-- What a file holds, if it can be read. -/
def readPath (path : String) : IO (Option Bytes) := do
  try
    return some (← IO.FS.readBinFile path).toList
  catch _ => return none

/-- What the input of a request holds, if the task takes one and it can be read. -/
def readRequested (invocation : Invocation) : IO (Option Bytes) := do
  if !invocation.task.takesInput then return none
  else if isStandardInput invocation.input then
    return some (← (← IO.getStdin).readBinToEnd).toList
  else readPath invocation.input

/-- Prints a result, and gives the exit code. -/
def report (result : Except Fault Bytes) : IO UInt32 := do
  match result with
  | .ok output =>
      let out ← IO.getStdout
      out.write ⟨output.toArray⟩
      out.flush
      return 0
  | .error fault =>
      IO.eprintln ("Error: " ++ fault.message)
      return 1

end ProtoWire.Command

/-- Carries out the request that the arguments make. -/
def main (arguments : List String) : IO UInt32 := do
  match ProtoWire.Command.parse arguments with
  | none =>
      IO.eprintln ("Usage: [-v] [--log-json] -s SCHEMA " ++
        "encode|size|digest|decode|table MESSAGE [INPUT]")
      return 2
  | some invocation =>
      let schema ← ProtoWire.Command.readPath invocation.schema
      match ProtoWire.Command.prepare invocation schema with
      | .error fault => ProtoWire.Command.report (.error fault)
      | .ok prepared =>
          let input ← ProtoWire.Command.readRequested invocation
          ProtoWire.Command.report (ProtoWire.Command.finish prepared input)
