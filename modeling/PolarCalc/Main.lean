import PolarCalc.CommandLine
/-!
# The program

Runs one line or an interactive session over the sample libraries.
-/

namespace PolarCalc

open CommandLine

/-- How the program is called. -/
def usageLine : String := "usage: " ++ programName ++ " [-h] [-e TEXT] [--debug] [--version]"

/-- What a fault is reported as. -/
def Failure.report : Failure → String
  | .error cause => errorLine cause.message
  | .overflow => "fault: a number is too large"
  | .tooManyDigits => "fault: an integer has too many digits"
  | .malformedNumber => "fault: malformed number"
  | .crash => "fault: something broke down"
  | .notAnExpression => "fault: not an expression"
  | .outOfDepth => "fault: calls are nested too deep"

/-- Print the answer of a run, and its events if asked; the exit code. -/
def printRan {σ : Type} (debug : Bool) (ran : Ran σ) : IO UInt32 := do
  if debug then
    for event in ran.events do
      IO.eprintln ("DEBUG " ++ event.message)
  match ran.answer with
  | .ok answer =>
      IO.println answer
      return (exitCode answer).toUInt32
  | .error f =>
      IO.eprintln f.report
      return 1

/-- Read and answer lines until the input ends or the session is left. -/
partial def interact {σ : Type} (host : PluginHost σ) (debug : Bool) (session : Session σ) :
    IO UInt32 := do
  IO.print promptText
  (← IO.getStdout).flush
  let line ← (← IO.getStdin).getLine
  if line.isEmpty then
    IO.println ""
    return 0
  match react line.toList with
  | .skip => interact host debug session
  | .leave => return 0
  | .run text =>
      let (ran, session) := session.run host callDepth text
      let _ ← printRan debug ran
      interact host debug session

/-- Do what the arguments ask for; the exit code. -/
def program (args : List String) : IO UInt32 := do
  let host := Samples.folder.host
  let session := Session.start host default
  match parse args with
  | .help =>
      IO.println usageLine
      return 0
  | .version =>
      IO.println versionLine
      return 0
  | .misuse =>
      IO.eprintln usageLine
      return 2
  | .run (some source) debug => printRan debug (session.run host callDepth source).1
  | .run none debug => interact host debug session

end PolarCalc

def main (args : List String) : IO UInt32 := PolarCalc.program args
