import Lots.CommandLine

/-!
# Lots — the main program

Collects the arguments and the environment, runs the command line, and hands its report
to the standard streams.
-/

namespace Lots.CommandLine

/-- Everything that a stream still holds, after what was read before. -/
partial def readAll (stream : IO.FS.Stream) (before : String) : IO String := do
  let line ← stream.getLine
  if line.isEmpty then return before else readAll stream (before ++ line)

/-- A seed from the system's entropy. -/
def drawSeed : IO Int := do
  let bytes ← IO.getRandomBytes 32
  return bytes.foldl (fun n byte => 256 * n + (byte.toNat : Int)) 0

/-- Hands a report to the standard streams. A run that broke off returns one, as a failed
query does. -/
def hand (report : Report) : IO UInt32 := do
  IO.print (String.ofList report.stdout)
  for line in report.log ++ report.stderr do
    IO.eprintln line
  if let some error := report.raised then
    IO.eprintln error.message
  return (report.exit.getD 1).toUInt32

def runInWorld (texts : List (List Char)) : IO UInt32 := do
  let stdin ← IO.getStdin
  let isTerminal ← stdin.isTty
  let reads := match Arguments.parse texts with
    | .ok args => args.readsInput isTerminal
    | .error _ => false
  let input ← if reads then readAll stdin "" else pure ""
  let seedVariable ← IO.getEnv "RQ_SEED"
  let entropy ← drawSeed
  hand (run texts {
    stdin := input.toList
    isTerminal
    seedVariable := seedVariable.map String.toList
    entropy })

end Lots.CommandLine

def main (texts : List String) : IO UInt32 :=
  Lots.CommandLine.runInWorld (texts.map String.toList)
