import XPath.CommandLine

/-! The program: reads the input that the command line asks for and writes the outcome. -/
namespace XPath.CommandLine

def readInput (file : Option String) : IO (Option String) :=
  try
    match file with
    | some path => return some (← IO.FS.readFile path)
    | none => return some (← (← IO.getStdin).readToEnd)
  catch _ => return none

def finish (o : Outcome) : IO UInt32 := do
  IO.print o.output
  IO.eprint o.complaint
  return o.status.toUInt32

end XPath.CommandLine

def main (args : List String) : IO UInt32 := do
  match XPath.CommandLine.start args with
  | .finished o => XPath.CommandLine.finish o
  | .reading file rest => XPath.CommandLine.finish (rest (← XPath.CommandLine.readInput file))
