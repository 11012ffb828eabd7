import LessStyle.Cli.Run

/-!
# The program

The command line on the real file system. Everything that is decided is decided in `Cli.run`; this
module answers its questions about files and writes what it returns.
-/

namespace LessStyle

/-- The names that lead from the top to a directory. -/
def namesOfPath (path : String) : List Text := (Path.pieces path.toList).filter (!·.isEmpty)

/-- The number of a system error, which can also be given negated. -/
def errorNumber (code : UInt32) : UInt32 := if code < 0x80000000 then code else -code

/-- Why the system refused to read a file. -/
def readFault : IO.Error → ReadFault
  | .noFileOrDirectory .. => .missing
  | .noSuchThing .. => .missing
  | .permissionDenied .. => .denied
  | .inappropriateType _ code _ => if errorNumber code = 20 then .notDirectory else .isDirectory
  | .invalidArgument _ code details =>
    if errorNumber code = 36 then .tooLong else .other details.toList
  | e => .other (toString e).toList

/-- The file system, seen from the working directory. -/
def systemDisk : IO (Disk IO) := do
  let here ← IO.currentDir
  return {
    workingDirectory := namesOfPath here.toString
    absolute := fun names => if names.isEmpty then ['/'] else names.flatMap ('/' :: ·)
    kind? := fun path => do
      let p := here / String.ofList path
      if ← p.isDir then return some .directory
      else if ← p.pathExists then return some .file
      else return none
    names := fun path => do
      try
        let entries ← (here / String.ofList path).readDir
        return entries.toList.map fun e => e.fileName.toList
      catch _ => return []
    read := fun path => do
      try return .ok (← IO.FS.readBinFile (here / String.ofList path))
      catch e => return .error (readFault e)
    locate? := fun path => do
      try return some (namesOfPath (← IO.FS.realPath (here / String.ofList path)).toString)
      catch _ => return none }

end LessStyle

/-- Run the program with the arguments of the command line. -/
def main (args : List String) : IO UInt32 := do
  let output ← LessStyle.Cli.run (← LessStyle.systemDisk) (args.map String.toList)
  IO.print (String.ofList output.stdout)
  IO.eprint (String.ofList output.stderr)
  return output.exitCode.toUInt32
