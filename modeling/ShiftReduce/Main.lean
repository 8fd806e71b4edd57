import ShiftReduce.CommandLine.Report

open ShiftReduce ShiftReduce.CommandLine

def readErrorOf : IO.Error → ReadError
  | .noFileOrDirectory .. => .notFound
  | .permissionDenied .. => .denied
  | .inappropriateType _ code text => byCode code text
  | .invalidArgument _ code text => byCode code text
  | e => .other (toString e)
where
  byCode (code : UInt32) (text : String) : ReadError :=
    if code = 20 || code = -20 then .notADirectory
    else if code = 21 || code = -21 then .isADirectory
    else if code = 36 || code = -36 then .nameTooLong
    else .other text

def readOrigin : Origin → IO (Except ReadError String)
  | .inline source => return .ok source
  | .file path => do
    try return decode (← IO.FS.readBinFile path)
    catch e => return .error (readErrorOf e)
  | .standardInput => do
    try return decode (← (← IO.getStdin).readBinToEnd)
    catch e => return .error (readErrorOf e)

def main (args : List String) : IO UInt32 := do
  match Invocation.ofArgs? args with
  | none =>
    IO.eprintln "usage: [-i FILE] [--no-recovery] [--stack-capacity N] [SOURCE]"
    return 2
  | some inv =>
    match report? inv (← readOrigin inv.origin) with
    | none => return 101
    | some report =>
      IO.eprint report.stderr
      IO.print report.stdout
      return report.exit.toUInt32
