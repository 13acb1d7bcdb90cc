import SpanReport.Command.Run

/-! # The program

The command line: files of the operating system, draws from its entropy, and the streams and the
exit code of the process. -/

namespace SpanReport

/-- A failure with the number and the words of the operating system. -/
def FileError.ofCode (code : UInt32) (details : String) : FileError :=
  match code with
  | 2 => .notFound
  | 17 => .alreadyExists
  | 20 => .notDirectory
  | 21 => .isDirectory
  | 36 => .nameTooLong
  | _ => .other (details ++ " (os error " ++ toString code ++ ")")

/-- A failure of the operating system. -/
def FileError.ofSystem : IO.Error → FileError
  | .noFileOrDirectory _ code details | .interrupted _ code details
  | .alreadyExists _ code details | .invalidArgument _ code details
  | .permissionDenied _ code details | .resourceExhausted _ code details
  | .inappropriateType _ code details | .noSuchThing _ code details
  | .otherError code details | .resourceBusy code details | .resourceVanished code details
  | .unsupportedOperation code details | .hardwareFault code details
  | .unsatisfiedConstraints code details | .illegalOperation code details
  | .protocolError code details | .timeExpired code details => .ofCode code details
  | error => .other (toString error)

/-- Do what may fail and keep the failure. -/
def attempt {α : Type} (action : IO α) : IO (Except FileError α) := do
  try
    return .ok (← action)
  catch error =>
    return .error (.ofSystem error)

/-- The file system of the operating system. -/
instance : FileAccess IO where
  read path := attempt (IO.FS.withFile path.toString .read (·.readBinToEnd))
  write path content := attempt (IO.FS.writeBinFile path.toString content)
  createDir path := attempt (IO.FS.createDir path.toString)
  isDir path := do
    try
      (← IO.FS.realPath path.toString).isDir
    catch _ =>
      return false

/-- The number that bytes stand for, the lowest first. -/
def wordOfBytes (bytes : List UInt8) : UInt32 :=
  bytes.foldr (fun byte word => word <<< 8 ||| byte.toUInt32) 0

/-- A key from the entropy of the operating system. -/
def entropyKey : IO ChaCha.Key := do
  let bytes := (← IO.getRandomBytes 32).toList
  return Vector.ofFn fun index => wordOfBytes ((bytes.drop (4 * index.val)).take 4)

end SpanReport

/-- Run the command line, print its outcome, and exit with its code. -/
def main (words : List String) : IO UInt32 := do
  let outcome ← SpanReport.runWords (SpanReport.generatorFor SpanReport.entropyKey) words
  IO.print outcome.stdout
  IO.eprint outcome.stderr
  return UInt32.ofNat outcome.exitCode
