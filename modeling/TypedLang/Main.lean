import TypedLang.CommandLine

/-!
# The program

The command line on the real file system. Arguments and paths are texts in UTF-8; files are bytes.
-/

namespace TypedLang

namespace CommandLine

/-- Access to real files. A path that is no text in UTF-8 cannot be opened. -/
def realFiles : FileAccess IO where
  read path := do
    let some name := String.fromUTF8? (ByteArray.mk path.toArray) | return .closed
    let opened ← try pure (some (← IO.FS.Handle.mk name .read)) catch _ => pure none
    let some file := opened | return .closed
    try
      let contents ← file.readBinToEnd
      return .text contents.toList
    catch error => return .broken (error.toString ++ "\n").toUTF8.toList
  write path text := do
    let some name := String.fromUTF8? (ByteArray.mk path.toArray) | return false
    let opened ← try pure (some (← IO.FS.Handle.mk name .write)) catch _ => pure none
    let some file := opened | return false
    try file.write (ByteArray.mk text.toArray) catch _ => pure ()
    return true

end CommandLine

end TypedLang

/-- Runs the command line and ends with its status. -/
def main (arguments : List String) : IO UInt32 := do
  let outcome ← TypedLang.CommandLine.run TypedLang.CommandLine.realFiles
    (arguments.map fun argument => argument.toUTF8.toList)
  let output ← IO.getStdout
  output.write (ByteArray.mk outcome.standardOutput.toArray)
  output.flush
  let errors ← IO.getStderr
  errors.write (ByteArray.mk outcome.standardError.toArray)
  errors.flush
  return outcome.exitCode.toUInt32
