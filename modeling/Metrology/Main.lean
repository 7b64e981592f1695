import Metrology.Console
import Metrology.Text.Octets

/-!
# Metrology.Main -- the unit converter as a program

Opens the settings files that the arguments name, runs the converter on their texts, and writes
what it answers. Arguments, files and answers are bytes outside and texts inside (`Octets`).
-/

open Metrology

/-- All the text of what has been opened. A directory opens but cannot be read: its text is empty.
-/
def remainingText (handle : IO.FS.Handle) : IO String := do
  try
    return Octets.text (← handle.readBinToEnd)
  catch _ =>
    return ""

/-- The text that a path opens, if it can be opened. -/
def fileText? (path : String) : IO (Option String) := do
  let some path := String.fromUTF8? (Octets.bytes path) | return none
  try
    return some (← remainingText (← IO.FS.Handle.mk path .read))
  catch _ =>
    return none

def writeText (stream : IO.FS.Stream) (text : String) : IO Unit := do
  stream.write (Octets.bytes text)
  stream.flush

def main (args : List String) : IO UInt32 := do
  let args := args.map fun arg => Octets.text arg.toUTF8
  let files ← (Console.configFiles args).mapM fun path => return (path, ← fileText? path)
  let outcome := Console.run (fun path => (files.lookup path).join) args
  writeText (← IO.getStdout) outcome.out
  writeText (← IO.getStderr) outcome.err
  return outcome.exitCode
