import Octal.Invocation
import Std.Time.DateTime.Timestamp

/-!
# The program

Fetches the files that a run needs, does the run, prints what it writes and stores the files that it
changes. When the input is a terminal and nothing else is to be evaluated, lines are answered one by
one.
-/

namespace Octal.Main

/-- The present. -/
def present : IO Instant := do
  let nanos := (← Std.Time.Timestamp.now).toNanosecondsSinceUnixEpoch.toInt
  return ⟨nanos / 1000000000, (nanos % 1000000000).toNat⟩

def write (stream : IO.FS.Stream) (text : Bytes) : IO Unit := do
  stream.write (ByteArray.mk text.toArray)
  stream.flush

/-- Put what is at `path` on the disk, if there is anything. -/
def fetchOne (disk : Disk) (path : String) : IO Disk := do
  let file := disk.absolute path
  let here ← IO.currentDir
  if ← (here / file).isDir then return disk.addDirectory file
  if ← (here / file).pathExists then
    return disk.restore file (← IO.FS.readBinFile (here / file)).toList
  return disk

/-- Put a file and the directories on the way to it on the disk. -/
def fetch (disk : Disk) (path : String) : IO Disk :=
  if path.isEmpty then return disk
  else (Path.stems path ++ [path]).foldlM fetchOne disk

/-- Store the files that a run changed. A file that cannot be written is left as it is. -/
def store (disk earlier : Disk) : IO Unit :=
  for (path, content) in disk.changes earlier do
    try IO.FS.writeBinFile path (ByteArray.mk content.toArray) catch _ => pure ()

/-- All that is left of a stream. -/
partial def readAll (stream : IO.FS.Stream) (sofar : ByteArray) : IO ByteArray := do
  let more ← stream.read 65536
  if more.isEmpty then return sofar else readAll stream (sofar ++ more)

/-- Answer lines until the input ends or a command quits. -/
partial def converse (stdin stdout stderr : IO.FS.Stream) (c : Calculator) (h : Repl.History) :
    IO (Calculator × Repl.History) := do
  write stdout (Bytes.ofString Repl.prompt)
  let line ← stdin.getLine
  if line.isEmpty then
    write stdout [newline]
    return (c, h)
  let reply := Repl.answer c (← present) h (Bytes.ofString line)
  write stderr (Invocation.logText reply.log ++ reply.errors)
  write stdout reply.output
  if reply.quits then return (reply.next, reply.history)
  converse stdin stdout stderr reply.next reply.history

/-- An interactive run. -/
def interact (stdin stdout stderr : IO.FS.Stream) (disk : Disk) (home : String) (config : Config) :
    IO UInt32 := do
  match Calculator.new disk (Invocation.choices config true) with
  | .error e =>
    write stderr (Invocation.errorLine (Bytes.ofString e.message))
    return 1
  | .ok c =>
    write stdout (Bytes.ofString Repl.banner)
    let path := Repl.History.resolvePath home config.history
    let (c, h) ← converse stdin stdout stderr c (.load disk path)
    store (c.close.saveTo (Repl.History.saveTo disk path h)) disk
    return 0

/-- A run that is not interactive. -/
def runOnce (stdin stdout stderr : IO.FS.Stream) (disk : Disk) (a : Arguments) : IO UInt32 := do
  let input ← if Invocation.readsInput a then readAll stdin .empty else pure .empty
  let r := Invocation.start disk (← present) a (.complete input.toList)
  write stderr r.errors
  write stdout r.output
  store r.disk disk
  return UInt32.ofNat r.code

def run (args : List String) : IO UInt32 := do
  let stdin ← IO.getStdin
  let stdout ← IO.getStdout
  let stderr ← IO.getStderr
  match Arguments.parse args with
  | .error refusal =>
    write stderr (Bytes.ofString refusal.message)
    return 2
  | .ok a =>
    let home := (← IO.getEnv "HOME").getD ""
    let here ← IO.currentDir
    let disk ← (Invocation.paths a).foldlM fetch (.empty here.toString)
    match Invocation.configure disk a with
    | .error message =>
      write stderr (Invocation.errorLine message)
      return 1
    | .ok config =>
      let disk ← (Invocation.configuredPaths home config).foldlM fetch disk
      if Invocation.readsInput a && (← stdin.isTty) then
        interact stdin stdout stderr disk home config
      else runOnce stdin stdout stderr disk a

end Octal.Main

def main (args : List String) : IO UInt32 := Octal.Main.run args
