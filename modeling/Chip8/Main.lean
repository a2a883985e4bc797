import Chip8.Startup.CommandLine

/-!
# The program

The command line, the file system and the clock.  There are no host libraries here, so that programs run
hidden, with their trace on the standard output.
-/

namespace Chip8

/-- The bytes of a file, or why there are none. -/
def readFile (name : String) : IO (Except Failure (List UInt8)) := do
  try
    return .ok (← IO.FS.readBinFile name).toList
  catch
    | .inappropriateType _ _ _ => return .error .isDirectory
    | _ => return .error .noFile

/-- The host on which the program runs, given the file that it will ask for. -/
def localHost (rom : Except Failure (List UInt8)) (entropy : Nat) : Host where
  backends := []
  refuses _ _ := false
  canResize := false
  file _ := rom
  entropy := entropy

/-- A session in which nothing happened yet. -/
def newSession : Session := ⟨[], [], [], [], [], (0, 0)⟩

/-- Writes the lines that a session printed, and forgets them. -/
def writePrinted (s : Session) : IO Session := do
  for line in s.printed.reverse do
    IO.println line
  return { s with printed := [] }

/-- The time in seconds. -/
def readClock : IO Float := do
  return (← IO.monoNanosNow).toFloat / 1000000000

/-- Runs an emulator along the clock until the user quits or it fails. -/
partial def runLoop (host : Host) (pace : Pace Float) (e : Running) :
    IO (Except Failure Unit × Running) := do
  match Emulation.takeReading .seconds (Front.frontEnd host) pace (← readClock) e with
  | .error failure e => return (.error failure, e)
  | .ok none e => return (.ok (), e)
  | .ok (some next) e => do
    let session ← writePrinted e.front.session
    runLoop host next { e with front := { e.front with session } }

/-- Reports a failure, and answers the status that the program ends with. -/
def report (f : Failure) : IO UInt32 := do
  IO.eprintln (if f.message = "" then "The program cannot run." else f.message)
  return 1

/-- Runs the program with options. -/
def runWith (o : Options) : IO UInt32 := do
  let rom ← match o .filename with
    | some (.text name) => readFile name
    | _ => pure (.error .noFile)
  let host := localHost rom (← IO.rand 0 4611686018427387904)
  match prepare host o newSession with
  | .error failure session => do
    let _ ← writePrinted session
    report failure
  | .ok e session => do
    let session ← writePrinted session
    let (ended, e) ← runLoop host .starting { e with front := { e.front with session } }
    let _ ← writePrinted e.front.session
    match e.front.close host e.front.session, ended with
    | .error failure _, _ => report failure
    | .ok _ _, .error failure => report failure
    | .ok _ _, .ok _ => return 0

end Chip8

/-- Runs the program that the command line names. -/
def main (args : List String) : IO UInt32 := do
  match Chip8.CommandLine.parse args with
  | .ok o => Chip8.runWith o
  | .error .help => do
    IO.println Chip8.CommandLine.usage
    return 0
  | .error .misuse => do
    IO.eprintln Chip8.CommandLine.usage
    return 2
