import FloatLang.Command.Arrival

/-! # Entry Point

  Runs the command on what the options ask for.

  Where positions are listed, a program on standard input is one that arrives in
  parts: its lines are read one by one, and `Command.listSettled` tells what to print
  when a line has arrived. What is printed in the end is `Command.listParts` of the
  lines.

  Everything else is read first and then left to `Command.run`.
-/

namespace FloatLang.Command

/-- The outcome of a failed read. -/
def failedRead (e : IO.Error) : ReadEvent :=
  .failure { kind := .other, words? := some (toString e) }

/-- Reads a line byte by byte, and whether the input ended with it. -/
partial def readLine (stdin : IO.FS.Stream) (line : Array ReadEvent) :
    IO (Array ReadEvent × Bool) := do
  match ← (stdin.read 1).toBaseIO with
  | .error e => return (line.push (failedRead e), true)
  | .ok bytes =>
    match bytes.toList with
    | [] => return (line, true)
    | b :: _ =>
      let line := line.push (.byte b)
      if b = 10 then return (line, false) else readLine stdin line

/-- Prints an outcome, and returns its exit code. -/
def leave (outcome : Outcome) : IO UInt32 := do
  IO.print outcome.stdout
  IO.eprint outcome.stderr
  return UInt32.ofNat outcome.code

/-- Lists the lines of standard input as they arrive. -/
partial def listArriving (stdin : IO.FS.Stream) (l : Lexer Utf8Reader) : IO UInt32 := do
  let (line, complete) ← readLine stdin #[]
  match listSettled (l.extend line.toList) with
  | .finished outcome => leave outcome
  | .waiting lines l' =>
    IO.print lines
    (← IO.getStdout).flush
    if complete then leave (listFrom l') else listArriving stdin l'

/-- Reads standard input to its end. -/
partial def readAll (stdin : IO.FS.Stream) (known : Array ReadEvent) :
    IO (Array ReadEvent) := do
  let (known, complete) ← readLine stdin known
  if complete then return known else readAll stdin known

/-- The bytes of a file, if it can be read. -/
def fileBytes (name : String) : IO (Option (List UInt8)) := do
  match ← (IO.FS.readBinFile name).toBaseIO with
  | .ok bytes => return some bytes.toList
  | .error _ => return none

/-- Reads what a run with these options needs. -/
def surroundings (o : Options) : IO Surroundings := do
  match o.input? with
  | none => return { stdin := (← readAll (← IO.getStdin) #[]).toList, file? := fun _ => none }
  | some name =>
    let bytes? ← if o.fromFile then fileBytes name else pure none
    return { stdin := [], file? := fun _ => bytes? }

end FloatLang.Command

open FloatLang FloatLang.Command in
/-- The command. -/
def main (arguments : List String) : IO UInt32 := do
  let surroundings ← match Options.ofArguments arguments with
    | .ok { spans := false, input? := none, .. } =>
      return ← listArriving (← IO.getStdin) (Lexer.ofStream { events := [] })
    | .ok o => surroundings o
    | .error _ => pure { stdin := [], file? := fun _ => none }
  leave (run arguments surroundings)
