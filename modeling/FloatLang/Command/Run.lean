import FloatLang.Command.Listing
import FloatLang.Command.Options
import FloatLang.Lexer.Run
import FloatLang.Stream.Utf8Reader

/-! # The Command

  Lists the tokens of a program. The program is an argument, a file, or
  standard input.

  - **Positions** of a program on standard input are listed as the input is
    decoded, up to the first byte that cannot be; the error then goes to
    standard error.
  - **Everything else** needs the whole program first. Input that cannot be
    read, or is not UTF-8, leaves nothing on standard output.

  The exit code is 0 when the whole program was listed, 1 when it could not be
  read, and 2 when the arguments make no sense.

  Throughout, the records of the lexer are taken to be turned off, as they are
  unless the environment asks for them. Turned on, they would be written to standard
  error in between; nothing else of an outcome depends on them.
-/

namespace FloatLang.Command

/-- What a run of the command leaves behind. -/
structure Outcome where
  /-- The exit code. -/
  code : Nat
  /-- The text on standard output. -/
  stdout : String
  /-- The text on standard error, without any records. -/
  stderr : String
  deriving DecidableEq, Inhabited

/-- What surrounds a run of the command. -/
structure Surroundings where
  /-- The outcomes of reading standard input byte by byte. -/
  stdin : List ReadEvent
  /-- The bytes of the file of a name, and none if it cannot be read. -/
  file? : String → Option (List UInt8)

/-- The text for a request for the version. -/
def versionText : String := "kaleido 0.1.0\n"

/-- The text for a request for help, and for arguments that make no sense. What the
    command says in its place is up to its argument parser, and more than this line:
    the text only stands for it. -/
def usageText : String := "Usage: kaleido [--file] [--spans] [INPUT]\n"

/-! ## Reading a program -/

/-- All bytes up to the end of the file. -/
def readBytes : List ReadEvent → Except ReadFailure (List UInt8)
  | [] => .ok []
  | .endOfFile :: _ => .ok []
  | .byte b :: rest => (readBytes rest).map (b :: ·)
  | .failure f :: rest => if f.kind = .interrupted then readBytes rest else .error f

/-- The failure of reading text from bytes that are not UTF-8. -/
def notUtf8 : ReadFailure where
  kind := .invalidData
  words? := some "stream did not contain valid UTF-8"

/-- All text up to the end of the file. -/
def readText (events : List ReadEvent) : Except ReadFailure String := do
  let bytes ← readBytes events
  match Utf8.decode? bytes with
  | some text => .ok text
  | none => .error notUtf8

/-- What is said of a file that cannot be read. -/
def unreadableFile (name : String) : String :=
  "Failed to read the input file '" ++ name ++ "'. Perhaps this file does not exist?\n"

/-- What is said of standard input that cannot be read. -/
def unreadableInput (f : ReadFailure) : String :=
  "Failed to read standard input: " ++ f.describe ++ "\n"

/-- The whole program, or what is said if it cannot be read. -/
def readProgram (s : Surroundings) (o : Options) : Except String String :=
  match o.input? with
  | none =>
    match readText s.stdin with
    | .ok text => .ok text
    | .error f => .error (unreadableInput f)
  | some input =>
    if o.fromFile then
      match (s.file? input).bind Utf8.decode? with
      | some text => .ok text
      | none => .error (unreadableFile input)
    else .ok input

/-! ## Listing a program -/

/-- Lists the positions of what a lexer has still to read. -/
def listFrom (l : Lexer Utf8Reader) : Outcome :=
  let (entries, l') := l.tokens
  match l'.releaseError.1 with
  | none => ⟨0, positionListing entries, ""⟩
  | some e => ⟨1, positionListing entries, e.message ++ "\n"⟩

/-- Lists the positions of a program while it is decoded. -/
def listStream (events : List ReadEvent) : Outcome :=
  listFrom (Lexer.ofStream { events := events })

/-- Lists a program that is held in memory. -/
def listText (spans : Bool) (text : String) : Outcome :=
  if spans then ⟨0, spanListing (Located.ofText text), ""⟩
  else ⟨0, positionListing (Lexer.ofStream text.toList).tokens.1, ""⟩

/-- Lists what the options ask for. -/
def list (s : Surroundings) (o : Options) : Outcome :=
  if o.input?.isNone && !o.spans then listStream s.stdin
  else
    match readProgram s o with
    | .ok text => listText o.spans text
    | .error said => ⟨1, "", said⟩

/-- A run of the command, with the records of the lexer turned off. -/
def run (arguments : List String) (s : Surroundings) : Outcome :=
  match Options.ofArguments arguments with
  | .ok o => list s o
  | .error .version => ⟨0, versionText, ""⟩
  | .error .help => ⟨0, usageText, ""⟩
  | .error .misuse => ⟨2, "", usageText⟩

end FloatLang.Command
