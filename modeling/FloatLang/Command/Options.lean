/-! # Command Options

  What the command is asked to do. Arguments are read from left to right, and
  the first one that settles the matter does so at once: a request for the
  version or for help, or a mistake. A mistake is

  - an option that does not exist, or one with a value attached;
  - an option given twice;
  - a second input;
  - `--file` without an input, once all arguments are read.

  Short options may share a hyphen. A lone hyphen and the empty argument are
  inputs, and after `--` everything is.

  The command leaves this to a parser for arguments and only declares its options.
  The rules above are what such a parser documents; that it keeps to them is an
  assumption here.

  Core Lean only; no Mathlib.
-/

namespace FloatLang.Command

/-- What a run of the command lists. -/
structure Options where
  /-- The input names a file that holds the program. -/
  fromFile : Bool := false
  /-- List spans and lines in place of positions. -/
  spans : Bool := false
  /-- The program, or the file that holds it. Without one the program is read
      from standard input. -/
  input? : Option String := none
  deriving DecidableEq, Repr, Inhabited

/-- Why there is nothing to list. -/
inductive Interruption where
  /-- The version was asked for. -/
  | version
  /-- Help was asked for. -/
  | help
  /-- The arguments make no sense. -/
  | misuse
  deriving DecidableEq, Repr, Inhabited

/-- The options. -/
inductive Flag where
  | file
  | spans
  | version
  | help
  deriving DecidableEq, Repr, Inhabited

namespace Flag

/-- The option of a letter behind a single hyphen. -/
def ofLetter? : Char → Option Flag
  | 'f' => some .file
  | 's' => some .spans
  | 'V' => some .version
  | 'h' => some .help
  | _ => none

/-- The option of a name behind two hyphens. -/
def ofName? : String → Option Flag
  | "file" => some .file
  | "spans" => some .spans
  | "version" => some .version
  | "help" => some .help
  | _ => none

end Flag

namespace Options

/-- Takes an option, if it is one. -/
def setFlag (o : Options) : Option Flag → Except Interruption Options
  | some .file => if o.fromFile then .error .misuse else .ok { o with fromFile := true }
  | some .spans => if o.spans then .error .misuse else .ok { o with spans := true }
  | some .version => .error .version
  | some .help => .error .help
  | none => .error .misuse

/-- Takes an input. -/
def setInput (o : Options) (input : String) : Except Interruption Options :=
  if o.input?.isSome then .error .misuse else .ok { o with input? := some input }

/-- Takes an argument other than `--`. -/
def setArgument (o : Options) (argument : String) : Except Interruption Options :=
  match argument.toList with
  | '-' :: '-' :: name => o.setFlag (Flag.ofName? (String.ofList name))
  | '-' :: letter :: letters =>
    (letter :: letters).foldlM (fun o letter => o.setFlag (Flag.ofLetter? letter)) o
  | _ => o.setInput argument

/-- Takes arguments one after the other. -/
def setArguments (o : Options) : List String → Except Interruption Options
  | [] => .ok o
  | argument :: rest =>
    if argument = "--" then rest.foldlM setInput o
    else do
      let o' ← o.setArgument argument
      o'.setArguments rest

/-- The options that the arguments of the command stand for, as the argument parser is
    assumed to read them. -/
def ofArguments (arguments : List String) : Except Interruption Options := do
  let o ← setArguments {} arguments
  if o.fromFile && o.input?.isNone then .error .misuse else .ok o

end Options

end FloatLang.Command
