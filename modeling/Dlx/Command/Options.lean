import Dlx.Text.Numeral

/-!
# Command line options

Options may stand anywhere between the files. A long option is written `--name` and a short one
`-n`; short ones may share a dash. A switch is on when it is named, and takes a value only behind an
equals sign; any other option takes the rest of its argument, or else the next argument, as its
value. Two dashes alone end the options, and a dash alone is a file.

The reader goes along the arguments one by one; an option that still waits for its value is part of
its state.
-/

namespace Dlx

inductive Flag where
  | debug
  | help
  | itypes
  | jobs
  | jtypes
  | listing
  | noColor
  | outDir
  | rtypes
  | stdout
  | verbose
  deriving DecidableEq, Repr

namespace Flag

def all : List Flag :=
  [.debug, .help, .itypes, .jobs, .jtypes, .listing, .noColor, .outDir, .rtypes, .stdout, .verbose]

def name : Flag → Bytes
  | .debug => utf8 "debug"
  | .help => utf8 "help"
  | .itypes => utf8 "itypes"
  | .jobs => utf8 "jobs"
  | .jtypes => utf8 "jtypes"
  | .listing => utf8 "listing"
  | .noColor => utf8 "no-color"
  | .outDir => utf8 "out-dir"
  | .rtypes => utf8 "rtypes"
  | .stdout => utf8 "stdout"
  | .verbose => utf8 "verbose"

/-- The letter of an option that has one. -/
def letter? : Flag → Option UInt8
  | .help => some 0x68
  | .jobs => some 0x6A
  | .listing => some 0x6C
  | .outDir => some 0x6F
  | .verbose => some 0x76
  | _ => none

def isSwitch : Flag → Bool
  | .debug | .help | .listing | .noColor | .stdout | .verbose => true
  | _ => false

def ofName? (name : Bytes) : Option Flag :=
  all.find? (fun flag => flag.name == name)

def ofLetter? (letter : UInt8) : Option Flag :=
  all.find? (fun flag => flag.letter? == some letter)

/-- An option as it is named in messages. -/
def display (flag : Flag) : Bytes :=
  match flag.letter? with
  | some letter => utf8 "-" ++ [letter] ++ utf8 ", --" ++ flag.name
  | none => utf8 "--" ++ flag.name

end Flag

structure Options where
  itypes : Bytes := []
  jtypes : Bytes := []
  rtypes : Bytes := []
  outDir : Bytes := []
  jobs : Int := 1
  listing : Bool := false
  verbose : Bool := false
  debug : Bool := false
  noColor : Bool := false
  stdout : Bool := false
  help : Bool := false
  deriving DecidableEq, Repr

inductive UsageError where
  | badSyntax (argument : Bytes)
  | unknownName (name : Bytes)
  | unknownLetter (group : Bytes)
  | missingValue (argument : Bytes)
  | missingLetterValue (group : Bytes)
  | badValue (flag : Flag) (value : Bytes) (error : Numeral.Error)
  | noFiles
  deriving DecidableEq, Repr

namespace UsageError

/-- The first letter of a group of short options, between quotes. -/
def firstLetter (group : Bytes) : Bytes :=
  Quoted.quoteChar (Char.ofNat (group.headD 0).toNat)

def message : UsageError → Bytes
  | .badSyntax argument => utf8 "bad flag syntax: " ++ argument
  | .unknownName name => utf8 "unknown flag: --" ++ name
  | .unknownLetter group =>
    utf8 "unknown shorthand flag: " ++ firstLetter group ++ utf8 " in -" ++ group
  | .missingValue argument => utf8 "flag needs an argument: " ++ argument
  | .missingLetterValue group =>
    utf8 "flag needs an argument: " ++ firstLetter group ++ utf8 " in -" ++ group
  | .badValue flag value error =>
    utf8 "invalid argument " ++ Quoted.quote value ++ utf8 " for " ++ Quoted.quote flag.display ++
      utf8 " flag: " ++ error.message
  | .noFiles => utf8 "requires at least 1 arg(s), only received 0"

end UsageError

namespace Options

/-! ## Setting options -/

def switchValue (flag : Flag) (value : Bytes) : Except UsageError Bool :=
  match Numeral.truth? value with
  | some truth => .ok truth
  | none => .error (.badValue flag value ⟨.truth, value, .malformed⟩)

def jobsValue (value : Bytes) : Except UsageError Int :=
  (Numeral.signedLiteral 64 value).mapError (fun flaw =>
    .badValue .jobs value ⟨.signed, value, flaw⟩)

def set (o : Options) (flag : Flag) (value : Bytes) : Except UsageError Options :=
  match flag with
  | .itypes => .ok { o with itypes := value }
  | .jtypes => .ok { o with jtypes := value }
  | .rtypes => .ok { o with rtypes := value }
  | .outDir => .ok { o with outDir := value }
  | .jobs => (jobsValue value).map (fun jobs => { o with jobs })
  | .debug => (switchValue flag value).map (fun debug => { o with debug })
  | .help => (switchValue flag value).map (fun help => { o with help })
  | .listing => (switchValue flag value).map (fun listing => { o with listing })
  | .noColor => (switchValue flag value).map (fun noColor => { o with noColor })
  | .stdout => (switchValue flag value).map (fun stdout => { o with stdout })
  | .verbose => (switchValue flag value).map (fun verbose => { o with verbose })

/-! ## Reading arguments -/

/-- An option that waits for its value, and what is wrong when none comes. -/
structure Waiting where
  flag : Flag
  error : UsageError
  deriving DecidableEq, Repr

/-- The reader between two arguments. Files stand with the latest first. -/
structure Reader where
  options : Options := {}
  files : List Bytes := []
  waiting : Option Waiting := none
  ended : Bool := false
  deriving DecidableEq, Repr

/-- Groups that start like this belong to another tool and are passed over. -/
def foreignGroup : Bytes := utf8 "test."

/-- Reads a group of short options: the options it sets, and the one that waits for its value. -/
def readGroup : Options → Bytes → Except UsageError (Options × Option Waiting)
  | o, [] => .ok (o, none)
  | o, letter :: rest =>
    if foreignGroup.isPrefixOf (letter :: rest) then .ok (o, none)
    else match Flag.ofLetter? letter with
      | none => .error (.unknownLetter (letter :: rest))
      | some flag =>
        -- With nothing behind it, an equals sign is read like any other character.
        match rest with
        | 0x3D :: b :: value => (o.set flag (b :: value)).map (·, none)
        | _ =>
          if flag.isSwitch then
            match o.set flag (utf8 "true") with
            | .ok o => readGroup o rest
            | .error e => .error e
          else if rest.isEmpty then .ok (o, some ⟨flag, .missingLetterValue (letter :: rest)⟩)
          else (o.set flag rest).map (·, none)

/-- Reads a long option without its two dashes. -/
def readLong (o : Options) (argument name : Bytes) : Except UsageError (Options × Option Waiting) :=
  if name.head? == some 0x2D || name.head? == some 0x3D then .error (.badSyntax argument)
  else
    match Flag.ofName? (Bytes.before 0x3D name) with
    | none => .error (.unknownName (Bytes.before 0x3D name))
    | some flag =>
      match Bytes.cut? 0x3D name with
      | some (_, value) => (o.set flag value).map (·, none)
      | none =>
        if flag.isSwitch then (o.set flag (utf8 "true")).map (·, none)
        else .ok (o, some ⟨flag, .missingValue argument⟩)

/-- Reads an argument that is not the value of an option. -/
def readArgument (r : Reader) (argument : Bytes) : Except UsageError Reader :=
  match argument with
  | [0x2D, 0x2D] => .ok { r with ended := true }
  | 0x2D :: 0x2D :: name =>
    (readLong r.options argument name).map (fun (options, waiting) => { r with options, waiting })
  | 0x2D :: b :: group =>
    (readGroup r.options (b :: group)).map (fun (options, waiting) => { r with options, waiting })
  -- A dash alone is the name of a file.
  | _ => .ok { r with files := argument :: r.files }

def readNext (r : Reader) (argument : Bytes) : Except UsageError Reader :=
  match r.waiting with
  | some waiting =>
    (r.options.set waiting.flag argument).map (fun options => { r with options, waiting := none })
  | none =>
    if r.ended then .ok { r with files := argument :: r.files } else readArgument r argument

/-- The settings and the files of a command line. -/
def read (arguments : List Bytes) : Except UsageError (Options × List Bytes) := do
  let reader ← arguments.foldlM readNext {}
  match reader.waiting with
  | some waiting => throw waiting.error
  | none => return (reader.options, reader.files.reverse)

end Options

end Dlx
