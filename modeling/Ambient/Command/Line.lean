/-
Command lines: the command that is asked for, and what it is given.

A value in an argument of its own is looked at when the next option or file comes that the command
knows, or when the line ends. So an argument that the command does not know is told of rather than a
bad value just before it.
-/
import Ambient.Settings.File

namespace Ambient

open Declaration (Fallback)

inductive Command where
  | generate (overrides : Settings.Overrides) (config : Option Path) (verbosity : Nat)
  | emit (file : Path) (fallback : Option Fallback) (noComments : Bool) (config : Option Path)
      (verbosity : Nat)
  | init (force : Bool)
deriving DecidableEq, Repr

namespace Command

/-- Why a line asks for no command that can be carried out. -/
inductive UsageError where
  | unknownArgument
  | invalidValue
  | unknownCommand
  | conflict
  | missingArgument
  | tooManyValues
  /-- The line asks for help. -/
  | help
  /-- The line asks for the version. -/
  | version
  /-- The line names no command. -/
  | noCommand
deriving DecidableEq, Repr

/-- What can be given to a command. -/
inductive Parameter where
  | root
  | outdir
  | clean
  | noClean
  | entrypoints
  | tsconfig
  | fallback
  | noComments
  | parallel
  | config
  | verbose
  | force
  | help
  | version
  | file
deriving DecidableEq, Repr

def Parameter.takesValue : Parameter → Bool
  | .root | .outdir | .entrypoints | .tsconfig | .fallback | .config | .file => true
  | .clean | .noClean | .noComments | .parallel | .verbose | .force | .help | .version => false

/-- The names of the options of a command, and whether it takes a file. -/
structure Grammar where
  long : List (Text × Parameter)
  short : List (Char × Parameter)
  takesFile : Bool := false

namespace Grammar

def top : Grammar where
  long := [("help", .help), ("version", .version)]
  short := [('h', .help), ('V', .version)]

def generate : Grammar where
  long := [("root", .root), ("outdir", .outdir), ("clean", .clean), ("no-clean", .noClean),
    ("entrypoints", .entrypoints), ("tsconfig", .tsconfig), ("fallback-type", .fallback),
    ("no-comments", .noComments), ("parallel", .parallel), ("config", .config),
    ("verbose", .verbose), ("help", .help)]
  short := [('o', .outdir), ('c', .config), ('v', .verbose), ('h', .help)]

def emit : Grammar where
  long := [("fallback-type", .fallback), ("no-comments", .noComments), ("config", .config),
    ("verbose", .verbose), ("help", .help)]
  short := [('c', .config), ('v', .verbose), ('h', .help)]
  takesFile := true

def init : Grammar where
  long := [("force", .force), ("help", .help)]
  short := [('f', .force), ('h', .help)]

end Grammar

/-! ## What is given -/

structure Given where
  root : Option Path := none
  outdir : Option Path := none
  clean : Bool := false
  noClean : Bool := false
  entrypoints : Option (List Text) := none
  tsconfig : Option Path := none
  fallback : Option Fallback := none
  noComments : Bool := false
  parallel : Bool := false
  config : Option Path := none
  verbosity : Nat := 0
  force : Bool := false
  file : Option Path := none
deriving DecidableEq, Repr

/-- The largest verbosity there is. -/
def maxVerbosity : Nat :=
  255

/-- Refuses what is given a second time. -/
def once (isGiven : Bool) : Except UsageError Unit :=
  if isGiven then .error .conflict else .ok ()

def readPath (t : Text) : Except UsageError Path :=
  if t.isEmpty then .error .invalidValue else .ok ⟨t⟩

def readFallback (t : Text) : Except UsageError Fallback :=
  match Settings.fallbackNamed? t with
  | some f => .ok f
  | none => .error .invalidValue

/-- Adds a parameter that takes no value. -/
def Given.addFlag (g : Given) : Parameter → Except UsageError Given
  | .clean => do once g.clean; return { g with clean := true }
  | .noClean => do once g.noClean; return { g with noClean := true }
  | .noComments => do once g.noComments; return { g with noComments := true }
  | .parallel => do once g.parallel; return { g with parallel := true }
  | .force => do once g.force; return { g with force := true }
  | .verbose => .ok { g with verbosity := min (g.verbosity + 1) maxVerbosity }
  | .help => .error .help
  | .version => .error .version
  | _ => .error .invalidValue

/-- Adds a parameter with its value. -/
def Given.addValue (g : Given) (v : Text) : Parameter → Except UsageError Given
  | .root => do once g.root.isSome; return { g with root := some (← readPath v) }
  | .outdir => do once g.outdir.isSome; return { g with outdir := some (← readPath v) }
  | .tsconfig => do once g.tsconfig.isSome; return { g with tsconfig := some (← readPath v) }
  | .config => do once g.config.isSome; return { g with config := some (← readPath v) }
  | .fallback => do once g.fallback.isSome; return { g with fallback := some (← readFallback v) }
  | .file => do once g.file.isSome; return { g with file := some (← readPath v) }
  | .entrypoints => .ok { g with entrypoints := some (g.entrypoints.getD [] ++ v.splitOn ',') }
  | _ => .error .tooManyValues

/-! ## Reading -/

/-- A line that is read in part. -/
structure Progress where
  given : Given := {}
  /-- A parameter whose value is still to come, or is still to be looked at. -/
  pending : Option (Parameter × Option Text) := none
  hasFile : Bool := false

namespace Progress

/-- Looks at the value that is pending. -/
def settle (s : Progress) : Except UsageError Progress :=
  match s.pending with
  | none => .ok s
  | some (_, none) => .error .invalidValue
  | some (p, some v) => do return { s with given := ← s.given.addValue v p, pending := none }

/-- Reads an option. A value that is attached to its name is looked at right away. -/
def option (s : Progress) (p : Parameter) (attached : Option Text) : Except UsageError Progress :=
  match p.takesValue, attached with
  | true, none => do return { ← s.settle with pending := some (p, none) }
  | true, some v => do
    let s ← s.settle
    return { s with given := ← s.given.addValue v p }
  | false, none => do
    let s ← s.settle
    return { s with given := ← s.given.addFlag p }
  | false, some _ => .error .tooManyValues

end Progress

/-- The forms of an argument. -/
inductive Argument where
  /-- Two dashes alone: no options follow. -/
  | separator
  | long (name : Text) (value : Option Text)
  | short (letters : Text)
  | plain (text : Text)
deriving DecidableEq, Repr

def Argument.ofText : Text → Argument
  | ['-', '-'] => .separator
  | '-' :: '-' :: t =>
    match Text.splitFirst? ['='] t with
    | some (name, value) => .long name (some value)
    | none => .long t none
  | '-' :: c :: t => .short (c :: t)
  | t => .plain t

namespace Grammar

def readLong (g : Grammar) (s : Progress) (name : Text) (value : Option Text) :
    Except UsageError Progress :=
  match g.long.lookup name with
  | some p => s.option p value
  | none => .error .unknownArgument

/-- Reads options of one letter each. What follows the letter of one that takes a value is the
value. -/
def readShort (g : Grammar) (s : Progress) : Text → Except UsageError Progress
  | [] => .ok s
  | c :: t =>
    match g.short.lookup c with
    | none => .error .unknownArgument
    | some p =>
      if p.takesValue then
        match t with
        | [] => s.option p none
        | '=' :: t => s.option p (some t)
        | t => s.option p (some t)
      else do g.readShort (← s.option p none) t

def readFile (g : Grammar) (s : Progress) (t : Text) : Except UsageError Progress :=
  if g.takesFile && !s.hasFile then do
    return { ← s.settle with pending := some (.file, some t), hasFile := true }
  else .error .unknownArgument

/-- Reads the arguments of a command. -/
def read (g : Grammar) (s : Progress) : List Text → Except UsageError Given
  | [] => return (← s.settle).given
  | arg :: rest =>
    match Argument.ofText arg with
    | .separator => do return (← (← rest.foldlM g.readFile s).settle).given
    | .long name value => do g.read (← g.readLong s name value) rest
    | .short letters => do g.read (← g.readShort s letters) rest
    | .plain t =>
      match s.pending with
      | some (p, none) => g.read { s with pending := some (p, some t) } rest
      | _ => do g.read (← g.readFile s t) rest

end Grammar

/-! ## Commands -/

/-- What a pair of options for and against a setting say of it. -/
def switch (isOn isOff : Bool) : Option Bool :=
  if isOn then some true else if isOff then some false else none

def Given.overrides (g : Given) : Settings.Overrides where
  root := g.root
  outdir := g.outdir
  clean := switch g.clean g.noClean
  entrypoints := g.entrypoints
  tsconfig := g.tsconfig
  keepComments := switch false g.noComments
  fallback := g.fallback
  parallel := switch g.parallel false

/-- The names of commands. -/
inductive Name where
  | generate
  | emit
  | init
  | help
deriving DecidableEq, Repr

def Name.ofText? (t : Text) : Option Name :=
  ([("generate", .generate), ("emit", .emit), ("init", .init), ("help", .help)] :
    List (Text × Name)).lookup t

def parseGenerate (args : List Text) : Except UsageError Command := do
  let g ← Grammar.generate.read {} args
  if g.clean && g.noClean then throw .conflict
  return .generate g.overrides g.config g.verbosity

def parseEmit (args : List Text) : Except UsageError Command := do
  let g ← Grammar.emit.read {} args
  match g.file with
  | none => throw .missingArgument
  | some file => return .emit file g.fallback g.noComments g.config g.verbosity

def parseInit (args : List Text) : Except UsageError Command := do
  return .init (← Grammar.init.read {} args).force

/-- What is said when help is asked for by name. No command has commands of its own. -/
def helpError : List Text → UsageError
  | [] => .help
  | [arg] => if (Name.ofText? arg).isSome then .help else .unknownCommand
  | _ => .unknownCommand

/-- What is said of a line whose first argument names no command. -/
def noCommandError (arg : Text) (rest : List Text) : UsageError :=
  match Argument.ofText arg, rest with
  | .separator, [] => .noCommand
  | .separator, next :: _ => if (Name.ofText? next).isSome then .unknownArgument else .unknownCommand
  | .plain _, _ => .unknownCommand
  | .long name value, _ =>
    match Grammar.top.readLong {} name value with
    | .error e => e
    | .ok _ => .noCommand
  | .short letters, _ =>
    match Grammar.top.readShort {} letters with
    | .error e => e
    | .ok _ => .noCommand

/-- The command that a line asks for. -/
def parse : List Text → Except UsageError Command
  | [] => .error .noCommand
  | arg :: rest =>
    match Name.ofText? arg with
    | some .generate => parseGenerate rest
    | some .emit => parseEmit rest
    | some .init => parseInit rest
    | some .help => .error (helpError rest)
    | none => .error (noCommandError arg rest)

end Command

end Ambient
