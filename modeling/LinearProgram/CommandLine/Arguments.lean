/-!
# `LinearProgram.CommandLine.Arguments`: what a command line asks for

A command line names a file with a model, perhaps a file for the
solution, and options before, between and behind them. A value follows
its option, or is attached to it; short options can be put together.
Behind two hyphens everything is the name of a file.

* `parse` reads a command line from left to right. The first fault, or
  the first request for help or the version, decides.
-/

set_option autoImplicit false

namespace LinearProgram.CommandLine

/-- What the program is to do with a model. -/
structure Arguments where
  /-- Names of backends, in the order in which they are to be tried. -/
  solvers : List String
  /-- The file with the settings. -/
  config : Option String
  cacheDir : Option String
  quiet : Bool
  /-- The directory with the backends. -/
  pluginDir : Option String
  logLevel : String
  /-- The file with the model. -/
  input : String
  /-- The file for the solution. -/
  output : Option String
deriving DecidableEq, Repr

/-- What a command line asks for. -/
inductive Request where
  | run (arguments : Arguments)
  | help
  | version
  /-- The command line is not understood. -/
  | misuse
deriving DecidableEq, Repr

/-- The options that have a value. -/
inductive Setting where
  | solver
  | config
  | cacheDir
  | pluginDir
  | logLevel
deriving DecidableEq, Repr

/-- The options that have none. -/
inductive Switch where
  | quiet
  | help
  | version
deriving DecidableEq, Repr

/-- What has been read of a command line. -/
structure Given where
  solvers : List String
  config : Option String
  cacheDir : Option String
  pluginDir : Option String
  logLevel : Option String
  quiet : Bool
  files : List String

namespace Given

/-- Nothing has been read. -/
def nothing : Given := ⟨[], none, none, none, none, false, []⟩

/-- A value for something that can be given once. -/
def once (old : Option String) (value : String) : Option (Option String) :=
  if old.isSome then none else some (some value)

/-- The name of a file or directory for something that can be given
once; it must not be empty. -/
def onceNamed (old : Option String) (value : String) : Option (Option String) :=
  if value = "" then none else once old value

/-- Takes the value of an option. Only backends can be given twice. -/
def set (g : Given) (s : Setting) (value : String) : Option Given :=
  match s with
  | .solver => some { g with solvers := g.solvers ++ [value] }
  | .config => (onceNamed g.config value).map fun config => { g with config }
  | .cacheDir => (onceNamed g.cacheDir value).map fun cacheDir => { g with cacheDir }
  | .pluginDir => (onceNamed g.pluginDir value).map fun pluginDir => { g with pluginDir }
  | .logLevel => (once g.logLevel value).map fun logLevel => { g with logLevel }

/-- Takes the name of a file; there can be two. -/
def addFile (g : Given) (name : String) : Option Given :=
  if name = "" ∨ 2 ≤ g.files.length then none else some { g with files := g.files ++ [name] }

/-- Silences the backend; this can be asked for once. -/
def setQuiet (g : Given) : Option Given := if g.quiet then none else some { g with quiet := true }

/-- The request of a command line that has been read to its end. -/
def finish (g : Given) : Request :=
  match g.files with
  | [] => .misuse
  | input :: others =>
    .run ⟨g.solvers, g.config, g.cacheDir, g.quiet, g.pluginDir, g.logLevel.getD "warn", input,
      others.head?⟩

end Given

/-- The option of a long name that has a value. -/
def longSetting? (name : String) : Option Setting :=
  if name = "solver" then some .solver
  else if name = "config" then some .config
  else if name = "cache-dir" then some .cacheDir
  else if name = "plugin-dir" then some .pluginDir
  else if name = "log-level" then some .logLevel
  else none

/-- The option of a long name that has no value. -/
def longSwitch? (name : String) : Option Switch :=
  if name = "quiet" then some .quiet
  else if name = "help" then some .help
  else if name = "version" then some .version
  else none

/-- The option of a letter that has no value. -/
def shortSwitch? (c : Char) : Option Switch :=
  if c = 'q' then some .quiet
  else if c = 'h' then some .help
  else if c = 'V' then some .version
  else none

/-- An argument, as far as it says by itself what it is. -/
inductive Argument where
  /-- Two hyphens. -/
  | separator
  /-- A long option, with a value if one is attached. -/
  | long (name : String) (value : Option String)
  /-- Letters behind a hyphen. -/
  | short (letters : List Char)
  | file (name : String)
deriving DecidableEq, Repr

/-- A text before and behind its first equals sign. -/
def splitEquals (cs : List Char) : List Char × Option (List Char) :=
  match cs.dropWhile (· ≠ '=') with
  | [] => (cs, none)
  | _ :: value => (cs.takeWhile (· ≠ '='), some value)

/-- What an argument is. A single hyphen is the name of a file. -/
def Argument.of (argument : String) : Argument :=
  match argument.toList with
  | ['-', '-'] => .separator
  | '-' :: '-' :: cs =>
    .long (String.ofList (splitEquals cs).1) ((splitEquals cs).2.map String.ofList)
  | ['-'] => .file argument
  | '-' :: letters => .short letters
  | _ => .file argument

/-- What to do after an argument. -/
inductive Progress where
  | go (given : Given)
  /-- The value of an option has to follow. -/
  | expect (setting : Setting) (given : Given)
  | stop (request : Request)

/-- Goes on if something could be taken. -/
def Progress.ofOption : Option Given → Progress
  | some g => .go g
  | none => .stop .misuse

/-- Takes an option without a value. -/
def flip (g : Given) : Switch → Progress
  | .quiet => .ofOption g.setQuiet
  | .help => .stop .help
  | .version => .stop .version

/-- Takes letters behind a hyphen, one after another. What follows the
letter of an option with a value is the value, an equals sign between
them aside. -/
def takeLetters (g : Given) : List Char → Progress
  | [] => .go g
  | 's' :: [] => .expect .solver g
  | 's' :: '=' :: value => .ofOption (g.set .solver (String.ofList value))
  | 's' :: value => .ofOption (g.set .solver (String.ofList value))
  | c :: rest =>
    match shortSwitch? c with
    | none => .stop .misuse
    | some switch =>
      match flip g switch with
      | .go g => takeLetters g rest
      | other => other

/-- Takes a long option. -/
def takeLong (g : Given) (name : String) (value : Option String) : Progress :=
  match longSetting? name, longSwitch? name, value with
  | some setting, _, some value => .ofOption (g.set setting value)
  | some setting, _, none => .expect setting g
  | none, some switch, none => flip g switch
  | none, _, _ => .stop .misuse

/-- Takes the names of files behind two hyphens. -/
def takeFiles (g : Given) : List String → Request
  | [] => g.finish
  | name :: rest =>
    match g.addFile name with
    | some g => takeFiles g rest
    | none => .misuse

/-- Reads arguments; `expected` is the option whose value has to come
next. A value does not look like an option. -/
def readArguments (g : Given) (expected : Option Setting) : List String → Request
  | [] => if expected.isSome then .misuse else g.finish
  | argument :: rest =>
    let progress : Progress := match expected, Argument.of argument with
      | some setting, .file value => .ofOption (g.set setting value)
      | some _, _ => .stop .misuse
      | none, .separator => .stop (takeFiles g rest)
      | none, .long name value => takeLong g name value
      | none, .short letters => takeLetters g letters
      | none, .file name => .ofOption (g.addFile name)
    match progress with
    | .go g => readArguments g none rest
    | .expect setting g => readArguments g (some setting) rest
    | .stop request => request

/-- Reads a command line. -/
def parse (arguments : List String) : Request := readArguments .nothing none arguments

end LinearProgram.CommandLine
