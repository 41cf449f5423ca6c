import TypedLang.Compile
import TypedLang.Diagnostic.Text
import TypedLang.Listing

/-!
# The command line

The command line compiles one file and reports its diagnostics. On request it also lists the
tokens and the tree of the program, on the standard output or into a file. It ends with status 0
if the file is free of errors, with 1 if it is not, and with 2 if the run could not be carried
out. One failure is not handled: a file that opens and then cannot be read, as a directory does, ends
the run by force.

What the run needs of the file system is passed in, so the same definition runs on real files and
on a directory that is only a value.
-/

namespace TypedLang

namespace CommandLine

/-- Where a listing is written. -/
inductive Target where
  | standardOutput
  | file (path : Bytes)
  deriving Repr, DecidableEq

/-- What the arguments ask for. -/
structure Options where
  path : Bytes := []
  checkOnly : Bool := false
  tokens : Option Target := none
  tree : Option Target := none
  deriving Repr, DecidableEq

/-- Why arguments are refused. -/
inductive Refusal where
  | missingPath
  | help
  | unknownArgument (argument : Bytes)
  | pathRequired
  deriving Repr, DecidableEq

/-- The text of the help. -/
def usage : String :=
  "Usage: arkoi-cli --file <path> [options]\n" ++
  "\n" ++
  "General options:\n" ++
  "  --check                           Run the front end and only report diagnostics\n" ++
  "\n" ++
  "Introspection options (optional path argument writes to file):\n" ++
  "  --dump-tokens [path]              Dump lexer tokens\n" ++
  "  --dump-ast [path]                 Dump the analysed AST\n"

/-- Whether an argument may be the path of a listing: it is not empty and no option. -/
def isPath (argument : Bytes) : Bool :=
  match argument with
  | [] => false
  | first :: _ => first != Byte.hyphen

/-- The target of a listing, given by the next argument if that is a path. -/
def target : List Bytes → Target
  | [] => .standardOutput
  | next :: _ => if isPath next then .file next else .standardOutput

/--
Reads arguments one after the other. When `isTaken` is set, the first argument is the path that the
listing option before it already took, and it is passed over.
-/
def parseFrom (options : Options) (isTaken : Bool) : List Bytes → Except Refusal Options
  | [] => if options.path.isEmpty then .error .pathRequired else .ok options
  | argument :: rest =>
      if isTaken then parseFrom options false rest
      else if argument = Bytes.ofText "--file" ∨ argument = Bytes.ofText "-f" then
        match rest with
        | [] => .error .missingPath
        | path :: rest => parseFrom { options with path := path } false rest
      else if argument = Bytes.ofText "--check" then
        parseFrom { options with checkOnly := true } false rest
      else if argument = Bytes.ofText "--dump-tokens" then
        let target := target rest
        parseFrom { options with tokens := some target } (target != .standardOutput) rest
      else if argument = Bytes.ofText "--dump-ast" then
        let target := target rest
        parseFrom { options with tree := some target } (target != .standardOutput) rest
      else if argument = Bytes.ofText "--help" ∨ argument = Bytes.ofText "-h" then .error .help
      else .error (.unknownArgument argument)

/-- The options that some arguments give, of which the last one of a kind counts. -/
def parse (arguments : List Bytes) : Except Refusal Options :=
  parseFrom {} false arguments

/-- What a run leaves behind, apart from the files that it wrote. -/
structure Outcome where
  exitCode : Nat := 0
  standardOutput : Bytes := []
  standardError : Bytes := []
  deriving Repr, DecidableEq

namespace Outcome

/-- An outcome with more text on the standard output. -/
def print (outcome : Outcome) (text : Bytes) : Outcome :=
  { outcome with standardOutput := outcome.standardOutput ++ text }

/-- The outcome of a run that the platform aborts, with the status that shells give to this end. -/
def aborted (complaint : Bytes) : Outcome :=
  { exitCode := 134, standardError := complaint }

/-- An outcome that ends with a status and more text on the standard error. -/
def fail (outcome : Outcome) (exitCode : Nat) (text : Bytes) : Outcome :=
  { outcome with exitCode := exitCode, standardError := outcome.standardError ++ text }

end Outcome

/-- The outcome of refused arguments. -/
def Refusal.outcome : Refusal → Outcome
  | missingPath => Outcome.fail {} 2 "Missing value for --file\n"
  | help => { exitCode := 2, standardOutput := usage }
  | unknownArgument argument =>
      Outcome.fail {} 2 (Bytes.concat ["Unknown argument: ", argument, "\n"])
  | pathRequired => Outcome.fail {} 2 "--file is required\n"

/-- What comes of reading a file. The platform complains when a file opens but cannot be read. -/
inductive Reading where
  | closed
  | broken (complaint : Bytes)
  | text (text : Bytes)
  deriving Repr, DecidableEq

/-- Access to files. Writing tells whether the file could be opened. -/
structure FileAccess (m : Type → Type) where
  read : Bytes → m Reading
  write : Bytes → Bytes → m Bool

variable {m : Type → Type} [Monad m]

/-- Writes a listing to its target, if one is wanted; gives the outcome of a run that ends there. -/
def writeListing (files : FileAccess m) (outcome : Outcome) (label : String) (text : Bytes) :
    Option Target → m (Except Outcome Outcome)
  | none => pure (.ok outcome)
  | some .standardOutput => pure (.ok (outcome.print text))
  | some (.file path) => do
      if ← files.write path text then pure (.ok outcome)
      else
        pure (.error (outcome.fail 2
          (Bytes.concat ["Failed to open '", path, "' for ", label, " output\n"])))

/-- The listing of the tokens of a source, and the interner that has seen them. -/
def tokenListing (registry : Registry) (id : SourceId) (interner : Interner) :
    Except Fault (Bytes × Interner) := do
  let lexer ← Lexer.ofSource registry id interner
  let (tokens, lexer) := lexer.tokenize
  pure (Listing.tokens lexer.interner tokens, lexer.interner)

/-- The outcome of a run whose listings are written. -/
def conclude (outcome : Outcome) (output : Output) (registry : Registry) : Outcome :=
  match output.failedStage with
  | none => outcome
  | some stage =>
      outcome.fail 1
        (Bytes.concat [stage.name, " failed with ", Bytes.ofNat output.diagnostics.length,
          " diagnostics:\n", Report.textAll output.diagnostics registry])

/-- The outcome of a run that misuses the library, which no run does. -/
def faulty (outcome : Outcome) (fault : Fault) : Outcome :=
  outcome.fail 2 (Bytes.concat [fault.message, "\n"])

/-- Compiles a registered source, writes the listing of its tree and concludes the run. -/
def compileAndList (files : FileAccess m) (options : Options) (outcome : Outcome)
    (registry : Registry) (id : SourceId) (interner : Interner) : m Outcome :=
  match compile registry id interner with
  | .error fault => pure (faulty outcome fault)
  | .ok (output, interner) => do
      let tree := if options.checkOnly then none else options.tree
      match ← writeListing files outcome "AST" (Listing.program interner output.program) tree with
      | .error outcome => pure outcome
      | .ok outcome => pure (conclude outcome output registry)

/-- Runs a source that is read: the listing of its tokens, then everything else. -/
def runSource (files : FileAccess m) (options : Options) (text : Bytes) : m Outcome :=
  let (id, registry) := Registry.empty.add options.path text
  match options.tokens with
  | none => compileAndList files options {} registry id .empty
  | some target =>
      match tokenListing registry id .empty with
      | .error fault => pure (faulty {} fault)
      | .ok (listing, interner) => do
          match ← writeListing files {} "token" listing (some target) with
          | .error outcome => pure outcome
          | .ok outcome => compileAndList files options outcome registry id interner

/-- Runs the command line with some arguments. -/
def run (files : FileAccess m) (arguments : List Bytes) : m Outcome :=
  match parse arguments with
  | .error refusal => pure refusal.outcome
  | .ok options => do
      match ← files.read options.path with
      | .closed =>
          pure (Outcome.fail {} 2 (Bytes.concat ["Failed to read file: ", options.path, "\n"]))
      | .broken complaint => pure (.aborted complaint)
      | .text text => runSource files options text

/-- A directory without subdirectories, as the texts of its files by name. -/
structure Directory where
  files : List (Bytes × Bytes) := []
  deriving Repr, DecidableEq

namespace Directory

/-- Whether a path leads to the directory itself or to the one around it. -/
def isItself (path : Bytes) : Bool :=
  path = Bytes.ofText "." || path = Bytes.ofText ".."

/-- Whether a path names a file of the directory itself and not of a subdirectory. -/
def holds (path : Bytes) : Bool :=
  path.all (· != Byte.slash) && !isItself path

/-- The text of a file, if there is one. -/
def read (directory : Directory) (path : Bytes) : Option Bytes :=
  directory.files.lookup path

/-- The directory after a file was written in place of an earlier one. -/
def write (directory : Directory) (path text : Bytes) : Directory :=
  ⟨(path, text) :: directory.files.filter fun file => file.1 != path⟩

/--
Access to a directory as the state of a run. The directory itself opens like a file but cannot be
read, about which the platform has a complaint.
-/
def access (complaint : Bytes) : FileAccess (StateM Directory) where
  read path := do
    if isItself path then return .broken complaint
    else
      match (← get).read path with
      | none => return .closed
      | some text => return .text text
  write path text := do
    if holds path then
      modify fun directory => directory.write path text
      return true
    else return false

end Directory

/-- Runs the command line in a directory; gives the outcome and the directory afterwards. -/
def runIn (directory : Directory) (complaint : Bytes) (arguments : List Bytes) :
    Outcome × Directory :=
  (run (Directory.access complaint) arguments).run directory

end CommandLine

end TypedLang
