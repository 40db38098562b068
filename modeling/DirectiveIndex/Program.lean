import DirectiveIndex.Arguments
import DirectiveIndex.Indexing
import DirectiveIndex.Json
import DirectiveIndex.Yaml.Document

namespace DirectiveIndex

/-- What a run leaves: its exit code, what it has written to its output and to its messages, and the
file system. -/
structure Outcome where
  code : Nat
  output : Text
  messages : Text
  files : FileSystem

/-- Why a run comes to no end of its own: it stops at its command line, or at a file that it cannot
look at. -/
inductive Failure where
  | arguments (stop : ArgumentStop)
  | access (error : AccessError)

namespace Settings

/-- A suffix in the form in which suffixes are compared: with its dot and in lower case. -/
def normalSuffix (suffix : Text) : Text :=
  Text.lower (if suffix.head? = some '.' then suffix else '.' :: suffix)

/-- What to look for in directories. An empty list counts as none given; names to leave out come on
top of those that are always left out. -/
def selection (settings : Settings) : Selection where
  suffixes :=
    match settings.suffixes.getD [] with
    | [] => Selection.defaultSuffixes
    | suffixes => suffixes.map normalSuffix
  excluded := settings.excluded.getD [] ++ Selection.defaultExcluded
  maxDepth := settings.maxDepth

/-- The least level of the notices that are shown. -/
def shows (settings : Settings) (notice : Notice) : Bool :=
  match notice.level with
  | .debug => false
  | .info => settings.verbose
  | .warning => true

end Settings

/-- The first directory among some paths. -/
def FileSystem.firstDirectory (fs : FileSystem) : List Path → Except AccessError (Option Path)
  | [] => .ok none
  | path :: paths => do
    if ← fs.isDirectory path then
      return some path
    else
      firstDirectory fs paths

/-- The resolved paths of the targets, or the first target that does not exist. -/
def FileSystem.targets (fs : FileSystem) : List Text → Except AccessError (Except Text (List Path))
  | [] => .ok (.ok [])
  | given :: rest => do
    let path ← fs.resolve (Path.ofText given)
    if ← fs.doesExist path then
      return (← targets fs rest).map (path :: ·)
    else
      return .error given

/-- The directories from which display texts are given: the one asked for, and the first directory
among the targets or else the current directory. -/
def FileSystem.frame (fs : FileSystem) (settings : Settings) (targets : List Path) :
    Except AccessError Frame := do
  let root ←
    match ← fs.firstDirectory targets with
    | some root => pure root
    | none => fs.resolve (FileSystem.pathOf fs.current)
  match settings.relativeTo.getD [] with
  | [] => return ⟨root, root⟩
  | given => return ⟨← fs.resolve (Path.ofText given), root⟩

/-- An index in the form asked for. -/
def Index.render (fs : FileSystem) (frame : Frame) (settings : Settings) (index : Index) :
    Except AccessError Text :=
  let includeEmpty := !settings.hideEmpty
  match settings.format with
  | .ascii => index.outline fs frame settings.style includeEmpty
  | .json => do
    return (← Report.ofIndex fs frame includeEmpty index).toJson.text (.spaces 2)
  | .yaml => do
    return Yaml.write (← Report.ofIndex fs frame includeEmpty index)

/-- Lines, each with a line feed at its end. -/
def Text.lines (lines : List Text) : Text :=
  lines.flatMap (· ++ ['\n'])

/-- Writes a text to where the settings say, with a message about it if that is a file. -/
def Settings.deliver (settings : Settings) (fs : FileSystem) (messages : List Text) (text : Text) :
    Except AccessError Outcome :=
  match settings.output.getD [] with
  | [] => .ok ⟨0, text ++ ['\n'], Text.lines messages, fs⟩
  | given =>
    let path := Path.ofText given
    match fs.write path (Utf8.encode text) with
    | .ok files =>
      .ok ⟨0, [], Text.lines (messages ++ ["Output written to: ".toList ++ path.text]), files⟩
    | .error .nulCharacter => .error .nulCharacter
    | .error error =>
      .ok ⟨1, [], Text.lines (messages ++ ["Error writing output: ".toList ++ error.message]), fs⟩

/-- Does what the settings ask for. -/
def Settings.execute (settings : Settings) (fs : FileSystem) : Except AccessError Outcome := do
  match ← fs.targets settings.paths with
  | .error missing => return ⟨1, [], Text.lines ["Error: '".toList ++ missing ++ "' does not exist".toList], fs⟩
  | .ok targets =>
    let frame ← fs.frame settings targets
    let indexing ← Indexing.ofTargets fs settings.selection targets
    let notices := indexing.notices ++ [.finished indexing.index.size]
    let text ← indexing.index.render fs frame settings
    settings.deliver fs ((notices.filter settings.shows).map Notice.line) text

/-- Runs the program with some arguments on a file system. The file system is a value, so everything that a run does
is in its outcome. -/
def run (fs : FileSystem) (arguments : List Text) : Except Failure Outcome := do
  let settings ← (Settings.ofArguments arguments).mapError .arguments
  (settings.execute fs).mapError .access

end DirectiveIndex
