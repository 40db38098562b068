import DirectiveIndex.FileSystem.Change
import DirectiveIndex.Program

namespace DirectiveIndex.CommandLine

/-- What has been taken in, and the locations that have been gone through. Nothing is decided here: links are taken in
as links to the place that the system finds behind them, what cannot be opened is taken in as denied, and what is not
found is left out. -/
structure Survey where
  files : FileSystem
  seen : List Location

/-- The location of an absolute path. -/
def locationOf (path : String) : Location :=
  (Path.ofText path.toList).names

/-- A location as the system takes it. -/
def written (location : Location) : String :=
  String.ofList (FileSystem.pathOf location).text

/-- Takes in a node, with the directories above it. -/
def Survey.put (survey : Survey) (location : Location) (node : Node) : Survey :=
  match survey.files.makeDirectories (FileSystem.pathOf location.dropLast) with
  | .ok files => { survey with files := files.put location node }
  | .error _ => survey

/-- Takes in what is found at a location, below it and behind its links. -/
partial def Survey.visit (survey : Survey) (location : Location) : IO Survey := do
  if location ∈ survey.seen then
    return survey
  let mut survey := { survey with seen := location :: survey.seen }
  let path := (← IO.currentDir) / written location
  match ← path.symlinkMetadata.toBaseIO with
  | .error _ => return survey
  | .ok metadata =>
    match metadata.type with
    | .dir =>
      match ← path.readDir.toBaseIO with
      | .error _ => return survey.put location ⟨.directory, true⟩
      | .ok entries =>
        if location ≠ [] then
          survey := survey.put location ⟨.directory, false⟩
        for entry in entries do
          survey ← survey.visit (location ++ [entry.fileName.toList])
        return survey
    | .symlink =>
      match ← (IO.FS.realPath path).toBaseIO with
      | .error _ => return survey
      | .ok target =>
        survey := survey.put location ⟨.link target.toString.toList, false⟩
        survey.visit (locationOf target.toString)
    | _ =>
      match ← (IO.FS.readBinFile path).toBaseIO with
      | .error _ => return survey.put location ⟨.file [], true⟩
      | .ok bytes => return survey.put location ⟨.file bytes.toList, false⟩

/-- Takes in a path as it is given. Where it leads elsewhere than its names alone would, a link is put
in its place. -/
def Survey.visitPath (survey : Survey) (given : Text) : IO Survey := do
  let path := Path.ofText given
  let named := FileSystem.collapse (survey.files.startOf path) path.names
  match ← (IO.FS.realPath (String.ofList path.text)).toBaseIO with
  | .error _ => return survey
  | .ok target =>
    let location := locationOf target.toString
    let survey ← survey.visit location
    if named = location then
      return survey
    else
      return survey.put named ⟨.link target.toString.toList, false⟩

/-- Takes in the directory in which a path would be created, and what is already there. -/
def Survey.visitOutput (survey : Survey) (given : Text) : IO Survey := do
  let path := Path.ofText given
  let parent : Path := ⟨path.root, path.names.dropLast⟩
  match ← (IO.FS.realPath (String.ofList parent.text)).toBaseIO with
  | .error _ => return survey
  | .ok target =>
    match survey.files.makeDirectories (FileSystem.pathOf (locationOf target.toString)) with
    | .error _ => return survey
    | .ok files => Survey.visitPath ⟨files, survey.seen⟩ given

/-- Takes in all that the settings name. -/
def Survey.ofSettings (settings : Settings) : IO Survey := do
  let current := locationOf (← IO.FS.realPath (← IO.currentDir)).toString
  let start : FileSystem := ⟨[], current⟩
  let mut survey : Survey := ⟨start, []⟩
  match start.makeDirectories (FileSystem.pathOf current) with
  | .ok files => survey := ⟨files, []⟩
  | .error _ => pure ()
  for given in settings.paths do
    survey ← survey.visitPath given
  match settings.output.getD [] with
  | [] => return survey
  | given => survey.visitOutput given

/-- Writes the file that a run has left. -/
def writeOutput (settings : Settings) (outcome : Outcome) : IO Unit := do
  match settings.output.getD [] with
  | [] => return ()
  | given =>
    let path := Path.ofText given
    match outcome.files.readBytes path with
    | .error _ => return ()
    | .ok bytes => IO.FS.writeBinFile (String.ofList path.text) bytes.toByteArray

/-- Runs the program with the settings that the command line asks for. -/
def execute (settings : Settings) : IO UInt32 := do
  let survey ← Survey.ofSettings settings
  match settings.execute survey.files with
  | .error error =>
    IO.eprintln (String.ofList error.message)
    return 1
  | .ok outcome =>
    if outcome.code = 0 then
      writeOutput settings outcome
    IO.eprint (String.ofList outcome.messages)
    IO.print (String.ofList outcome.output)
    return outcome.code.toUInt32

end DirectiveIndex.CommandLine

open DirectiveIndex in
/-- Lists the imports and `solidity` pragmas of contract sources. -/
def main (arguments : List String) : IO UInt32 := do
  match Settings.ofArguments (arguments.map String.toList) with
  | .error .help =>
    IO.println "usage: solmeta [paths ...] [switches]"
    return 0
  | .error (.wrong error) =>
    IO.eprintln (String.ofList ("solmeta: error: ".toList ++ error.message))
    return 2
  | .ok settings => CommandLine.execute settings
