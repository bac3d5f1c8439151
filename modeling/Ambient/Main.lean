/-
The command line program: the operations of a run on the disk of the machine, and what is printed.
-/
import Ambient.Command.Execute
import Ambient.Disk.Walk

namespace Ambient.Machine

/-- What an error of the system says. -/
def ioError : IO.Error → IoError
  | .noFileOrDirectory .. => .noSuchFile
  | .alreadyExists .. => .fileExists
  | .resourceBusy .. => .busy
  | .unsatisfiedConstraints .. => .notEmpty
  | .invalidArgument .. => .invalidArgument
  | .inappropriateType _ code _ => if code = 21 then .isDirectory else .notDirectory
  | e => .other (toString e).toList

/-- The result of an action, or what its error says. -/
def attempt {α : Type} (action : IO α) : IO (Except IoError α) := do
  try
    return .ok (← action)
  catch e => return .error (ioError e)

def string (t : Text) : String :=
  String.ofList t

def isDirectory (path : String) : IO Bool := do
  ((← IO.currentDir) / path).isDir

def present (path : String) : IO Bool := do
  ((← IO.currentDir) / path).pathExists

def readContent (path : String) : IO Content :=
  return .ofBytes (← IO.FS.readBinFile path).toList

def read (path : Path) : IO (Except IoError Text) := do
  if ← isDirectory (string path.text) then return .error .isDirectory
  match ← attempt (readContent (string path.text)) with
  | .error e => return .error e
  | .ok (.binary _) => return .error .notText
  | .ok (.text t) => return .ok t

def write (path : Path) (text : Text) : IO (Except Failure Unit) := do
  let directory := path.parent?.getD ⟨[]⟩
  if !directory.text.isEmpty then
    match ← attempt (IO.FS.createDirAll (string directory.text)) with
    | .error e => return .error (.makeDirectory e directory)
    | .ok () => pure ()
  return (← attempt (IO.FS.writeFile (string path.text) (string text))).mapError (.write · path)

def removeTree (path : Path) : IO (Except Failure Unit) := do
  if !(← present (string path.text)) then return .ok ()
  if !(← isDirectory (string path.text)) then return .error (.removeDirectory .notDirectory path)
  return (← attempt (IO.FS.removeDirAll (string path.text))).mapError (.removeDirectory · path)

/-- The names of the files that say what a walk skips. -/
def ignoreFiles : List Location :=
  [[".ignore"], [".gitignore"], [".git", "info", "exclude"]]

/-- Reads a directory tree. Of the files only those are read that say what a walk skips. -/
partial def readTree (path : String) : IO Tree := do
  if !(← isDirectory path) then return .file (.text [])
  let mut t := Tree.empty
  for e in ← ((← IO.currentDir) / path).readDir do
    if e.fileName != string Disk.packages then
      t := t.set [e.fileName.toList] (← readTree (path ++ "/" ++ e.fileName))
  for names in ignoreFiles do
    let file := path ++ string (names.flatMap ('/' :: ·))
    if (t.get? names).isSome then
      match ← attempt (readContent file) with
      | .ok content => t := t.set names (.file content)
      | .error _ => pure ()
  return t

/-- The tree with what the directories above a place say of walks. -/
def addAbove (place : Location) (top : Tree) : IO Tree := do
  let mut t := top
  for n in List.range place.length do
    let directory := place.take n
    let path := string (directory.flatMap ('/' :: ·))
    for name in [".git", ".jj"] do
      if ← present (path ++ "/" ++ name) then
        t := t.set (directory ++ [name.toList]) Tree.empty
    for names in ignoreFiles do
      match ← attempt (readContent (path ++ string (names.flatMap ('/' :: ·)))) with
      | .ok content => t := t.set (directory ++ names) (.file content)
      | .error _ => pure ()
  return t

def walk (root : Path) : IO (Except Failure (List Path)) := do
  if Disk.isStandardInput root then return .ok []
  match ← attempt (IO.FS.realPath (string root.text)) with
  | .error e => return .error (Disk.rootFailure root e)
  | .ok full =>
    if !(← full.pathExists) then return .error (Disk.rootFailure root .noSuchFile)
    let place := Disk.names ⟨full.toString.toList⟩
    let t ← readTree full.toString
    return Disk.walkFrom (← addAbove place (Tree.empty.set place t)) root place t

def sources (root : Path) (entrypoints : List Text) : IO (Except Failure (List Path)) := do
  match compileEntrypoints entrypoints with
  | .error e => return .error e
  | .ok globs => return (← walk root).map (Disk.selectSources globs root)

/-- The operations of a run on the disk of the machine. -/
def fileOps : Files IO where
  read := read
  write := write
  removeTree := removeTree
  present path := present (string path.text)
  sources := sources
  bound := return 4096

end Ambient.Machine

open Ambient in
def main (args : List String) : IO UInt32 := do
  let here : Path := ⟨(← IO.currentDir).toString.toList⟩
  let r ← Command.run Machine.fileOps here (args.map String.toList)
  for e in r.log do
    IO.eprintln (Machine.string e.line)
  IO.print (Machine.string r.output)
  IO.eprint (Machine.string r.errors)
  return UInt32.ofNat r.exit
