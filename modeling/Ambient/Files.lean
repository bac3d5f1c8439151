/-
What a run needs of the place its files are in, and which of them are the sources that entrypoint
globs select. The same run works on a store in memory, on a model of a disk, and on the disk itself.
-/
import Ambient.Failure
import Ambient.Glob
import Ambient.Path.Relative

namespace Ambient

/-- Why a file or a directory cannot be used. -/
inductive IoError where
  /-- A store in memory has no such file. -/
  | absent
  /-- A store in memory does not allow the file to be written. -/
  | readOnly
  | noSuchFile
  | fileExists
  | notDirectory
  | isDirectory
  | busy
  | invalidArgument
  | notEmpty
  | notText
  | other (message : Text)
deriving DecidableEq, Repr

def IoError.message : IoError → Text
  | .absent => "not found"
  | .readOnly => "permission denied"
  | .noSuchFile => "No such file or directory (os error 2)"
  | .fileExists => "File exists (os error 17)"
  | .notDirectory => "Not a directory (os error 20)"
  | .isDirectory => "Is a directory (os error 21)"
  | .busy => "Device or resource busy (os error 16)"
  | .invalidArgument => "Invalid argument (os error 22)"
  | .notEmpty => "Directory not empty (os error 39)"
  | .notText => "stream did not contain valid UTF-8"
  | .other message => message

namespace Failure

def read (e : IoError) (path : Path) : Failure :=
  .io (("Failed to read file: " : Text) ++ e.message) path

def readSettings (e : IoError) (path : Path) : Failure :=
  .io (("Failed to read config file: " : Text) ++ e.message) path

def write (e : IoError) (path : Path) : Failure :=
  .io (("Failed to write file: " : Text) ++ e.message) path

def makeDirectory (e : IoError) (path : Path) : Failure :=
  .io (("Failed to create directory: " : Text) ++ e.message) path

def removeDirectory (e : IoError) (path : Path) : Failure :=
  .io (("Failed to remove directory: " : Text) ++ e.message) path

end Failure

/-- The globs of all entrypoints, or the first that is none. -/
def compileEntrypoints (entrypoints : List Text) : Except Failure (List Glob) :=
  entrypoints.mapM fun t =>
    (Glob.parse t).mapError fun e =>
      .config (("invalid entrypoint glob '" : Text) ++ t ++ ("': " : Text) ++ e.message)

/-- Whether a file is a source under the root that one of the globs selects. -/
def isSelected (globs : List Glob) (root file : Path) : Bool :=
  file.isSource && (file.stripBase? root).any fun place => globs.any (·.selects place.text)

/-- The operations on files that a run uses. -/
structure Files (m : Type → Type) where
  read : Path → m (Except IoError Text)
  /-- Writes a file, and makes the directories it needs. -/
  write : Path → Text → m (Except Failure Unit)
  /-- Removes a directory with all it holds. One that is not there is no error. -/
  removeTree : Path → m (Except Failure Unit)
  present : Path → m Bool
  /-- The sources under a root that the globs select, in order. -/
  sources : Path → List Text → m (Except Failure (List Path))
  /-- A number of files that no chain of distinct files is longer than. -/
  bound : m Nat

/-- Reads a file for a run. -/
def Files.readText {m : Type → Type} [Monad m] (files : Files m) (path : Path) :
    m (Except Failure Text) :=
  return (← files.read path).mapError (Failure.read · path)

end Ambient
