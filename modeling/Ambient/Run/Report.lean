/-
What a run tells: events while it works, and what became of each source.
-/
import Ambient.Failure

namespace Ambient

inductive Level where
  | error
  | warn
  | info
  | debug
deriving DecidableEq, Repr

def Level.name : Level → Text
  | .error => "ERROR"
  | .warn => "WARN"
  | .info => "INFO"
  | .debug => "DEBUG"

structure Event where
  level : Level
  message : Text
deriving DecidableEq, Repr

/-- The line of an event in a log. -/
def Event.line (e : Event) : Text :=
  e.level.name ++ ' ' :: e.message

abbrev Log := List Event

/-- How much of a log is shown. -/
inductive Detail where
  | warn
  | info
  | debug
  | trace
deriving DecidableEq, Repr

namespace Detail

/-- The detail that is asked for a number of times. -/
def ofCount : Nat → Detail
  | 0 => .warn
  | 1 => .info
  | 2 => .debug
  | _ => .trace

def name : Detail → Text
  | .warn => "warn"
  | .info => "info"
  | .debug => "debug"
  | .trace => "trace"

def shows (d : Detail) : Level → Bool
  | .error | .warn => true
  | .info => d != .warn
  | .debug => d == .debug || d == .trace

end Detail

/-- What became of one source. -/
inductive Outcome where
  | written (output : Path)
  /-- The source declares nothing. -/
  | skipped
  | failed (failure : Failure)
deriving DecidableEq, Repr

/-- What became of all sources, each kind in the order of the sources. -/
structure Report where
  written : List Path := []
  skipped : List Path := []
  failed : List (Path × Failure) := []
deriving DecidableEq, Repr

namespace Report

def isSuccess (r : Report) : Bool :=
  r.failed.isEmpty

def processed (r : Report) : Nat :=
  r.written.length + r.skipped.length + r.failed.length

def record (r : Report) (source : Path) : Outcome → Report
  | .written output => { r with written := r.written ++ [output] }
  | .skipped => { r with skipped := r.skipped ++ [source] }
  | .failed failure => { r with failed := r.failed ++ [(source, failure)] }

def ofOutcomes (outcomes : List (Path × Outcome)) : Report :=
  outcomes.foldl (fun r (source, outcome) => r.record source outcome) {}

end Report

end Ambient
