/-!
# Failures

An operation fails in one of two ways.  It can report an error, which its
caller sees and may add to.  Or it can reach outside one of its tables, which
ends the whole program without a report.
-/

namespace Nullness

/-- How an operation fails: with an error to report, or with a crash. -/
inductive Failure (ε : Type) where
  | error (e : ε)
  | crash
  deriving DecidableEq, Repr

namespace Failure

/-- Restates the error of a failure; a crash stays a crash. -/
def map {ε δ : Type} (f : ε → δ) : Failure ε → Failure δ
  | .error e => .error (f e)
  | .crash => .crash

end Failure
end Nullness
