import Mathlib.Data.Nat.Notation
import Mathlib.Data.Int.Notation

/-!
# Statuses

The result of an operation that may fail: a code, zero for success, and a message.
-/

namespace Osquery.Core

structure Status where
  code : ℤ
  message : String
  deriving DecidableEq, Repr

def Status.ok (s : Status) : Bool := s.code == 0

/-- The status of a call that succeeded. -/
def Status.success : Status := ⟨0, "OK"⟩

end Osquery.Core
