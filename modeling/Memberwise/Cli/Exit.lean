import Memberwise.Message.Error

/-!
# Exit codes

Zero is success and one a round trip that does not verify; messages that cannot be written or read because of the
data end with 60, everything that is wrong with the program itself with 125, and a wrong command line with 2.
-/

namespace Memberwise.Cli

/-- An end without success: the exit code and what went wrong. -/
structure Failure where
  code : Nat
  message : String
  deriving DecidableEq, Repr

namespace Failure

/-- A round trip that does not give back what went in. -/
def unverified (what : String) : Failure := ⟨1, what ++ ": decoded value differs from the original"⟩

/-- Whether an error lies in the data rather than in the program. -/
def isDataError : MessageError → Bool
  | .truncated .. | .bufferTooSmall .. | .lengthOverflow .. | .messageTooLarge .. => true
  | .compile .. | .sizeMismatch .. | .missingAccessor .. => false

/-- The end that an error of an operation on messages leads to. -/
def ofMessageError (context : String) (e : MessageError) : Failure :=
  ⟨if isDataError e then 60 else 125, context ++ ": " ++ e.message⟩

/-- The end that an operation on messages leads to if it stops. A fault ends the program at once. -/
def ofStop (context : String) : Stop → Failure
  | .error e => ofMessageError context e
  | .fault => ⟨101, context ++ ": fault"⟩

end Failure

end Memberwise.Cli
