import Memberwise.Accessor.Compile

/-!
# Why a message cannot be written or read

The causes, each with the text that reports it. An operation on messages can also fault: some codec reached
outside its buffer, or a size or position left 64 bits.
-/

namespace Memberwise

/-- Why a message cannot be measured, written or read. -/
inductive MessageError
  | compile (e : CompileError)
  /-- The buffer to write into has too little room. -/
  | bufferTooSmall (needed available : Nat)
  /-- The message is larger than the settings allow. -/
  | messageTooLarge (size max : Nat)
  /-- The input ends inside a member. -/
  | truncated (member : String) (needed available : Nat)
  /-- A member is too long for its length prefix. -/
  | lengthOverflow (member : String) (length max : Nat)
  /-- A writer reported another number of bytes than was measured. -/
  | sizeMismatch (member : String) (measured written : Nat)
  /-- A member is not bound to an operation that is needed. -/
  | missingAccessor (member : String) (kind : OperationKind)
  deriving DecidableEq, Repr

def MessageError.message : MessageError → String
  | .compile e => s!"compile error: {e.message}"
  | .bufferTooSmall needed available => s!"buffer too small: need {needed} bytes, {available} available"
  | .messageTooLarge size max => s!"message too large: {size} bytes (max {max})"
  | .truncated member needed available =>
    s!"input truncated at member `{member}`: need {needed} bytes, {available} available"
  | .lengthOverflow member length max => s!"member `{member}` is {length} bytes, prefix allows at most {max}"
  | .sizeMismatch member measured written => s!"member `{member}` measured {measured} bytes but wrote {written}"
  | .missingAccessor member kind => s!"member `{member}` has no {kind.text} accessor"

/-- How an operation on messages can end without a result. -/
inductive Stop
  | error (e : MessageError)
  | fault
  deriving DecidableEq, Repr

/-- The result of an operation on messages. -/
abbrev Outcome (α : Type) := Except Stop α

namespace Outcome

def fail {α : Type} (e : MessageError) : Outcome α := .error (.error e)

def fault {α : Type} : Outcome α := .error .fault

/-- The result of a codec call, which faults where there is none. -/
def ofOption {α : Type} : Option α → Outcome α
  | some a => .ok a
  | none => fault

end Outcome

end Memberwise
