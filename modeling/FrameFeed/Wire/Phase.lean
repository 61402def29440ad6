/-!
# Phases of a message

The part of a message that a byte belongs to. A failed delivery names the phase of the first byte
that the sink did not take.
-/

namespace FrameFeed

/-- The parts of one message, as failures and reports name them. -/
inductive Phase
  /-- The big-endian length in front of the document. -/
  | framing
  /-- The little-endian length with which the document begins. -/
  | documentHeader
  /-- A field's tag, its name and the NUL after it. -/
  | fieldName
  /-- The part of a field's value that has a fixed size. -/
  | fieldValue
  /-- The picture itself. -/
  | payload
  /-- The NUL that closes the document. -/
  | terminator
  deriving DecidableEq, Repr

namespace Phase

/-- The phase in words. -/
def name : Phase → String
  | framing => "framing"
  | documentHeader => "document header"
  | fieldName => "field name"
  | fieldValue => "field value"
  | payload => "payload"
  | terminator => "terminator"

/-- Every phase, in the order in which a message first reaches it. -/
def all : List Phase := [framing, documentHeader, fieldName, fieldValue, payload, terminator]

/-- The phase with a given name. -/
def ofName? (s : String) : Option Phase := all.find? (·.name == s)

end Phase

end FrameFeed
