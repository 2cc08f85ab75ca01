/-!
# Faults

Broken promises of a caller, as opposed to errors in an input: dividing by a
zero alignment, laying out an entity that has no type, emitting an initializer
of no known form, indenting a comment beyond what a text can hold, asking an entry
without a result for its status.  No document that loads can cause one.
-/

namespace Cflat

/-- A promise that was broken. -/
inductive Fault
  | divisionByZero
  | missingType
  | unknownInitializer (code : Int64)
  /-- The length of a text is no 64-bit integer. -/
  | lengthOverflow
  /-- The length of a text is more than there are addresses. -/
  | lengthOutOfRange
  | missingResult
  deriving DecidableEq, Repr

namespace Fault

/-- The text of a fault. -/
def message : Fault → String
  | divisionByZero => "runtime error: integer divide by zero"
  | missingType => "runtime error: invalid memory address or nil pointer dereference"
  | unknownInitializer code => s!"unknown initializer kind {code}"
  | lengthOverflow => "strings: Repeat output length overflow"
  | lengthOutOfRange => "runtime error: makeslice: len out of range"
  | missingResult => "runtime error: invalid memory address or nil pointer dereference"

end Fault

end Cflat
