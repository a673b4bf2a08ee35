import Mathlib.Tactic

/-!
# Basics of the portable runtime

A `std::string` is the list of its bytes. `Exn` lists the exceptions that the modelled
code throws or tells apart: classes of `decaf::lang::Exception`, and `badAlloc` for what
`new` throws. Messages, marks and causes are not modelled: no modelled function reads
them.
-/

namespace ActivemqCpp.Decaf

/-- A `std::string`, or the contents of a byte vector. -/
abbrev Bytes := List UInt8

inductive Exn where
  | indexOutOfBounds
  | negativeArraySize
  | noSuchElement
  | concurrentModification
  | nullPointer
  | illegalArgument
  | illegalState
  | unsupportedOperation
  | numberFormat
  | classCast
  | eof
  | utfDataFormat
  | io
  | badAlloc
deriving DecidableEq, Repr

/-- After a step that succeeds the rest runs on its result. -/
theorem ok_bind {ε α β : Type} (a : α) (f : α → Except ε β) : (Except.ok a >>= f) = f a := rfl

end ActivemqCpp.Decaf
