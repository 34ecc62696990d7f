import RateConversion.Checked
import RateConversion.ElementType

/-! Buffers and what is said about them: the header of an input buffer, the stamp on the
output, and the reasons for which a buffer is turned away. -/

namespace RateConversion

structure Header where
  /-- Samples in the buffer. A gap has them without holding them. -/
  len : Nat
  offset : Nat
  timestamp? : Option Nat := none
  gap : Bool := false
  discont : Bool := false
  deriving DecidableEq, Repr

def Header.offsetEnd (h : Header) : Checked Nat := Checked.add h.offset h.len

structure Buffer (α : Type) where
  header : Header
  samples : List α
  deriving DecidableEq, Repr

structure Stamp where
  offset : Nat
  offsetEnd : Nat
  timestamp? : Option Nat
  duration? : Option Nat
  discont : Bool
  gap : Bool
  /-- Where the silence of a gap begins, the end if the output has none. -/
  gapStart : Nat
  deriving DecidableEq, Repr

def Stamp.len (s : Stamp) : Checked Nat := Checked.sub s.offsetEnd s.offset

def Stamp.isEmpty (s : Stamp) : Bool := s.offsetEnd == s.offset

inductive Rejection
  | inputLength (declared provided : Nat)
  | outputLength (expected provided : Nat)
  | elementType (expected provided : ElementType)
  deriving DecidableEq, Repr

def Rejection.message : Rejection → String
  | .inputLength declared provided =>
    "Input buffer declares " ++ toString declared ++ " samples but holds " ++ toString provided
  | .outputLength expected provided =>
    "Output buffer holds " ++ toString provided ++ " samples, " ++ toString expected
      ++ " are needed"
  | .elementType expected provided =>
    "Buffer of " ++ provided.name ++ " samples passed to a " ++ expected.name ++ " resampler"

end RateConversion
