import RateConversion.Checked

/-! Exact rescaling of counts and times by a ratio of integers. The product is
taken in full, the quotient is rounded once, and a quotient beyond 64 bits is cut
at the largest word. -/

namespace RateConversion

def nanosPerSecond : Nat := 1000000000

namespace Scale

def largest : Nat := 0xffffffffffffffff

/-- The quotient `value * num / denom` to the nearest integer, a half going up. -/
def round (value num denom : Nat) : Nat :=
  min ((value * num + denom / 2) / denom) largest

def ceil (value num denom : Nat) : Nat :=
  min ((value * num + (denom - 1)) / denom) largest

def roundOver (value num denom : Nat) : Checked Nat :=
  if denom = 0 then .error .zeroDivisor else .ok (round value num denom)

def ceilOver (value num denom : Nat) : Checked Nat :=
  if denom = 0 then .error .zeroDivisor else .ok (ceil value num denom)

end Scale

end RateConversion
