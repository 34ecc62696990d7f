import RateConversion.Sample

/-! The newest samples of a stream in a ring of fixed capacity. Read from its head, a
ring is the list of the last samples appended since it was cleared, oldest first. -/

namespace RateConversion

structure History (α : Type) where
  slots : Array α
  head : Nat
  size : Nat
  deriving DecidableEq, Repr

namespace History

variable {α : Type} [Zero α]

def blank (capacity : Nat) : History α := ⟨Array.replicate capacity 0, 0, 0⟩

def capacity (h : History α) : Nat := h.slots.size

def get (h : History α) (i : Nat) : α :=
  let p := h.head + i
  h.slots.getD (if h.capacity ≤ p then p - h.capacity else p) 0

def toList (h : History α) : List α := (List.range h.size).map h.get

def push (h : History α) (x : α) : History α :=
  if h.capacity = 0 then h
  else if h.size < h.capacity then
    { h with
      slots := h.slots.setIfInBounds ((h.head + h.size) % h.capacity) x
      size := h.size + 1 }
  else
    { h with
      slots := h.slots.setIfInBounds h.head x
      head := (h.head + 1) % h.capacity }

/-- Appends samples. As many as fill the ring replace all of it. -/
def extend (h : History α) (xs : List α) : History α :=
  if h.capacity ≤ xs.length then
    ⟨(xs.drop (xs.length - h.capacity)).toArray, 0, h.capacity⟩
  else xs.foldl push h

def extendZeros (h : History α) (n : Nat) : History α :=
  if h.capacity ≤ n then ⟨Array.replicate h.capacity 0, 0, h.capacity⟩
  else (List.replicate n 0).foldl push h

def clear (h : History α) : History α := { h with head := 0, size := 0 }

def isSilent {ρ : Type} [Sample α ρ] (h : History α) : Bool := h.toList.all isZero

end History

end RateConversion
