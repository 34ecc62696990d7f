import RateConversion.Sample

/-! The element types that a stream can carry, their sizes and format names. Only
formats in the byte order of the target have a name. -/

namespace RateConversion

inductive ByteOrder
  | little
  | big
  deriving DecidableEq, Repr

def ByteOrder.suffix : ByteOrder → String
  | .little => "LE"
  | .big => "BE"

/-- The machine that samples are laid out for. -/
class Target where
  order : ByteOrder

inductive ElementType
  | f32
  | f64
  | z64
  | z128
  deriving DecidableEq, Repr

namespace ElementType

def all : List ElementType := [.f32, .f64, .z64, .z128]

def name : ElementType → String
  | .f32 => "F32"
  | .f64 => "F64"
  | .z64 => "Z64"
  | .z128 => "Z128"

def format [Target] (t : ElementType) : String := t.name ++ Target.order.suffix

def unitSize : ElementType → Nat
  | .f32 => 4
  | .f64 | .z64 => 8
  | .z128 => 16

def ofFormat? [Target] (text : String) : Option ElementType :=
  all.find? (·.format == text)

theorem ofFormat?_format [target : Target] (t : ElementType) : ofFormat? t.format = some t := by
  obtain ⟨order⟩ := target
  cases order <;> cases t <;> decide

end ElementType

/-- The element type under which samples of type `α` travel. -/
class Element (α : Type) where
  type : ElementType

instance : Element Float32 := ⟨.f32⟩
instance : Element Float := ⟨.f64⟩
instance : Element (Complex Float32) := ⟨.z64⟩
instance : Element (Complex Float) := ⟨.z128⟩

end RateConversion
