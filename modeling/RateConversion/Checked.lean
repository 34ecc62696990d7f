/-! Arithmetic on 64-bit counts and offsets. A result outside the range, a zero
divisor or a read outside a sequence is a fault, and a fault ends the computation
that meets it. It is no rejection: a rejected buffer leaves a usable state. -/

namespace RateConversion

inductive Fault
  | overflow
  | underflow
  | zeroDivisor
  | outOfRange
  | miscount
  deriving DecidableEq, Repr

abbrev Checked := Except Fault

namespace Checked

def add (a b : Nat) : Checked Nat :=
  if a + b < 0x10000000000000000 then .ok (a + b) else .error .overflow

def sub (a b : Nat) : Checked Nat :=
  if b ≤ a then .ok (a - b) else .error .underflow

def mul (a b : Nat) : Checked Nat :=
  if a * b < 0x10000000000000000 then .ok (a * b) else .error .overflow

def require (p : Prop) [Decidable p] (f : Fault) : Checked Unit :=
  if p then .ok () else .error f

/-- The signed number that a 64-bit word stands for in two's complement. -/
def signed (n : Nat) : Int := (n : Int).bmod 0x10000000000000000

/-- The 64-bit word that stands for a signed number. -/
def word (i : Int) : Nat := (i % 0x10000000000000000).toNat

def signedRange (i : Int) : Checked Int :=
  if -0x8000000000000000 ≤ i ∧ i < 0x8000000000000000 then .ok i else .error .overflow

theorem ok_bind {α β : Type} (a : α) (f : α → Checked β) : (.ok a >>= f) = f a := rfl

theorem map_bind {α β γ : Type} (g : α → β) (x : Checked α) (f : β → Checked γ) :
    (x.map g >>= f) = x >>= fun a => f (g a) := by
  cases x <;> rfl

theorem bind_eq_ok_iff {α β : Type} {x : Checked α} {f : α → Checked β} {b : β} :
    (x >>= f) = .ok b ↔ ∃ a, x = .ok a ∧ f a = .ok b := by
  cases x with
  | error e => simp [bind, Except.bind]
  | ok a => simp [bind, Except.bind]

theorem require_eq_ok_iff {p : Prop} [Decidable p] {f : Fault} {u : Unit} :
    require p f = .ok u ↔ p := by
  unfold require
  split <;> simp_all

theorem add_eq_ok_iff {a b c : Nat} :
    add a b = .ok c ↔ c = a + b ∧ a + b < 0x10000000000000000 := by
  unfold add
  split <;> simp_all [eq_comm]

theorem sub_eq_ok_iff {a b c : Nat} : sub a b = .ok c ↔ c = a - b ∧ b ≤ a := by
  unfold sub
  split <;> simp_all [eq_comm]

theorem mul_eq_ok_iff {a b c : Nat} :
    mul a b = .ok c ↔ c = a * b ∧ a * b < 0x10000000000000000 := by
  unfold mul
  split <;> simp_all [eq_comm]

end Checked

end RateConversion
