import RateConversion.Proofs.Ring

/-! A ring over its life. However samples are appended to it, one by one, many at once or as so
many zeros, and whenever it is cleared, it shows the newest of the samples that were appended
since. What it was before it was last cleared, and which way its samples came, cannot be told. -/

namespace RateConversion.History

inductive Op (α : Type)
  | push (x : α)
  | extend (xs : List α)
  | extendZeros (n : Nat)
  | clear
  deriving DecidableEq, Repr

namespace Op

variable {α : Type} [Zero α]

def apply (h : History α) : Op α → History α
  | .push x => h.push x
  | .extend xs => h.extend xs
  | .extendZeros n => h.extendZeros n
  | .clear => h.clear

def onto (xs : List α) : Op α → List α
  | .push x => xs ++ [x]
  | .extend ys => xs ++ ys
  | .extendZeros n => xs ++ List.replicate n 0
  | .clear => []

def singly : Op α → List (Op α)
  | .push x => [.push x]
  | .extend xs => xs.map .push
  | .extendZeros n => List.replicate n (.push 0)
  | .clear => [.clear]

end Op

variable {α : Type} [Zero α]

def run (capacity : Nat) (ops : List (Op α)) : History α := ops.foldl Op.apply (blank capacity)

def appended (ops : List (Op α)) : List α := ops.foldl Op.onto []

structure Keeps (capacity : Nat) (xs : List α) (h : History α) : Prop where
  sound : h.Sound
  toList : h.toList = xs.rtake capacity
  capacity : h.capacity = capacity

theorem keeps_blank (capacity : Nat) : (blank capacity : History α).Keeps capacity [] :=
  ⟨⟨Nat.zero_le _, .inl rfl⟩, (List.rtake_nil capacity).symm, capacity_blank capacity⟩

variable {capacity : Nat} {xs : List α} {h : History α}

theorem Keeps.extend (hk : h.Keeps capacity xs) (ys : List α) :
    (h.extend ys).Keeps capacity (xs ++ ys) := by
  obtain ⟨hsound, hcapacity, htoList⟩ := extend_spec hk.sound ys
  refine ⟨hsound, ?_, hcapacity.trans hk.capacity⟩
  rw [htoList, hk.capacity, hk.toList, rtake_rtake_append]

theorem Keeps.apply (hk : h.Keeps capacity xs) (op : Op α) :
    (op.apply h).Keeps capacity (op.onto xs) := by
  cases op with
  | push x =>
    refine ⟨push_sound hk.sound x, ?_, (capacity_push h x).trans hk.capacity⟩
    rw [Op.apply, toList_push hk.sound, hk.capacity, hk.toList, rtake_rtake_append, Op.onto]
  | extend ys => exact hk.extend ys
  | extendZeros n =>
    have hbulk := hk.extend (List.replicate n 0)
    rwa [← extendZeros_eq] at hbulk
  | clear => exact ⟨clear_sound h, (List.rtake_nil capacity).symm, hk.capacity⟩

theorem Keeps.foldl (hk : h.Keeps capacity xs) (ops : List (Op α)) :
    (ops.foldl Op.apply h).Keeps capacity (ops.foldl Op.onto xs) := by
  induction ops generalizing h xs with
  | nil => exact hk
  | cons op ops ih => exact ih (hk.apply op)

theorem foldl_onto_push (xs ys : List α) :
    (ys.map Op.push).foldl Op.onto xs = xs ++ ys := by
  induction ys generalizing xs with
  | nil => exact (List.append_nil xs).symm
  | cons y ys ih =>
    rw [List.map_cons, List.foldl_cons, ih, Op.onto, List.append_assoc, List.singleton_append]

theorem foldl_onto_singly (xs : List α) (op : Op α) :
    op.singly.foldl Op.onto xs = op.onto xs := by
  cases op with
  | push x => rfl
  | extend ys => exact foldl_onto_push xs ys
  | extendZeros n =>
    rw [Op.singly, ← List.map_replicate]
    exact foldl_onto_push xs _
  | clear => rfl

theorem appended_singly (ops : List (Op α)) :
    appended (ops.flatMap Op.singly) = appended ops := by
  simp only [appended, List.foldl_flatMap, foldl_onto_singly]

theorem appended_clear (past ops : List (Op α)) :
    appended (past ++ .clear :: ops) = appended ops := by
  rw [appended, List.foldl_append, List.foldl_cons]
  rfl

/-- What can be seen of a ring that holds the newest of the samples `xs`. -/
structure Shows (capacity : Nat) (xs : List α) (h : History α) : Prop where
  toList : h.toList = xs.rtake capacity
  size : h.size = min capacity xs.length
  get (i : Nat) : i < h.size → (xs.rtake capacity)[i]? = some (h.get i)
  slot (i : Nat) : i < h.size → h.slots[h.slotAt i]? = some (h.get i)
  head_lt : 0 < capacity → h.head < capacity
  head_eq_zero : h.size < capacity → h.head = 0

theorem Keeps.shows (hk : h.Keeps capacity xs) : h.Shows capacity xs := by
  have hcapacity := hk.capacity
  have hturned := hk.sound.turned
  refine ⟨hk.toList, ?_, ?_, ?_, by omega, by omega⟩
  · rw [← length_toList, hk.toList, length_rtake]
  · intro i hi
    have hin : i < h.toList.length := by rwa [length_toList]
    rw [← hk.toList, List.getElem?_eq_getElem hin, getElem_toList]
  · intro i hi
    have hin := hk.sound.inRange.read i hi
    rw [get_eq, Array.getD_eq_getD_getElem?, Array.getElem?_eq_getElem hin, Option.getD_some]

theorem run_keeps (capacity : Nat) (ops : List (Op α)) :
    (run capacity ops).Keeps capacity (appended ops) :=
  (keeps_blank capacity).foldl ops

/-- A ring shows the newest of the samples appended since it was last cleared. It reads the same
if they are appended one by one, and if it was never used before it was cleared. -/
theorem shows_newest (capacity : Nat) (ops : List (Op α)) :
    (run capacity ops).Shows capacity (appended ops) ∧
      (run capacity (ops.flatMap Op.singly)).toList = (run capacity ops).toList ∧
      ∀ past, (run capacity (past ++ .clear :: ops)).toList = (run capacity ops).toList := by
  have hrun := run_keeps capacity ops
  refine ⟨hrun.shows, ?_, ?_⟩
  · rw [(run_keeps capacity _).toList, hrun.toList, appended_singly]
  · intro past
    rw [(run_keeps capacity _).toList, hrun.toList, appended_clear]

/-- The last two samples go over the end of a ring that has been turned by two. -/
example : run 3 [.extend [3, 4, 5, 6], .push 7, .push 8, .extend [9, (10 : Nat)]] =
      ⟨#[10, 8, 9], 1, 3⟩ ∧
    (⟨#[10, 8, 9], 1, 3⟩ : History Nat).toList = [8, 9, 10] := by
  decide

end RateConversion.History
