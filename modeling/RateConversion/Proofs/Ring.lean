import Mathlib.Data.List.DropRight
import RateConversion.History

/-! A ring read as a list. Appending one sample, many samples or zeros keeps the newest
samples that the capacity allows of the old list followed by the new one, whichever way
the ring is turned and whatever its unused slots hold. No slot outside it is read or written. -/

namespace RateConversion

theorem length_rtake {α : Type} (xs : List α) (n : Nat) :
    (xs.rtake n).length = min n xs.length := by
  rw [List.rtake, List.length_drop]
  omega

theorem rtake_of_length_le {α : Type} {xs : List α} {n : Nat} (h : xs.length ≤ n) :
    xs.rtake n = xs := by
  rw [List.rtake, Nat.sub_eq_zero_of_le h, List.drop_zero]

theorem rtake_rtake_append {α : Type} (xs ys : List α) (n : Nat) :
    (xs.rtake n ++ ys).rtake n = (xs ++ ys).rtake n := by
  simp only [List.rtake_eq_reverse_take_reverse, List.reverse_append, List.reverse_reverse,
    List.take_append, List.take_take, Nat.min_eq_left (Nat.sub_le _ _)]

theorem rtake_append_of_le {α : Type} (xs : List α) {ys : List α} {n : Nat} (h : n ≤ ys.length) :
    (xs ++ ys).rtake n = ys.rtake n := by
  rw [List.rtake_eq_reverse_take_reverse, List.rtake_eq_reverse_take_reverse,
    List.reverse_append, List.take_append_of_le_length (by simpa using h)]

theorem getElem_append_singleton {α : Type} {xs : List α} {x : α} {i : Nat}
    (hi : i < (xs ++ [x]).length) :
    (xs ++ [x])[i] = if hx : i < xs.length then xs[i] else x := by
  rw [List.getElem_append]
  split_ifs with hx
  · rfl
  · simp

namespace History

structure Sound {α : Type} (h : History α) : Prop where
  size_le : h.size ≤ h.capacity
  turned : h.head = 0 ∨ h.size = h.capacity ∧ h.head < h.capacity

variable {α : Type} {h : History α}

theorem clear_sound (h : History α) : h.clear.Sound := ⟨Nat.zero_le _, .inl rfl⟩

theorem capacity_push (h : History α) (x : α) : (h.push x).capacity = h.capacity := by
  unfold push capacity
  split_ifs <;> simp

theorem push_sound (hs : h.Sound) (x : α) : (h.push x).Sound := by
  have h1 := hs.size_le
  have h2 := hs.turned
  have hc := capacity_push h x
  simp only [push] at hc ⊢
  split_ifs at hc ⊢ with h0 hlt
  · exact hs
  · refine ⟨by rw [hc]; exact hlt, .inl ?_⟩
    exact h2.resolve_right (by omega)
  · refine ⟨by rw [hc]; exact h1, .inr ⟨?_, ?_⟩⟩ <;> rw [hc]
    · exact Nat.le_antisymm h1 (Nat.le_of_not_lt hlt)
    · exact Nat.mod_lt _ (Nat.pos_of_ne_zero h0)

def slotAt (h : History α) (i : Nat) : Nat :=
  if h.capacity ≤ h.head + i then h.head + i - h.capacity else h.head + i

def nextSlot (h : History α) : Nat :=
  if h.size < h.capacity then (h.head + h.size) % h.capacity else h.head

structure InRange (h : History α) : Prop where
  read (i : Nat) : i < h.size → h.slotAt i < h.slots.size
  write : h.capacity ≠ 0 → h.nextSlot < h.slots.size

theorem get_eq [Zero α] (h : History α) (i : Nat) : h.get i = h.slots.getD (h.slotAt i) 0 := rfl

theorem Sound.inRange (hs : h.Sound) : h.InRange := by
  have hle := hs.size_le
  have hcap : h.slots.size = h.capacity := rfl
  refine ⟨fun i hi => ?_, fun h0 => ?_⟩
  · rw [hcap, slotAt]
    rcases hs.turned with hhead | ⟨hfull, hhead⟩
    · rw [hhead, Nat.zero_add, if_neg (by omega)]
      omega
    · split_ifs <;> omega
  · rw [hcap, nextSlot]
    by_cases hlt : h.size < h.capacity
    · rw [if_pos hlt]
      exact Nat.mod_lt _ (Nat.pos_of_ne_zero h0)
    · rw [if_neg hlt]
      rcases hs.turned with hhead | ⟨-, hhead⟩
      · omega
      · exact hhead

variable [Zero α]

@[simp] theorem length_toList (h : History α) : h.toList.length = h.size := by
  simp [toList]

theorem getElem_toList (h : History α) (i : Nat) (hi : i < h.toList.length) :
    h.toList[i] = h.get i := by
  simp [toList]

theorem capacity_blank (capacity : Nat) : (blank capacity : History α).capacity = capacity :=
  Array.size_replicate

theorem toList_clear (h : History α) : h.clear.toList = [] := rfl

theorem get_push_of_lt (hs : h.Sound) (x : α) (hlt : h.size < h.capacity) (i : Nat)
    (hi : i ≤ h.size) : (h.push x).get i = if i = h.size then x else h.get i := by
  have hhead : h.head = 0 := hs.turned.resolve_right (by omega)
  have hsize : h.slots.size = h.capacity := rfl
  have hpush : h.push x =
      { h with slots := h.slots.setIfInBounds h.size x, size := h.size + 1 } := by
    rw [push, if_neg (by omega), if_pos hlt, hhead, Nat.zero_add, Nat.mod_eq_of_lt hlt]
  have hcap := capacity_push h x
  rw [get, get, hcap, hpush]
  simp only [hhead, Nat.zero_add]
  rw [if_neg (by omega), Array.getD_eq_getD_getElem?, Array.getD_eq_getD_getElem?,
    Array.getElem?_setIfInBounds]
  by_cases he : i = h.size
  · rw [if_pos he.symm, if_pos (by omega), if_pos he]
    rfl
  · rw [if_neg (Ne.symm he), if_neg he]

theorem get_push_of_full (hs : h.Sound) (x : α) (hfull : h.size = h.capacity) (i : Nat)
    (hi : i < h.size) :
    (h.push x).get i = if i + 1 = h.size then x else h.get (i + 1) := by
  have hhead : h.head < h.capacity := by
    rcases hs.turned with h0 | h1
    · omega
    · exact h1.2
  have hsize : h.slots.size = h.capacity := rfl
  have hpush : h.push x =
      { h with
        slots := h.slots.setIfInBounds h.head x, head := (h.head + 1) % h.capacity } := by
    rw [push, if_neg (by omega), if_neg (by omega)]
  have hcap := capacity_push h x
  have hnext : (h.head + 1) % h.capacity =
      if h.head + 1 = h.capacity then 0 else h.head + 1 := by
    split_ifs with he
    · rw [he, Nat.mod_self]
    · exact Nat.mod_eq_of_lt (by omega)
  rw [get, get, hcap, hpush]
  simp only [hnext, Array.getD_eq_getD_getElem?, Array.getElem?_setIfInBounds]
  -- The oldest slot takes the new sample and is read last.
  by_cases he : i + 1 = h.size
  · rw [if_pos he, if_pos, if_pos (by omega)]
    · rfl
    · split_ifs <;> omega
  · rw [if_neg he, if_neg]
    · congr 2
      split_ifs <;> omega
    · split_ifs <;> omega

theorem toList_push (hs : h.Sound) (x : α) :
    (h.push x).toList = (h.toList ++ [x]).rtake h.capacity := by
  have hle := hs.size_le
  rcases Nat.lt_or_ge h.size h.capacity with hlt | hge
  · -- There is room, so nothing is let go of.
    have hsize : (h.push x).size = h.size + 1 := by
      rw [push, if_neg (by omega), if_pos hlt]
    rw [rtake_of_length_le (by simp; omega)]
    apply List.ext_getElem
    · simp [hsize]
    · intro i h1 h2
      have hi : i ≤ h.size := by
        rw [length_toList, hsize] at h1
        omega
      rw [getElem_toList, get_push_of_lt hs x hlt i hi, getElem_append_singleton]
      simp only [length_toList, getElem_toList]
      by_cases he : i = h.size
      · rw [if_pos he, dif_neg (by omega)]
      · rw [if_neg he, dif_pos (by omega)]
  · have hfull : h.size = h.capacity := Nat.le_antisymm hle hge
    have hsize : (h.push x).size = h.size := by
      simp only [push]
      split_ifs
      · rfl
      · omega
      · rfl
    apply List.ext_getElem
    · simp [hsize, length_rtake, hfull]
    · intro i h1 h2
      rw [length_toList, hsize] at h1
      rw [getElem_toList, get_push_of_full hs x hfull i h1]
      simp only [List.rtake, List.getElem_drop, getElem_append_singleton, List.length_append,
        length_toList, List.length_singleton, getElem_toList]
      by_cases he : i + 1 = h.size
      · rw [if_pos he, dif_neg (by omega)]
      · rw [if_neg he, dif_pos (by omega)]
        congr 1
        omega

theorem foldl_push (hs : h.Sound) (xs : List α) :
    (xs.foldl push h).Sound ∧ (xs.foldl push h).capacity = h.capacity ∧
      (xs.foldl push h).toList = (h.toList ++ xs).rtake h.capacity := by
  induction xs generalizing h with
  | nil =>
    refine ⟨hs, rfl, ?_⟩
    rw [List.append_nil, rtake_of_length_le (by simpa using hs.size_le)]
    rfl
  | cons x xs ih =>
    obtain ⟨h1, h2, h3⟩ := ih (push_sound hs x)
    rw [capacity_push] at h2 h3
    refine ⟨h1, h2, ?_⟩
    rw [List.foldl_cons, h3, toList_push hs, rtake_rtake_append, List.append_assoc,
      List.singleton_append]

theorem toList_mk_toArray (xs : List α) : (⟨xs.toArray, 0, xs.length⟩ : History α).toList = xs := by
  apply List.ext_getElem
  · simp
  · intro i h1 h2
    rw [getElem_toList]
    have hi : ¬ xs.length ≤ i := by omega
    simp [get, capacity, hi, Array.getD_eq_getD_getElem?, h2]

theorem extend_spec (hs : h.Sound) (xs : List α) :
    (h.extend xs).Sound ∧ (h.extend xs).capacity = h.capacity ∧
      (h.extend xs).toList = (h.toList ++ xs).rtake h.capacity := by
  simp only [extend]
  split_ifs with hle
  · have hlen : (xs.drop (xs.length - h.capacity)).length = h.capacity := by
      rw [List.length_drop]
      omega
    have hcap : (⟨(xs.drop (xs.length - h.capacity)).toArray, 0, h.capacity⟩ :
        History α).capacity = h.capacity := by
      simpa [capacity] using hlen
    refine ⟨⟨hcap.ge, .inl rfl⟩, hcap, ?_⟩
    have hl := toList_mk_toArray (xs.drop (xs.length - h.capacity))
    rw [hlen] at hl
    rw [hl, rtake_append_of_le _ hle, List.rtake]
  · exact foldl_push hs xs

theorem extendZeros_eq (h : History α) (n : Nat) :
    h.extendZeros n = h.extend (List.replicate n 0) := by
  simp only [extendZeros, extend]
  rw [List.length_replicate]
  split_ifs with hle
  · rw [List.drop_replicate, Nat.sub_sub_self hle, List.toArray_replicate]
  · rfl

end History

end RateConversion
