/-! Running a machine that takes one sample and puts out a list. What it puts out for a
sequence does not depend on where the sequence is cut. -/

namespace RateConversion

variable {σ α β : Type}

def collect (step : σ → α → σ × List β) (acc : σ × Array β) (x : α) : σ × Array β :=
  let r := step acc.1 x
  (r.1, acc.2 ++ r.2)

def feed (step : σ → α → σ × List β) (s : σ) (xs : List α) : σ × List β :=
  let r := xs.foldl (collect step) (s, #[])
  (r.1, r.2.toList)

private theorem collect_from (step : σ → α → σ × List β) (s : σ) (out : Array β)
    (xs : List α) :
    (xs.foldl (collect step) (s, out)).1 = (feed step s xs).1 ∧
      (xs.foldl (collect step) (s, out)).2.toList = out.toList ++ (feed step s xs).2 := by
  induction xs generalizing s out with
  | nil => simp [feed]
  | cons x xs ih =>
    have h := ih (step s x).1 (out ++ (step s x).2)
    have h' := ih (step s x).1 ((#[] : Array β) ++ (step s x).2)
    simp only [feed, List.foldl_cons, collect] at h h' ⊢
    exact ⟨h.1.trans h'.1.symm, by rw [h.2, h'.2]; simp⟩

theorem feed_nil (step : σ → α → σ × List β) (s : σ) : feed step s [] = (s, []) := rfl

theorem feed_cons (step : σ → α → σ × List β) (s : σ) (x : α) (xs : List α) :
    feed step s (x :: xs) =
      ((feed step (step s x).1 xs).1, (step s x).2 ++ (feed step (step s x).1 xs).2) := by
  have h := collect_from step (step s x).1 ((#[] : Array β) ++ (step s x).2) xs
  exact Prod.ext h.1 (h.2.trans (by simp))

theorem feed_append (step : σ → α → σ × List β) (s : σ) (xs ys : List α) :
    feed step s (xs ++ ys) =
      ((feed step (feed step s xs).1 ys).1,
        (feed step s xs).2 ++ (feed step (feed step s xs).1 ys).2) := by
  induction xs generalizing s with
  | nil => simp [feed_nil]
  | cons x xs ih => simp [feed_cons, ih]

end RateConversion
