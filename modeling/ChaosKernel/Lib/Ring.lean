import Mathlib

/-!
# Circular arrays as bounded queues

A circular array of capacity `cap` holds a queue of `n ≤ cap` cells starting at
index `head`, wrapping modulo `cap`.  `ringView` reads that queue out; the two
lemmas below say that storing at the cell after the last one appends, and that
stepping `head` forward drops the front.  Index arithmetic is the additive group
`Fin cap`, whose addition is addition modulo `cap`.
-/

namespace ChaosKernel.Lib

variable {α : Type*} {cap : ℕ} [NeZero cap]

/-- The `n` cells of a circular array read from `head` onward. -/
def ringView (arr : Fin cap → α) (head : Fin cap) (n : ℕ) : List α :=
  List.ofFn fun i : Fin n => arr (head + Fin.ofNat cap i.val)

@[simp]
theorem length_ringView (arr : Fin cap → α) (head : Fin cap) (n : ℕ) :
    (ringView arr head n).length = n := by
  simp [ringView]

/-- Distinct offsets below the capacity name distinct cells. -/
theorem add_ofNat_injective (head : Fin cap) {i j : ℕ} (hi : i < cap) (hj : j < cap)
    (heq : head + Fin.ofNat cap i = head + Fin.ofNat cap j) : i = j := by
  have hcast : Fin.ofNat cap i = Fin.ofNat cap j := add_left_cancel heq
  have hval := congrArg Fin.val hcast
  rwa [Fin.val_ofNat, Fin.val_ofNat, Nat.mod_eq_of_lt hi, Nat.mod_eq_of_lt hj] at hval

theorem ofNat_succ (i : ℕ) : Fin.ofNat cap (i + 1) = Fin.ofNat cap i + 1 := by
  ext
  simp [Fin.val_add, Nat.add_mod]

/-- Storing at offset `n` appends one cell to the queue of length `n`. -/
theorem ringView_update_push (arr : Fin cap → α) (head : Fin cap) {n : ℕ} (hn : n < cap)
    (value : α) :
    ringView (Function.update arr (head + Fin.ofNat cap n) value) head (n + 1) =
      ringView arr head n ++ [value] := by
  apply List.ext_getElem
  · simp
  · intro i hleft _
    simp only [length_ringView] at hleft
    simp only [ringView, List.getElem_ofFn]
    rcases Nat.lt_succ_iff_lt_or_eq.1 hleft with hlt | rfl
    · rw [List.getElem_append_left (by simpa using hlt), List.getElem_ofFn]
      rw [Function.update_of_ne]
      intro heq
      exact absurd (add_ofNat_injective head (by omega) hn heq) (by omega)
    · rw [List.getElem_append_right (by simp)]
      simp

/-- Stepping `head` forward by one drops the front cell of a non-empty queue. -/
theorem ringView_succ_head (arr : Fin cap → α) (head : Fin cap) (n : ℕ) :
    ringView arr head (n + 1) = arr head :: ringView arr (head + 1) n := by
  apply List.ext_getElem
  · simp
  · intro i hleft _
    simp only [ringView, List.getElem_ofFn]
    cases i with
    | zero => simp
    | succ i =>
        simp only [List.getElem_cons_succ, List.getElem_ofFn]
        rw [ofNat_succ, add_comm (Fin.ofNat cap i) 1, add_assoc]

end ChaosKernel.Lib
