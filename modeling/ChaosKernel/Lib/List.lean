import Mathlib

/-!
# Scans and removals on duplicate-free lists

A queue that drops "the first entry a scan finds" (`iter().find()` followed by
`drain(idx..=idx)`) is `List.find?` together with `List.eraseP`.  The lemmas
here split the list at the entry found, and say what a duplicate-free list
keeps when one entry is taken out of its middle.
-/

namespace ChaosKernel.Lib

variable {α β : Type*}

/-- The entry a scan finds is the one `eraseP` removes. -/
theorem eraseP_of_find? {p : α → Bool} {l : List α} {a : α} (hfind : l.find? p = some a) :
    ∃ front back, l = front ++ a :: back ∧ l.eraseP p = front ++ back := by
  obtain ⟨hpa, front, back, rfl, hfront⟩ := List.find?_eq_some_iff_append.1 hfind
  refine ⟨front, back, rfl, ?_⟩
  have hskip : ∀ b ∈ front, ¬p b = true := fun b hb => by simpa using hfront b hb
  rw [List.eraseP_append_right _ hskip, List.eraseP_cons_of_pos hpa]

/-- Taking the middle entry out of a list whose image is duplicate-free: the
image stays duplicate-free and no longer contains the entry's image. -/
theorem nodup_map_middle (f : α → β) {front back : List α} {a : α}
    (hnodup : ((front ++ a :: back).map f).Nodup) :
    f a ∉ (front ++ back).map f ∧ ((front ++ back).map f).Nodup := by
  rw [List.map_append, List.map_cons, List.nodup_middle, List.nodup_cons] at hnodup
  rwa [List.map_append]

theorem nodup_append_singleton {l : List α} {a : α} : (l ++ [a]).Nodup ↔ a ∉ l ∧ l.Nodup := by
  rw [← List.concat_eq_append, List.nodup_concat]

/-- Pigeonhole: a duplicate-free list longer than another has an element the
other lacks. -/
theorem exists_mem_not_mem_of_length_lt {l m : List α} (hnodup : l.Nodup)
    (hlen : m.length < l.length) : ∃ a ∈ l, a ∉ m := by
  by_contra hall
  push Not at hall
  have hle := (hnodup.subperm hall).length_le
  omega

end ChaosKernel.Lib
