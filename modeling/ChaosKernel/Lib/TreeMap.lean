import Mathlib

/-!
# Lookups in tree maps

`Std.TreeMap` states its lookup lemmas through the comparison
(`compare k a = .eq`).  For keys whose comparison is lawful that is key
equality; the lemmas here say so once, and say that a map in which every lookup
fails has nothing to fold over.
-/

namespace ChaosKernel.Lib

variable {α β : Type*} [Ord α] [Std.TransOrd α] [Std.LawfulEqOrd α]

@[simp]
theorem getElem?_insert_eq_ite [DecidableEq α] (t : Std.TreeMap α β compare) (k a : α) (v : β) :
    (t.insert k v)[a]? = if k = a then some v else t[a]? := by
  rw [Std.TreeMap.getElem?_insert]
  simp

@[simp]
theorem getElem?_erase_eq_ite [DecidableEq α] (t : Std.TreeMap α β compare) (k a : α) :
    (t.erase k)[a]? = if k = a then none else t[a]? := by
  rw [Std.TreeMap.getElem?_erase]
  simp

theorem toList_eq_nil_of_getElem?_eq_none {t : Std.TreeMap α β compare}
    (hnone : ∀ k : α, t[k]? = none) : t.toList = [] := by
  rw [List.eq_nil_iff_forall_not_mem]
  rintro ⟨k, v⟩ hmem
  rw [Std.TreeMap.mem_toList_iff_getElem?_eq_some, hnone k] at hmem
  cases hmem

/-- Folding over a map in which every lookup fails does nothing. -/
theorem foldlM_of_getElem?_eq_none {δ : Type*} {m : Type _ → Type*} [Monad m] [LawfulMonad m]
    {t : Std.TreeMap α β compare} (hnone : ∀ k : α, t[k]? = none) (f : δ → α → β → m δ)
    (init : δ) : t.foldlM f init = pure init := by
  rw [Std.TreeMap.foldlM_eq_foldlM_toList, toList_eq_nil_of_getElem?_eq_none hnone]
  rfl

end ChaosKernel.Lib
