import Mathlib

/-!
# Runs of cells in an address-indexed memory

A memory is a function from addresses to cells.  `store` writes a list of cells
from an address on and `load` reads `n` cells from one.  The lemmas say what a
load sees after a store (the stored cells inside the run, the old ones outside
it), and how a run splits into consecutive runs, which is how a loop that
copies a buffer piece by piece is proved to copy all of it.
-/

namespace ChaosKernel.Lib

variable {α : Type*}

/-- `mem` with the cells `xs` written from `addr` on. -/
def store (mem : ℕ → α) (addr : ℕ) (xs : List α) : ℕ → α :=
  fun a => if addr ≤ a then xs[a - addr]?.getD (mem a) else mem a

/-- The `n` cells of `mem` from `addr` on. -/
def load (mem : ℕ → α) (addr n : ℕ) : List α :=
  List.ofFn fun i : Fin n => mem (addr + i)

section Load

variable (mem : ℕ → α) (addr : ℕ)

@[simp]
theorem length_load (n : ℕ) : (load mem addr n).length = n := by
  simp [load]

@[simp]
theorem getElem_load {n i : ℕ} (hi : i < (load mem addr n).length) :
    (load mem addr n)[i] = mem (addr + i) := by
  simp [load]

/-- A run read in two pieces. -/
theorem load_add (m n : ℕ) : load mem addr (m + n) = load mem addr m ++ load mem (addr + m) n := by
  apply List.ext_getElem (by simp)
  intro i hi _
  by_cases him : i < m
  · rw [List.getElem_append_left (by simpa using him)]
    simp
  · rw [List.getElem_append_right (by simpa using him)]
    simp only [getElem_load, length_load]
    congr 1
    omega

/-- The tail of a run is the run from further on. -/
theorem drop_load (k n : ℕ) : (load mem addr n).drop k = load mem (addr + k) (n - k) := by
  apply List.ext_getElem (by simp)
  intro i _ _
  simp only [List.getElem_drop, getElem_load]
  congr 1
  omega

/-- The front of a run is a shorter run. -/
theorem take_load {m n : ℕ} (hle : m ≤ n) : (load mem addr n).take m = load mem addr m := by
  rw [← Nat.add_sub_of_le hle, load_add, List.take_left' (length_load _ _ _)]

/-- Two memories that agree on a run read it alike. -/
theorem load_congr {mem' : ℕ → α} {n : ℕ} (h : ∀ i < n, mem (addr + i) = mem' (addr + i)) :
    load mem addr n = load mem' addr n := by
  apply List.ext_getElem (by simp)
  intro i hi _
  simp only [getElem_load]
  exact h i (by simpa using hi)

end Load

section Store

variable (mem : ℕ → α) (addr : ℕ) (xs : List α)

/-- Below the run the memory is unchanged. -/
theorem store_of_lt {a : ℕ} (ha : a < addr) : store mem addr xs a = mem a := by
  simp [store, Nat.not_le.2 ha]

/-- Above the run the memory is unchanged. -/
theorem store_of_le {a : ℕ} (ha : addr + xs.length ≤ a) : store mem addr xs a = mem a := by
  have hget : xs[a - addr]? = none := List.getElem?_eq_none (by omega)
  simp [store, hget]

/-- Inside the run the memory holds the stored cells. -/
theorem store_of_mem {a : ℕ} (hlo : addr ≤ a) (hhi : a < addr + xs.length) :
    store mem addr xs a = xs[a - addr] := by
  have hget : xs[a - addr]? = some xs[a - addr] := List.getElem?_eq_getElem (by omega)
  simp [store, hlo, hget]

@[simp]
theorem store_nil : store mem addr ([] : List α) = mem := by
  funext a
  simp [store]

/-- A run stored in two pieces. -/
theorem store_append (ys : List α) :
    store mem addr (xs ++ ys) = store (store mem addr xs) (addr + xs.length) ys := by
  funext a
  by_cases hlo : a < addr
  · rw [store_of_lt _ _ _ hlo, store_of_lt _ _ _ (by omega), store_of_lt _ _ _ hlo]
  by_cases hmid : a < addr + xs.length
  · have hxs : (xs ++ ys)[a - addr]? = xs[a - addr]? := List.getElem?_append_left (by omega)
    rw [store_of_lt _ _ _ hmid]
    simp only [store, Nat.le_of_not_lt hlo, if_true, hxs]
  · have hys : (xs ++ ys)[a - addr]? = ys[a - (addr + xs.length)]? := by
      rw [List.getElem?_append_right (by omega)]
      congr 1
      omega
    simp only [store, Nat.le_of_not_lt hlo, Nat.le_of_not_lt hmid, if_true, hys]
    cases ys[a - (addr + xs.length)]? with
    | none => simp [List.getElem?_eq_none (show xs.length ≤ a - addr by omega)]
    | some y => rfl

/-- A load of the stored run reads the stored cells back. -/
theorem load_store_self : load (store mem addr xs) addr xs.length = xs := by
  apply List.ext_getElem (by simp)
  intro i hi _
  simp only [getElem_load]
  rw [store_of_mem _ _ _ (by omega) (by simpa using hi)]
  simp

/-- A load that misses the stored run reads the old cells. -/
theorem load_store_of_disjoint {a n : ℕ} (h : addr + xs.length ≤ a ∨ a + n ≤ addr) :
    load (store mem addr xs) a n = load mem a n := by
  apply load_congr
  intro i hi
  rcases h with hle | hle
  · exact store_of_le _ _ _ (by omega)
  · exact store_of_lt _ _ _ (by omega)

/-- Writing back what a run already holds changes nothing. -/
theorem store_load_self (n : ℕ) : store mem addr (load mem addr n) = mem := by
  funext a
  by_cases hlo : a < addr
  · exact store_of_lt _ _ _ hlo
  by_cases hhi : a < addr + n
  · rw [store_of_mem _ _ _ (by omega) (by simpa using hhi), getElem_load]
    congr 1
    omega
  · exact store_of_le _ _ _ (by simpa using Nat.le_of_not_lt hhi)

/-- Read-modify-write: reading a run, replacing a piece of it and writing the
whole run back stores just the piece. -/
theorem store_splice {n o : ℕ} (src : List α) (hfit : o + src.length ≤ n) :
    store mem addr ((load mem addr n).take o ++ src ++ (load mem addr n).drop (o + src.length)) =
      store mem (addr + o) src := by
  have hfront : (load mem addr n).take o = load mem addr o := by
    rw [show n = o + (n - o) by omega, load_add, List.take_left' (by simp)]
  have hback : (load mem addr n).drop (o + src.length) =
      load (store mem (addr + o) src) (addr + (o + src.length)) (n - (o + src.length)) := by
    rw [drop_load, load_store_of_disjoint _ _ _ (Or.inl (by omega))]
  rw [store_append, store_append, hfront, store_load_self, List.length_append, length_load, hback,
    store_load_self]

end Store

end ChaosKernel.Lib
