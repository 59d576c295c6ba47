import ChaosKernel.Lib.Except
import ChaosKernel.Mm.MemorySet

/-!
# Task resources: ids and kernel stacks

`RecycleAllocator` of `os/src/task/res.rs` hands out pids and kernel-stack ids:
the last id given back if there is one, the next fresh one otherwise.  Its
invariant, for the list of ids its callers hold, says that the held ids and the
recycled ones are distinct and together are exactly the ids below `current`; so
`alloc` never returns a held id and `dealloc` of a held id passes both its
assertions.

A kernel stack with id `i` occupies `[bottom, top)` of `kernel_stack_position(i)`
in `KERNEL_SPACE`: `kstack_alloc` inserts a framed area there, and dropping the
`KernelStack` removes that area and gives the id back.
-/

namespace ChaosKernel

open FrameAllocator MemorySet

/-- `RecycleAllocator`.  The head of `recycled` is the top of the Rust `Vec`. -/
structure RecycleAllocator where
  current : ℕ
  recycled : List ℕ
  deriving DecidableEq, Repr

namespace RecycleAllocator

/-- `RecycleAllocator::new`. -/
def new : RecycleAllocator := ⟨0, []⟩

/-- `RecycleAllocator::alloc`: the last recycled id, or a fresh one. -/
def alloc (self : RecycleAllocator) : ℕ × RecycleAllocator :=
  match self.recycled with
  | id :: recycled => (id, { self with recycled := recycled })
  | [] => (self.current, { self with current := self.current + 1 })

/-- `RecycleAllocator::dealloc`, with its two assertions. -/
def dealloc (self : RecycleAllocator) (id : ℕ) : Except Panic RecycleAllocator :=
  if id < self.current then
    if self.recycled.any (· == id) then .error (.idDeallocated id)
    else .ok { self with recycled := id :: self.recycled }
  else .error (.idNotBelowCurrent id)

/-- The allocator with the ids `live` held by its callers. -/
structure Inv (allocator : RecycleAllocator) (live : List ℕ) : Prop where
  /-- No id is held twice. -/
  live_nodup : live.Nodup
  /-- No id is recycled twice. -/
  recycled_nodup : allocator.recycled.Nodup
  /-- A held id is not recycled. -/
  live_not_recycled : ∀ id ∈ live, id ∉ allocator.recycled
  /-- The ids below `current` are the held and the recycled ones. -/
  lt_current_iff : ∀ id, id < allocator.current ↔ id ∈ live ∨ id ∈ allocator.recycled

theorem inv_new : Inv new [] where
  live_nodup := List.nodup_nil
  recycled_nodup := List.nodup_nil
  live_not_recycled := by simp
  lt_current_iff := by simp [new]

variable {self : RecycleAllocator} {live : List ℕ}

theorem Inv.lt_current (hinv : Inv self live) {id : ℕ} (hid : id ∈ live) : id < self.current :=
  (hinv.lt_current_iff id).2 (Or.inl hid)

/-- `alloc` never returns a held id. -/
theorem alloc_not_mem (hinv : Inv self live) : self.alloc.1 ∉ live := by
  unfold alloc
  split
  · rename_i id recycled hrecycled
    intro hid
    exact hinv.live_not_recycled id hid (by rw [hrecycled]; exact List.mem_cons_self)
  · intro hid
    exact Nat.lt_irrefl _ (hinv.lt_current hid)

theorem inv_alloc (hinv : Inv self live) : Inv self.alloc.2 (self.alloc.1 :: live) := by
  have hfresh := alloc_not_mem hinv
  unfold alloc at hfresh ⊢
  split
  · rename_i id recycled hrecycled
    rw [hrecycled] at hfresh
    have hnodup := hinv.recycled_nodup
    rw [hrecycled, List.nodup_cons] at hnodup
    refine ⟨List.nodup_cons.2 ⟨hfresh, hinv.live_nodup⟩, hnodup.2, ?_, ?_⟩
    · intro x hx
      rcases List.mem_cons.1 hx with rfl | hx
      · exact hnodup.1
      · intro hrec
        exact hinv.live_not_recycled x hx (by rw [hrecycled]; exact List.mem_cons_of_mem _ hrec)
    · intro x
      rw [hinv.lt_current_iff, hrecycled]
      simp only [List.mem_cons]
      tauto
  · rename_i hrecycled
    rw [hrecycled] at hfresh
    refine ⟨List.nodup_cons.2 ⟨hfresh, hinv.live_nodup⟩, by rw [hrecycled]; exact List.nodup_nil,
      by simp [hrecycled], ?_⟩
    intro x
    have hx := hinv.lt_current_iff x
    simp only [hrecycled, List.mem_cons, List.not_mem_nil, or_false] at hx ⊢
    rw [Nat.lt_add_one_iff, le_iff_lt_or_eq, hx]
    tauto

/-- The invariant speaks of the held ids as a set. -/
theorem Inv.of_perm (hinv : Inv self live) {live' : List ℕ} (hperm : live.Perm live') :
    Inv self live' where
  live_nodup := hperm.nodup_iff.1 hinv.live_nodup
  recycled_nodup := hinv.recycled_nodup
  live_not_recycled := fun id hid => hinv.live_not_recycled id (hperm.mem_iff.2 hid)
  lt_current_iff := fun id => by rw [hinv.lt_current_iff, hperm.mem_iff]

/-- `alloc` moves `current` by at most one. -/
theorem alloc_current_le (self : RecycleAllocator) : self.alloc.2.current ≤ self.current + 1 := by
  unfold alloc
  split
  · exact Nat.le_succ _
  · exact le_rfl

/-- The id `alloc` returns is below the new `current`. -/
theorem alloc_lt (hinv : Inv self live) : self.alloc.1 < self.alloc.2.current := by
  unfold alloc
  split
  · rename_i id recycled hrecycled
    exact (hinv.lt_current_iff id).2 (Or.inr (by rw [hrecycled]; exact List.mem_cons_self))
  · exact Nat.lt_succ_self _

/-- `dealloc` of a held id passes both assertions and pushes it. -/
theorem dealloc_of_mem (hinv : Inv self live) {id : ℕ} (hid : id ∈ live) :
    self.dealloc id = .ok { self with recycled := id :: self.recycled } := by
  have hnot : self.recycled.any (· == id) = false := by
    rw [List.any_eq_false]
    intro x hx heq
    rw [beq_iff_eq] at heq
    exact hinv.live_not_recycled id hid (heq ▸ hx)
  simp [dealloc, hinv.lt_current hid, hnot]

theorem inv_dealloc (hinv : Inv self live) {id : ℕ} (hid : id ∈ live) :
    Inv { self with recycled := id :: self.recycled } (live.erase id) := by
  have hnodup := hinv.live_nodup
  refine ⟨hnodup.erase id, List.nodup_cons.2 ⟨hinv.live_not_recycled id hid, hinv.recycled_nodup⟩,
    ?_, ?_⟩
  · intro x hx
    simp only [List.mem_cons, not_or]
    rw [hnodup.mem_erase_iff] at hx
    exact ⟨hx.1, hinv.live_not_recycled x hx.2⟩
  · intro x
    rw [hinv.lt_current_iff, hnodup.mem_erase_iff]
    simp only [List.mem_cons]
    by_cases hx : x = id
    · subst hx
      simp [hid]
    · simp [hx]

end RecycleAllocator

/-! ## Kernel stacks -/

/-- `kernel_stack_position`: the `(bottom, top)` of a kernel stack, in `usize`
arithmetic.  A guard page separates each stack from the next. -/
def kernelStackPosition (kstackId : ℕ) : ℕ × ℕ :=
  ((memoryEnd + kstackId * (kernelStackSize + pageSize)) % usizeModulus,
    ((memoryEnd + kstackId * (kernelStackSize + pageSize)) % usizeModulus + kernelStackSize) %
      usizeModulus)

/-- The globals the kernel-stack code reaches: `KSTACK_ALLOCATOR`,
`KERNEL_SPACE` and `FRAME_ALLOCATOR`. -/
structure KernelState where
  kstackAllocator : RecycleAllocator
  kernelSpace : MemorySet
  frameAllocator : StackFrameAllocator

/-- `kstack_alloc`. -/
def kstackAlloc (kernel : KernelState) : Except Panic (ℕ × KernelState) := do
  let (kstackId, kstackAllocator) := kernel.kstackAllocator.alloc
  let (kstackBottom, kstackTop) := kernelStackPosition kstackId
  let (kernelSpace, frameAllocator) ← kernel.kernelSpace.insertFramedArea
    (← virtAddr kstackBottom) (← virtAddr kstackTop) (MapPermission.R ||| MapPermission.W)
    kernel.frameAllocator
  pure (kstackId, ⟨kstackAllocator, kernelSpace, frameAllocator⟩)

/-- Whatever it maps, `kstack_alloc` returns the id `KSTACK_ALLOCATOR` hands
out, and leaves the allocator as `alloc` does. -/
theorem kstackAlloc_eq_ok {kernel kernel' : KernelState} {kstackId : ℕ}
    (h : kstackAlloc kernel = .ok (kstackId, kernel')) :
    kstackId = kernel.kstackAllocator.alloc.1 ∧
      kernel'.kstackAllocator = kernel.kstackAllocator.alloc.2 := by
  obtain ⟨kstackAllocator, kernelSpace, frames⟩ := kernel
  generalize halloc : kstackAllocator.alloc = pair at h ⊢
  obtain ⟨id, allocator⟩ := pair
  simp only [kstackAlloc, halloc, Lib.bind_eq_ok] at h
  obtain ⟨bottom, -, top, -, ⟨kernelSpace', frames'⟩, -, h⟩ := h
  cases h
  exact ⟨rfl, rfl⟩

namespace KernelStack

/-- `Drop for KernelStack`: the area starting at the stack's bottom page leaves
`KERNEL_SPACE`, then the id goes back to `KSTACK_ALLOCATOR`. -/
def drop (kstackId : ℕ) (kernel : KernelState) : Except Panic KernelState := do
  let (kernelStackBottom, _) := kernelStackPosition kstackId
  let kernelStackBottomVa ← virtAddr kernelStackBottom
  let (kernelSpace, frameAllocator) ← kernel.kernelSpace.removeAreaWithStartVpn
    (← vpnOfVa kernelStackBottomVa) kernel.frameAllocator
  let kstackAllocator ← kernel.kstackAllocator.dealloc kstackId
  pure ⟨kstackAllocator, kernelSpace, frameAllocator⟩

end KernelStack

end ChaosKernel
