import Mathlib

/-!
# Kernel constants and address arithmetic

The constants of `os/src/config.rs` (QEMU board) and the page arithmetic of
`os/src/mm/address.rs`.  Addresses and page numbers are `usize` in the kernel;
they are `ℕ` here, with the wrap-around of release builds written out as
`% usizeModulus` wherever an expression can overflow.
-/

namespace ChaosKernel

/-- `usize` values are taken modulo `2 ^ 64`. -/
def usizeModulus : ℕ := 2 ^ 64

/-- `PAGE_SIZE`: 4 KiB. -/
def pageSize : ℕ := 0x1000

/-- `CLOCK_FREQ` of the QEMU board: timer ticks per second. -/
def clockFreq : ℕ := 1250_0000

/-- `KERNEL_STACK_SIZE`: eight pages. -/
def kernelStackSize : ℕ := 4096 * 8

/-- `MEMORY_END`: the end of the identity-mapped physical memory, as a kernel
virtual address. -/
def memoryEnd : ℕ := 0xffff_ffc0_8800_0000

/-- `USER_SPACE_END`. -/
def userSpaceEnd : ℕ := 0x0000_003F_FFFF_FFFF

/-- `TRAP_CONTEXT_BASE`: the trap-context page of tid 0. -/
def trapContextBase : ℕ := userSpaceEnd - pageSize * 2 + 1

/-- `MMAP_BASE`: where anonymous mappings without `MAP_FIXED` start. -/
def mmapBase : ℕ := 0x2000_0000

/-- `VirtAddr::floor`. -/
def floorPage (addr : ℕ) : ℕ := addr / pageSize

/-- `VirtAddr::ceil`: `(addr - 1 + PAGE_SIZE) / PAGE_SIZE`, where `addr - 1`
wraps at `0` in a release build. -/
def ceilPage (addr : ℕ) : ℕ :=
  ((addr + usizeModulus - 1) % usizeModulus + pageSize) % usizeModulus / pageSize

/-- The rounding `(addr + PAGE_SIZE - 1) & !(PAGE_SIZE - 1)` that `sys_brk`,
`mmap` and `munmap` use: clearing the low twelve bits rounds down to a multiple
of the page size. -/
def alignUp (addr : ℕ) : ℕ :=
  (addr + pageSize - 1) % usizeModulus / pageSize * pageSize

/-- `VA_WIDTH_SV39`. -/
def vaWidthSv39 : ℕ := 39

/-- `usize as isize`: values from `2 ^ 63` on are negative. -/
def usizeToIsize (value : ℕ) : ℤ :=
  if value < 2 ^ 63 then value else (value : ℤ) - usizeModulus

theorem pageSize_pos : 0 < pageSize := by decide

/-- The panics of the modelled code paths, named by the assertion or the
`unwrap` that raises them. -/
inductive Panic
  /-- `Option::unwrap` on `None`, e.g. of an exhausted `frame_alloc()`. -/
  | unwrapNone
  /-- `todo!()` or `unimplemented!()`. -/
  | notImplemented
  /-- `FrameAllocator out of memory!` in `alloc_contiguous`. -/
  | frameOutOfMemory
  /-- `Frame ppn={:#x} has not been allocated!` in `StackFrameAllocator::dealloc`. -/
  | frameNotAllocated (ppn : ℕ)
  /-- `vpn {:?} is mapped before mapping` in `PageTable::map`. -/
  | mappedBeforeMapping (vpn : ℕ)
  /-- `vpn {:?} is invalid before unmapping` in `PageTable::unmap`. -/
  | invalidBeforeUnmapping (vpn : ℕ)
  /-- `start {:?} > end {:?}!` in `SimpleRange::new`. -/
  | rangeReversed (start stop : ℕ)
  /-- `assert!(id < self.current)` in `RecycleAllocator::dealloc`. -/
  | idNotBelowCurrent (id : ℕ)
  /-- `id {} has been deallocated!` in `RecycleAllocator::dealloc`. -/
  | idDeallocated (id : ℕ)
  /-- `assert!(offset + type_size <= BLOCK_SZ)` in `BlockCache::get_ref` and
  `BlockCache::get_mut`. -/
  | valueOutsideBlock (offset size : ℕ)
  /-- `Run out of BlockCache!` in `BlockCacheManager::get_block_cache`. -/
  | runOutOfBlockCache
  /-- `invalid va: {:#x}` in `VirtAddr::from(usize)`. -/
  | invalidVa (va : ℕ)
  /-- `assert_eq!(v.page_offset(), 0)` in `VirtPageNum::from(VirtAddr)`. -/
  | unalignedVa (va : ℕ)
  /-- A slice `v[start..stop]` with `start > stop` or `stop > v.len()`. -/
  | sliceOutOfRange (start stop len : ℕ)
  /-- `copy_from_slice` between slices of different lengths. -/
  | copyLengthMismatch (dst src : ℕ)
  /-- `index out of bounds: the len is {} but the index is {}` of `v[index]`. -/
  | indexOutOfBounds (index len : ℕ)
  /-- `attempt to divide by zero`, which integer division raises in a release
  build too. -/
  | divideByZero
  deriving DecidableEq, Repr

/-- `VirtAddr::from(usize)`: bits 39 to 63, shifted down arithmetically, must
read `0` or `-1`, i.e. all clear or all set. -/
def virtAddr (va : ℕ) : Except Panic ℕ :=
  if va < 2 ^ vaWidthSv39 ∨ usizeModulus - 2 ^ vaWidthSv39 ≤ va then .ok va
  else .error (.invalidVa va)

/-- `VirtPageNum::from(VirtAddr)`: the address must be page aligned. -/
def vpnOfVa (va : ℕ) : Except Panic ℕ :=
  if va % pageSize = 0 then .ok (floorPage va) else .error (.unalignedVa va)

theorem virtAddr_of_lt {va : ℕ} (hva : va < 2 ^ vaWidthSv39) : virtAddr va = .ok va := by
  simp [virtAddr, hva]

theorem virtAddr_of_ge {va : ℕ} (hva : usizeModulus - 2 ^ vaWidthSv39 ≤ va) :
    virtAddr va = .ok va := by
  simp [virtAddr, hva]

/-- `VirtAddr::from` returns the address it checks. -/
theorem eq_of_virtAddr_eq_ok {va v : ℕ} (hva : virtAddr va = .ok v) : v = va := by
  unfold virtAddr at hva
  split_ifs at hva
  cases hva
  rfl

theorem vpnOfVa_of_dvd {va : ℕ} (hva : pageSize ∣ va) : vpnOfVa va = .ok (va / pageSize) := by
  simp [vpnOfVa, Nat.mod_eq_zero_of_dvd hva, floorPage]

@[simp]
theorem alignUp_of_lt {addr : ℕ} (haddr : addr + pageSize ≤ usizeModulus) :
    alignUp addr = (addr + pageSize - 1) / pageSize * pageSize := by
  have hpos := pageSize_pos
  rw [alignUp, Nat.mod_eq_of_lt (by omega)]

@[simp]
theorem ceilPage_of_pos {addr : ℕ} (hpos : 0 < addr) (haddr : addr + pageSize ≤ usizeModulus) :
    ceilPage addr = (addr - 1 + pageSize) / pageSize := by
  have hlt : addr - 1 < usizeModulus := by omega
  have hpage := pageSize_pos
  rw [ceilPage, show addr + usizeModulus - 1 = addr - 1 + usizeModulus by omega,
    Nat.add_mod_right, Nat.mod_eq_of_lt hlt, Nat.mod_eq_of_lt (by omega)]

theorem alignUp_dvd {addr : ℕ} (haddr : addr + pageSize ≤ usizeModulus) :
    pageSize ∣ alignUp addr := by
  rw [alignUp_of_lt haddr]
  exact Dvd.intro_left _ rfl

theorem le_alignUp {addr : ℕ} (haddr : addr + pageSize ≤ usizeModulus) :
    addr ≤ alignUp addr := by
  rw [alignUp_of_lt haddr]
  unfold pageSize
  omega

theorem alignUp_lt {addr : ℕ} (haddr : addr + pageSize ≤ usizeModulus) :
    alignUp addr < addr + pageSize := by
  rw [alignUp_of_lt haddr]
  unfold pageSize
  omega

/-! ## Slices

Range indexing of a slice panics when the range is reversed or runs past the
end; `v[start..]` is `v[start..v.len()]`. -/

section Slices

variable {α : Type*}

/-- `v[start..stop]`. -/
def sliceRange (v : List α) (start stop : ℕ) : Except Panic (List α) :=
  if start ≤ stop ∧ stop ≤ v.length then .ok ((v.drop start).take (stop - start))
  else .error (.sliceOutOfRange start stop v.length)

/-- `v[start..]`. -/
def sliceFrom (v : List α) (start : ℕ) : Except Panic (List α) :=
  sliceRange v start v.length

/-- `v[index]`. -/
def sliceIndex (v : List α) (index : ℕ) : Except Panic α :=
  match v[index]? with
  | some a => .ok a
  | none => .error (.indexOutOfBounds index v.length)

theorem sliceIndex_of_le {v : List α} {index : ℕ} (hle : v.length ≤ index) :
    sliceIndex v index = .error (.indexOutOfBounds index v.length) := by
  simp [sliceIndex, List.getElem?_eq_none hle]

/-- `v[start..stop].copy_from_slice(src)`: `v` with that range replaced by
`src`, which must be as long as the range. -/
def copyFromSlice (v : List α) (start stop : ℕ) (src : List α) : Except Panic (List α) := do
  let dst ← sliceRange v start stop
  if dst.length = src.length then pure (v.take start ++ src ++ v.drop stop)
  else throw (.copyLengthMismatch dst.length src.length)

theorem sliceRange_of_le {v : List α} {start stop : ℕ} (hle : start ≤ stop)
    (hstop : stop ≤ v.length) :
    sliceRange v start stop = .ok ((v.drop start).take (stop - start)) := by
  simp [sliceRange, hle, hstop]

theorem sliceRange_of_lt {v : List α} {start stop : ℕ} (hlt : v.length < stop) :
    sliceRange v start stop = .error (.sliceOutOfRange start stop v.length) := by
  simp [sliceRange, Nat.not_le.2 hlt]

theorem sliceFrom_of_le {v : List α} {start : ℕ} (hle : start ≤ v.length) :
    sliceFrom v start = .ok (v.drop start) := by
  simp [sliceFrom, sliceRange, hle]

/-- A copy into a range keeps the length of the whole. -/
theorem length_of_copyFromSlice {v src w : List α} {start stop : ℕ}
    (hcopy : copyFromSlice v start stop src = .ok w) : w.length = v.length := by
  unfold copyFromSlice at hcopy
  by_cases hrange : start ≤ stop ∧ stop ≤ v.length
  · simp only [sliceRange, if_pos hrange, bind, Except.bind] at hcopy
    split_ifs at hcopy with hlen
    · simp only [pure, Except.pure, Except.ok.injEq] at hcopy
      subst hcopy
      simp only [List.length_take, List.length_drop] at hlen
      simp only [List.length_append, List.length_take, List.length_drop]
      omega
  · simp [sliceRange, if_neg hrange, bind, Except.bind] at hcopy

theorem copyFromSlice_of_length {v src : List α} {start stop : ℕ}
    (hlen : start + src.length = stop) (hstop : stop ≤ v.length) :
    copyFromSlice v start stop src = .ok (v.take start ++ src ++ v.drop stop) := by
  subst hlen
  have hdst : ((v.drop start).take (start + src.length - start)).length = src.length := by
    simp only [List.length_take, List.length_drop]
    omega
  simp only [copyFromSlice, sliceRange_of_le (Nat.le_add_right _ _) hstop, bind, Except.bind,
    hdst, if_pos, pure, Except.pure]

end Slices

end ChaosKernel
