import ChaosKernel.Lib.Memory
import ChaosKernel.Mm.PageTable

/-!
# Physical memory and the bytes of an address space

The kernel reaches a frame's bytes through `PhysPageNum::get_bytes_array`, and
a user address through the page table that maps its page.  Physical memory is
a byte memory in the sense of `Lib.Memory`: frame `ppn` is the run of
`PAGE_SIZE` bytes from `ppn * PAGE_SIZE`.  `FrameTracker::new` clears the frame
it is given, and a copy of one frame into another is a `copy_from_slice` of
their byte arrays.

`userByte` reads an address space: the byte at `va` is the byte at
`va % PAGE_SIZE` of the frame its page maps to, if the page is mapped.
-/

namespace ChaosKernel

open Lib

/-- Physical memory: the byte at each physical address. -/
abbrev PhysMem := ℕ → UInt8

namespace PhysMem

/-- `PhysPageNum::get_bytes_array`: the bytes of frame `ppn`. -/
def frameBytes (phys : PhysMem) (ppn : ℕ) : List UInt8 :=
  load phys (ppn * pageSize) pageSize

/-- `FrameTracker::new`: the frame cleared to zero. -/
def clearFrame (phys : PhysMem) (ppn : ℕ) : PhysMem :=
  store phys (ppn * pageSize) (List.replicate pageSize 0)

/-- `dst.get_bytes_array().copy_from_slice(src.get_bytes_array())`. -/
def copyFrame (phys : PhysMem) (src dst : ℕ) : PhysMem :=
  store phys (dst * pageSize) (frameBytes phys src)

/-- Two different frames do not share an address. -/
theorem frames_disjoint {ppn ppn' : ℕ} (hne : ppn ≠ ppn') (off : ℕ) (hoff : off < pageSize) :
    ppn' * pageSize + off < ppn * pageSize ∨ ppn * pageSize + pageSize ≤ ppn' * pageSize + off := by
  rcases Nat.lt_or_gt_of_ne hne with hlt | hgt
  · right
    have : (ppn + 1) * pageSize ≤ ppn' * pageSize := Nat.mul_le_mul_right _ hlt
    rw [Nat.succ_mul] at this
    omega
  · left
    have : (ppn' + 1) * pageSize ≤ ppn * pageSize := Nat.mul_le_mul_right _ hgt
    rw [Nat.succ_mul] at this
    omega

/-- A cleared frame reads zero. -/
theorem clearFrame_self (phys : PhysMem) (ppn : ℕ) {off : ℕ} (hoff : off < pageSize) :
    clearFrame phys ppn (ppn * pageSize + off) = 0 := by
  rw [clearFrame, store_of_mem _ _ _ (by omega) (by simpa using hoff)]
  simp

/-- Clearing a frame leaves the other frames alone. -/
theorem clearFrame_of_ne (phys : PhysMem) {ppn ppn' : ℕ} (hne : ppn ≠ ppn') {off : ℕ}
    (hoff : off < pageSize) : clearFrame phys ppn (ppn' * pageSize + off) = phys (ppn' * pageSize + off) := by
  rcases frames_disjoint hne off hoff with hout | hout
  · exact store_of_lt _ _ _ hout
  · exact store_of_le _ _ _ (by simpa using hout)

/-- A copied frame holds the bytes of the source frame. -/
theorem copyFrame_self (phys : PhysMem) (src dst : ℕ) {off : ℕ} (hoff : off < pageSize) :
    copyFrame phys src dst (dst * pageSize + off) = phys (src * pageSize + off) := by
  rw [copyFrame, store_of_mem _ _ _ (by omega) (by simpa [frameBytes] using hoff)]
  simp [frameBytes]

/-- Copying into a frame leaves the other frames alone. -/
theorem copyFrame_of_ne (phys : PhysMem) (src : ℕ) {dst ppn : ℕ} (hne : dst ≠ ppn) {off : ℕ}
    (hoff : off < pageSize) : copyFrame phys src dst (ppn * pageSize + off) = phys (ppn * pageSize + off) := by
  rcases frames_disjoint hne off hoff with hout | hout
  · exact store_of_lt _ _ _ hout
  · exact store_of_le _ _ _ (by simpa [frameBytes] using hout)

end PhysMem

/-- The byte at `va` of the address space of `pageTable`, if its page is
mapped. -/
def PageTable.userByte (pageTable : PageTable) (phys : PhysMem) (va : ℕ) : Option UInt8 :=
  (pageTable.translate (floorPage va)).map fun pte => phys (pte.ppn * pageSize + va % pageSize)

end ChaosKernel
