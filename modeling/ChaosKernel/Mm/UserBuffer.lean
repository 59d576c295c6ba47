import ChaosKernel.Mm.Fork

/-!
# Buffers of user memory

`translated_byte_buffer` and `UserBuffer` of `os/src/mm/page_table.rs`.  The
kernel reaches a user buffer `[ptr, ptr + len)` through the frames its pages
map to: the loop takes one page per turn, from the buffer's start or a page
boundary up to the next boundary or the buffer's end, and returns the part of
the page's frame that backs it as a slice of `get_bytes_array()`.  An end that
falls on a boundary has `page_offset` `0`, and the loop then slices the frame
to its end.

A slice of a frame is kept as the frame and its range: what the kernel reads
and writes through it is that range of physical memory.  The page table is
the one `PageTable::from_token(token)` rebuilds.
-/

namespace ChaosKernel

open Lib PhysMem MemorySet

/-- `&mut ppn.get_bytes_array()[start..stop]`: the range `[start, stop)` of
frame `ppn`. -/
structure FrameSlice where
  ppn : ℕ
  start : ℕ
  stop : ℕ
  deriving DecidableEq, Repr

namespace FrameSlice

/-- `ppn.get_bytes_array()[start..stop]`, which panics unless the range lies in
the frame's `PAGE_SIZE` bytes. -/
def ofFrame (ppn start stop : ℕ) : Except Panic FrameSlice :=
  if start ≤ stop ∧ stop ≤ pageSize then .ok ⟨ppn, start, stop⟩
  else .error (.sliceOutOfRange start stop pageSize)

/-- `len()` of the slice. -/
def len (s : FrameSlice) : ℕ :=
  s.stop - s.start

/-- The bytes of physical memory the slice covers. -/
def bytes (phys : PhysMem) (s : FrameSlice) : List UInt8 :=
  load phys (s.ppn * pageSize + s.start) s.len

end FrameSlice

/-- `usize::from(VirtAddr)`: an address with bit 38 set gets bits 39 to 63 set
as well. -/
def usizeOfVirtAddr (va : ℕ) : ℕ :=
  if va ≥ 2 ^ (vaWidthSv39 - 1) then va ||| (usizeModulus - 2 ^ vaWidthSv39) else va

/-- The loop of `translated_byte_buffer` from `start` to `stop`, for at most
`fuel` turns: the slice of the page of `start` up to the next page boundary or
`stop`, and the rest from there. -/
def translatedByteBufferLoop (pageTable : PageTable) (stop : ℕ) : ℕ → ℕ → Fuelled Panic (List FrameSlice)
  | 0, _ => outOfFuel
  | fuel + 1, start =>
      if start < stop then do
        let startVa ← liftExcept (virtAddr start)
        let vpn := floorPage startVa
        let ppn ← liftExcept (translatePpn pageTable vpn)
        -- `vpn.step()` and `VirtAddr::from(vpn)`, a shift that drops the bits past 64
        let endVa := min ((vpn + 1) * pageSize % usizeModulus) (← liftExcept (virtAddr stop))
        let slice ← liftExcept <|
          if endVa % pageSize = 0 then FrameSlice.ofFrame ppn (startVa % pageSize) pageSize
          else FrameSlice.ofFrame ppn (startVa % pageSize) (endVa % pageSize)
        return slice :: (← translatedByteBufferLoop pageTable stop fuel (usizeOfVirtAddr endVa))
      else pure []

/-- `translated_byte_buffer(token, ptr, len)` for the page table of `token`,
for at most `fuel` turns of its loop. -/
def translatedByteBuffer (fuel : ℕ) (pageTable : PageTable) (ptr len : ℕ) :
    Fuelled Panic (List FrameSlice) :=
  translatedByteBufferLoop pageTable ((ptr + len) % usizeModulus) fuel ptr

/-- `UserBuffer`. -/
structure UserBuffer where
  buffers : List FrameSlice
  deriving DecidableEq, Repr

/-- `UserBuffer::len`: the lengths of the slices, added up. -/
def UserBuffer.len (self : UserBuffer) : ℕ :=
  self.buffers.foldl (fun total b => total + b.len) 0

theorem UserBuffer.len_eq_sum (self : UserBuffer) : self.len = (self.buffers.map FrameSlice.len).sum := by
  rw [UserBuffer.len, ← List.foldl_map, List.sum_eq_foldl]

/-! ## The slices of a buffer -/

/-- The frame page `vpn` maps to, `0` for a page with no entry. -/
def PageTable.ppnAt (pageTable : PageTable) (vpn : ℕ) : ℕ :=
  ((pageTable.translate vpn).map PageTableEntry.ppn).getD 0

/-- The part of the frame of page `vpn` that backs `[start, stop)`. -/
def pageSlice (pageTable : PageTable) (start stop vpn : ℕ) : FrameSlice :=
  ⟨pageTable.ppnAt vpn, max start (vpn * pageSize) - vpn * pageSize,
    min stop ((vpn + 1) * pageSize) - vpn * pageSize⟩

/-- The number of pages `[ptr, ptr + len)` overlaps. -/
def pagesOverlapped (ptr len : ℕ) : ℕ :=
  if len = 0 then 0 else floorPage (ptr + len - 1) + 1 - floorPage ptr

theorem usizeOfVirtAddr_of_lt {va : ℕ} (hva : va < 2 ^ (vaWidthSv39 - 1)) : usizeOfVirtAddr va = va := by
  rw [usizeOfVirtAddr, if_neg (Nat.not_le.mpr hva)]

theorem le_usizeOfVirtAddr (va : ℕ) : va ≤ usizeOfVirtAddr va := by
  unfold usizeOfVirtAddr
  split_ifs
  · exact Nat.left_le_or
  · exact le_rfl

section Loop

variable {pageTable : PageTable} {stop : ℕ} (hstop : stop ≤ 2 ^ (vaWidthSv39 - 1))
include hstop

omit hstop in
/-- A turn at `start` below `stop` cuts the slice of the page of `start` up to
the next boundary or `stop`, whichever comes first. -/
theorem turnSlice_eq {start ppn : ℕ} (hlt : start < stop) :
    (if min ((floorPage start + 1) * pageSize) stop % pageSize = 0 then
        FrameSlice.ofFrame ppn (start % pageSize) pageSize
      else FrameSlice.ofFrame ppn (start % pageSize) (min ((floorPage start + 1) * pageSize) stop % pageSize)) =
      .ok ⟨ppn, max start (floorPage start * pageSize) - floorPage start * pageSize,
        min stop ((floorPage start + 1) * pageSize) - floorPage start * pageSize⟩ := by
  unfold FrameSlice.ofFrame floorPage pageSize
  split_ifs <;> congr 2 <;> omega

/-- One turn of the loop, at a mapped page: the page's slice, then the loop
from the next boundary or `stop`. -/
theorem translatedByteBufferLoop_turn {start fuel : ℕ} {rest : List FrameSlice} (hlt : start < stop)
    (hmapped : ∃ pte, pageTable.translate (floorPage start) = some pte)
    (hrest : (translatedByteBufferLoop pageTable stop fuel
      (usizeOfVirtAddr (min ((floorPage start + 1) * pageSize) stop))).run = some (.ok rest)) :
    (translatedByteBufferLoop pageTable stop (fuel + 1) start).run =
      some (.ok (pageSlice pageTable start stop (floorPage start) :: rest)) := by
  obtain ⟨pte, hpte⟩ := hmapped
  have hcanon : ∀ {va}, va ≤ stop → virtAddr va = .ok va := fun hva =>
    virtAddr_of_lt (lt_of_le_of_lt (hva.trans hstop) (by decide))
  -- the next boundary is far below `2 ^ 64`, so the shift drops nothing
  have hnext : (floorPage start + 1) * pageSize % usizeModulus = (floorPage start + 1) * pageSize := by
    apply Nat.mod_eq_of_lt
    unfold floorPage pageSize usizeModulus vaWidthSv39 at *
    omega
  have hstart : (liftExcept (virtAddr start) : Fuelled Panic ℕ).run = some (.ok start) := by
    rw [run_liftExcept, hcanon hlt.le]
  have hppn : (liftExcept (translatePpn pageTable (floorPage start)) : Fuelled Panic ℕ).run =
      some (.ok pte.ppn) := by
    rw [run_liftExcept, translatePpn, show pageTable.translate (floorPage start) = some pte from hpte]
  have hstopVa : (liftExcept (virtAddr stop) : Fuelled Panic ℕ).run = some (.ok stop) := by
    rw [run_liftExcept, hcanon le_rfl]
  have hslice : (liftExcept (if min ((floorPage start + 1) * pageSize) stop % pageSize = 0 then
        FrameSlice.ofFrame pte.ppn (start % pageSize) pageSize
      else FrameSlice.ofFrame pte.ppn (start % pageSize)
        (min ((floorPage start + 1) * pageSize) stop % pageSize)) : Fuelled Panic FrameSlice).run =
      some (.ok (pageSlice pageTable start stop (floorPage start))) := by
    rw [run_liftExcept, turnSlice_eq hlt]
    simp only [pageSlice, PageTable.ppnAt, hpte, Option.map_some, Option.getD_some]
  rw [translatedByteBufferLoop, if_pos hlt, run_bind_of_ok hstart, run_bind_of_ok hppn,
    run_bind_of_ok hstopVa]
  simp only [hnext]
  rw [run_bind_of_ok hslice, run_bind_of_ok hrest]
  rfl

omit hstop in
/-- From `stop` on, the loop has nothing left to do. -/
theorem translatedByteBufferLoop_of_le {start fuel : ℕ} (hle : stop ≤ start) :
    (translatedByteBufferLoop pageTable stop (fuel + 1) start).run = some (.ok []) := by
  rw [translatedByteBufferLoop, if_neg (Nat.not_lt.mpr hle)]
  rfl

omit hstop in
/-- A buffer that is not empty overlaps the page of its first byte. -/
theorem floorPage_lt_of_lt {start : ℕ} (hlt : start < stop) : floorPage start < floorPage (stop - 1) + 1 := by
  unfold floorPage pageSize
  omega

omit hstop in
/-- Pages past the first one are sliced from their start, whichever address
in or before the first page the buffer starts at. -/
theorem pageSlice_of_le {start start' vpn : ℕ} (hstart : start ≤ vpn * pageSize)
    (hstart' : start' ≤ vpn * pageSize) :
    pageSlice pageTable start stop vpn = pageSlice pageTable start' stop vpn := by
  rw [pageSlice, pageSlice, max_eq_right hstart, max_eq_right hstart']

omit hstop in
theorem lt_floorPage_succ_mul (start : ℕ) : start < (floorPage start + 1) * pageSize := by
  unfold floorPage pageSize
  omega

omit hstop in
/-- The slices of the pages after the first are the same from the next
boundary as from `start`. -/
theorem map_pageSlice_next (start n : ℕ) :
    (List.range' (floorPage start + 1) n).map (pageSlice pageTable ((floorPage start + 1) * pageSize) stop) =
      (List.range' (floorPage start + 1) n).map (pageSlice pageTable start stop) := by
  apply List.map_congr_left
  intro vpn hvpn
  have hvP : (floorPage start + 1) * pageSize ≤ vpn * pageSize :=
    Nat.mul_le_mul_right _ (List.mem_range'_1.mp hvpn).1
  exact pageSlice_of_le hvP ((lt_floorPage_succ_mul start).le.trans hvP)

/-- The loop from `start` returns the slices of the pages of `[start, stop)`,
in order, when each of them is mapped and the fuel outlasts them.  The
induction is on the pages left; each turn is `translatedByteBufferLoop_turn`. -/
theorem translatedByteBufferLoop_pages (n : ℕ) :
    ∀ {start fuel : ℕ}, start < stop → floorPage (stop - 1) + 1 = floorPage start + n → n < fuel →
      (∀ vpn, floorPage start ≤ vpn → vpn < floorPage start + n →
        ∃ pte, pageTable.translate vpn = some pte) →
      (translatedByteBufferLoop pageTable stop fuel start).run =
        some (.ok ((List.range' (floorPage start) n).map (pageSlice pageTable start stop))) := by
  induction n with
  | zero =>
    intro start fuel hlt hpages _ _
    exact absurd hpages (Nat.ne_of_gt (floorPage_lt_of_lt hlt))
  | succ n ih =>
    intro start fuel hlt hpages hfuel hmapped
    obtain ⟨fuel, rfl⟩ : ∃ f, fuel = f + 1 := ⟨fuel - 1, by omega⟩
    have hfirst := hmapped (floorPage start) le_rfl (by omega)
    by_cases hcross : (floorPage start + 1) * pageSize < stop
    · -- the buffer goes on past the page's end: the rest starts at the next page
      have hnext : floorPage ((floorPage start + 1) * pageSize) = floorPage start + 1 := by
        unfold floorPage
        exact Nat.mul_div_cancel _ pageSize_pos
      have hrest := @ih ((floorPage start + 1) * pageSize) fuel hcross (by rw [hnext]; omega)
        (by omega) (fun vpn hlo hhi => hmapped vpn (by omega) (by omega))
      have hrest' : (translatedByteBufferLoop pageTable stop fuel
          (usizeOfVirtAddr (min ((floorPage start + 1) * pageSize) stop))).run =
          some (.ok ((List.range' (floorPage start + 1) n).map
            (pageSlice pageTable ((floorPage start + 1) * pageSize) stop))) := by
        rw [min_eq_left hcross.le, usizeOfVirtAddr_of_lt (by omega), hrest, hnext]
      rw [translatedByteBufferLoop_turn hstop hlt hfirst hrest', List.range'_succ, List.map_cons,
        map_pageSlice_next]
    · -- the page holds the end of the buffer: this is the last turn
      have hlast : n = 0 := by
        unfold floorPage pageSize at *
        omega
      subst hlast
      obtain ⟨fuel, rfl⟩ : ∃ f, fuel = f + 1 := ⟨fuel - 1, by omega⟩
      have hdone := @translatedByteBufferLoop_of_le pageTable stop
        (usizeOfVirtAddr (min ((floorPage start + 1) * pageSize) stop)) fuel
        (by rw [min_eq_right (Nat.not_lt.mp hcross)]; exact le_usizeOfVirtAddr stop)
      rw [translatedByteBufferLoop_turn hstop hlt hfirst hdone]
      rfl

end Loop

/-! ## What the slices hold -/

section Bytes

variable {pageTable : PageTable} {stop : ℕ} (phys : PhysMem)

theorem map_some_load (addr n : ℕ) :
    (load phys addr n).map some = (List.range n).map fun i => some (phys (addr + i)) := by
  apply List.ext_getElem (by simp)
  intro i _ _
  simp

/-- The bytes of the first slice are the user bytes from `start` up to the
next boundary or `stop`. -/
theorem bytes_pageSlice_first {start : ℕ} {pte : PageTableEntry}
    (hpte : pageTable.translate (floorPage start) = some pte) :
    ((pageSlice pageTable start stop (floorPage start)).bytes phys).map some =
      (List.range (min ((floorPage start + 1) * pageSize) stop - start)).map
        fun i => pageTable.userByte phys (start + i) := by
  have hfloor : floorPage start * pageSize ≤ start := by
    unfold floorPage pageSize
    omega
  have hlen : min stop ((floorPage start + 1) * pageSize) - floorPage start * pageSize -
      (start - floorPage start * pageSize) = min ((floorPage start + 1) * pageSize) stop - start := by
    rw [min_comm]
    omega
  simp only [FrameSlice.bytes, FrameSlice.len, pageSlice, PageTable.ppnAt, hpte, Option.map_some,
    Option.getD_some, max_eq_left hfloor, hlen, map_some_load]
  apply List.map_congr_left
  intro i hi
  -- a byte before the next boundary lies in the page of `start`
  have hin : start + i < (floorPage start + 1) * pageSize := by
    have := List.mem_range.mp hi
    omega
  have hpage : floorPage (start + i) = floorPage start := by
    unfold floorPage pageSize at *
    omega
  have hoff : (start + i) % pageSize = start - floorPage start * pageSize + i := by
    unfold floorPage pageSize at *
    omega
  rw [PageTable.userByte, hpage, hpte, Option.map_some, hoff, Nat.add_assoc]

/-- The bytes of the slices of `[start, stop)` are its user bytes, in order.
The induction is the loop's, on the pages left. -/
theorem flatMap_bytes_pageSlices (n : ℕ) :
    ∀ {start : ℕ}, start < stop → floorPage (stop - 1) + 1 = floorPage start + n →
      (∀ vpn, floorPage start ≤ vpn → vpn < floorPage start + n →
        ∃ pte, pageTable.translate vpn = some pte) →
      (((List.range' (floorPage start) n).map (pageSlice pageTable start stop)).flatMap
          (FrameSlice.bytes phys)).map some =
        (List.range (stop - start)).map fun i => pageTable.userByte phys (start + i) := by
  induction n with
  | zero =>
    intro start hlt hpages _
    exact absurd hpages (Nat.ne_of_gt (floorPage_lt_of_lt hlt))
  | succ n ih =>
    intro start hlt hpages hmapped
    obtain ⟨pte, hpte⟩ := hmapped (floorPage start) le_rfl (by omega)
    rw [List.range'_succ, List.map_cons, List.flatMap_cons, List.map_append,
      bytes_pageSlice_first phys hpte]
    by_cases hcross : (floorPage start + 1) * pageSize < stop
    · -- the rest of the buffer starts at the next boundary
      have hnext : floorPage ((floorPage start + 1) * pageSize) = floorPage start + 1 := by
        unfold floorPage
        exact Nat.mul_div_cancel _ pageSize_pos
      have hrest := @ih ((floorPage start + 1) * pageSize) hcross (by rw [hnext]; omega)
        (fun vpn hlo hhi => hmapped vpn (by omega) (by omega))
      rw [hnext, map_pageSlice_next] at hrest
      have hsplit : stop - start = ((floorPage start + 1) * pageSize - start) +
          (stop - (floorPage start + 1) * pageSize) := by
        have := lt_floorPage_succ_mul start
        omega
      rw [hrest, min_eq_left hcross.le, hsplit, List.range_add, List.map_append, List.map_map]
      congr 1
      apply List.map_congr_left
      intro i _
      simp only [Function.comp_apply]
      congr 1
      have := lt_floorPage_succ_mul start
      omega
    · -- the page holds the end of the buffer
      have hlast : n = 0 := by
        unfold floorPage pageSize at *
        omega
      subst hlast
      rw [min_eq_right (Nat.not_lt.mp hcross)]
      simp

end Bytes

/-- The lengths of the slices add up to the bytes they hold. -/
theorem length_flatMap_bytes (phys : PhysMem) (slices : List FrameSlice) :
    (slices.flatMap (FrameSlice.bytes phys)).length = (slices.map FrameSlice.len).sum := by
  rw [List.length_flatMap]
  simp [FrameSlice.bytes]

/-- For a buffer in the lower half of the address space whose pages are all
mapped, `translated_byte_buffer` returns one slice per page, in order: the
part of the page's frame that backs the buffer.  `UserBuffer::len` of them is
`len`, and their bytes are the user bytes of the buffer. -/
theorem translatedByteBuffer_slices (phys : PhysMem) (pageTable : PageTable) {ptr len fuel : ℕ}
    (hcanon : ptr + len ≤ 2 ^ (vaWidthSv39 - 1))
    (hmapped : ∀ vpn, floorPage ptr ≤ vpn → vpn * pageSize < ptr + len →
      ∃ pte, pageTable.translate vpn = some pte)
    (hfuel : pagesOverlapped ptr len < fuel) :
    ∃ slices, (translatedByteBuffer fuel pageTable ptr len).run = some (.ok slices) ∧
      slices.length = pagesOverlapped ptr len ∧
      (∀ j (hj : j < slices.length), ∃ pte, pageTable.translate (floorPage ptr + j) = some pte ∧
        slices[j] = ⟨pte.ppn, max ptr ((floorPage ptr + j) * pageSize) - (floorPage ptr + j) * pageSize,
          min (ptr + len) ((floorPage ptr + j + 1) * pageSize) - (floorPage ptr + j) * pageSize⟩) ∧
      (UserBuffer.mk slices).len = len ∧
      (slices.flatMap (FrameSlice.bytes phys)).map some =
        (List.range len).map fun i => pageTable.userByte phys (ptr + i) := by
  have hstop : (ptr + len) % usizeModulus = ptr + len := by
    apply Nat.mod_eq_of_lt
    unfold usizeModulus vaWidthSv39 at *
    omega
  obtain ⟨fuel, rfl⟩ : ∃ f, fuel = f + 1 := ⟨fuel - 1, by omega⟩
  rcases Nat.eq_zero_or_pos len with hzero | hpos
  · -- an empty buffer gives no slice
    subst hzero
    refine ⟨[], ?_, by simp [pagesOverlapped], fun j hj => absurd hj (Nat.not_lt_zero j), rfl, rfl⟩
    rw [translatedByteBuffer, hstop]
    exact translatedByteBufferLoop_of_le (Nat.le_refl _)
  · set n := pagesOverlapped ptr len with hn
    have hlt : ptr < ptr + len := Nat.lt_add_of_pos_right hpos
    have hpages : floorPage (ptr + len - 1) + 1 = floorPage ptr + n := by
      rw [hn, pagesOverlapped, if_neg (Nat.pos_iff_ne_zero.mp hpos)]
      have := floorPage_lt_of_lt hlt
      omega
    -- the pages of the loop are the pages the buffer overlaps
    have hmapped' : ∀ vpn, floorPage ptr ≤ vpn → vpn < floorPage ptr + n →
        ∃ pte, pageTable.translate vpn = some pte := by
      intro vpn hlo hhi
      apply hmapped vpn hlo
      unfold floorPage pageSize at *
      omega
    have hloop := translatedByteBufferLoop_pages hcanon n hlt hpages hfuel hmapped'
    have hbytes := flatMap_bytes_pageSlices phys n hlt hpages hmapped'
    rw [Nat.add_sub_cancel_left] at hbytes
    refine ⟨_, by rw [translatedByteBuffer, hstop]; exact hloop, by simp, ?_, ?_, hbytes⟩
    · intro j hj
      have hjn : j < n := by simpa using hj
      obtain ⟨pte, hpte⟩ := hmapped' (floorPage ptr + j) (Nat.le_add_right _ _) (by omega)
      refine ⟨pte, hpte, ?_⟩
      simp only [List.getElem_map, List.getElem_range', Nat.one_mul, pageSlice, PageTable.ppnAt, hpte,
        Option.map_some, Option.getD_some]
    · have hlen := congrArg List.length hbytes
      rw [List.length_map, List.length_map, List.length_range, length_flatMap_bytes] at hlen
      rw [UserBuffer.len_eq_sum, hlen]

/-- A page table that maps pages `1` and `2` to frames `8` and `9`. -/
def twoPageTable : PageTable :=
  ⟨fun vpn => if vpn = 1 ∨ vpn = 2 then some ⟨vpn + 7, PTEFlags.V⟩ else none⟩

theorem translatedByteBuffer_slices_on_two_pages :
    0x1ff0 + 0x20 ≤ 2 ^ (vaWidthSv39 - 1) ∧
      (∀ vpn, floorPage 0x1ff0 ≤ vpn → vpn * pageSize < 0x1ff0 + 0x20 →
        ∃ pte, twoPageTable.translate vpn = some pte) ∧
      pagesOverlapped 0x1ff0 0x20 < 3 ∧
      ∃ slices, (translatedByteBuffer 3 twoPageTable 0x1ff0 0x20).run = some (.ok slices) ∧
        slices.length = pagesOverlapped 0x1ff0 0x20 ∧
        (∀ j (hj : j < slices.length), ∃ pte, twoPageTable.translate (floorPage 0x1ff0 + j) = some pte ∧
          slices[j] = ⟨pte.ppn, max 0x1ff0 ((floorPage 0x1ff0 + j) * pageSize) -
              (floorPage 0x1ff0 + j) * pageSize,
            min (0x1ff0 + 0x20) ((floorPage 0x1ff0 + j + 1) * pageSize) - (floorPage 0x1ff0 + j) * pageSize⟩) ∧
        (UserBuffer.mk slices).len = 0x20 ∧
        (slices.flatMap (FrameSlice.bytes fun _ => 0)).map some =
          (List.range 0x20).map fun i => twoPageTable.userByte (fun _ => 0) (0x1ff0 + i) := by
  have hmapped : ∀ vpn, floorPage 0x1ff0 ≤ vpn → vpn * pageSize < 0x1ff0 + 0x20 →
      ∃ pte, twoPageTable.translate vpn = some pte := by
    intro vpn hlo hhi
    have hvpn : vpn = 1 ∨ vpn = 2 := by
      unfold floorPage pageSize at *
      omega
    exact ⟨⟨vpn + 7, PTEFlags.V⟩, by simp [twoPageTable, PageTable.translate, hvpn]⟩
  exact ⟨by decide, hmapped, by decide,
    translatedByteBuffer_slices (fun _ => 0) twoPageTable (by decide) hmapped (by decide)⟩

end ChaosKernel
