import ChaosKernel.Lib.List
import ChaosKernel.Lib.TreeMap
import ChaosKernel.Mm.FrameAllocator
import ChaosKernel.Mm.PageTable

/-!
# Address spaces

`MemorySet` and `MapArea` of `os/src/mm/memory_set.rs`: a page table, the
areas mapped into it, and the two page maps `heap_area` and `mmap_area` that
`sys_brk` and `sys_mmap` fill.  Every function takes and returns the global frame
allocator, since mapping a framed page allocates a frame and dropping a
`FrameTracker` deallocates it.

The page table is the map of `ChaosKernel.Mm.PageTable`.  What `from_elf`,
`from_existed_user`, `build_stack` and the file-backed copy of `mmap` write into
the frames is not modelled here: only which pages are mapped to which frames.
-/

namespace ChaosKernel

open FrameAllocator Lib

/-- `KERNEL_SPACE_OFFSET`, the first virtual page of the kernel half. -/
def kernelSpaceOffset : ℕ := 0xffff_ffc0_0000_0

/-- `VPNRange`, i.e. `SimpleRange<VirtPageNum>`. -/
structure VPNRange where
  l : ℕ
  r : ℕ
  deriving DecidableEq, Repr

namespace VPNRange

/-- `SimpleRange::new`, which asserts `start <= end`. -/
def new (start stop : ℕ) : Except Panic VPNRange :=
  if start ≤ stop then .ok ⟨start, stop⟩ else .error (.rangeReversed start stop)

/-- The pages the range's iterator yields: from `l` up to, not including, `r`. -/
def pages (self : VPNRange) : List ℕ :=
  List.range' self.l (self.r - self.l)

theorem new_of_le {start stop : ℕ} (hle : start ≤ stop) : new start stop = .ok ⟨start, stop⟩ := by
  simp [new, hle]

theorem eq_of_new_eq_ok {start stop : ℕ} {range : VPNRange} (hnew : new start stop = .ok range) :
    range = ⟨start, stop⟩ := by
  unfold new at hnew
  split_ifs at hnew
  cases hnew
  rfl

@[simp]
theorem mem_pages {self : VPNRange} {vpn : ℕ} : vpn ∈ self.pages ↔ self.l ≤ vpn ∧ vpn < self.r := by
  simp only [pages, List.mem_range'_1]
  omega

theorem pages_nodup (self : VPNRange) : self.pages.Nodup :=
  List.nodup_range'

end VPNRange

/-- `MapType`. -/
inductive MapType
  | identical
  | framed
  deriving DecidableEq, Repr

/-- `MapPermission`, one field per bit: `R`, `W`, `X` and `U`. -/
structure MapPermission where
  r : Bool := false
  w : Bool := false
  x : Bool := false
  u : Bool := false
  deriving DecidableEq, Repr

namespace MapPermission

instance : OrOp MapPermission :=
  ⟨fun p q => ⟨p.r || q.r, p.w || q.w, p.x || q.x, p.u || q.u⟩⟩

def R : MapPermission := { r := true }
def W : MapPermission := { w := true }
def X : MapPermission := { x := true }
def U : MapPermission := { u := true }

/-- `PTEFlags::from_bits(self.map_perm.bits).unwrap()`: the four bits sit where
the flags of the same names do, so the conversion never fails. -/
def toPTEFlags (self : MapPermission) : PTEFlags :=
  { r := self.r, w := self.w, x := self.x, u := self.u }

end MapPermission

/-- `MapArea`. -/
structure MapArea where
  vpnRange : VPNRange
  dataFrames : Std.TreeMap ℕ ℕ
  mapType : MapType
  mapPerm : MapPermission

namespace MapArea

/-- `MapArea::new`: from the page of `start_va` to the page that ends at or
after `end_va`. -/
def new (startVa endVa : ℕ) (mapType : MapType) (mapPerm : MapPermission) :
    Except Panic MapArea :=
  (VPNRange.new (floorPage startVa) (ceilPage endVa)).map fun vpnRange =>
    { vpnRange := vpnRange, dataFrames := ∅, mapType := mapType, mapPerm := mapPerm }

/-- The frame `map_one` maps `vpn` to, and the area and allocator after: the
page's own frame shifted by `KERNEL_SPACE_OFFSET` for an identical area (a
`usize` subtraction), a new frame for a framed one. -/
def frameFor (self : MapArea) (frames : StackFrameAllocator) (vpn : ℕ) :
    Except Panic (ℕ × MapArea × StackFrameAllocator) :=
  match self.mapType with
  | .identical => .ok ((vpn + usizeModulus - kernelSpaceOffset) % usizeModulus, self, frames)
  | .framed => do
      let (ppn, frames) ← frameAllocUnwrap frames
      let (dataFrames, frames) ← insertFrame self.dataFrames vpn ppn frames
      pure (ppn, { self with dataFrames := dataFrames }, frames)

/-- `MapArea::map_one`. -/
def mapOne (self : MapArea) (pageTable : PageTable) (frames : StackFrameAllocator) (vpn : ℕ) :
    Except Panic (ℕ × MapArea × PageTable × StackFrameAllocator) := do
  let (ppn, self, frames) ← self.frameFor frames vpn
  let pageTable ← pageTable.map vpn ppn self.mapPerm.toPTEFlags
  pure (ppn, self, pageTable, frames)

/-- `MapArea::unmap_one`: a framed area drops the page's tracker first. -/
def unmapOne (self : MapArea) (pageTable : PageTable) (frames : StackFrameAllocator) (vpn : ℕ) :
    Except Panic (MapArea × PageTable × StackFrameAllocator) := do
  let (self, frames) ← match self.mapType with
    | .framed => do
        let (dataFrames, frames) ← removeFrame self.dataFrames vpn frames
        pure ({ self with dataFrames := dataFrames }, frames)
    | .identical => pure (self, frames)
  let pageTable ← pageTable.unmap vpn
  pure (self, pageTable, frames)

/-- The loop of `MapArea::map` over the pages left. -/
def mapPages (self : MapArea) (pageTable : PageTable) (frames : StackFrameAllocator) :
    List ℕ → Except Panic (MapArea × PageTable × StackFrameAllocator)
  | [] => .ok (self, pageTable, frames)
  | vpn :: vpns => do
      let (_, self, pageTable, frames) ← self.mapOne pageTable frames vpn
      self.mapPages pageTable frames vpns

/-- The loop of `MapArea::unmap` over the pages left. -/
def unmapPages (self : MapArea) (pageTable : PageTable) (frames : StackFrameAllocator) :
    List ℕ → Except Panic (MapArea × PageTable × StackFrameAllocator)
  | [] => .ok (self, pageTable, frames)
  | vpn :: vpns => do
      let (self, pageTable, frames) ← self.unmapOne pageTable frames vpn
      self.unmapPages pageTable frames vpns

/-- `MapArea::map`. -/
def map (self : MapArea) (pageTable : PageTable) (frames : StackFrameAllocator) :
    Except Panic (MapArea × PageTable × StackFrameAllocator) :=
  self.mapPages pageTable frames self.vpnRange.pages

/-- `MapArea::unmap`. -/
def unmap (self : MapArea) (pageTable : PageTable) (frames : StackFrameAllocator) :
    Except Panic (MapArea × PageTable × StackFrameAllocator) :=
  self.unmapPages pageTable frames self.vpnRange.pages

/-- Dropping a `MapArea`: the trackers left in `data_frames` are dropped in
page order. -/
def drop (self : MapArea) (frames : StackFrameAllocator) : Except Panic StackFrameAllocator :=
  self.dataFrames.foldlM (fun frames _ ppn => frames.dealloc ppn) frames

end MapArea

/-- The flags of `sys_mmap` that `MemorySet::mmap` tests. -/
structure MmapFlags where
  mapFixed : Bool
  mapAnonymous : Bool
  deriving DecidableEq, Repr

/-- `MemorySet`.  `mmap_base` and `mmap_end` are addresses. -/
structure MemorySet where
  pageTable : PageTable
  areas : List MapArea
  heapArea : Std.TreeMap ℕ ℕ
  mmapArea : Std.TreeMap ℕ ℕ
  mmapBase : ℕ
  mmapEnd : ℕ

namespace MemorySet

/-- `MemorySet::new_bare`. -/
def newBare : MemorySet :=
  { pageTable := .new, areas := [], heapArea := ∅, mmapArea := ∅, mmapBase := ChaosKernel.mmapBase,
    mmapEnd := ChaosKernel.mmapBase }

/-- `MemorySet::push` without data: map the area, then append it. -/
def push (self : MemorySet) (mapArea : MapArea) (frames : StackFrameAllocator) :
    Except Panic (MemorySet × StackFrameAllocator) := do
  let (mapArea, pageTable, frames) ← mapArea.map self.pageTable frames
  pure ({ self with pageTable := pageTable, areas := self.areas ++ [mapArea] }, frames)

/-- `MemorySet::insert_framed_area`. -/
def insertFramedArea (self : MemorySet) (startVa endVa : ℕ) (permission : MapPermission)
    (frames : StackFrameAllocator) : Except Panic (MemorySet × StackFrameAllocator) := do
  let mapArea ← MapArea.new startVa endVa .framed permission
  self.push mapArea frames

/-- The test of `remove_area_with_start_vpn`'s search. -/
def startsAt (startVpn : ℕ) (area : MapArea) : Bool :=
  area.vpnRange.l == startVpn

/-- `MemorySet::remove_area_with_start_vpn`: the first area starting at
`start_vpn` is unmapped, taken out of `areas` and dropped. -/
def removeAreaWithStartVpn (self : MemorySet) (startVpn : ℕ) (frames : StackFrameAllocator) :
    Except Panic (MemorySet × StackFrameAllocator) :=
  match self.areas.find? (startsAt startVpn) with
  | some area => do
      let (area, pageTable, frames) ← area.unmap self.pageTable frames
      let frames ← area.drop frames
      pure ({ self with pageTable := pageTable, areas := self.areas.eraseP (startsAt startVpn) },
        frames)
  | none => .ok (self, frames)

/-- The `loop` of `MemorySet::map_heap` from `current_addr`, for at most `fuel`
passes: map the page of `current_addr` to a new frame, record it in
`heap_area`, and step one page on (`VirtAddr::from` checks the new address). -/
def mapHeapLoop : ℕ → MemorySet → StackFrameAllocator → ℕ → ℕ →
    Except Panic (MemorySet × StackFrameAllocator)
  | 0, self, frames, _, _ => .ok (self, frames)
  | fuel + 1, self, frames, currentAddr, aimAddr =>
      if currentAddr ≥ aimAddr then .ok (self, frames)
      else do
        let (ppn, frames) ← frameAllocUnwrap frames
        let vpn := floorPage currentAddr
        let pageTable ← self.pageTable.map vpn ppn (PTEFlags.U ||| PTEFlags.R ||| PTEFlags.W)
        let (heapArea, frames) ← insertFrame self.heapArea vpn ppn frames
        let currentAddr ← virtAddr ((currentAddr + pageSize) % usizeModulus)
        mapHeapLoop fuel { self with pageTable := pageTable, heapArea := heapArea } frames
          currentAddr aimAddr

/-- `MemorySet::map_heap`.  The address steps by one page modulo `2 ^ 64` and
must stay canonical, so the loop ends or panics within `2 ^ 52 + 1` passes; the
fuel is that bound. -/
def mapHeap (self : MemorySet) (currentAddr aimAddr : ℕ) (frames : StackFrameAllocator) :
    Except Panic (MemorySet × StackFrameAllocator) :=
  mapHeapLoop (usizeModulus / pageSize + 1) self frames currentAddr aimAddr

/-- The flags `mmap` maps every page with. -/
def mmapFlags : PTEFlags := PTEFlags.R ||| PTEFlags.W ||| PTEFlags.U ||| PTEFlags.X

/-- The body of both loops of `mmap`: a new frame for `vpn`, recorded in
`mmap_area` (which drops any tracker it replaces), then mapped. -/
def mmapPage (self : MemorySet) (frames : StackFrameAllocator) (vpn : ℕ) :
    Except Panic (MemorySet × StackFrameAllocator) := do
  let (ppn, frames) ← frameAllocUnwrap frames
  let (mmapArea, frames) ← insertFrame self.mmapArea vpn ppn frames
  let pageTable ← self.pageTable.map vpn ppn mmapFlags
  pure ({ self with mmapArea := mmapArea, pageTable := pageTable }, frames)

/-- The loop of a `MAP_FIXED` `mmap`: a page `mmap_area` already holds is
skipped, any other gets a new frame. -/
def mmapFixedPages (self : MemorySet) (frames : StackFrameAllocator) :
    List ℕ → Except Panic (MemorySet × StackFrameAllocator)
  | [] => .ok (self, frames)
  | vpn :: vpns =>
      match self.mmapArea[vpn]? with
      | some _ => mmapFixedPages self frames vpns
      | none => do
          let (self, frames) ← mmapPage self frames vpn
          mmapFixedPages self frames vpns

/-- The loop of an `mmap` without `MAP_FIXED`: every page gets a new frame. -/
def mmapPages (self : MemorySet) (frames : StackFrameAllocator) :
    List ℕ → Except Panic (MemorySet × StackFrameAllocator)
  | [] => .ok (self, frames)
  | vpn :: vpns => do
      let (self, frames) ← mmapPage self frames vpn
      mmapPages self frames vpns

/-- The copy loop of a file-backed `mmap`, for at most `fuel` passes: each
pass takes `context[start..min(len, start + PAGE_SIZE)]`, which panics unless
`start` is at most that end and the end at most `context.len()`, and looks up
the frame of the current page with `translate(..).unwrap()`.  The bytes are not
modelled, so only the panics are. -/
def copyContextLoop : ℕ → PageTable → ℕ → ℕ → ℕ → ℕ → Except Panic Unit
  | 0, _, _, _, _, _ => .ok ()
  | fuel + 1, pageTable, contextLen, len, start, vpn =>
      let stop := min len ((start + pageSize) % usizeModulus)
      if start ≤ stop ∧ stop ≤ contextLen then
        match pageTable.translate vpn with
        | some _ =>
            let start := (start + pageSize) % usizeModulus
            if start ≥ len then .ok ()
            else copyContextLoop fuel pageTable contextLen len start (vpn + 1)
        | none => .error .unwrapNone
      else .error (.sliceOutOfRange start stop contextLen)

/-- `MemorySet::mmap`: the range starts at the rounded-up `start_addr` with
`MAP_FIXED` and a nonzero address, and at the rounded-up `mmap_end` otherwise;
`mmap_end` moves one page past the range's end either way.  Returns the start
of the range. -/
def mmap (self : MemorySet) (startAddr len offset : ℕ) (contextLen : ℕ) (flags : MmapFlags)
    (frames : StackFrameAllocator) : Except Panic (ℤ × MemorySet × StackFrameAllocator) := do
  let fixed := flags.mapFixed && startAddr != 0
  let base := if fixed then startAddr else self.mmapEnd
  let startAddrAlign := alignUp base
  let endAddrAlign := alignUp ((base + len) % usizeModulus)
  let mmapEnd ← virtAddr ((endAddrAlign + pageSize) % usizeModulus)
  let self := { self with mmapEnd := mmapEnd }
  let startVpn := floorPage (← virtAddr startAddrAlign)
  let endVpn := floorPage (← virtAddr endAddrAlign)
  let vpnRange ← VPNRange.new startVpn endVpn
  let (self, frames) ← if fixed then mmapFixedPages self frames vpnRange.pages
    else mmapPages self frames vpnRange.pages
  if !flags.mapAnonymous then
    copyContextLoop (len / pageSize + 2) self.pageTable contextLen len offset vpnRange.l
  pure (usizeToIsize startAddrAlign, self, frames)

/-- The loop of `MemorySet::munmap`: each page's tracker leaves `mmap_area`. -/
def munmapPages (self : MemorySet) (frames : StackFrameAllocator) :
    List ℕ → Except Panic (MemorySet × StackFrameAllocator)
  | [] => .ok (self, frames)
  | vpn :: vpns => do
      let (mmapArea, frames) ← removeFrame self.mmapArea vpn frames
      munmapPages { self with mmapArea := mmapArea } frames vpns

/-- `MemorySet::munmap`: only `mmap_area` is edited; the page table is not. -/
def munmap (self : MemorySet) (startAddr len : ℕ) (frames : StackFrameAllocator) :
    Except Panic (ℤ × MemorySet × StackFrameAllocator) := do
  let startAddrAlign := alignUp startAddr
  let endAddrAlign := alignUp ((startAddr + len) % usizeModulus)
  let startVpn := floorPage (← virtAddr startAddrAlign)
  let endVpn := floorPage (← virtAddr endAddrAlign)
  let vpnRange ← VPNRange.new startVpn endVpn
  let (self, frames) ← munmapPages self frames vpnRange.pages
  pure (0, self, frames)

/-! ### Specifications -/

/-- The frames a page map holds once the pages `[first, first + count)` have
been given the frames from `ppn` on. -/
def frameRun (frames : Std.TreeMap ℕ ℕ) (first count ppn : ℕ) : ℕ → Option ℕ :=
  fun vpn => if first ≤ vpn ∧ vpn < first + count then some (ppn + (vpn - first)) else frames[vpn]?

theorem frameRun_zero (frames : Std.TreeMap ℕ ℕ) (first ppn vpn : ℕ) :
    frameRun frames first 0 ppn vpn = frames[vpn]? := by
  simp only [frameRun]
  rw [if_neg (by omega)]

theorem frameRun_succ (frames : Std.TreeMap ℕ ℕ) (first count ppn vpn : ℕ) :
    frameRun (frames.insert first ppn) (first + 1) count (ppn + 1) vpn =
      frameRun frames first (count + 1) ppn vpn := by
  simp only [frameRun, getElem?_insert_eq_ite]
  by_cases hfirst : first = vpn
  · subst hfirst
    simp
  · by_cases hrun : first + 1 ≤ vpn ∧ vpn < first + 1 + count
    · have hppn : ppn + 1 + (vpn - (first + 1)) = ppn + (vpn - first) := by omega
      rw [if_pos hrun, if_pos (by omega), hppn]
    · have hout : ¬(first ≤ vpn ∧ vpn < first + (count + 1)) := by omega
      rw [if_neg hrun, if_neg hfirst, if_neg hout]

/-- The flags `map_heap` maps every heap page with. -/
def heapFlags : PTEFlags := PTEFlags.U ||| PTEFlags.R ||| PTEFlags.W

/-- A pass of `map_heap` at a page that is already mapped panics, once a frame
has been allocated for it. -/
theorem mapHeapLoop_of_mapped {fuel : ℕ} {self : MemorySet} {frames : StackFrameAllocator}
    {currentAddr aimAddr : ℕ} (hlt : currentAddr < aimAddr) (hframe : frames.current ≠ frames.«end»)
    (hmapped : (self.pageTable.entries (floorPage currentAddr)).isSome) :
    mapHeapLoop (fuel + 1) self frames currentAddr aimAddr =
      .error (.mappedBeforeMapping (floorPage currentAddr)) := by
  have hmap : self.pageTable.map (floorPage currentAddr) frames.current heapFlags =
      .error (.mappedBeforeMapping (floorPage currentAddr)) :=
    PageTable.map_eq_error_iff.2 ⟨hmapped, rfl⟩
  simp only [heapFlags] at hmap
  simp [mapHeapLoop, Nat.not_le.2 hlt, frameAllocUnwrap_of_ne hframe, hmap, bind, Except.bind]

/-- A pass of `map_heap` with no frame left panics in `frame_alloc().unwrap()`. -/
theorem mapHeapLoop_of_no_frame {fuel : ℕ} {self : MemorySet} {frames : StackFrameAllocator}
    {currentAddr aimAddr : ℕ} (hlt : currentAddr < aimAddr) (hempty : frames.current = frames.«end») :
    mapHeapLoop (fuel + 1) self frames currentAddr aimAddr = .error .unwrapNone := by
  simp [mapHeapLoop, Nat.not_le.2 hlt, frameAllocUnwrap_of_eq hempty, bind, Except.bind]

/-- `map_heap` from the page `first` to the page `first + count`, over pages
that are neither mapped nor in `heap_area` and with `count` frames left, maps
them in order to the next `count` frames and records them in `heap_area`. -/
theorem mapHeapLoop_fresh (count : ℕ) :
    ∀ {fuel : ℕ} {self : MemorySet} {frames : StackFrameAllocator} {first : ℕ},
      count < fuel → (first + count) * pageSize < 2 ^ vaWidthSv39 →
      (∀ k < count, self.pageTable.entries (first + k) = none) →
      (∀ k < count, self.heapArea[first + k]? = none) →
      frames.current + count ≤ frames.«end» →
      ∃ next, mapHeapLoop fuel self frames (first * pageSize) ((first + count) * pageSize) =
          .ok (next, { frames with current := frames.current + count }) ∧
        next.areas = self.areas ∧ next.mmapArea = self.mmapArea ∧
        next.mmapBase = self.mmapBase ∧ next.mmapEnd = self.mmapEnd ∧
        next.pageTable.entries =
          PageTable.mappedRun self.pageTable.entries first count frames.current heapFlags ∧
        ∀ vpn, next.heapArea[vpn]? = frameRun self.heapArea first count frames.current vpn := by
  induction count with
  | zero =>
      intro fuel self frames first hfuel _ _ _ _
      obtain ⟨fuel, rfl⟩ : ∃ f, fuel = f + 1 := ⟨fuel - 1, by omega⟩
      refine ⟨self, ?_, rfl, rfl, rfl, rfl, by rw [PageTable.mappedRun_zero], fun vpn => ?_⟩
      · simp [mapHeapLoop]
      · rw [frameRun_zero]
  | succ count ih =>
      intro fuel self frames first hfuel hbound hfree hheap hframes
      obtain ⟨fuel, rfl⟩ : ∃ f, fuel = f + 1 := ⟨fuel - 1, by omega⟩
      have hpage := pageSize_pos
      have hlt : first * pageSize < (first + (count + 1)) * pageSize :=
        Nat.mul_lt_mul_of_pos_right (by omega) hpage
      have hframe : frames.current ≠ frames.«end» := by omega
      have hfloor : floorPage (first * pageSize) = first := by
        simp [floorPage, Nat.mul_div_cancel _ hpage]
      have hnext : (first * pageSize + pageSize) % usizeModulus = (first + 1) * pageSize := by
        have : (first + 1) * pageSize < usizeModulus := by
          have h39 : (2 : ℕ) ^ vaWidthSv39 ≤ usizeModulus := by decide
          nlinarith
        rw [Nat.mod_eq_of_lt (by nlinarith), Nat.succ_mul]
      have hcanonical : virtAddr ((first + 1) * pageSize) = .ok ((first + 1) * pageSize) :=
        virtAddr_of_lt (by nlinarith)
      have hfree0 := hfree 0 (by omega)
      have hheap0 := hheap 0 (by omega)
      rw [Nat.add_zero] at hfree0 hheap0
      -- the rest of the loop starts one page on
      obtain ⟨next, hloop, hareas, hmmap, hbase, hend, hentries, hframesOf⟩ :=
        @ih fuel
          { self with
            pageTable := ⟨Function.update self.pageTable.entries first
              (some ⟨frames.current, PageTable.leafFlags heapFlags⟩)⟩
            heapArea := self.heapArea.insert first frames.current }
          { frames with current := frames.current + 1 } (first + 1)
          (by omega) (by rw [show first + 1 + count = first + (count + 1) by omega]; exact hbound)
          (fun k hk => by
            simp only
            rw [Function.update_of_ne (by omega), show first + 1 + k = first + (k + 1) by omega]
            exact hfree (k + 1) (by omega))
          (fun k hk => by
            simp only [getElem?_insert_eq_ite]
            rw [if_neg (by omega), show first + 1 + k = first + (k + 1) by omega]
            exact hheap (k + 1) (by omega))
          (by simp only; omega)
      refine ⟨next, ?_, hareas, hmmap, hbase, hend, ?_, fun vpn => ?_⟩
      · have hgrow : ¬first * pageSize ≥ (first + 1 + count) * pageSize := by
          rw [show first + 1 + count = first + (count + 1) by omega]
          omega
        rw [show first + (count + 1) = first + 1 + count by omega]
        simp only [mapHeapLoop, hgrow, if_false, frameAllocUnwrap_of_ne hframe, hfloor, bind,
          Except.bind, PageTable.map_of_none hfree0, insertFrame_of_none hheap0, hnext, hcanonical]
        rw [← heapFlags, hloop, Nat.add_assoc, Nat.add_comm 1 count]
      · rw [hentries]
        exact PageTable.mappedRun_succ _ _ _ _ _
      · rw [hframesOf]
        exact frameRun_succ _ _ _ _ _

/-- The same loop with fewer frames left than pages to map runs out of frames
on the way. -/
theorem mapHeapLoop_fresh_exhausted (count : ℕ) :
    ∀ {fuel : ℕ} {self : MemorySet} {frames : StackFrameAllocator} {first : ℕ},
      count < fuel → (first + count) * pageSize < 2 ^ vaWidthSv39 →
      (∀ k < count, self.pageTable.entries (first + k) = none) →
      (∀ k < count, self.heapArea[first + k]? = none) →
      frames.current ≤ frames.«end» → frames.«end» < frames.current + count →
      mapHeapLoop fuel self frames (first * pageSize) ((first + count) * pageSize) =
        .error .unwrapNone := by
  induction count with
  | zero =>
      intro fuel self frames first _ _ _ _ hle hlt
      omega
  | succ count ih =>
      intro fuel self frames first hfuel hbound hfree hheap hle hlt
      obtain ⟨fuel, rfl⟩ : ∃ f, fuel = f + 1 := ⟨fuel - 1, by omega⟩
      have hpage := pageSize_pos
      have hgrow : ¬first * pageSize ≥ (first + (count + 1)) * pageSize := by
        have : first * pageSize < (first + (count + 1)) * pageSize :=
          Nat.mul_lt_mul_of_pos_right (by omega) hpage
        omega
      by_cases hempty : frames.current = frames.«end»
      · exact mapHeapLoop_of_no_frame (by omega) hempty
      · have hfloor : floorPage (first * pageSize) = first := by
          simp [floorPage, Nat.mul_div_cancel _ hpage]
        have hnext : (first * pageSize + pageSize) % usizeModulus = (first + 1) * pageSize := by
          have : (first + 1) * pageSize < usizeModulus := by
            have h39 : (2 : ℕ) ^ vaWidthSv39 ≤ usizeModulus := by decide
            nlinarith
          rw [Nat.mod_eq_of_lt (by nlinarith), Nat.succ_mul]
        have hfree0 := hfree 0 (by omega)
        have hheap0 := hheap 0 (by omega)
        rw [Nat.add_zero] at hfree0 hheap0
        have hrest := @ih fuel
          { self with
            pageTable := ⟨Function.update self.pageTable.entries first
              (some ⟨frames.current, PageTable.leafFlags heapFlags⟩)⟩
            heapArea := self.heapArea.insert first frames.current }
          { frames with current := frames.current + 1 } (first + 1)
          (by omega) (by rw [show first + 1 + count = first + (count + 1) by omega]; exact hbound)
          (fun k hk => by
            simp only
            rw [Function.update_of_ne (by omega), show first + 1 + k = first + (k + 1) by omega]
            exact hfree (k + 1) (by omega))
          (fun k hk => by
            simp only [getElem?_insert_eq_ite]
            rw [if_neg (by omega), show first + 1 + k = first + (k + 1) by omega]
            exact hheap (k + 1) (by omega))
          (by simp only; omega) (by simp only; omega)
        rw [show first + 1 + count = first + (count + 1) by omega] at hrest
        simp only [mapHeapLoop, hgrow, if_false, frameAllocUnwrap_of_ne hempty, hfloor, bind,
          Except.bind, PageTable.map_of_none hfree0, insertFrame_of_none hheap0, hnext,
          virtAddr_of_lt (show (first + 1) * pageSize < 2 ^ vaWidthSv39 by nlinarith)]
        rw [← heapFlags, hrest]

end MemorySet

end ChaosKernel
