import ChaosKernel.Mm.MemorySet

/-!
# The user heap

`sys_brk` of `os/src/syscall/process.rs` over `MemorySet::map_heap`.  The heap
of a task runs from `heap_base` to `heap_end`; growing it past the page that
holds `heap_end` maps the pages from `heap_end` up to the rounded-up new end and
records their frames in `heap_area`, and shrinking it only moves `heap_end`.

`HeapInv` describes the heap after any history of calls: the pages of
`heap_area` are those from `heap_base` up to a top page, every one of them is
mapped to its frame, nothing above is mapped, and `heap_end` lies at or below
the top.  Shrinking leaves the top where it is, so `heap_end` can end below it;
the next growth then starts `map_heap` at a page that is already mapped.
-/

namespace ChaosKernel.Heap

open FrameAllocator MemorySet

/-- `EINVAL`. -/
def einval : ℤ := -22

/-- The fields of `TaskControlBlockInner` that `sys_brk` reads and writes. -/
structure HeapTask where
  heapBase : ℕ
  heapEnd : ℕ
  memorySet : MemorySet

/-- `sys_brk`. -/
def sysBrk (task : HeapTask) (frames : StackFrameAllocator) (addr : ℕ) :
    Except Panic (ℤ × HeapTask × StackFrameAllocator) :=
  if addr = 0 then .ok (usizeToIsize task.heapEnd, task, frames)
  else if addr < task.heapBase then .ok (einval, task, frames)
  else
    let alignAddr := alignUp addr
    let alignEnd := alignUp task.heapEnd
    if alignEnd ≥ addr then do
      let heapEnd ← virtAddr addr
      pure (usizeToIsize alignAddr, { task with heapEnd := heapEnd }, frames)
    else do
      let aimAddr ← virtAddr alignAddr
      let (memorySet, frames) ← task.memorySet.mapHeap task.heapEnd aimAddr frames
      let heapEnd ← virtAddr alignAddr
      pure (usizeToIsize addr, { task with memorySet := memorySet, heapEnd := heapEnd }, frames)

/-- A sequence of `sys_brk` calls by one task, stopping at the first panic; the
values the calls return are dropped. -/
def brkCalls (task : HeapTask) (frames : StackFrameAllocator) :
    List ℕ → Except Panic (HeapTask × StackFrameAllocator)
  | [] => .ok (task, frames)
  | addr :: addrs => do
      let (_, task, frames) ← sysBrk task frames addr
      brkCalls task frames addrs

/-- The user half the heap may reach: the addresses below `2 ^ 38`. -/
def heapLimit : ℕ := 2 ^ 38

/-! ## The heap invariant -/

/-- The heap with its pages mapped up to the page `top`. -/
structure HeapInv (task : HeapTask) (top : ℕ) : Prop where
  base_aligned : task.heapBase % pageSize = 0
  base_le_end : task.heapBase ≤ task.heapEnd
  end_le_top : task.heapEnd ≤ top * pageSize
  top_le : top * pageSize ≤ heapLimit
  heapArea_iff : ∀ vpn, (task.memorySet.heapArea[vpn]?).isSome ↔
    task.heapBase / pageSize ≤ vpn ∧ vpn < top
  mapped : ∀ vpn ppn, task.memorySet.heapArea[vpn]? = some ppn →
    task.memorySet.pageTable.entries vpn = some ⟨ppn, PageTable.leafFlags heapFlags⟩
  free_above : ∀ vpn, top ≤ vpn → vpn < heapLimit / pageSize →
    task.memorySet.pageTable.entries vpn = none

/-- A heap that starts empty at a page-aligned base below the limit, with no
page of the heap region mapped. -/
theorem heapInv_empty {task : HeapTask} (haligned : task.heapBase % pageSize = 0)
    (hbase : task.heapBase < heapLimit) (hend : task.heapEnd = task.heapBase)
    (hempty : ∀ vpn : ℕ, task.memorySet.heapArea[vpn]? = none)
    (hfree : ∀ vpn, task.heapBase / pageSize ≤ vpn → vpn < heapLimit / pageSize →
      task.memorySet.pageTable.entries vpn = none) :
    HeapInv task (task.heapBase / pageSize) where
  base_aligned := haligned
  base_le_end := hend.ge
  end_le_top := by
    rw [hend, Nat.div_mul_cancel (Nat.dvd_of_mod_eq_zero haligned)]
  top_le := by
    rw [Nat.div_mul_cancel (Nat.dvd_of_mod_eq_zero haligned)]
    exact hbase.le
  heapArea_iff := by
    intro vpn
    simp only [hempty, Option.isSome_none, Bool.false_eq_true, false_iff, not_and, not_lt]
    exact fun h => h
  mapped := by simp [hempty]
  free_above := hfree

section Arithmetic

/-- Every address up to the heap limit can be rounded up without wrapping. -/
theorem fits_of_le_heapLimit {addr : ℕ} (haddr : addr ≤ heapLimit) :
    addr + pageSize ≤ usizeModulus := by
  unfold heapLimit pageSize usizeModulus at *
  omega

/-- Rounding up does not pass a page boundary the address does not pass. -/
theorem alignUp_le_of_le {addr top : ℕ} (haddr : addr + pageSize ≤ usizeModulus)
    (hle : addr ≤ top * pageSize) : alignUp addr ≤ top * pageSize := by
  rw [alignUp_of_lt haddr]
  unfold pageSize at *
  omega

theorem alignUp_le_heapLimit {addr : ℕ} (haddr : addr < heapLimit) : alignUp addr ≤ heapLimit := by
  have hlimit : heapLimit = heapLimit / pageSize * pageSize := by decide
  rw [hlimit]
  exact alignUp_le_of_le (fits_of_le_heapLimit haddr.le) (by rw [← hlimit]; exact haddr.le)

theorem alignUp_mul {n : ℕ} (hn : n * pageSize ≤ heapLimit) : alignUp (n * pageSize) = n * pageSize := by
  rw [alignUp_of_lt (fits_of_le_heapLimit hn)]
  unfold pageSize
  omega

theorem alignUp_div_mul {addr : ℕ} (haddr : addr < heapLimit) :
    alignUp addr / pageSize * pageSize = alignUp addr :=
  Nat.div_mul_cancel (alignUp_dvd (fits_of_le_heapLimit haddr.le))

theorem lt_sv39_of_le_heapLimit {addr : ℕ} (haddr : addr ≤ heapLimit) : addr < 2 ^ vaWidthSv39 := by
  unfold heapLimit vaWidthSv39 at *
  omega

end Arithmetic

/-! ## What one call does to the invariant -/

section Invariant

variable {task : HeapTask} {top : ℕ}

/-- The top page is at or above the page of `heap_base`. -/
theorem HeapInv.base_page_le (hinv : HeapInv task top) : task.heapBase / pageSize ≤ top :=
  Nat.div_le_of_le_mul (by
    have := hinv.end_le_top
    rw [Nat.mul_comm]
    exact hinv.base_le_end.trans this)

/-- Every page overlapping `[heap_base, heap_end)` is mapped, with `U | R | W`,
to the frame `heap_area` holds for it. -/
theorem HeapInv.overlap_mapped (hinv : HeapInv task top) {vpn : ℕ}
    (hbase : task.heapBase < (vpn + 1) * pageSize) (hend : vpn * pageSize < task.heapEnd) :
    ∃ ppn, task.memorySet.heapArea[vpn]? = some ppn ∧
      task.memorySet.pageTable.entries vpn = some ⟨ppn, PageTable.leafFlags heapFlags⟩ := by
  have hfrom : task.heapBase / pageSize ≤ vpn := by
    have := hinv.base_aligned
    unfold pageSize at *
    omega
  have hbelow : vpn < top := by
    have := hinv.end_le_top
    exact Nat.lt_of_mul_lt_mul_right (hend.trans_le this)
  obtain ⟨ppn, hppn⟩ := Option.isSome_iff_exists.1 ((hinv.heapArea_iff vpn).2 ⟨hfrom, hbelow⟩)
  exact ⟨ppn, hppn, hinv.mapped vpn ppn hppn⟩

/-- The page of `heap_end` is mapped whenever `heap_end` is below the top. -/
theorem HeapInv.end_page_mapped (hinv : HeapInv task top) (hbelow : task.heapEnd < top * pageSize) :
    (task.memorySet.pageTable.entries (floorPage task.heapEnd)).isSome := by
  have hfrom : task.heapBase / pageSize ≤ floorPage task.heapEnd :=
    Nat.div_le_div_right hinv.base_le_end
  have hlt : floorPage task.heapEnd < top :=
    Nat.div_lt_of_lt_mul (by rw [Nat.mul_comm]; exact hbelow)
  obtain ⟨ppn, hppn⟩ := Option.isSome_iff_exists.1 ((hinv.heapArea_iff _).2 ⟨hfrom, hlt⟩)
  rw [hinv.mapped _ _ hppn]
  rfl

/-- A call that grows the heap asks for an end above `heap_base`. -/
theorem HeapInv.base_le_of_grow (hinv : HeapInv task top) {addr : ℕ}
    (hgrow : alignUp task.heapEnd < addr) : task.heapBase ≤ addr := by
  have := le_alignUp (fits_of_le_heapLimit (hinv.end_le_top.trans hinv.top_le))
  have := hinv.base_le_end
  omega

/-- The rounded-up end is at or below the top. -/
theorem HeapInv.alignUp_end_le (hinv : HeapInv task top) : alignUp task.heapEnd ≤ top * pageSize :=
  alignUp_le_of_le (fits_of_le_heapLimit (hinv.end_le_top.trans hinv.top_le)) hinv.end_le_top

/-- A growth below the limit starts `map_heap` below its aim. -/
theorem HeapInv.end_lt_of_grow (hinv : HeapInv task top) {addr : ℕ}
    (hgrow : alignUp task.heapEnd < addr) (hlimit : addr < heapLimit) :
    task.heapEnd < alignUp addr :=
  (le_alignUp (fits_of_le_heapLimit (hinv.end_le_top.trans hinv.top_le))).trans_lt
    (hgrow.trans_le (le_alignUp (fits_of_le_heapLimit hlimit.le)))

/-- Moving `heap_end` anywhere between `heap_base` and the top keeps the
invariant. -/
theorem heapInv_shrink (hinv : HeapInv task top) {addr : ℕ} (hbase : task.heapBase ≤ addr)
    (hle : addr ≤ top * pageSize) : HeapInv { task with heapEnd := addr } top where
  base_aligned := hinv.base_aligned
  base_le_end := hbase
  end_le_top := hle
  top_le := hinv.top_le
  heapArea_iff := hinv.heapArea_iff
  mapped := hinv.mapped
  free_above := hinv.free_above

/-- Mapping the pages `[top, top')` to a run of frames and moving `heap_end` to
the new top keeps the invariant. -/
theorem heapInv_grow (hinv : HeapInv task top) {top' ppn : ℕ} {memorySet : MemorySet}
    (hle : top ≤ top') (hlimit : top' * pageSize ≤ heapLimit)
    (hentries : memorySet.pageTable.entries =
      PageTable.mappedRun task.memorySet.pageTable.entries top (top' - top) ppn heapFlags)
    (hheap : ∀ vpn, memorySet.heapArea[vpn]? = frameRun task.memorySet.heapArea top (top' - top) ppn vpn) :
    HeapInv { task with memorySet := memorySet, heapEnd := top' * pageSize } top' where
  base_aligned := hinv.base_aligned
  base_le_end := hinv.base_le_end.trans (hinv.end_le_top.trans (Nat.mul_le_mul_right _ hle))
  end_le_top := le_rfl
  top_le := hlimit
  heapArea_iff := by
    intro vpn
    have hbase := hinv.base_page_le
    simp only [hheap, frameRun]
    split_ifs with hrun
    · simp only [Option.isSome_some, true_iff]
      omega
    · rw [hinv.heapArea_iff]
      omega
  mapped := by
    intro vpn ppn' hsome
    simp only [hentries, PageTable.mappedRun]
    rw [hheap, frameRun] at hsome
    split_ifs at hsome ⊢ with hrun
    · cases hsome
      rfl
    · exact hinv.mapped vpn ppn' hsome
  free_above := by
    intro vpn hge hlt
    simp only [hentries, PageTable.mappedRun]
    rw [if_neg (by omega)]
    exact hinv.free_above vpn (by omega) hlt

end Invariant

/-! ## `sys_brk` under the invariant -/

section Step

variable {task : HeapTask} {frames : StackFrameAllocator} {top addr : ℕ}

/-- A new end at or below the rounded-up old end only moves `heap_end`. -/
theorem sysBrk_shrink (hinv : HeapInv task top) (h0 : addr ≠ 0) (hbase : task.heapBase ≤ addr)
    (hle : addr ≤ alignUp task.heapEnd) :
    sysBrk task frames addr = .ok (usizeToIsize (alignUp addr), { task with heapEnd := addr }, frames) := by
  have hcanonical : addr < 2 ^ vaWidthSv39 :=
    lt_sv39_of_le_heapLimit (hle.trans (hinv.alignUp_end_le.trans hinv.top_le))
  simp [sysBrk, h0, Nat.not_lt.2 hbase, hle, virtAddr_of_lt hcanonical, bind, Except.bind, pure,
    Except.pure]

/-- The two checks before `map_heap` pass on a growth below the limit. -/
theorem sysBrk_grow {result : Except Panic (MemorySet × StackFrameAllocator)} (hbase : task.heapBase ≤ addr)
    (hgrow : alignUp task.heapEnd < addr) (hlimit : addr < heapLimit)
    (hmap : task.memorySet.mapHeap task.heapEnd (alignUp addr) frames = result) :
    sysBrk task frames addr = (do
      let (memorySet, frames) ← result
      pure (usizeToIsize addr, { task with memorySet := memorySet, heapEnd := alignUp addr }, frames)) := by
  have h0 : addr ≠ 0 := by omega
  have hcanonical : alignUp addr < 2 ^ vaWidthSv39 :=
    lt_sv39_of_le_heapLimit (alignUp_le_heapLimit hlimit)
  simp only [sysBrk, h0, Nat.not_lt.2 hbase, ge_iff_le, Nat.not_le.2 hgrow, if_false,
    virtAddr_of_lt hcanonical, hmap, bind, Except.bind]

/-- The facts of a growth from the top page: the new top page is above it, and
`map_heap` fits in its fuel and below the limit. -/
theorem grow_from_top (hinv : HeapInv task top) (htop : task.heapEnd = top * pageSize)
    (hgrow : alignUp task.heapEnd < addr) (hlimit : addr < heapLimit) :
    top < alignUp addr / pageSize ∧ alignUp addr / pageSize - top < usizeModulus / pageSize + 1 ∧
      (top + (alignUp addr / pageSize - top)) * pageSize = alignUp addr ∧
      (top + (alignUp addr / pageSize - top)) * pageSize < 2 ^ vaWidthSv39 := by
  have haim := alignUp_div_mul hlimit
  have hbound := alignUp_le_heapLimit hlimit
  have hlt : top < alignUp addr / pageSize := by
    have hend : alignUp task.heapEnd = top * pageSize := by
      rw [htop]
      exact alignUp_mul (htop ▸ hinv.end_le_top.trans hinv.top_le)
    have := le_alignUp (fits_of_le_heapLimit hlimit.le)
    exact Nat.lt_of_mul_lt_mul_right (by omega : top * pageSize < alignUp addr / pageSize * pageSize)
  have hsum : top + (alignUp addr / pageSize - top) = alignUp addr / pageSize := by omega
  refine ⟨hlt, ?_, by rw [hsum, haim], by rw [hsum, haim]; exact lt_sv39_of_le_heapLimit hbound⟩
  have : alignUp addr / pageSize ≤ heapLimit / pageSize := Nat.div_le_div_right hbound
  unfold heapLimit pageSize usizeModulus at *
  omega

/-- Growing from the top page with enough frames maps the new pages to the next
frames and keeps the invariant, with the rounded-up new end as the new top. -/
theorem sysBrk_grow_fresh (hinv : HeapInv task top) (htop : task.heapEnd = top * pageSize)
    (hgrow : alignUp task.heapEnd < addr) (hlimit : addr < heapLimit)
    (hframes : frames.current + (alignUp addr / pageSize - top) ≤ frames.«end») :
    ∃ memorySet, sysBrk task frames addr =
        .ok (usizeToIsize addr, { task with memorySet := memorySet, heapEnd := alignUp addr },
          { frames with current := frames.current + (alignUp addr / pageSize - top) }) ∧
      HeapInv { task with memorySet := memorySet, heapEnd := alignUp addr }
        (alignUp addr / pageSize) := by
  obtain ⟨hlt, hfuel, haim, hcanonical⟩ := grow_from_top hinv htop hgrow hlimit
  obtain ⟨memorySet, hloop, -, -, -, -, hentries, hheap⟩ :=
    @mapHeapLoop_fresh (alignUp addr / pageSize - top) _ task.memorySet frames top hfuel hcanonical
      (fun k hk => hinv.free_above _ (by omega) (by
        have := Nat.div_le_div_right (c := pageSize) (alignUp_le_heapLimit hlimit)
        omega))
      (fun k hk => by
        have hnot := (hinv.heapArea_iff (top + k)).not.2 (by omega)
        simpa using hnot)
      hframes
  rw [haim] at hloop
  refine ⟨memorySet, ?_, ?_⟩
  · have hmap : task.memorySet.mapHeap task.heapEnd (alignUp addr) frames =
        .ok (memorySet, { frames with current := frames.current + (alignUp addr / pageSize - top) }) := by
      rw [htop]
      exact hloop
    rw [sysBrk_grow (hinv.base_le_of_grow hgrow) hgrow hlimit hmap]
    rfl
  · have hle : alignUp addr / pageSize * pageSize ≤ heapLimit := by
      rw [alignUp_div_mul hlimit]
      exact alignUp_le_heapLimit hlimit
    have hinv' := heapInv_grow hinv hlt.le hle hentries hheap
    rwa [alignUp_div_mul hlimit] at hinv'

/-- Growing from the top page with fewer frames left than new pages runs out of
frames. -/
theorem sysBrk_grow_exhausted (hinv : HeapInv task top) (htop : task.heapEnd = top * pageSize)
    (hgrow : alignUp task.heapEnd < addr) (hlimit : addr < heapLimit)
    (hframes : frames.current ≤ frames.«end»)
    (hshort : frames.«end» < frames.current + (alignUp addr / pageSize - top)) :
    sysBrk task frames addr = .error .unwrapNone := by
  obtain ⟨-, hfuel, haim, hcanonical⟩ := grow_from_top hinv htop hgrow hlimit
  have hloop := @mapHeapLoop_fresh_exhausted (alignUp addr / pageSize - top) _ task.memorySet
    frames top hfuel hcanonical
    (fun k hk => hinv.free_above _ (by omega) (by
      have := Nat.div_le_div_right (c := pageSize) (alignUp_le_heapLimit hlimit)
      omega))
    (fun k hk => by
      have hnot := (hinv.heapArea_iff (top + k)).not.2 (by omega)
      simpa using hnot)
    hframes hshort
  rw [haim, ← htop] at hloop
  rw [sysBrk_grow (hinv.base_le_of_grow hgrow) hgrow hlimit hloop]
  rfl

/-- Growing the heap past the rounded-up end with no frame left runs out of
frames. -/
theorem sysBrk_grow_no_frame (hinv : HeapInv task top) (hgrow : alignUp task.heapEnd < addr)
    (hlimit : addr < heapLimit) (hempty : frames.current = frames.«end») :
    sysBrk task frames addr = .error .unwrapNone := by
  rw [sysBrk_grow (hinv.base_le_of_grow hgrow) hgrow hlimit
    (mapHeapLoop_of_no_frame (hinv.end_lt_of_grow hgrow hlimit) hempty)]
  rfl

/-- After a shrink has left `heap_end` below the top page, growing the heap past
its rounded-up end starts `map_heap` at the page of `heap_end`, which is still
mapped: the call panics in `PageTable::map` as soon as it has a frame. -/
theorem sysBrk_grow_after_shrink (hinv : HeapInv task top) (hbelow : task.heapEnd < top * pageSize)
    (hgrow : alignUp task.heapEnd < addr) (hlimit : addr < heapLimit)
    (hframe : frames.current ≠ frames.«end») :
    sysBrk task frames addr = .error (.mappedBeforeMapping (floorPage task.heapEnd)) := by
  rw [sysBrk_grow (hinv.base_le_of_grow hgrow) hgrow hlimit
    (mapHeapLoop_of_mapped (hinv.end_lt_of_grow hgrow hlimit) hframe (hinv.end_page_mapped hbelow))]
  rfl

/-- What one `sys_brk` call below the limit does to a heap that satisfies the
invariant: it returns and keeps the invariant with a top at least as high, or it
panics in `map_heap`, either at the still-mapped page of a `heap_end` that a
shrink left below the top, or because it runs out of frames. -/
theorem sysBrk_outcome (hinv : HeapInv task top) (hframes : frames.current ≤ frames.«end»)
    (hlimit : addr < heapLimit) :
    (∃ ret task' frames' top', sysBrk task frames addr = .ok (ret, task', frames') ∧
      HeapInv task' top' ∧ top ≤ top' ∧ task'.heapBase = task.heapBase ∧
      frames'.current ≤ frames'.«end») ∨
    (alignUp task.heapEnd < addr ∧ task.heapEnd < top * pageSize ∧ frames.current ≠ frames.«end» ∧
      sysBrk task frames addr = .error (.mappedBeforeMapping (floorPage task.heapEnd))) ∨
    sysBrk task frames addr = .error .unwrapNone := by
  by_cases h0 : addr = 0
  · exact Or.inl ⟨usizeToIsize task.heapEnd, task, frames, top, by simp [sysBrk, h0], hinv, le_rfl, rfl,
      hframes⟩
  by_cases hbase : addr < task.heapBase
  · exact Or.inl ⟨einval, task, frames, top, by simp [sysBrk, h0, hbase], hinv, le_rfl, rfl, hframes⟩
  by_cases hle : addr ≤ alignUp task.heapEnd
  · have hshrink := heapInv_shrink hinv (Nat.not_lt.1 hbase) (hle.trans hinv.alignUp_end_le)
    exact Or.inl ⟨_, _, frames, top, sysBrk_shrink hinv h0 (Nat.not_lt.1 hbase) hle, hshrink,
      le_rfl, rfl, hframes⟩
  have hgrow : alignUp task.heapEnd < addr := Nat.lt_of_not_le hle
  -- a growth starts at the top page, or below it after a shrink
  rcases hinv.end_le_top.eq_or_lt with htop | hbelow
  · by_cases henough : frames.current + (alignUp addr / pageSize - top) ≤ frames.«end»
    · obtain ⟨memorySet, hcall, hinv'⟩ := sysBrk_grow_fresh hinv htop hgrow hlimit henough
      have hrise := (grow_from_top hinv htop hgrow hlimit).1.le
      exact Or.inl ⟨_, _, _, _, hcall, hinv', hrise, rfl, henough⟩
    · exact Or.inr (Or.inr (sysBrk_grow_exhausted hinv htop hgrow hlimit hframes (by omega)))
  · by_cases hempty : frames.current = frames.«end»
    · exact Or.inr (Or.inr (sysBrk_grow_no_frame hinv hgrow hlimit hempty))
    · exact Or.inr (Or.inl ⟨hgrow, hbelow, hempty,
        sysBrk_grow_after_shrink hinv hbelow hgrow hlimit hempty⟩)

/-- Every `sys_brk` call below the limit that returns keeps the invariant. -/
theorem sysBrk_heapInv (hinv : HeapInv task top) (hframes : frames.current ≤ frames.«end»)
    (hlimit : addr < heapLimit) {ret : ℤ} {task' : HeapTask} {frames' : StackFrameAllocator}
    (hcall : sysBrk task frames addr = .ok (ret, task', frames')) :
    ∃ top', HeapInv task' top' ∧ task'.heapBase = task.heapBase ∧ frames'.current ≤ frames'.«end» := by
  rcases sysBrk_outcome hinv hframes hlimit with
    ⟨_, _, _, top', hcall', hinv', -, hbase, hle⟩ | ⟨-, -, -, hcall'⟩ | hcall'
  all_goals rw [hcall'] at hcall; cases hcall
  exact ⟨top', hinv', hbase, hle⟩

end Step

/-! ## Runs of `sys_brk` -/

/-- Every sequence of calls below the limit that returns keeps the invariant
and `heap_base`. -/
theorem brkCalls_heapInv {addrs : List ℕ} :
    ∀ {task task' : HeapTask} {frames frames' : StackFrameAllocator} {top : ℕ},
      HeapInv task top → frames.current ≤ frames.«end» → (∀ addr ∈ addrs, addr < heapLimit) →
      brkCalls task frames addrs = .ok (task', frames') →
      ∃ top', HeapInv task' top' ∧ task'.heapBase = task.heapBase := by
  induction addrs with
  | nil =>
      intro task task' frames frames' top hinv _ _ hcalls
      cases hcalls
      exact ⟨top, hinv, rfl⟩
  | cons addr addrs ih =>
      intro task task' frames frames' top hinv hframes hlimit hcalls
      cases hcall : sysBrk task frames addr with
      | error err => simp [brkCalls, hcall, bind, Except.bind] at hcalls
      | ok result =>
          obtain ⟨ret, task₁, frames₁⟩ := result
          obtain ⟨top₁, hinv₁, hbase₁, hframes₁⟩ :=
            sysBrk_heapInv hinv hframes (hlimit addr List.mem_cons_self) hcall
          simp only [brkCalls, hcall, bind, Except.bind] at hcalls
          obtain ⟨top', hinv', hbase'⟩ :=
            ih hinv₁ hframes₁ (fun a ha => hlimit a (List.mem_cons_of_mem _ ha)) hcalls
          exact ⟨top', hinv', hbase'.trans hbase₁⟩

/-- From an empty heap, after any sequence of calls below the limit that
returns, every page overlapping `[heap_base, heap_end)` is mapped with
`U | R | W` to the frame `heap_area` holds for it. -/
theorem brkCalls_heap_mapped {task task' : HeapTask} {frames frames' : StackFrameAllocator}
    {addrs : List ℕ} (haligned : task.heapBase % pageSize = 0) (hbase : task.heapBase < heapLimit)
    (hend : task.heapEnd = task.heapBase) (hempty : ∀ vpn : ℕ, task.memorySet.heapArea[vpn]? = none)
    (hfree : ∀ vpn, task.heapBase / pageSize ≤ vpn → vpn < heapLimit / pageSize →
      task.memorySet.pageTable.entries vpn = none)
    (hframes : frames.current ≤ frames.«end») (hlimit : ∀ addr ∈ addrs, addr < heapLimit)
    (hcalls : brkCalls task frames addrs = .ok (task', frames')) {vpn : ℕ}
    (hlo : task'.heapBase < (vpn + 1) * pageSize) (hhi : vpn * pageSize < task'.heapEnd) :
    ∃ ppn, task'.memorySet.heapArea[vpn]? = some ppn ∧
      task'.memorySet.pageTable.entries vpn = some ⟨ppn, PageTable.leafFlags heapFlags⟩ := by
  obtain ⟨top', hinv', -⟩ :=
    brkCalls_heapInv (heapInv_empty haligned hbase hend hempty hfree) hframes hlimit hcalls
  exact hinv'.overlap_mapped hlo hhi

/-- The heap of a task at `0x10000` with nothing mapped, and 256 frames. -/
def emptyHeapTask : HeapTask := ⟨0x10000, 0x10000, MemorySet.newBare⟩

def heapFrames : StackFrameAllocator := StackFrameAllocator.new.init 0x80000 0x80100

theorem brkCalls_heap_mapped_after_grow_and_shrink :
    ∃ task' frames', brkCalls emptyHeapTask heapFrames [0x11000, 0x10001] = .ok (task', frames') ∧
      ∃ ppn, task'.memorySet.heapArea[0x10]? = some ppn ∧
        task'.memorySet.pageTable.entries 0x10 = some ⟨ppn, PageTable.leafFlags heapFlags⟩ := by
  have hcalls : brkCalls emptyHeapTask heapFrames [0x11000, 0x10001] = .ok (_, _) := rfl
  exact ⟨_, _, hcalls, brkCalls_heap_mapped (by decide) (by decide) rfl (fun _ => rfl)
    (fun _ _ _ => rfl) (by decide) (by decide) hcalls (by decide) (by decide)⟩

/-! ## Where the assertion of `PageTable::map` fires -/

section Remap

variable {task : HeapTask} {frames : StackFrameAllocator} {top addr : ℕ}

/-- The assertion of `PageTable::map` fires in a `sys_brk` call below the limit
exactly when the call grows the heap past the rounded-up end while `heap_end`
lies below the top page, and a frame is left; it fires at the page of
`heap_end`. -/
theorem sysBrk_mappedBeforeMapping_iff (hinv : HeapInv task top)
    (hframes : frames.current ≤ frames.«end») (hlimit : addr < heapLimit) {vpn : ℕ} :
    sysBrk task frames addr = .error (.mappedBeforeMapping vpn) ↔
      alignUp task.heapEnd < addr ∧ task.heapEnd < top * pageSize ∧
        frames.current ≠ frames.«end» ∧ vpn = floorPage task.heapEnd := by
  constructor
  · intro hcall
    rcases sysBrk_outcome hinv hframes hlimit with
      ⟨_, _, _, _, hcall', -⟩ | ⟨hgrow, hbelow, hframe, hcall'⟩ | hcall'
    all_goals rw [hcall'] at hcall; cases hcall
    exact ⟨hgrow, hbelow, hframe, rfl⟩
  · rintro ⟨hgrow, hbelow, hframe, rfl⟩
    exact sysBrk_grow_after_shrink hinv hbelow hgrow hlimit hframe

end Remap

theorem sysBrk_mappedBeforeMapping_iff_after_shrink :
    ∃ task frames top, brkCalls emptyHeapTask heapFrames [0x11000, 0x10001] = .ok (task, frames) ∧
      HeapInv task top ∧ sysBrk task frames 0x11001 = .error (.mappedBeforeMapping 0x10) ∧
      (sysBrk task frames 0x11001 = .error (.mappedBeforeMapping 0x10) ↔
        alignUp task.heapEnd < 0x11001 ∧ task.heapEnd < top * pageSize ∧
          frames.current ≠ frames.«end» ∧ 0x10 = floorPage task.heapEnd) := by
  have hcalls : brkCalls emptyHeapTask heapFrames [0x11000, 0x10001] = .ok (_, _) := rfl
  obtain ⟨top, hinv, -⟩ := brkCalls_heapInv
    (heapInv_empty (by decide) (by decide) rfl (fun _ => rfl) (fun _ _ _ => rfl)) (by decide)
    (by decide) hcalls
  exact ⟨_, _, top, hcalls, hinv, rfl, sysBrk_mappedBeforeMapping_iff hinv (by decide) (by decide)⟩

/-- Growing the empty heap by a page, shrinking it to one byte and growing it
past the page again maps the first heap page twice. -/
theorem brkCalls_remap_after_shrink :
    brkCalls emptyHeapTask heapFrames [0x11000, 0x10001, 0x11001] =
      .error (.mappedBeforeMapping 0x10) := by
  rfl

end ChaosKernel.Heap
