import ChaosKernel.Lib.Except
import ChaosKernel.Lib.Run
import ChaosKernel.Mm.MemorySet

/-!
# Anonymous mappings

`MemorySet::mmap` and `MemorySet::munmap` of `os/src/mm/memory_set.rs`, for
anonymous mappings.  Every page an `mmap` maps gets a frame that `mmap_area`
owns.  `munmap` takes the frames of its range out of `mmap_area`, which frees
them, but never touches the page table.

So one half of the agreement between `mmap_area` and the page table holds in
every reachable state: each page `mmap_area` holds is mapped to its frame
(`MmapInv`).  The other half does not: a page that `munmap` released stays
mapped to its freed frame, and a later `MAP_FIXED` `mmap` over it, which only
skips pages `mmap_area` holds, maps it again and panics.
-/

namespace ChaosKernel.Mmap

open FrameAllocator MemorySet Lib

/-- Every page `mmap_area` holds is mapped, with the flags of `mmap`, to the
frame it holds. -/
def MmapInv (memorySet : MemorySet) : Prop :=
  ∀ vpn ppn, memorySet.mmapArea[vpn]? = some ppn →
    memorySet.pageTable.entries vpn = some ⟨ppn, PageTable.leafFlags mmapFlags⟩

theorem mmapInv_newBare : MmapInv newBare := by
  intro vpn ppn hheld
  simp [newBare] at hheld

/-- The memory set once `vpn` is recorded with the frame `ppn` and mapped to it. -/
def withPage (self : MemorySet) (vpn ppn : ℕ) : MemorySet :=
  { self with
    mmapArea := self.mmapArea.insert vpn ppn
    pageTable := ⟨Function.update self.pageTable.entries vpn
      (some ⟨ppn, PageTable.leafFlags mmapFlags⟩)⟩ }

theorem mmapInv_withPage {self : MemorySet} (hinv : MmapInv self) (vpn ppn : ℕ) :
    MmapInv (withPage self vpn ppn) := by
  intro vpn' ppn' hheld
  simp only [withPage, getElem?_insert_eq_ite] at hheld ⊢
  by_cases hsame : vpn = vpn'
  · subst hsame
    rw [if_pos rfl, Option.some.injEq] at hheld
    rw [hheld, Function.update_self]
  · rw [if_neg hsame] at hheld
    rw [Function.update_of_ne (Ne.symm hsame)]
    exact hinv vpn' ppn' hheld

/-! ## One page -/

section Page

variable {self self' : MemorySet} {frames frames' : StackFrameAllocator} {vpn : ℕ}

/-- A page `mmap_page` maps and returns from was neither held nor mapped; it is
now held with some frame and mapped to it. -/
theorem mmapPage_eq_ok (hinv : MmapInv self) (hpage : mmapPage self frames vpn = .ok (self', frames')) :
    self.mmapArea[vpn]? = none ∧ self.pageTable.entries vpn = none ∧
      ∃ ppn, self' = withPage self vpn ppn := by
  obtain ⟨⟨ppn, frames₁⟩, -, hpage⟩ := bind_eq_ok.1 hpage
  obtain ⟨⟨mmapArea, frames₂⟩, hinsert, hpage⟩ := bind_eq_ok.1 hpage
  obtain ⟨pageTable, hmap, hpage⟩ := bind_eq_ok.1 hpage
  obtain ⟨hfree, rfl⟩ := PageTable.map_eq_ok_iff.1 hmap
  -- a held page would be mapped, and `map` would have panicked
  have hunheld : self.mmapArea[vpn]? = none := by
    cases hheld : self.mmapArea[vpn]? with
    | none => rfl
    | some ppn' =>
        rw [hinv vpn ppn' hheld] at hfree
        cases hfree
  rw [insertFrame_of_none hunheld] at hinsert
  cases hinsert
  cases hpage
  exact ⟨hunheld, hfree, ppn, rfl⟩

/-- `mmap_page` at a page that is mapped but not held panics in
`PageTable::map`, once it has a frame. -/
theorem mmapPage_of_mapped (hunheld : self.mmapArea[vpn]? = none)
    (hmapped : (self.pageTable.entries vpn).isSome) (hframe : frames.current ≠ frames.«end») :
    mmapPage self frames vpn = .error (.mappedBeforeMapping vpn) := by
  have hmap : self.pageTable.map vpn frames.current mmapFlags = .error (.mappedBeforeMapping vpn) :=
    PageTable.map_eq_error_iff.2 ⟨hmapped, rfl⟩
  simp [mmapPage, frameAllocUnwrap_of_ne hframe, insertFrame_of_none hunheld, hmap, bind,
    Except.bind]

end Page

/-! ## The loops -/

section Loops

/-- The loop of an `mmap` without `MAP_FIXED` that returns keeps the invariant
and `mmap_end`, and found every page of its range not held. -/
theorem mmapPages_eq_ok {vpns : List ℕ} :
    ∀ {self self' : MemorySet} {frames frames' : StackFrameAllocator}, MmapInv self →
      mmapPages self frames vpns = .ok (self', frames') →
      MmapInv self' ∧ self'.mmapEnd = self.mmapEnd ∧ ∀ vpn ∈ vpns, self.mmapArea[vpn]? = none := by
  induction vpns with
  | nil =>
      intro self self' frames frames' hinv hloop
      cases hloop
      exact ⟨hinv, rfl, by simp⟩
  | cons vpn vpns ih =>
      intro self self' frames frames' hinv hloop
      obtain ⟨⟨self₁, frames₁⟩, hpage, hloop⟩ := bind_eq_ok.1 hloop
      obtain ⟨hunheld, -, ppn, rfl⟩ := mmapPage_eq_ok hinv hpage
      obtain ⟨hinv', hend, hrest⟩ := ih (mmapInv_withPage hinv vpn ppn) hloop
      refine ⟨hinv', hend, ?_⟩
      intro vpn' hmem
      rcases List.mem_cons.1 hmem with rfl | hmem
      · exact hunheld
      · -- a later page held after this one was recorded is this page, which is held
        have hlater := hrest vpn' hmem
        simp only [withPage, getElem?_insert_eq_ite] at hlater
        split_ifs at hlater
        exact hlater

/-- The loop of a `MAP_FIXED` `mmap` that returns keeps the invariant and
`mmap_end`. -/
theorem mmapFixedPages_eq_ok {vpns : List ℕ} :
    ∀ {self self' : MemorySet} {frames frames' : StackFrameAllocator}, MmapInv self →
      mmapFixedPages self frames vpns = .ok (self', frames') →
      MmapInv self' ∧ self'.mmapEnd = self.mmapEnd := by
  induction vpns with
  | nil =>
      intro self self' frames frames' hinv hloop
      cases hloop
      exact ⟨hinv, rfl⟩
  | cons vpn vpns ih =>
      intro self self' frames frames' hinv hloop
      simp only [mmapFixedPages] at hloop
      split at hloop
      · exact ih hinv hloop
      · obtain ⟨⟨self₁, frames₁⟩, hpage, hloop⟩ := bind_eq_ok.1 hloop
        obtain ⟨-, -, ppn, rfl⟩ := mmapPage_eq_ok hinv hpage
        obtain ⟨hinv', hend⟩ := ih (mmapInv_withPage hinv vpn ppn) hloop
        exact ⟨hinv', hend⟩

/-- One turn of the loop of `munmap`: the page's tracker dropped and its entry
erased, then the rest of the range. -/
theorem munmapPages_cons_eq_ok {self self' : MemorySet} {frames frames' : StackFrameAllocator}
    {vpn : ℕ} {vpns : List ℕ} (hloop : munmapPages self frames (vpn :: vpns) = .ok (self', frames')) :
    ∃ frames₁, dropTracker frames self.mmapArea[vpn]? = .ok frames₁ ∧
      munmapPages { self with mmapArea := self.mmapArea.erase vpn } frames₁ vpns =
        .ok (self', frames') := by
  obtain ⟨⟨mmapArea, frames₁⟩, hremove, hloop⟩ := bind_eq_ok.1 hloop
  obtain ⟨frames₂, hdrop, hpair⟩ := map_eq_ok.1 hremove
  cases hpair
  exact ⟨_, hdrop, hloop⟩

/-- The loop of `munmap` that returns leaves the page table and `mmap_end` as
they were and takes exactly its pages out of `mmap_area`. -/
theorem munmapPages_eq_ok {vpns : List ℕ} :
    ∀ {self self' : MemorySet} {frames frames' : StackFrameAllocator},
      munmapPages self frames vpns = .ok (self', frames') →
      self'.pageTable = self.pageTable ∧ self'.mmapEnd = self.mmapEnd ∧
        ∀ vpn : ℕ, self'.mmapArea[vpn]? = if vpn ∈ vpns then none else self.mmapArea[vpn]? := by
  induction vpns with
  | nil =>
      intro self self' frames frames' hloop
      cases hloop
      simp
  | cons vpn vpns ih =>
      intro self self' frames frames' hloop
      obtain ⟨frames₁, -, hloop⟩ := munmapPages_cons_eq_ok hloop
      obtain ⟨htable, hend, hrest⟩ := ih hloop
      refine ⟨htable, hend, fun vpn' => ?_⟩
      rw [hrest vpn']
      simp only [getElem?_erase_eq_ite, List.mem_cons]
      by_cases hsame : vpn = vpn'
      · simp [hsame]
      · simp [hsame, Ne.symm hsame]

end Loops

/-! ## The calls -/

section Calls

variable {self self' : MemorySet} {frames frames' : StackFrameAllocator}

/-- An anonymous `mmap` that returns ran one of its loops from the memory set
with the new `mmap_end`: the `MAP_FIXED` loop, or the other one over pages of
the range from the rounded-up old `mmap_end`. -/
theorem mmap_eq_ok {startAddr len offset contextLen : ℕ} {mapFixed : Bool} {ret : ℤ}
    (hmmap : self.mmap startAddr len offset contextLen ⟨mapFixed, true⟩ frames =
      .ok (ret, self', frames')) :
    ∃ mmapEnd vpns,
      ((mapFixed && startAddr != 0) = true ∧
        mmapFixedPages { self with mmapEnd := mmapEnd } frames vpns = .ok (self', frames')) ∨
      ((mapFixed && startAddr != 0) = false ∧
        mmapPages { self with mmapEnd := mmapEnd } frames vpns = .ok (self', frames') ∧
        ∀ vpn, vpn ∈ vpns ↔ floorPage (alignUp self.mmapEnd) ≤ vpn ∧
          vpn < floorPage (alignUp ((self.mmapEnd + len) % usizeModulus))) := by
  unfold MemorySet.mmap at hmmap
  rw [bind_eq_ok] at hmmap
  obtain ⟨mmapEnd, -, hmmap⟩ := hmmap
  rw [bind_eq_ok] at hmmap
  obtain ⟨startVa, hstart, hmmap⟩ := hmmap
  rw [bind_eq_ok] at hmmap
  obtain ⟨endVa, hend, hmmap⟩ := hmmap
  rw [bind_eq_ok] at hmmap
  obtain ⟨range, hrange, hmmap⟩ := hmmap
  obtain rfl := VPNRange.eq_of_new_eq_ok hrange
  dsimp only [Bool.not_true] at hmmap
  by_cases hfixed : (mapFixed && startAddr != 0) = true
  · rw [if_pos hfixed, bind_eq_ok] at hmmap
    obtain ⟨⟨self₁, frames₁⟩, hloop, hmmap⟩ := hmmap
    -- the copy of a file-backed mapping is skipped
    cases hmmap
    exact ⟨mmapEnd, _, Or.inl ⟨hfixed, hloop⟩⟩
  · rw [if_neg hfixed, bind_eq_ok] at hmmap
    obtain ⟨⟨self₁, frames₁⟩, hloop, hmmap⟩ := hmmap
    cases hmmap
    refine ⟨mmapEnd, _, Or.inr ⟨Bool.eq_false_iff.2 hfixed, hloop, fun vpn => ?_⟩⟩
    rw [if_neg hfixed] at hstart hend
    rw [VPNRange.mem_pages, ← eq_of_virtAddr_eq_ok hstart, ← eq_of_virtAddr_eq_ok hend]

/-- A `munmap` that returns ran its loop over some pages. -/
theorem munmap_loop {startAddr len : ℕ} {ret : ℤ}
    (hmunmap : self.munmap startAddr len frames = .ok (ret, self', frames')) :
    ∃ vpns, munmapPages self frames vpns = .ok (self', frames') := by
  unfold MemorySet.munmap at hmunmap
  rw [bind_eq_ok] at hmunmap
  obtain ⟨startVa, -, hmunmap⟩ := hmunmap
  rw [bind_eq_ok] at hmunmap
  obtain ⟨endVa, -, hmunmap⟩ := hmunmap
  rw [bind_eq_ok] at hmunmap
  obtain ⟨range, -, hmunmap⟩ := hmunmap
  rw [bind_eq_ok] at hmunmap
  obtain ⟨⟨self₁, frames₁⟩, hloop, hmunmap⟩ := hmunmap
  cases hmunmap
  exact ⟨range.pages, hloop⟩

/-- A `munmap` that returns leaves the page table and `mmap_end` as they were
and takes the pages of its range out of `mmap_area`. -/
theorem munmap_eq_ok {startAddr len : ℕ} {ret : ℤ}
    (hmunmap : self.munmap startAddr len frames = .ok (ret, self', frames')) :
    self'.pageTable = self.pageTable ∧ self'.mmapEnd = self.mmapEnd ∧
      ∃ vpns : List ℕ, ∀ vpn : ℕ,
        self'.mmapArea[vpn]? = if vpn ∈ vpns then none else self.mmapArea[vpn]? := by
  obtain ⟨vpns, hloop⟩ := munmap_loop hmunmap
  obtain ⟨htable, hend, hpages⟩ := munmapPages_eq_ok hloop
  exact ⟨htable, hend, vpns, hpages⟩

theorem mmapInv_mmap (hinv : MmapInv self) {startAddr len offset contextLen : ℕ} {mapFixed : Bool}
    {ret : ℤ} (hmmap : self.mmap startAddr len offset contextLen ⟨mapFixed, true⟩ frames =
      .ok (ret, self', frames')) : MmapInv self' := by
  obtain ⟨mmapEnd, vpns, ⟨-, hloop⟩ | ⟨-, hloop, -⟩⟩ := mmap_eq_ok hmmap
  all_goals have hinv' : MmapInv { self with mmapEnd := mmapEnd } := hinv
  · exact (mmapFixedPages_eq_ok hinv' hloop).1
  · exact (mmapPages_eq_ok hinv' hloop).1

theorem mmapInv_munmap (hinv : MmapInv self) {startAddr len : ℕ} {ret : ℤ}
    (hmunmap : self.munmap startAddr len frames = .ok (ret, self', frames')) : MmapInv self' := by
  obtain ⟨htable, -, vpns, harea⟩ := munmap_eq_ok hmunmap
  intro vpn ppn hheld
  rw [harea] at hheld
  split_ifs at hheld
  rw [htable]
  exact hinv vpn ppn hheld

end Calls

/-! ## Runs of anonymous `mmap` and `munmap` calls -/

/-- The calls on one memory set: an anonymous `mmap`, with `MAP_FIXED` or
without, and a `munmap`.  An anonymous mapping copies nothing, so its offset is
unused and its context is the empty `Vec` `TaskControlBlockInner::mmap` passes. -/
inductive MmapCall
  | mmap (startAddr len : ℕ) (mapFixed : Bool)
  | munmap (startAddr len : ℕ)
  deriving DecidableEq, Repr

/-- A memory set and the frame allocator its calls draw on. -/
structure MmapSystem where
  memorySet : MemorySet
  frames : StackFrameAllocator

namespace MmapSystem

/-- One call; the value it returns is dropped. -/
def call (sys : MmapSystem) : MmapCall → Except Panic MmapSystem
  | .mmap startAddr len mapFixed =>
      (sys.memorySet.mmap startAddr len 0 0 ⟨mapFixed, true⟩ sys.frames).map
        fun (_, memorySet, frames) => ⟨memorySet, frames⟩
  | .munmap startAddr len =>
      (sys.memorySet.munmap startAddr len sys.frames).map
        fun (_, memorySet, frames) => ⟨memorySet, frames⟩

/-- The step relation: a call that panics is not a step. -/
def step (sys : MmapSystem) (c : MmapCall) : Option MmapSystem :=
  (sys.call c).toOption

/-- A fresh memory set: `mmap_end` at `MMAP_BASE` and `mmap_area` empty. -/
def start (frames : StackFrameAllocator) : MmapSystem :=
  ⟨newBare, frames⟩

theorem call_of_step {sys next : MmapSystem} {c : MmapCall} (hstep : step sys c = some next) :
    sys.call c = .ok next := by
  unfold step at hstep
  cases hcall : sys.call c with
  | error err => simp [hcall, Except.toOption] at hstep
  | ok next' =>
      simp only [hcall, Except.toOption, Option.some.injEq] at hstep
      rw [hstep]

theorem mmapInv_call {sys next : MmapSystem} (hinv : MmapInv sys.memorySet) {c : MmapCall}
    (hcall : sys.call c = .ok next) : MmapInv next.memorySet := by
  cases c with
  | mmap startAddr len mapFixed =>
      rw [call, map_eq_ok] at hcall
      obtain ⟨⟨ret, memorySet, frames⟩, hmmap, rfl⟩ := hcall
      exact mmapInv_mmap hinv hmmap
  | munmap startAddr len =>
      rw [call, map_eq_ok] at hcall
      obtain ⟨⟨ret, memorySet, frames⟩, hmunmap, rfl⟩ := hcall
      exact mmapInv_munmap hinv hmunmap

theorem mmapInv_of_reachable {frames : StackFrameAllocator} {sys : MmapSystem}
    (hreach : Reachable step (start frames) sys) : MmapInv sys.memorySet :=
  @Reachable.invariant _ _ step (start frames) (fun sys => MmapInv sys.memorySet) mmapInv_newBare
    (fun _ _ _ hinv hstep => mmapInv_call hinv (call_of_step hstep)) sys hreach

/-- In every state reached by anonymous `mmap` and `munmap` calls from a fresh
memory set, each page `mmap_area` holds is mapped, with `R | W | U | X`, to the
frame it holds. -/
theorem mmapArea_mapped {frames : StackFrameAllocator} {sys : MmapSystem}
    (hreach : Reachable step (start frames) sys) {vpn ppn : ℕ}
    (hheld : sys.memorySet.mmapArea[vpn]? = some ppn) :
    sys.memorySet.pageTable.entries vpn = some ⟨ppn, PageTable.leafFlags mmapFlags⟩ :=
  mmapInv_of_reachable hreach vpn ppn hheld

set_option maxRecDepth 10000 in
theorem mmapArea_mapped_after_mmap :
    ∃ sys, runSteps step (start (StackFrameAllocator.new.init 0x80000 0x80100))
        [.mmap 0 0x1000 false] = some sys ∧
      sys.memorySet.mmapArea[0x20000]? = some 0x80000 ∧
      sys.memorySet.pageTable.entries 0x20000 = some ⟨0x80000, PageTable.leafFlags mmapFlags⟩ := by
  have hrun : runSteps step (start (StackFrameAllocator.new.init 0x80000 0x80100))
      [.mmap 0 0x1000 false] = some _ := rfl
  exact ⟨_, hrun, rfl, mmapArea_mapped (reachable_of_runSteps hrun) rfl⟩

/-- In every reachable state, an `mmap` without `MAP_FIXED` that returns found
no page of its range, from the rounded-up `mmap_end` on, held in `mmap_area`. -/
theorem mmap_without_fixed_fresh {frames : StackFrameAllocator} {sys next : MmapSystem}
    (hreach : Reachable step (start frames) sys) {startAddr len : ℕ}
    (hcall : sys.call (.mmap startAddr len false) = .ok next) {vpn : ℕ}
    (hlo : floorPage (alignUp sys.memorySet.mmapEnd) ≤ vpn)
    (hhi : vpn < floorPage (alignUp ((sys.memorySet.mmapEnd + len) % usizeModulus))) :
    sys.memorySet.mmapArea[vpn]? = none := by
  rw [call, map_eq_ok] at hcall
  obtain ⟨⟨ret, memorySet, frames'⟩, hmmap, -⟩ := hcall
  obtain ⟨mmapEnd, vpns, ⟨hfixed, -⟩ | ⟨-, hloop, hrange⟩⟩ := mmap_eq_ok hmmap
  · cases hfixed
  · have hinv : MmapInv { sys.memorySet with mmapEnd := mmapEnd } := mmapInv_of_reachable hreach
    exact (mmapPages_eq_ok hinv hloop).2.2 vpn ((hrange vpn).2 ⟨hlo, hhi⟩)

set_option maxRecDepth 10000 in
theorem mmap_without_fixed_fresh_after_mmap :
    ∃ sys next, runSteps step (start (StackFrameAllocator.new.init 0x80000 0x80100))
        [.mmap 0 0x1000 false] = some sys ∧
      sys.call (.mmap 0 0x1000 false) = .ok next ∧ sys.memorySet.mmapArea[0x20002]? = none := by
  have hrun : runSteps step (start (StackFrameAllocator.new.init 0x80000 0x80100))
      [.mmap 0 0x1000 false] = some _ := rfl
  have hrun' : runSteps step (start (StackFrameAllocator.new.init 0x80000 0x80100))
      ([.mmap 0 0x1000 false] ++ [.mmap 0 0x1000 false]) = some _ := rfl
  have hcall := call_of_step (step_of_runSteps_append hrun hrun')
  refine ⟨_, _, hrun, hcall, mmap_without_fixed_fresh (reachable_of_runSteps hrun) hcall ?_ ?_⟩
  all_goals decide

set_option maxRecDepth 10000 in
/-- `mmap(0, PAGE_SIZE)` maps the page at `MMAP_BASE`.  `munmap` of it takes it
out of `mmap_area` but leaves it mapped, and a `MAP_FIXED` `mmap` there maps it
again. -/
theorem mmap_fixed_after_munmap_remaps :
    ∃ sys, runSteps step (start (StackFrameAllocator.new.init 0x80000 0x80100))
        [.mmap 0 0x1000 false, .munmap 0x2000_0000 0x1000] = some sys ∧
      sys.memorySet.mmapArea[0x20000]? = none ∧
      sys.memorySet.pageTable.entries 0x20000 = some ⟨0x80000, PageTable.leafFlags mmapFlags⟩ ∧
      sys.call (.mmap 0x2000_0000 0x1000 true) = .error (.mappedBeforeMapping 0x20000) := by
  have hrun : runSteps step (start (StackFrameAllocator.new.init 0x80000 0x80100))
      [.mmap 0 0x1000 false, .munmap 0x2000_0000 0x1000] = some _ := rfl
  exact ⟨_, hrun, rfl, rfl, rfl⟩

end MmapSystem

end ChaosKernel.Mmap
