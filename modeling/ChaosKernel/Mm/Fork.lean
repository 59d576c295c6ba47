import ChaosKernel.Mm.Mmap
import ChaosKernel.Mm.PhysMem

/-!
# Forking an address space

`MemorySet::from_existed_user` of `os/src/mm/memory_set.rs` builds the address
space of a forked process from its parent's.  Each user area is pushed again
from `MapArea::from_another`, which keeps its range, type and permission, and
the frame of each of its pages takes a copy of the parent's.  `heap_area` and
`mmap_area` are copied by hand: each page gets a new frame, mapped with
`U | R | W`, which takes a copy of the parent's frame.

`U | R | W` are the flags `map_heap` maps with, but `mmap` maps with
`R | W | U | X`.  So the areas and the heap keep their permissions in the
child, and every page of `mmap_area` loses `X`.

`new_process` gives a root whose kernel half is copied from the kernel's page
table; the kernel half is not part of the modelled map, so the child starts from
the empty map of `new_bare`.  The clearing of each new frame by
`FrameTracker::new` is left out, since each such frame then takes the copy of a
whole frame.
-/

namespace ChaosKernel

open FrameAllocator Lib PhysMem

/-- `MapArea::from_another`: the range, type and permission of `another`, with
no frames. -/
def MapArea.fromAnother (another : MapArea) : MapArea :=
  { another with dataFrames := ∅ }

namespace MemorySet

/-- `translate(vpn).unwrap().ppn()`. -/
def translatePpn (pageTable : PageTable) (vpn : ℕ) : Except Panic ℕ :=
  match pageTable.translate vpn with
  | some pte => .ok pte.ppn
  | none => .error .unwrapNone

/-- The copy loop over the pages of an area: the frame of each page in
`userSpace` copied into its frame in `pageTable`. -/
def copyAreaPages (userSpace pageTable : PageTable) (phys : PhysMem) :
    List ℕ → Except Panic PhysMem
  | [] => .ok phys
  | vpn :: vpns => do
      let srcPpn ← translatePpn userSpace vpn
      let dstPpn ← translatePpn pageTable vpn
      copyAreaPages userSpace pageTable (copyFrame phys srcPpn dstPpn) vpns

/-- The loop of `from_existed_user` over `user_space.areas`: an area that starts
in the kernel half is skipped, any other is pushed again from `from_another` and
its pages copied. -/
def copyAreas (userSpace : PageTable) :
    MemorySet → StackFrameAllocator → PhysMem → List MapArea →
      Except Panic (MemorySet × StackFrameAllocator × PhysMem)
  | memorySet, frames, phys, [] => .ok (memorySet, frames, phys)
  | memorySet, frames, phys, area :: areas =>
      if area.vpnRange.l > kernelSpaceOffset then copyAreas userSpace memorySet frames phys areas
      else do
        let (memorySet, frames) ← memorySet.push (MapArea.fromAnother area) frames
        let phys ← copyAreaPages userSpace memorySet.pageTable phys area.vpnRange.pages
        copyAreas userSpace memorySet frames phys areas

/-- The loops of `from_existed_user` over `heap_area` and over `mmap_area`, in
page order: each page gets a new frame, mapped with `U | R | W` and recorded in
`dst`, which takes a copy of the page's frame in the parent. -/
def copyFramedPages (pageTable : PageTable) (dst : Std.TreeMap ℕ ℕ)
    (frames : StackFrameAllocator) (phys : PhysMem) :
    List (ℕ × ℕ) → Except Panic (PageTable × Std.TreeMap ℕ ℕ × StackFrameAllocator × PhysMem)
  | [] => .ok (pageTable, dst, frames, phys)
  | (vpn, srcPpn) :: pages => do
      let (dstPpn, frames) ← frameAllocUnwrap frames
      let pageTable ← pageTable.map vpn dstPpn (PTEFlags.U ||| PTEFlags.R ||| PTEFlags.W)
      let (dst, frames) ← insertFrame dst vpn dstPpn frames
      copyFramedPages pageTable dst frames (copyFrame phys srcPpn dstPpn) pages

/-- `MemorySet::from_existed_user(user_space)`. -/
def fromExistedUser (userSpace : MemorySet) (frames : StackFrameAllocator) (phys : PhysMem) :
    Except Panic (MemorySet × StackFrameAllocator × PhysMem) := do
  let memorySet := { newBare with mmapEnd := userSpace.mmapEnd }
  let (memorySet, frames, phys) ←
    copyAreas userSpace.pageTable memorySet frames phys userSpace.areas
  let (pageTable, heapArea, frames, phys) ←
    copyFramedPages memorySet.pageTable memorySet.heapArea frames phys userSpace.heapArea.toList
  let (pageTable, mmapArea, frames, phys) ←
    copyFramedPages pageTable memorySet.mmapArea frames phys userSpace.mmapArea.toList
  pure ({ memorySet with pageTable := pageTable, heapArea := heapArea, mmapArea := mmapArea },
    frames, phys)

/-! ## The page table of the child

Every loop of the fork only adds entries, since `PageTable::map` refuses a page
that has one; so what one loop maps, the later ones keep. -/

/-- Every valid entry of `pageTable` is one of `pageTable'`. -/
def KeepsEntries (pageTable pageTable' : PageTable) : Prop :=
  ∀ vpn entry, pageTable.entries vpn = some entry → pageTable'.entries vpn = some entry

theorem KeepsEntries.refl (pageTable : PageTable) : KeepsEntries pageTable pageTable :=
  fun _ _ h => h

theorem KeepsEntries.trans {pageTable₁ pageTable₂ pageTable₃ : PageTable}
    (h₁ : KeepsEntries pageTable₁ pageTable₂) (h₂ : KeepsEntries pageTable₂ pageTable₃) :
    KeepsEntries pageTable₁ pageTable₃ :=
  fun vpn entry h => h₂ vpn entry (h₁ vpn entry h)

theorem keepsEntries_of_map {pageTable pageTable' : PageTable} {vpn ppn : ℕ} {flags : PTEFlags}
    (hmap : pageTable.map vpn ppn flags = .ok pageTable') : KeepsEntries pageTable pageTable' :=
  fun _ _ h => PageTable.entries_of_map hmap h

/-- `map_one` keeps the area's permission: only a framed area changes, in its
frames. -/
theorem mapPerm_of_frameFor {self self' : MapArea} {frames frames' : StackFrameAllocator}
    {vpn ppn : ℕ} (hframe : self.frameFor frames vpn = .ok (ppn, self', frames')) :
    self'.mapPerm = self.mapPerm := by
  unfold MapArea.frameFor at hframe
  split at hframe
  · -- an identical area is returned as it is
    simp only [Except.ok.injEq, Prod.mk.injEq] at hframe
    rw [← hframe.2.1]
  · obtain ⟨⟨ppn₁, frames₁⟩, -, hframe⟩ := bind_eq_ok.1 hframe
    obtain ⟨⟨dataFrames, frames₂⟩, -, hframe⟩ := bind_eq_ok.1 hframe
    cases hframe
    rfl

/-- The loop of `MapArea::map` that returns keeps every valid entry and maps
each page it visits with the area's permission. -/
theorem mapPages_eq_ok {vpns : List ℕ} :
    ∀ {self : MapArea} {pageTable : PageTable} {frames : StackFrameAllocator}
      {r : MapArea × PageTable × StackFrameAllocator},
      self.mapPages pageTable frames vpns = .ok r →
      KeepsEntries pageTable r.2.1 ∧
        ∀ vpn ∈ vpns, ∃ ppn,
          r.2.1.entries vpn = some ⟨ppn, PageTable.leafFlags self.mapPerm.toPTEFlags⟩ := by
  induction vpns with
  | nil =>
      intro self pageTable frames r hloop
      cases hloop
      exact ⟨KeepsEntries.refl _, by simp⟩
  | cons vpn vpns ih =>
      intro self pageTable frames r hloop
      obtain ⟨⟨ppn, self₁, pageTable₁, frames₁⟩, hone, hloop⟩ := bind_eq_ok.1 hloop
      obtain ⟨⟨ppn', self₂, frames₂⟩, hframe, hone⟩ := bind_eq_ok.1 hone
      obtain ⟨pageTable₂, hmap, hone⟩ := bind_eq_ok.1 hone
      cases hone
      have hperm := mapPerm_of_frameFor hframe
      obtain ⟨hkeep, hrest⟩ := ih hloop
      rw [hperm] at hrest hmap
      refine ⟨(keepsEntries_of_map hmap).trans hkeep, ?_⟩
      intro vpn' hmem
      rcases List.mem_cons.1 hmem with rfl | hmem
      · -- this page was mapped here, and the rest of the loop keeps it
        obtain ⟨-, rfl⟩ := PageTable.map_eq_ok_iff.1 hmap
        exact ⟨ppn, hkeep _ _ (Function.update_self ..)⟩
      · exact hrest vpn' hmem

/-- The loop over the areas that returns keeps every valid entry and the two
page maps, and maps each page of each user area with the area's permission. -/
theorem copyAreas_eq_ok {areas : List MapArea} {userSpace : PageTable} :
    ∀ {memorySet : MemorySet} {frames : StackFrameAllocator} {phys : PhysMem}
      {r : MemorySet × StackFrameAllocator × PhysMem},
      copyAreas userSpace memorySet frames phys areas = .ok r →
      KeepsEntries memorySet.pageTable r.1.pageTable ∧ r.1.heapArea = memorySet.heapArea ∧
        r.1.mmapArea = memorySet.mmapArea ∧
        ∀ area ∈ areas, area.vpnRange.l ≤ kernelSpaceOffset → ∀ vpn ∈ area.vpnRange.pages,
          ∃ ppn, r.1.pageTable.entries vpn = some ⟨ppn, PageTable.leafFlags area.mapPerm.toPTEFlags⟩ := by
  induction areas with
  | nil =>
      intro memorySet frames phys r hloop
      cases hloop
      exact ⟨KeepsEntries.refl _, rfl, rfl, by simp⟩
  | cons area areas ih =>
      intro memorySet frames phys r hloop
      unfold copyAreas at hloop
      split_ifs at hloop with hkernel
      · -- an area of the kernel half is skipped
        obtain ⟨hkeep, hheap, hmmap, hrest⟩ := ih hloop
        refine ⟨hkeep, hheap, hmmap, ?_⟩
        intro area' hmem huser
        rcases List.mem_cons.1 hmem with rfl | hmem
        · omega
        · exact hrest area' hmem huser
      · obtain ⟨⟨memorySet₁, frames₁⟩, hpush, hloop⟩ := bind_eq_ok.1 hloop
        obtain ⟨phys₁, -, hloop⟩ := bind_eq_ok.1 hloop
        obtain ⟨⟨area₁, pageTable₁, frames₂⟩, hmap, hpush⟩ := bind_eq_ok.1 hpush
        cases hpush
        obtain ⟨hkeepArea, hmapped⟩ := mapPages_eq_ok hmap
        obtain ⟨hkeep, hheap, hmmap, hrest⟩ := ih hloop
        refine ⟨hkeepArea.trans hkeep, hheap, hmmap, ?_⟩
        intro area' hmem huser
        rcases List.mem_cons.1 hmem with rfl | hmem
        · intro vpn hvpn
          obtain ⟨ppn, hentry⟩ := hmapped vpn hvpn
          exact ⟨ppn, hkeep _ _ hentry⟩
        · exact hrest area' hmem huser

/-- The loop over a page map that returns keeps every valid entry and maps each
page it visits with `U | R | W`. -/
theorem copyFramedPages_eq_ok {pages : List (ℕ × ℕ)} :
    ∀ {pageTable : PageTable} {dst : Std.TreeMap ℕ ℕ} {frames : StackFrameAllocator}
      {phys : PhysMem} {r : PageTable × Std.TreeMap ℕ ℕ × StackFrameAllocator × PhysMem},
      copyFramedPages pageTable dst frames phys pages = .ok r →
      KeepsEntries pageTable r.1 ∧
        ∀ page ∈ pages, ∃ ppn, r.1.entries page.1 = some ⟨ppn, PageTable.leafFlags heapFlags⟩ := by
  induction pages with
  | nil =>
      intro pageTable dst frames phys r hloop
      cases hloop
      exact ⟨KeepsEntries.refl _, by simp⟩
  | cons page pages ih =>
      obtain ⟨vpn, srcPpn⟩ := page
      intro pageTable dst frames phys r hloop
      obtain ⟨⟨dstPpn, frames₁⟩, -, hloop⟩ := bind_eq_ok.1 hloop
      obtain ⟨pageTable₁, hmap, hloop⟩ := bind_eq_ok.1 hloop
      obtain ⟨⟨dst₁, frames₂⟩, -, hloop⟩ := bind_eq_ok.1 hloop
      obtain ⟨hkeep, hrest⟩ := ih hloop
      refine ⟨(keepsEntries_of_map hmap).trans hkeep, ?_⟩
      intro page hmem
      rcases List.mem_cons.1 hmem with rfl | hmem
      · obtain ⟨-, rfl⟩ := PageTable.map_eq_ok_iff.1 hmap
        exact ⟨dstPpn, hkeep _ _ (Function.update_self ..)⟩
      · exact hrest page hmem

/-- What a fork that returns maps: each page of a user area with the area's
permission, and each page of `heap_area` and of `mmap_area` with `U | R | W`. -/
theorem fromExistedUser_eq_ok {userSpace child : MemorySet} {frames frames' : StackFrameAllocator}
    {phys phys' : PhysMem} (hfork : fromExistedUser userSpace frames phys = .ok (child, frames', phys')) :
    (∀ area ∈ userSpace.areas, area.vpnRange.l ≤ kernelSpaceOffset → ∀ vpn ∈ area.vpnRange.pages,
      ∃ ppn, child.pageTable.translate vpn =
        some ⟨ppn, PageTable.leafFlags area.mapPerm.toPTEFlags⟩) ∧
    (∀ vpn ppn, userSpace.heapArea[vpn]? = some ppn →
      ∃ ppn', child.pageTable.translate vpn = some ⟨ppn', PageTable.leafFlags heapFlags⟩) ∧
    (∀ vpn ppn, userSpace.mmapArea[vpn]? = some ppn →
      ∃ ppn', child.pageTable.translate vpn = some ⟨ppn', PageTable.leafFlags heapFlags⟩) := by
  obtain ⟨⟨memorySet, frames₁, phys₁⟩, hareas, hfork⟩ := bind_eq_ok.1 hfork
  obtain ⟨⟨pageTable₁, heapArea, frames₂, phys₂⟩, hheap, hfork⟩ := bind_eq_ok.1 hfork
  obtain ⟨⟨pageTable₂, mmapArea, frames₃, phys₃⟩, hmmap, hfork⟩ := bind_eq_ok.1 hfork
  cases hfork
  obtain ⟨-, -, -, hareaPages⟩ := copyAreas_eq_ok hareas
  obtain ⟨hkeepHeap, hheapPages⟩ := copyFramedPages_eq_ok hheap
  obtain ⟨hkeepMmap, hmmapPages⟩ := copyFramedPages_eq_ok hmmap
  refine ⟨?_, ?_, ?_⟩
  · intro area harea huser vpn hvpn
    obtain ⟨ppn, hentry⟩ := hareaPages area harea huser vpn hvpn
    exact ⟨ppn, hkeepMmap _ _ (hkeepHeap _ _ hentry)⟩
  · intro vpn ppn hheld
    obtain ⟨ppn', hentry⟩ :=
      hheapPages (vpn, ppn) (Std.TreeMap.mem_toList_iff_getElem?_eq_some.2 hheld)
    exact ⟨ppn', hkeepMmap _ _ hentry⟩
  · intro vpn ppn hheld
    exact hmmapPages (vpn, ppn) (Std.TreeMap.mem_toList_iff_getElem?_eq_some.2 hheld)

/-- A fork drops `X` from every page of `mmap_area`: in a parent that holds the
invariant of `Mm.Mmap`, true of every state `mmap` and `munmap` reach, each
page `mmap_area` holds is mapped with `R | W | U | X`, and the child maps it
with the same flags but `X`. -/
theorem fromExistedUser_drops_exec_of_mmap_pages {userSpace child : MemorySet}
    {frames frames' : StackFrameAllocator} {phys phys' : PhysMem} (hinv : Mmap.MmapInv userSpace)
    (hfork : fromExistedUser userSpace frames phys = .ok (child, frames', phys')) {vpn ppn : ℕ}
    (hheld : userSpace.mmapArea[vpn]? = some ppn) :
    userSpace.pageTable.translate vpn = some ⟨ppn, PageTable.leafFlags mmapFlags⟩ ∧
      ∃ ppn', child.pageTable.translate vpn =
        some ⟨ppn', { PageTable.leafFlags mmapFlags with x := false }⟩ := by
  obtain ⟨-, -, hmmapPages⟩ := fromExistedUser_eq_ok hfork
  obtain ⟨ppn', hchild⟩ := hmmapPages vpn ppn hheld
  have hflags : PageTable.leafFlags heapFlags = { PageTable.leafFlags mmapFlags with x := false } := by
    decide
  exact ⟨hinv vpn ppn hheld, ppn', hflags ▸ hchild⟩

set_option maxRecDepth 10000 in
/-- A process that mapped one anonymous page and forks: the child maps the page
without `X`. -/
theorem fromExistedUser_drops_exec_after_mmap :
    ∃ ret parent frames child frames' phys',
      newBare.mmap 0 0x1000 0 0 ⟨false, true⟩ (StackFrameAllocator.new.init 0x80000 0x80100) =
          .ok (ret, parent, frames) ∧
        fromExistedUser parent frames (fun _ => 0) = .ok (child, frames', phys') ∧
        parent.mmapArea[0x20000]? = some 0x80000 ∧
        parent.pageTable.translate 0x20000 = some ⟨0x80000, PageTable.leafFlags mmapFlags⟩ ∧
        ∃ ppn', child.pageTable.translate 0x20000 =
          some ⟨ppn', { PageTable.leafFlags mmapFlags with x := false }⟩ := by
  have hmmap : newBare.mmap 0 0x1000 0 0 ⟨false, true⟩
      (StackFrameAllocator.new.init 0x80000 0x80100) = .ok _ := rfl
  exact ⟨_, _, _, _, _, _, hmmap, rfl, rfl,
    @fromExistedUser_drops_exec_of_mmap_pages _ _ ⟨0x80001, 0x80100, []⟩ _ (fun _ => 0) _
      (Mmap.mmapInv_mmap Mmap.mmapInv_newBare hmmap) (by rfl) 0x20000 0x80000 (by rfl)⟩

set_option maxRecDepth 10000 in
/-- After one anonymous `mmap` of a page, which maps it with `R | W | U | X`,
`from_existed_user` maps the page in the child with `U | R | W`: the child loses
the execute permission. -/
theorem fork_maps_mmap_page_without_exec :
    ∃ ret parent frames child frames' phys',
      newBare.mmap 0 0x1000 0 0 ⟨false, true⟩ (StackFrameAllocator.new.init 0x80000 0x80100) =
          .ok (ret, parent, frames) ∧
        fromExistedUser parent frames (fun _ => 0) = .ok (child, frames', phys') ∧
        parent.pageTable.translate 0x20000 = some ⟨0x80000, PageTable.leafFlags mmapFlags⟩ ∧
        child.pageTable.translate 0x20000 = some ⟨0x80001, PageTable.leafFlags heapFlags⟩ ∧
        (PageTable.leafFlags mmapFlags).x = true ∧ (PageTable.leafFlags heapFlags).x = false :=
  ⟨_, _, _, _, _, _, rfl, rfl, rfl, rfl, rfl, rfl⟩

end MemorySet

end ChaosKernel
