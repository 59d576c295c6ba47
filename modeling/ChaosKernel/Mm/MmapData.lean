import ChaosKernel.Mm.Mmap
import ChaosKernel.Mm.PhysMem

/-!
# File-backed mappings

`MemorySet::mmap` of `os/src/mm/memory_set.rs` with the bytes it writes: each
frame it maps is cleared by `FrameTracker::new`, and unless the mapping is
anonymous a copy loop moves the file's bytes into the frames.
`TaskControlBlockInner::mmap` (`os/src/task/task.rs`) reads the whole file and
passes `min(len, file_len - offset)` on as the length.

The copy loop starts at `offset` in the file but bounds each slice, and its
exit, by the length of the mapping: pass `k` takes
`context[start..min(len, start + PAGE_SIZE)]` with `start = offset + k * PAGE_SIZE`.
With `offset = 0` that is the file's first `len` bytes, page by page.  With a
positive offset only `len - offset` bytes arrive, and an offset past `len`
reverses the first slice, which panics.

`mmapData` is `MemorySet::mmap` over the pair of a memory set and physical
memory; forgetting the bytes gives back `MemorySet.mmap` of `Mm.MemorySet`.
-/

namespace ChaosKernel.MmapData

open Lib FrameAllocator MemorySet PhysMem

/-- The copy loop of a file-backed `mmap` over physical memory, for at most
`fuel` passes: each pass copies `context[start..min(len, start + PAGE_SIZE)]` to
the start of the frame of the current page.  The destination
`get_bytes_array()[..src.len()]` always fits, since the slice is at most a page
long. -/
def copyContext : ℕ → PageTable → PhysMem → List UInt8 → ℕ → ℕ → ℕ → Except Panic PhysMem
  | 0, _, phys, _, _, _, _ => .ok phys
  | fuel + 1, pageTable, phys, context, len, start, vpn => do
      let src ← sliceRange context start (min len ((start + pageSize) % usizeModulus))
      match pageTable.translate vpn with
      | some pte =>
          let phys := store phys (pte.ppn * pageSize) src
          let start := (start + pageSize) % usizeModulus
          if start ≥ len then .ok phys
          else copyContext fuel pageTable phys context len start (vpn + 1)
      | none => .error .unwrapNone

/-- The frames `FrameTracker::new` cleared in the mapping loop: those of the
pages of the range that `mmap_area` did not hold before and holds after. -/
def clearNewFrames (before after : Std.TreeMap ℕ ℕ) (phys : PhysMem) : List ℕ → PhysMem
  | [] => phys
  | vpn :: vpns =>
      match before[vpn]?, after[vpn]? with
      | none, some ppn => clearNewFrames before after (clearFrame phys ppn) vpns
      | _, _ => clearNewFrames before after phys vpns

/-- `MemorySet::mmap(start_addr, len, offset, context, flags)` with physical
memory. -/
def mmapData (self : MemorySet) (phys : PhysMem) (startAddr len offset : ℕ)
    (context : List UInt8) (flags : MmapFlags) (frames : StackFrameAllocator) :
    Except Panic (ℤ × MemorySet × StackFrameAllocator × PhysMem) := do
  let fixed := flags.mapFixed && startAddr != 0
  let base := if fixed then startAddr else self.mmapEnd
  let startAddrAlign := alignUp base
  let endAddrAlign := alignUp ((base + len) % usizeModulus)
  let mmapEnd ← virtAddr ((endAddrAlign + pageSize) % usizeModulus)
  let self := { self with mmapEnd := mmapEnd }
  let startVpn := floorPage (← virtAddr startAddrAlign)
  let endVpn := floorPage (← virtAddr endAddrAlign)
  let vpnRange ← VPNRange.new startVpn endVpn
  let (self', frames) ← if fixed then mmapFixedPages self frames vpnRange.pages
    else mmapPages self frames vpnRange.pages
  let phys := clearNewFrames self.mmapArea self'.mmapArea phys vpnRange.pages
  let phys ← if !flags.mapAnonymous then
      copyContext (len / pageSize + 2) self'.pageTable phys context len offset vpnRange.l
    else pure phys
  pure (usizeToIsize startAddrAlign, self', frames, phys)

/-- `EPERM`. -/
def eperm : ℤ := -1

/-- `TaskControlBlockInner::mmap` once `read_all` has read the file: an
anonymous mapping gets an empty context and the requested length; a
file-backed one the file's bytes and `min(len, file_len - offset)`, or `EPERM`
when `offset` is at or past the end of the file. -/
def taskMmap (self : MemorySet) (phys : PhysMem) (startAddr len : ℕ) (flags : MmapFlags)
    (offset : ℕ) (fileBytes : List UInt8) (frames : StackFrameAllocator) :
    Except Panic (ℤ × MemorySet × StackFrameAllocator × PhysMem) :=
  if flags.mapAnonymous then mmapData self phys startAddr len offset [] flags frames
  else if fileBytes.length ≤ offset then .ok (eperm, self, frames, phys)
  else mmapData self phys startAddr (min len (fileBytes.length - offset)) offset fileBytes flags frames

/-! ## The bytes forgotten -/

/-- The copy loop over physical memory panics where `copyContextLoop` does. -/
theorem copyContext_forget (pageTable : PageTable) (context : List UInt8) (len : ℕ) :
    ∀ (fuel : ℕ) (phys : PhysMem) (start vpn : ℕ),
      (copyContext fuel pageTable phys context len start vpn).map (fun _ => ()) =
        copyContextLoop fuel pageTable context.length len start vpn
  | 0, _, _, _ => rfl
  | fuel + 1, phys, start, vpn => by
      unfold copyContext copyContextLoop
      by_cases hslice : start ≤ min len ((start + pageSize) % usizeModulus) ∧
          min len ((start + pageSize) % usizeModulus) ≤ context.length
      · rw [sliceRange, if_pos hslice, if_pos hslice]
        simp only [bind, Except.bind]
        cases pageTable.translate vpn with
        | none => rfl
        | some pte =>
            simp only
            split_ifs with hend
            · rfl
            · exact copyContext_forget pageTable context len fuel _ _ _
      · rw [sliceRange, if_neg hslice, if_neg hslice]
        rfl

theorem copyContextLoop_of_copyContext {pageTable : PageTable} {context : List UInt8}
    {fuel len start vpn : ℕ} {phys : PhysMem} {r : Except Panic PhysMem}
    (h : copyContext fuel pageTable phys context len start vpn = r) :
    copyContextLoop fuel pageTable context.length len start vpn = r.map fun _ => () := by
  rw [← copyContext_forget pageTable context len fuel phys start vpn, h]

/-- Forgetting physical memory, `mmapData` is `MemorySet.mmap` of a context of
the same length. -/
theorem mmapData_forget (self : MemorySet) (phys : PhysMem) (startAddr len offset : ℕ)
    (context : List UInt8) (flags : MmapFlags) (frames : StackFrameAllocator) :
    (mmapData self phys startAddr len offset context flags frames).map
        (fun r => (r.1, r.2.1, r.2.2.1)) =
      self.mmap startAddr len offset context.length flags frames := by
  unfold mmapData MemorySet.mmap
  dsimp only [bind, Except.bind]
  -- the two share every step up to the copy
  split
  · rfl
  split
  · rfl
  split
  · rfl
  split
  · rfl
  by_cases hfixed : (flags.mapFixed && startAddr != 0) = true
  all_goals
    simp only [hfixed, if_true, if_false, Bool.false_eq_true]
    split
    · rfl
    · cases flags.mapAnonymous
      · simp only [Bool.not_false, if_true]
        split <;>
        · rename_i hcopy
          rw [copyContextLoop_of_copyContext hcopy]
          rfl
      · rfl

/-! ## Offsets past the length -/

/-- The copy loop panics at once when it starts past the length: its first
slice is reversed. -/
theorem copyContextLoop_of_len_lt (pageTable : PageTable) (contextLen fuel : ℕ) {len start : ℕ}
    (hlt : len < start) (vpn : ℕ) :
    copyContextLoop (fuel + 1) pageTable contextLen len start vpn =
      .error (.sliceOutOfRange start (min len ((start + pageSize) % usizeModulus)) contextLen) := by
  have hrev : ¬ (start ≤ min len ((start + pageSize) % usizeModulus) ∧
      min len ((start + pageSize) % usizeModulus) ≤ contextLen) := by
    intro h
    have := h.1.trans (min_le_left _ _)
    omega
  rw [copyContextLoop, if_neg hrev]

/-- A file-backed `mmap` whose offset is past its length panics. -/
theorem mmap_error_of_len_lt (self : MemorySet) {startAddr len offset : ℕ} (contextLen : ℕ)
    {flags : MmapFlags} (hfile : flags.mapAnonymous = false) (hlt : len < offset)
    (frames : StackFrameAllocator) :
    ∃ e, self.mmap startAddr len offset contextLen flags frames = .error e := by
  unfold MemorySet.mmap
  refine exists_error_bind fun _ _ => exists_error_bind fun _ _ => exists_error_bind fun _ _ =>
    exists_error_bind fun _ _ => ?_
  dsimp only
  simp only [hfile, Bool.not_false, if_true]
  -- whichever loop mapped the range, the copy after it panics
  split
  all_goals
    refine exists_error_bind fun _ _ => exists_error_bind fun _ hcopy => ?_
    rw [copyContextLoop_of_len_lt _ _ _ hlt] at hcopy
    cases hcopy

/-- `TaskControlBlockInner::mmap` of a file from an offset before its end
panics when the length it passes on, `min(len, file_len - offset)`, is less
than the offset. -/
theorem taskMmap_error_of_len_lt (self : MemorySet) (phys : PhysMem) (startAddr len : ℕ)
    {flags : MmapFlags} (hfile : flags.mapAnonymous = false) {offset : ℕ} {fileBytes : List UInt8}
    (hoffset : offset < fileBytes.length) (hlt : min len (fileBytes.length - offset) < offset)
    (frames : StackFrameAllocator) :
    ∃ e, taskMmap self phys startAddr len flags offset fileBytes frames = .error e := by
  obtain ⟨e, he⟩ := mmap_error_of_len_lt self fileBytes.length hfile hlt frames
  refine ⟨e, ?_⟩
  have hdata := mmapData_forget self phys startAddr (min len (fileBytes.length - offset)) offset
    fileBytes flags frames
  rw [he] at hdata
  rw [taskMmap, if_neg (by rw [hfile]; decide), if_neg (Nat.not_le.2 hoffset)]
  cases hresult : mmapData self phys startAddr (min len (fileBytes.length - offset)) offset
    fileBytes flags frames with
  | error e' =>
      rw [hresult] at hdata
      cases hdata
      rfl
  | ok r =>
      rw [hresult] at hdata
      cases hdata

/-- The frames of a fresh boot: `0x80000` to `0x80100`. -/
def bootFrames : StackFrameAllocator :=
  StackFrameAllocator.new.init 0x80000 0x80100

theorem taskMmap_error_of_len_lt_on_ten_bytes :
    (⟨false, false⟩ : MmapFlags).mapAnonymous = false ∧ 6 < (List.replicate 10 (7 : UInt8)).length ∧
      min 5 ((List.replicate 10 (7 : UInt8)).length - 6) < 6 ∧
      ∃ e, taskMmap newBare (fun _ => 0) 0 5 ⟨false, false⟩ 6 (List.replicate 10 7) bootFrames =
        .error e :=
  ⟨rfl, by decide, by decide,
    taskMmap_error_of_len_lt newBare (fun _ => 0) 0 5 rfl (by decide) (by decide) bootFrames⟩

set_option maxRecDepth 10000 in
/-- On a fresh memory set: the four bytes `[1, 2, 3, 4]` mapped from offset `2`
for `2` bytes give a length of `min(2, 4 - 2) = 2` and a copy of
`context[2..2]`, so the mapping's first byte is `0`, not the file's `3`; and
ten bytes mapped from offset `6` for `5` bytes give a length of `4` and a first
slice `context[6..4]`, which panics. -/
theorem mmap_with_offset_drops_bytes_or_panics :
    (∃ memorySet frames phys,
        taskMmap newBare (fun _ => 0) 0 2 ⟨false, false⟩ 2 [1, 2, 3, 4] bootFrames =
          .ok (0x2000_0000, memorySet, frames, phys) ∧
        memorySet.pageTable.userByte phys 0x2000_0000 = some 0) ∧
      taskMmap newBare (fun _ => 0) 0 5 ⟨false, false⟩ 6 (List.replicate 10 7) bootFrames =
        .error (.sliceOutOfRange 6 4 10) :=
  ⟨⟨_, _, _, rfl, rfl⟩, rfl⟩

end ChaosKernel.MmapData
