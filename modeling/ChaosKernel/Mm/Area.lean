import ChaosKernel.Lib.Except
import ChaosKernel.Mm.MemorySet

/-!
# Framed areas over runs of pages

A framed `MapArea` maps its pages in order to frames from `frame_alloc`, which
never hands out a frame twice: over fresh pages `[s, s + n)` it takes the frames
`[b, b + n)` from the allocator's `current` on.  This module says what
`MapArea::map` and `MapArea::unmap` do on such a run, and from that what
`MemorySet::insert_framed_area` and `MemorySet::remove_area_with_start_vpn` do.
-/

namespace ChaosKernel

open FrameAllocator MemorySet Lib

/-- The page map once the pages `[s, s + n)` are given the frames `[b, b + n)`
in order. -/
def insertRun (frames : Std.TreeMap ℕ ℕ) (s b : ℕ) : ℕ → Std.TreeMap ℕ ℕ
  | 0 => frames
  | n + 1 => insertRun (frames.insert s b) (s + 1) (b + 1) n

/-- The page map once the pages `[s, s + n)` are removed in order. -/
def eraseRun (frames : Std.TreeMap ℕ ℕ) (s : ℕ) : ℕ → Std.TreeMap ℕ ℕ
  | 0 => frames
  | n + 1 => eraseRun (frames.erase s) (s + 1) n

theorem getElem?_insertRun (n : ℕ) :
    ∀ (frames : Std.TreeMap ℕ ℕ) (s b vpn : ℕ),
      (insertRun frames s b n)[vpn]? = frameRun frames s n b vpn := by
  induction n with
  | zero =>
      intro frames s b vpn
      rw [frameRun_zero]
      rfl
  | succ n ih =>
      intro frames s b vpn
      rw [insertRun, ih, frameRun_succ]

theorem getElem?_eraseRun (n : ℕ) :
    ∀ (frames : Std.TreeMap ℕ ℕ) (s vpn : ℕ),
      (eraseRun frames s n)[vpn]? = if s ≤ vpn ∧ vpn < s + n then none else frames[vpn]? := by
  induction n with
  | zero =>
      intro frames s vpn
      rw [if_neg (by omega)]
      rfl
  | succ n ih =>
      intro frames s vpn
      rw [eraseRun, ih, getElem?_erase_eq_ite]
      by_cases hfirst : s = vpn
      · subst hfirst
        rw [if_neg (by omega), if_pos rfl, if_pos (by omega)]
      · by_cases hrun : s + 1 ≤ vpn ∧ vpn < s + 1 + n
        · rw [if_pos hrun, if_pos (by omega)]
        · rw [if_neg hrun, if_neg hfirst, if_neg (by omega)]

namespace MapArea

/-- Over fresh pages, with enough frames, the loop of `MapArea::map` of a framed
area maps the pages `[s, s + n)` to the next `n` frames and records them. -/
theorem mapPages_fresh (n : ℕ) :
    ∀ {self : MapArea} {pageTable : PageTable} {frames : StackFrameAllocator} {s : ℕ},
      self.mapType = .framed →
      (∀ k < n, pageTable.entries (s + k) = none) →
      (∀ k < n, self.dataFrames[s + k]? = none) →
      frames.current + n ≤ frames.«end» →
      self.mapPages pageTable frames (List.range' s n) =
        .ok ({ self with dataFrames := insertRun self.dataFrames s frames.current n },
          ⟨PageTable.mappedRun pageTable.entries s n frames.current self.mapPerm.toPTEFlags⟩,
          { frames with current := frames.current + n }) := by
  induction n with
  | zero =>
      intro self pageTable frames s _ _ _ _
      rw [PageTable.mappedRun_zero]
      rfl
  | succ n ih =>
      intro self pageTable frames s htype hfree hheld hframes
      obtain ⟨vpnRange, dataFrames, mapType, mapPerm⟩ := self
      subst htype
      have hfree0 := hfree 0 (by omega)
      have hheld0 := hheld 0 (by omega)
      rw [Nat.add_zero] at hfree0 hheld0
      have hframe : frames.current ≠ frames.«end» := by omega
      -- the first page takes the frame at `current`; the rest is the loop one page on
      have hrest := @ih ⟨vpnRange, dataFrames.insert s frames.current, .framed, mapPerm⟩
        ⟨Function.update pageTable.entries s
          (some ⟨frames.current, PageTable.leafFlags mapPerm.toPTEFlags⟩)⟩
        { frames with current := frames.current + 1 } (s + 1) rfl
        (fun k hk => by
          simp only
          rw [Function.update_of_ne (by omega), show s + 1 + k = s + (k + 1) by omega]
          exact hfree (k + 1) (by omega))
        (fun k hk => by
          simp only [getElem?_insert_eq_ite]
          rw [if_neg (by omega), show s + 1 + k = s + (k + 1) by omega]
          exact hheld (k + 1) (by omega))
        (by simp only; omega)
      simp only [List.range'_succ, mapPages, mapOne, frameFor, bind, Except.bind,
        frameAllocUnwrap_of_ne hframe, insertFrame_of_none hheld0, pure, Except.pure,
        PageTable.map_of_none hfree0]
      rw [hrest, PageTable.mappedRun_succ, Nat.add_assoc, Nat.add_comm 1 n]
      rfl

/-- The same loop with fewer frames left than pages runs out of frames on the
way. -/
theorem mapPages_fresh_exhausted (n : ℕ) :
    ∀ {self : MapArea} {pageTable : PageTable} {frames : StackFrameAllocator} {s : ℕ},
      self.mapType = .framed →
      (∀ k < n, pageTable.entries (s + k) = none) →
      (∀ k < n, self.dataFrames[s + k]? = none) →
      frames.current ≤ frames.«end» → frames.«end» < frames.current + n →
      self.mapPages pageTable frames (List.range' s n) = .error .unwrapNone := by
  induction n with
  | zero =>
      intro self pageTable frames s _ _ _ hle hlt
      omega
  | succ n ih =>
      intro self pageTable frames s htype hfree hheld hle hlt
      obtain ⟨vpnRange, dataFrames, mapType, mapPerm⟩ := self
      subst htype
      by_cases hempty : frames.current = frames.«end»
      · simp [List.range'_succ, mapPages, mapOne, frameFor, bind, Except.bind,
          frameAllocUnwrap_of_eq hempty]
      · have hfree0 := hfree 0 (by omega)
        have hheld0 := hheld 0 (by omega)
        rw [Nat.add_zero] at hfree0 hheld0
        have hrest := @ih ⟨vpnRange, dataFrames.insert s frames.current, .framed, mapPerm⟩
          ⟨Function.update pageTable.entries s
            (some ⟨frames.current, PageTable.leafFlags mapPerm.toPTEFlags⟩)⟩
          { frames with current := frames.current + 1 } (s + 1) rfl
          (fun k hk => by
            simp only
            rw [Function.update_of_ne (by omega), show s + 1 + k = s + (k + 1) by omega]
            exact hfree (k + 1) (by omega))
          (fun k hk => by
            simp only [getElem?_insert_eq_ite]
            rw [if_neg (by omega), show s + 1 + k = s + (k + 1) by omega]
            exact hheld (k + 1) (by omega))
          (by simp only; omega) (by simp only; omega)
        simp only [List.range'_succ, mapPages, mapOne, frameFor, bind, Except.bind,
          frameAllocUnwrap_of_ne hempty, insertFrame_of_none hheld0, pure, Except.pure,
          PageTable.map_of_none hfree0]
        exact hrest

/-- On pages `[s, s + n)` that the area holds with the frames `[b, b + n)`, all
mapped and all allocated, the loop of `MapArea::unmap` of a framed area frees
the frames in order and unmaps the pages. -/
theorem unmapPages_held (n : ℕ) :
    ∀ {self : MapArea} {pageTable : PageTable} {frames : StackFrameAllocator} {s b : ℕ},
      self.mapType = .framed →
      (∀ k < n, self.dataFrames[s + k]? = some (b + k)) →
      (∀ k < n, (pageTable.entries (s + k)).isSome) →
      (∀ k < n, b + k < frames.current ∧ b + k ∉ frames.recycled) →
      self.unmapPages pageTable frames (List.range' s n) =
        .ok ({ self with dataFrames := eraseRun self.dataFrames s n },
          ⟨PageTable.unmappedRun pageTable.entries s n⟩,
          { frames with recycled := (List.range' b n).reverse ++ frames.recycled }) := by
  induction n with
  | zero =>
      intro self pageTable frames s b _ _ _ _
      rw [PageTable.unmappedRun_zero]
      rfl
  | succ n ih =>
      intro self pageTable frames s b htype hheld hmapped hframes
      obtain ⟨vpnRange, dataFrames, mapType, mapPerm⟩ := self
      subst htype
      have hheld0 := hheld 0 (by omega)
      have hmapped0 := hmapped 0 (by omega)
      obtain ⟨hlt0, hfree0⟩ := hframes 0 (by omega)
      simp only [Nat.add_zero] at hheld0 hmapped0 hlt0 hfree0
      have hdealloc : frames.dealloc b = .ok { frames with recycled := b :: frames.recycled } :=
        StackFrameAllocator.dealloc_eq_ok_iff.2 ⟨hlt0, hfree0, rfl⟩
      -- the first page gives its frame back; the rest is the loop one page on
      have hrest := @ih ⟨vpnRange, dataFrames.erase s, .framed, mapPerm⟩
        ⟨Function.update pageTable.entries s none⟩
        { frames with recycled := b :: frames.recycled } (s + 1) (b + 1) rfl
        (fun k hk => by
          simp only [getElem?_erase_eq_ite]
          rw [if_neg (by omega), show s + 1 + k = s + (k + 1) by omega,
            show b + 1 + k = b + (k + 1) by omega]
          exact hheld (k + 1) (by omega))
        (fun k hk => by
          simp only
          rw [Function.update_of_ne (by omega), show s + 1 + k = s + (k + 1) by omega]
          exact hmapped (k + 1) (by omega))
        (fun k hk => by
          obtain ⟨hlt, hfree⟩ := hframes (k + 1) (by omega)
          refine ⟨by simp only; omega, ?_⟩
          simp only [List.mem_cons, not_or]
          exact ⟨by omega, by rw [show b + 1 + k = b + (k + 1) by omega]; exact hfree⟩)
      simp only [List.range'_succ, unmapPages, unmapOne, bind, Except.bind,
        removeFrame_of_some hheld0, hdealloc, Except.map, pure, Except.pure,
        PageTable.unmap_of_isSome hmapped0]
      rw [hrest, PageTable.unmappedRun_succ, List.reverse_cons, List.append_assoc]
      rfl

end MapArea

namespace MemorySet

/-- `insert_framed_area` over fresh pages `[s, s + n)`, with enough frames,
maps them to the next `n` frames and appends the area that holds them. -/
theorem insertFramedArea_fresh {self : MemorySet} {frames : StackFrameAllocator}
    {startVa endVa s n : ℕ} {permission : MapPermission} (hstart : floorPage startVa = s)
    (hend : ceilPage endVa = s + n) (hfree : ∀ k < n, self.pageTable.entries (s + k) = none)
    (hframes : frames.current + n ≤ frames.«end») :
    self.insertFramedArea startVa endVa permission frames =
      .ok ({ self with
          pageTable := ⟨PageTable.mappedRun self.pageTable.entries s n frames.current
            permission.toPTEFlags⟩
          areas := self.areas ++ [⟨⟨s, s + n⟩, insertRun ∅ s frames.current n, .framed, permission⟩] },
        { frames with current := frames.current + n }) := by
  have hpages : VPNRange.pages ⟨s, s + n⟩ = List.range' s n := by
    simp [VPNRange.pages]
  have hmap := @MapArea.mapPages_fresh n ⟨⟨s, s + n⟩, ∅, .framed, permission⟩ self.pageTable frames s
    rfl hfree (fun _ _ => rfl) hframes
  simp only [insertFramedArea, MapArea.new, hstart, hend, VPNRange.new_of_le (Nat.le_add_right s n),
    Except.map, bind, Except.bind, push, MapArea.map, hpages, hmap, pure, Except.pure]

/-- `insert_framed_area` over fresh pages with fewer frames left than pages runs
out of frames. -/
theorem insertFramedArea_exhausted {self : MemorySet} {frames : StackFrameAllocator}
    {startVa endVa s n : ℕ} {permission : MapPermission} (hstart : floorPage startVa = s)
    (hend : ceilPage endVa = s + n) (hfree : ∀ k < n, self.pageTable.entries (s + k) = none)
    (hle : frames.current ≤ frames.«end») (hlt : frames.«end» < frames.current + n) :
    self.insertFramedArea startVa endVa permission frames = .error .unwrapNone := by
  have hpages : VPNRange.pages ⟨s, s + n⟩ = List.range' s n := by
    simp [VPNRange.pages]
  have hmap := @MapArea.mapPages_fresh_exhausted n ⟨⟨s, s + n⟩, ∅, .framed, permission⟩
    self.pageTable frames s rfl hfree (fun _ _ => rfl) hle hlt
  simp only [insertFramedArea, MapArea.new, hstart, hend, VPNRange.new_of_le (Nat.le_add_right s n),
    Except.map, bind, Except.bind, push, MapArea.map, hpages, hmap]

/-- `remove_area_with_start_vpn` of a framed area over `[s, s + n)` that holds
the frames `[b, b + n)`, all mapped and all allocated, unmaps its pages, frees
its frames in order and takes it out of `areas`. -/
theorem removeAreaWithStartVpn_framed {self : MemorySet} {frames : StackFrameAllocator}
    {s n b : ℕ} {area : MapArea} (hfind : self.areas.find? (startsAt s) = some area)
    (hrange : area.vpnRange = ⟨s, s + n⟩) (htype : area.mapType = .framed)
    (hdata : ∀ vpn : ℕ, area.dataFrames[vpn]? = frameRun ∅ s n b vpn)
    (hmapped : ∀ k < n, (self.pageTable.entries (s + k)).isSome)
    (hframes : ∀ k < n, b + k < frames.current ∧ b + k ∉ frames.recycled) :
    self.removeAreaWithStartVpn s frames =
      .ok ({ self with
          pageTable := ⟨PageTable.unmappedRun self.pageTable.entries s n⟩
          areas := self.areas.eraseP (startsAt s) },
        { frames with recycled := (List.range' b n).reverse ++ frames.recycled }) := by
  have hpages : area.vpnRange.pages = List.range' s n := by
    simp [hrange, VPNRange.pages]
  have hunmap := MapArea.unmapPages_held n htype
    (fun k hk => by
      rw [hdata, frameRun, if_pos (by omega), Nat.add_sub_cancel_left])
    hmapped hframes
  -- after the unmap the area holds no frame, so dropping it frees nothing more
  have hempty : ∀ vpn : ℕ, (eraseRun area.dataFrames s n)[vpn]? = none := by
    intro vpn
    rw [getElem?_eraseRun]
    split_ifs with hrun
    · rfl
    · rw [hdata, frameRun, if_neg hrun]
      rfl
  have hdrop : MapArea.drop { area with dataFrames := eraseRun area.dataFrames s n }
      { frames with recycled := (List.range' b n).reverse ++ frames.recycled } =
      .ok { frames with recycled := (List.range' b n).reverse ++ frames.recycled } :=
    foldlM_of_getElem?_eq_none hempty _ _
  simp only [removeAreaWithStartVpn, hfind, MapArea.unmap, hpages, hunmap, bind, Except.bind, hdrop,
    pure, Except.pure]

end MemorySet

end ChaosKernel
