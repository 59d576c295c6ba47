import ChaosKernel.Lib.List
import ChaosKernel.Lib.Run
import ChaosKernel.Mm.Area
import ChaosKernel.Task.Res

/-!
# Kernel stacks in `KERNEL_SPACE`

Kernel stacks are allocated by `kstack_alloc` and freed when a `KernelStack` is
dropped.  The stack with id `i` has its eight pages at `stackVpn i` and a guard
page after them, above `MEMORY_END`; nothing else of `KERNEL_SPACE` lies there.
The frames a stack's pages get come from the frame allocator, which never hands
a frame out twice, so the eight frames of a stack are the eight after
`current` at the time of its `kstack_alloc`.

`KstackSystem` adds to the kernel state the stacks alive, each with the first of
its frames, and `Inv` ties them to `KSTACK_ALLOCATOR`, to the areas and the page
table of `KERNEL_SPACE` and to the frame allocator.  The hypotheses on the
kernel space at the start are what `MemorySet::new_kernel` gives: nothing mapped
from `MEMORY_END` on and no area starting there; the frames left are few enough
for every stack they can back to lie below `2 ^ 64`.
-/

namespace ChaosKernel.Kstack

open FrameAllocator MemorySet Lib

/-! ## Where the stacks lie -/

/-- The first page of the stack with id `kstackId`. -/
def stackVpn (kstackId : ℕ) : ℕ :=
  memoryEnd / pageSize + kstackId * 9

/-- A page of the stack with id `kstackId`. -/
def InStack (kstackId vpn : ℕ) : Prop :=
  stackVpn kstackId ≤ vpn ∧ vpn < stackVpn kstackId + 8

instance (kstackId vpn : ℕ) : Decidable (InStack kstackId vpn) :=
  inferInstanceAs (Decidable (_ ∧ _))

/-- The stack with id `kstackId` lies wholly below `2 ^ 64`, guard page
included. -/
def Fits (kstackId : ℕ) : Prop :=
  memoryEnd + (kstackId + 1) * (kernelStackSize + pageSize) ≤ usizeModulus

/-- The flags of a kernel stack's pages. -/
def stackFlags : PTEFlags :=
  (MapPermission.R ||| MapPermission.W).toPTEFlags

/-- The area `kstack_alloc` leaves for the stack `kstackId` whose pages got the
frames from `base` on. -/
def stackArea (kstackId base : ℕ) : MapArea :=
  ⟨⟨stackVpn kstackId, stackVpn kstackId + 8⟩, insertRun ∅ (stackVpn kstackId) base 8, .framed,
    MapPermission.R ||| MapPermission.W⟩

theorem stackVpn_ge (kstackId : ℕ) : memoryEnd / pageSize ≤ stackVpn kstackId :=
  Nat.le_add_right _ _

/-- Two stacks share no page. -/
theorem not_inStack_of_ne {kstackId kstackId' vpn : ℕ} (hne : kstackId ≠ kstackId')
    (hin : InStack kstackId vpn) : ¬InStack kstackId' vpn := by
  unfold InStack stackVpn at *
  omega

/-- The page after a stack is in no stack. -/
theorem guard_not_inStack (kstackId kstackId' : ℕ) : ¬InStack kstackId' (stackVpn kstackId + 8) := by
  unfold InStack stackVpn
  omega

theorem kernelStackPosition_of_fits {kstackId : ℕ} (hfits : Fits kstackId) :
    kernelStackPosition kstackId =
      (memoryEnd + kstackId * (kernelStackSize + pageSize),
        memoryEnd + kstackId * (kernelStackSize + pageSize) + kernelStackSize) := by
  unfold Fits at hfits
  unfold kernelStackPosition
  have hbottom : memoryEnd + kstackId * (kernelStackSize + pageSize) < usizeModulus := by
    unfold kernelStackSize pageSize at *
    nlinarith
  have htop : memoryEnd + kstackId * (kernelStackSize + pageSize) + kernelStackSize < usizeModulus := by
    unfold kernelStackSize pageSize at *
    nlinarith
  rw [Nat.mod_eq_of_lt hbottom, Nat.mod_eq_of_lt htop]

/-- The bottom of a stack is page-aligned, canonical, and on its first page. -/
theorem bottom_spec (kstackId : ℕ) :
    virtAddr (memoryEnd + kstackId * (kernelStackSize + pageSize)) =
        .ok (memoryEnd + kstackId * (kernelStackSize + pageSize)) ∧
      vpnOfVa (memoryEnd + kstackId * (kernelStackSize + pageSize)) = .ok (stackVpn kstackId) ∧
      floorPage (memoryEnd + kstackId * (kernelStackSize + pageSize)) = stackVpn kstackId := by
  have hcanonical : usizeModulus - 2 ^ vaWidthSv39 ≤ memoryEnd + kstackId * (kernelStackSize + pageSize) := by
    unfold usizeModulus vaWidthSv39 memoryEnd
    omega
  have hfloor : floorPage (memoryEnd + kstackId * (kernelStackSize + pageSize)) = stackVpn kstackId := by
    unfold floorPage stackVpn memoryEnd kernelStackSize pageSize
    omega
  refine ⟨virtAddr_of_ge hcanonical, ?_, hfloor⟩
  rw [vpnOfVa_of_dvd (by unfold memoryEnd kernelStackSize pageSize; omega), ← hfloor]
  rfl

/-- The top of a stack is canonical and ends its eighth page. -/
theorem top_spec {kstackId : ℕ} (hfits : Fits kstackId) :
    virtAddr (memoryEnd + kstackId * (kernelStackSize + pageSize) + kernelStackSize) =
        .ok (memoryEnd + kstackId * (kernelStackSize + pageSize) + kernelStackSize) ∧
      ceilPage (memoryEnd + kstackId * (kernelStackSize + pageSize) + kernelStackSize) =
        stackVpn kstackId + 8 := by
  unfold Fits at hfits
  have hcanonical : usizeModulus - 2 ^ vaWidthSv39 ≤
      memoryEnd + kstackId * (kernelStackSize + pageSize) + kernelStackSize := by
    unfold usizeModulus vaWidthSv39 memoryEnd
    omega
  refine ⟨virtAddr_of_ge hcanonical, ?_⟩
  rw [ceilPage_of_pos (by unfold memoryEnd; omega) (by unfold kernelStackSize pageSize at *; omega)]
  unfold stackVpn memoryEnd kernelStackSize pageSize
  omega

/-! ## `kstack_alloc` and `KernelStack::drop` on a stack that fits -/

/-- The kernel state once `kstack_alloc` has mapped the stack of the id
`KSTACK_ALLOCATOR` hands out to the next eight frames. -/
def allocated (kernel : KernelState) : KernelState :=
  ⟨kernel.kstackAllocator.alloc.2,
    { kernel.kernelSpace with
      pageTable := ⟨PageTable.mappedRun kernel.kernelSpace.pageTable.entries
        (stackVpn kernel.kstackAllocator.alloc.1) 8 kernel.frameAllocator.current stackFlags⟩
      areas := kernel.kernelSpace.areas ++
        [stackArea kernel.kstackAllocator.alloc.1 kernel.frameAllocator.current] },
    { kernel.frameAllocator with current := kernel.frameAllocator.current + 8 }⟩

/-- The kernel state once the stack `kstackId`, whose frames start at `base`,
has been dropped. -/
def dropped (kernel : KernelState) (kstackId base : ℕ) : KernelState :=
  ⟨{ kernel.kstackAllocator with recycled := kstackId :: kernel.kstackAllocator.recycled },
    { kernel.kernelSpace with
      pageTable := ⟨PageTable.unmappedRun kernel.kernelSpace.pageTable.entries (stackVpn kstackId) 8⟩
      areas := kernel.kernelSpace.areas.eraseP (startsAt (stackVpn kstackId)) },
    { kernel.frameAllocator with
      recycled := (List.range' base 8).reverse ++ kernel.frameAllocator.recycled }⟩

section Calls

variable {kernel : KernelState}

/-- `kstack_alloc` for an id whose stack fits, over free stack pages and with
eight frames left, maps the stack to the next eight frames and appends its
area. -/
theorem kstackAlloc_fresh (hfits : Fits kernel.kstackAllocator.alloc.1)
    (hfree : ∀ k < 8,
      kernel.kernelSpace.pageTable.entries (stackVpn kernel.kstackAllocator.alloc.1 + k) = none)
    (hframes : kernel.frameAllocator.current + 8 ≤ kernel.frameAllocator.«end») :
    kstackAlloc kernel = .ok (kernel.kstackAllocator.alloc.1, allocated kernel) := by
  unfold allocated
  obtain ⟨kstackAllocator, kernelSpace, frames⟩ := kernel
  generalize halloc : kstackAllocator.alloc = pair at hfits hfree ⊢
  obtain ⟨kstackId, kstackAllocator'⟩ := pair
  obtain ⟨hbottom, -, hfloor⟩ := bottom_spec kstackId
  obtain ⟨htop, hceil⟩ := top_spec hfits
  have harea := @MemorySet.insertFramedArea_fresh kernelSpace frames _ _ (stackVpn kstackId) 8
    (MapPermission.R ||| MapPermission.W) hfloor hceil hfree hframes
  -- the binds are peeled with `rw`: `simp` on them leaves the kernel a product by a literal to unfold
  simp only [kstackAlloc, halloc, kernelStackPosition_of_fits hfits, hbottom, htop]
  rw [ok_bind, ok_bind, harea]
  rfl

/-- With fewer than eight frames left, the same call runs out of frames. -/
theorem kstackAlloc_exhausted (hfits : Fits kernel.kstackAllocator.alloc.1)
    (hfree : ∀ k < 8,
      kernel.kernelSpace.pageTable.entries (stackVpn kernel.kstackAllocator.alloc.1 + k) = none)
    (hle : kernel.frameAllocator.current ≤ kernel.frameAllocator.«end»)
    (hlt : kernel.frameAllocator.«end» < kernel.frameAllocator.current + 8) :
    kstackAlloc kernel = .error .unwrapNone := by
  obtain ⟨kstackAllocator, kernelSpace, frames⟩ := kernel
  generalize halloc : kstackAllocator.alloc = pair at hfits hfree ⊢
  obtain ⟨kstackId, kstackAllocator'⟩ := pair
  obtain ⟨hbottom, -, hfloor⟩ := bottom_spec kstackId
  obtain ⟨htop, hceil⟩ := top_spec hfits
  have harea := @MemorySet.insertFramedArea_exhausted kernelSpace frames _ _ (stackVpn kstackId) 8
    (MapPermission.R ||| MapPermission.W) hfloor hceil hfree hle hlt
  simp only [kstackAlloc, halloc, kernelStackPosition_of_fits hfits, hbottom, htop]
  rw [ok_bind, ok_bind, harea]
  rfl

/-- Dropping the `KernelStack` of a stack that fits, whose area is the first
one starting at its bottom page, with its pages mapped and its frames
allocated: the area leaves `KERNEL_SPACE`, the pages are unmapped, the frames
freed in order, and the id goes back. -/
theorem drop_held {kstackId base : ℕ} (hfits : Fits kstackId)
    (hfind : kernel.kernelSpace.areas.find? (startsAt (stackVpn kstackId)) =
      some (stackArea kstackId base))
    (hmapped : ∀ k < 8, (kernel.kernelSpace.pageTable.entries (stackVpn kstackId + k)).isSome)
    (hframes : ∀ k < 8, base + k < kernel.frameAllocator.current ∧
      base + k ∉ kernel.frameAllocator.recycled)
    (hdealloc : kernel.kstackAllocator.dealloc kstackId =
      .ok { kernel.kstackAllocator with recycled := kstackId :: kernel.kstackAllocator.recycled }) :
    KernelStack.drop kstackId kernel = .ok (dropped kernel kstackId base) := by
  obtain ⟨hbottom, hvpn, -⟩ := bottom_spec kstackId
  have hremove := MemorySet.removeAreaWithStartVpn_framed hfind rfl rfl
    (getElem?_insertRun 8 ∅ (stackVpn kstackId) base) hmapped hframes
  simp only [KernelStack.drop, kernelStackPosition_of_fits hfits, hbottom]
  rw [ok_bind, hvpn, ok_bind, hremove, ok_bind, hdealloc, ok_bind]
  rfl

end Calls

/-! ## The stacks alive -/

/-- The kernel state with, as ghost state, the `KernelStack`s alive: each one's
id and the first of the eight frames its pages got, in the order of their
`kstack_alloc`. -/
structure KstackSystem where
  kernel : KernelState
  live : List (ℕ × ℕ)

/-- A call: `kstack_alloc`, or the drop of a `KernelStack`. -/
inductive KstackOp
  | alloc
  | drop (kstackId : ℕ)
  deriving DecidableEq, Repr

namespace KstackSystem

/-- The ids of the stacks alive. -/
def ids (sys : KstackSystem) : List ℕ :=
  sys.live.map Prod.fst

/-- One call.  A call that panics is not a step, and only a `KernelStack` that
is alive can be dropped, once. -/
def step (sys : KstackSystem) : KstackOp → Option KstackSystem
  | .alloc =>
      match kstackAlloc sys.kernel with
      | .ok (kstackId, kernel) =>
          some ⟨kernel, sys.live ++ [(kstackId, sys.kernel.frameAllocator.current)]⟩
      | .error _ => none
  | .drop kstackId =>
      if kstackId ∈ sys.ids then
        match KernelStack.drop kstackId sys.kernel with
        | .ok kernel => some ⟨kernel, sys.live.eraseP (·.1 == kstackId)⟩
        | .error _ => none
      else none

/-- No stack yet, over the kernel space and frames `KERNEL_SPACE` starts with. -/
def start (kernelSpace : MemorySet) (frames : StackFrameAllocator) : KstackSystem :=
  ⟨⟨RecycleAllocator.new, kernelSpace, frames⟩, []⟩

end KstackSystem

/-- The live stack that holds a page, if any. -/
def holder (live : List (ℕ × ℕ)) (vpn : ℕ) : Option (ℕ × ℕ) :=
  live.find? fun p => decide (InStack p.1 vpn)

/-- The page table of the kernel space: the pages of each live stack mapped in
order to its frames, the rest as in `entries`. -/
def stackEntries (entries : ℕ → Option PageTableEntry) (live : List (ℕ × ℕ)) (vpn : ℕ) :
    Option PageTableEntry :=
  match holder live vpn with
  | some p => some ⟨p.2 + (vpn - stackVpn p.1), PageTable.leafFlags stackFlags⟩
  | none => entries vpn

theorem holder_eq_none {live : List (ℕ × ℕ)} {vpn : ℕ} (hnone : ∀ p ∈ live, ¬InStack p.1 vpn) :
    holder live vpn = none :=
  List.find?_eq_none.2 fun p hp => by simpa using hnone p hp

/-- A page of a stack none of `live` has id of is held by none of them. -/
theorem holder_of_not_mem {live : List (ℕ × ℕ)} {kstackId vpn : ℕ}
    (hnot : kstackId ∉ live.map Prod.fst) (hin : InStack kstackId vpn) : holder live vpn = none :=
  holder_eq_none fun p hp =>
    not_inStack_of_ne (fun heq => hnot (by rw [heq]; exact List.mem_map_of_mem hp)) hin

/-- A page held by an entry of the list and by none before it. -/
theorem holder_middle {front back : List (ℕ × ℕ)} {q : ℕ × ℕ} {vpn : ℕ}
    (hfront : ∀ p ∈ front, ¬InStack p.1 vpn) (hin : InStack q.1 vpn) :
    holder (front ++ q :: back) vpn = some q := by
  rw [holder, List.find?_append, List.find?_eq_none.2 (fun p hp => by simpa using hfront p hp),
    Option.none_or, List.find?_cons_of_pos (by simpa using hin)]

/-- Removing an entry that does not hold a page leaves its holder. -/
theorem holder_remove {front back : List (ℕ × ℕ)} {q : ℕ × ℕ} {vpn : ℕ} (hnot : ¬InStack q.1 vpn) :
    holder (front ++ q :: back) vpn = holder (front ++ back) vpn := by
  rw [holder, holder, List.find?_append, List.find?_append,
    List.find?_cons_of_neg (by simpa using hnot)]

/-- An area of a stack starts at the first page of a stack exactly when it is
that stack's. -/
theorem startsAt_stackArea (kstackId kstackId' base : ℕ) :
    startsAt (stackVpn kstackId) (stackArea kstackId' base) = (kstackId' == kstackId) := by
  simp only [startsAt, stackArea, stackVpn, Bool.beq_eq_decide_eq]
  rw [Bool.eq_iff_iff, decide_eq_true_iff, decide_eq_true_iff]
  omega

/-- The kernel space and the frame allocator with the stacks alive, over the
kernel space and frames `c` to `e` that `KERNEL_SPACE` started with. -/
structure Inv (kernelSpace : MemorySet) (c e : ℕ) (sys : KstackSystem) : Prop where
  /-- The held ids of `KSTACK_ALLOCATOR` are those of the live stacks. -/
  recycle : sys.kernel.kstackAllocator.Inv sys.ids
  /-- After the kernel's own areas come those of the live stacks, in order. -/
  areas_eq : sys.kernel.kernelSpace.areas =
    kernelSpace.areas ++ sys.live.map fun p => stackArea p.1 p.2
  /-- The page table maps the live stacks over the kernel's own entries. -/
  entries_eq : sys.kernel.kernelSpace.pageTable.entries =
    stackEntries kernelSpace.pageTable.entries sys.live
  end_eq : sys.kernel.frameAllocator.«end» = e
  current_le : sys.kernel.frameAllocator.current ≤ e
  /-- Every id ever handed out cost eight frames. -/
  count_le : c + 8 * sys.kernel.kstackAllocator.current ≤ sys.kernel.frameAllocator.current
  /-- The frames of a live stack have been handed out ... -/
  base_le : ∀ p ∈ sys.live, p.2 + 8 ≤ sys.kernel.frameAllocator.current
  /-- ... one stack after the other ... -/
  pairwise : sys.live.Pairwise fun p q => p.2 + 8 ≤ q.2
  /-- ... and are not free. -/
  not_recycled : ∀ p ∈ sys.live, ∀ k < 8, p.2 + k ∉ sys.kernel.frameAllocator.recycled
  recycled_lt : ∀ ppn ∈ sys.kernel.frameAllocator.recycled, ppn < sys.kernel.frameAllocator.current

/-- `KERNEL_SPACE` and the frame allocator when the first kernel stack is
allocated: nothing mapped and no area starting from `MEMORY_END` on, a
well-formed allocator, and few enough frames left for every stack they can
back to fit. -/
structure Start (kernelSpace : MemorySet) (frames : StackFrameAllocator) : Prop where
  free : ∀ vpn, memoryEnd / pageSize ≤ vpn → kernelSpace.pageTable.entries vpn = none
  areas_below : ∀ area ∈ kernelSpace.areas, area.vpnRange.l < memoryEnd / pageSize
  current_le : frames.current ≤ frames.«end»
  recycled_lt : ∀ ppn ∈ frames.recycled, ppn < frames.current
  room : memoryEnd + ((frames.«end» - frames.current) / 8 + 1) * (kernelStackSize + pageSize) ≤
    usizeModulus

section Invariant

variable {kernelSpace : MemorySet} {frames : StackFrameAllocator} {sys : KstackSystem}

theorem inv_start (hstart : Start kernelSpace frames) :
    Inv kernelSpace frames.current frames.«end» (KstackSystem.start kernelSpace frames) where
  recycle := RecycleAllocator.inv_new
  areas_eq := by simp [KstackSystem.start]
  entries_eq := by
    funext vpn
    rfl
  end_eq := rfl
  current_le := hstart.current_le
  count_le := by simp [KstackSystem.start, RecycleAllocator.new]
  base_le := by simp [KstackSystem.start]
  pairwise := List.Pairwise.nil
  not_recycled := by simp [KstackSystem.start]
  recycled_lt := hstart.recycled_lt

/-- Every id up to `current` fits: the frames left at the start bound how many
stacks were ever handed out. -/
theorem Inv.fits (hinv : Inv kernelSpace frames.current frames.«end» sys)
    (hstart : Start kernelSpace frames) {kstackId : ℕ} (hid : kstackId ≤ sys.kernel.kstackAllocator.current) : Fits kstackId := by
  have hcount := hinv.count_le
  have hle := hinv.current_le
  have hbound : kstackId ≤ (frames.«end» - frames.current) / 8 := by
    omega
  unfold Fits
  calc memoryEnd + (kstackId + 1) * (kernelStackSize + pageSize)
      ≤ memoryEnd + ((frames.«end» - frames.current) / 8 + 1) * (kernelStackSize + pageSize) := by
        gcongr
    _ ≤ usizeModulus := hstart.room

/-- The pages of a stack whose id is not held are free. -/
theorem Inv.stack_free (hinv : Inv kernelSpace frames.current frames.«end» sys)
    (hstart : Start kernelSpace frames) {kstackId : ℕ} (hnot : kstackId ∉ sys.ids) (k : ℕ) (hk : k < 8) :
    sys.kernel.kernelSpace.pageTable.entries (stackVpn kstackId + k) = none := by
  have hin : InStack kstackId (stackVpn kstackId + k) := ⟨Nat.le_add_right _ _, by omega⟩
  rw [hinv.entries_eq, stackEntries, holder_of_not_mem hnot hin]
  exact hstart.free _ ((stackVpn_ge kstackId).trans (Nat.le_add_right _ _))

/-- What `kstack_alloc` does from the invariant: with eight frames left it maps
the stack of the id it hands out, and with fewer it runs out of frames.  It
never maps a page that is already mapped. -/
theorem Inv.kstackAlloc_outcome (hinv : Inv kernelSpace frames.current frames.«end» sys)
    (hstart : Start kernelSpace frames) :
    (sys.kernel.frameAllocator.current + 8 ≤ sys.kernel.frameAllocator.«end» ∧
      kstackAlloc sys.kernel = .ok (sys.kernel.kstackAllocator.alloc.1, allocated sys.kernel)) ∨
    kstackAlloc sys.kernel = .error .unwrapNone := by
  have hfresh := RecycleAllocator.alloc_not_mem hinv.recycle
  have hfits : Fits sys.kernel.kstackAllocator.alloc.1 := by
    apply hinv.fits hstart
    have hlt := RecycleAllocator.alloc_lt hinv.recycle
    have hle := RecycleAllocator.alloc_current_le sys.kernel.kstackAllocator
    omega
  have hstack := hinv.stack_free hstart hfresh
  by_cases henough : sys.kernel.frameAllocator.current + 8 ≤ sys.kernel.frameAllocator.«end»
  · exact Or.inl ⟨henough, kstackAlloc_fresh hfits hstack henough⟩
  · have hle : sys.kernel.frameAllocator.current ≤ sys.kernel.frameAllocator.«end» := by
      rw [hinv.end_eq]
      exact hinv.current_le
    exact Or.inr (kstackAlloc_exhausted hfits hstack hle (by omega))

/-- Mapping the stack of the fresh id keeps the invariant, with the stack
alive. -/
theorem inv_allocated (hinv : Inv kernelSpace frames.current frames.«end» sys)
    (henough : sys.kernel.frameAllocator.current + 8 ≤ sys.kernel.frameAllocator.«end») :
    Inv kernelSpace frames.current frames.«end»
      ⟨allocated sys.kernel,
        sys.live ++ [(sys.kernel.kstackAllocator.alloc.1, sys.kernel.frameAllocator.current)]⟩ := by
  have hfresh := RecycleAllocator.alloc_not_mem hinv.recycle
  have hcurrent := RecycleAllocator.alloc_current_le sys.kernel.kstackAllocator
  have hbase := hinv.base_le
  have hrecycled := hinv.recycled_lt
  refine ⟨?_, ?_, ?_, hinv.end_eq, ?_, ?_, ?_, ?_, ?_, ?_⟩
  · -- the fresh id joins the held ones, at the end of the list
    have hperm := List.perm_append_singleton sys.kernel.kstackAllocator.alloc.1 sys.ids
    simpa [KstackSystem.ids, allocated] using
      (RecycleAllocator.inv_alloc hinv.recycle).of_perm hperm.symm
  · simp [allocated, hinv.areas_eq]
  · -- the new stack's pages were held by no live stack
    funext vpn
    simp only [allocated, PageTable.mappedRun, hinv.entries_eq, stackEntries, holder, List.find?_append]
    by_cases hin : InStack sys.kernel.kstackAllocator.alloc.1 vpn
    · have hnone := holder_of_not_mem hfresh hin
      rw [holder] at hnone
      rw [if_pos (show _ ∧ _ from hin), hnone]
      simp [hin]
    · rw [if_neg (show ¬(_ ∧ _) from hin)]
      cases hfind : List.find? (fun p => decide (InStack p.1 vpn)) sys.live with
      | some p => rfl
      | none => simp [hin]
  · simp only [allocated]
    rw [← hinv.end_eq]
    exact henough
  · simp only [allocated]
    have := hinv.count_le
    omega
  · intro p hp
    simp only [allocated]
    rcases List.mem_append.1 hp with hp | hp
    · have := hbase p hp
      omega
    · rw [List.mem_singleton] at hp
      subst hp
      exact le_rfl
  · exact List.pairwise_append.2 ⟨hinv.pairwise, List.pairwise_singleton _ _,
      fun p hp q hq => by rw [List.mem_singleton] at hq; subst hq; exact hbase p hp⟩
  · intro p hp k hk
    simp only [allocated]
    rcases List.mem_append.1 hp with hp | hp
    · exact hinv.not_recycled p hp k hk
    · rw [List.mem_singleton] at hp
      subst hp
      intro hmem
      have := hrecycled _ hmem
      simp at this
  · intro ppn hppn
    simp only [allocated] at hppn ⊢
    have := hrecycled ppn hppn
    omega

/-- A live stack's entry, and the list once it is taken out. -/
theorem Inv.live_split (hinv : Inv kernelSpace frames.current frames.«end» sys) {kstackId : ℕ}
    (hid : kstackId ∈ sys.ids) :
    ∃ base front back, sys.live = front ++ (kstackId, base) :: back ∧
      sys.live.eraseP (·.1 == kstackId) = front ++ back ∧
      kstackId ∉ (front ++ back).map Prod.fst := by
  obtain ⟨⟨kstackId', base⟩, hfind⟩ : ∃ q, sys.live.find? (·.1 == kstackId) = some q := by
    obtain ⟨p, hp, rfl⟩ := List.mem_map.1 hid
    exact Option.isSome_iff_exists.1 (List.find?_isSome.2 ⟨p, hp, by simp⟩)
  have hkey : kstackId' = kstackId := by simpa using List.find?_some hfind
  subst hkey
  obtain ⟨front, back, hlive, herase⟩ := eraseP_of_find? hfind
  have hnodup := hinv.recycle.live_nodup
  rw [KstackSystem.ids, hlive] at hnodup
  exact ⟨base, front, back, hlive, herase, (nodup_map_middle Prod.fst hnodup).1⟩

/-- No area of the kernel's own starts at the first page of a stack. -/
theorem Start.not_startsAt (hstart : Start kernelSpace frames) (kstackId : ℕ) :
    ∀ area ∈ kernelSpace.areas, ¬startsAt (stackVpn kstackId) area = true := by
  intro area harea
  have hbelow := hstart.areas_below area harea
  have hge := stackVpn_ge kstackId
  simp only [startsAt, beq_iff_eq]
  omega

/-- No area of a stack with another id starts at the first page of a stack. -/
theorem not_startsAt_of_not_mem {live : List (ℕ × ℕ)} {kstackId : ℕ}
    (hnot : kstackId ∉ live.map Prod.fst) :
    ∀ area ∈ live.map (fun p => stackArea p.1 p.2), ¬startsAt (stackVpn kstackId) area = true := by
  intro area harea
  obtain ⟨p, hp, rfl⟩ := List.mem_map.1 harea
  have hne : p.1 ≠ kstackId := ne_of_mem_of_not_mem (List.mem_map_of_mem hp) hnot
  simpa [startsAt_stackArea] using hne

section Drop

variable {kstackId base : ℕ} {front back : List (ℕ × ℕ)}

theorem Inv.drop_eq (hinv : Inv kernelSpace frames.current frames.«end» sys)
    (hstart : Start kernelSpace frames) (hlive : sys.live = front ++ (kstackId, base) :: back)
    (hnot : kstackId ∉ (front ++ back).map Prod.fst) :
    KernelStack.drop kstackId sys.kernel = .ok (dropped sys.kernel kstackId base) := by
  have hmem : (kstackId, base) ∈ sys.live := by
    rw [hlive]
    exact List.mem_append_right _ List.mem_cons_self
  have hid : kstackId ∈ sys.ids := List.mem_map_of_mem (f := Prod.fst) hmem
  have hnotFront : kstackId ∉ front.map Prod.fst := fun h =>
    hnot (by rw [List.map_append]; exact List.mem_append_left _ h)
  -- the stack's area is the first one starting at its bottom page
  have hfind : sys.kernel.kernelSpace.areas.find? (startsAt (stackVpn kstackId)) =
      some (stackArea kstackId base) := by
    rw [hinv.areas_eq, List.find?_append, List.find?_eq_none.2 (hstart.not_startsAt kstackId),
      Option.none_or, hlive, List.map_append, List.map_cons, List.find?_append,
      List.find?_eq_none.2 (not_startsAt_of_not_mem hnotFront), Option.none_or,
      List.find?_cons_of_pos (by simp [startsAt_stackArea])]
  have hmapped : ∀ k < 8,
      (sys.kernel.kernelSpace.pageTable.entries (stackVpn kstackId + k)).isSome := by
    intro k hk
    have hin : InStack kstackId (stackVpn kstackId + k) := ⟨Nat.le_add_right _ _, by omega⟩
    have hfront : ∀ p ∈ front, ¬InStack p.1 (stackVpn kstackId + k) := fun p hp =>
      not_inStack_of_ne (ne_of_mem_of_not_mem (List.mem_map_of_mem hp) hnotFront).symm hin
    rw [hinv.entries_eq, stackEntries, hlive, @holder_middle front back (kstackId, base) _ hfront hin]
    rfl
  exact drop_held (hinv.fits hstart (hinv.recycle.lt_current hid).le) hfind hmapped
    (fun k hk => ⟨by have := hinv.base_le _ hmem; omega, hinv.not_recycled _ hmem k hk⟩)
    (RecycleAllocator.dealloc_of_mem hinv.recycle hid)

/-- Dropping a live stack keeps the invariant, without the stack. -/
theorem inv_dropped (hinv : Inv kernelSpace frames.current frames.«end» sys)
    (hstart : Start kernelSpace frames) (hlive : sys.live = front ++ (kstackId, base) :: back)
    (hnot : kstackId ∉ (front ++ back).map Prod.fst) :
    Inv kernelSpace frames.current frames.«end» ⟨dropped sys.kernel kstackId base, front ++ back⟩ := by
  have hmem : (kstackId, base) ∈ sys.live := by
    rw [hlive]
    exact List.mem_append_right _ List.mem_cons_self
  have hid : kstackId ∈ sys.ids := List.mem_map_of_mem (f := Prod.fst) hmem
  have hnotFront : kstackId ∉ front.map Prod.fst := fun h =>
    hnot (by rw [List.map_append]; exact List.mem_append_left _ h)
  have hsub : (front ++ back).Sublist sys.live := by
    rw [hlive]
    exact List.Sublist.append_left (List.sublist_cons_self _ _) front
  -- the frames of the other stacks lie before or after this one's
  have hapart : ∀ p ∈ front ++ back, p.2 + 8 ≤ base ∨ base + 8 ≤ p.2 := by
    have hpair := hinv.pairwise
    rw [hlive, List.pairwise_append, List.pairwise_cons] at hpair
    intro p hp
    rcases List.mem_append.1 hp with hp | hp
    · exact Or.inl (hpair.2.2 p hp _ List.mem_cons_self)
    · exact Or.inr (hpair.2.1.1 p hp)
  refine ⟨?_, ?_, ?_, hinv.end_eq, hinv.current_le, hinv.count_le,
    fun p hp => hinv.base_le p (hsub.subset hp), hinv.pairwise.sublist hsub, ?_, ?_⟩
  · have hids : sys.ids.erase kstackId = (front ++ back).map Prod.fst := by
      rw [KstackSystem.ids, hlive, List.map_append, List.map_cons,
        List.erase_append_right _ hnotFront, List.erase_cons_head, List.map_append]
    have hdealloc := RecycleAllocator.inv_dealloc hinv.recycle hid
    rw [hids] at hdealloc
    exact hdealloc
  · -- the kernel's own areas and the stacks before this one do not start at its page
    simp only [dropped]
    rw [hinv.areas_eq, List.eraseP_append_right _ (hstart.not_startsAt kstackId), hlive,
      List.map_append, List.map_cons, List.eraseP_append_right _ (not_startsAt_of_not_mem hnotFront),
      List.eraseP_cons_of_pos (by simp [startsAt_stackArea]), List.map_append]
  · -- the stack's pages fall back to the kernel's own entries, which are free
    funext vpn
    simp only [dropped, PageTable.unmappedRun, hinv.entries_eq, stackEntries]
    by_cases hin : InStack kstackId vpn
    · rw [if_pos (show _ ∧ _ from hin), holder_of_not_mem hnot hin,
        hstart.free vpn ((stackVpn_ge kstackId).trans hin.1)]
    · rw [if_neg (show ¬(_ ∧ _) from hin), hlive, @holder_remove front back (kstackId, base) vpn hin]
  · intro p hp k hk
    simp only [dropped, List.mem_append, List.mem_reverse, List.mem_range'_1, not_or]
    refine ⟨?_, hinv.not_recycled p (hsub.subset hp) k hk⟩
    have := hapart p hp
    omega
  · intro ppn hppn
    simp only [dropped, List.mem_append, List.mem_reverse, List.mem_range'_1] at hppn ⊢
    rcases hppn with hppn | hppn
    · have := hinv.base_le _ hmem
      omega
    · exact hinv.recycled_lt ppn hppn

end Drop

/-- Every step keeps the invariant. -/
theorem inv_step (hinv : Inv kernelSpace frames.current frames.«end» sys)
    (hstart : Start kernelSpace frames) {op : KstackOp} {next : KstackSystem}
    (hstep : KstackSystem.step sys op = some next) :
    Inv kernelSpace frames.current frames.«end» next := by
  cases op with
  | alloc =>
      rcases hinv.kstackAlloc_outcome hstart with ⟨henough, hcall⟩ | hcall
      · simp only [KstackSystem.step, hcall, Option.some.injEq] at hstep
        subst hstep
        exact inv_allocated hinv henough
      · simp [KstackSystem.step, hcall] at hstep
  | drop kstackId =>
      by_cases hid : kstackId ∈ sys.ids
      · obtain ⟨base, front, back, hlive, herase, hnot⟩ := hinv.live_split hid
        simp only [KstackSystem.step, hid, if_true, hinv.drop_eq hstart hlive hnot, herase,
          Option.some.injEq] at hstep
        subst hstep
        exact inv_dropped hinv hstart hlive hnot
      · simp [KstackSystem.step, hid] at hstep

theorem inv_of_reachable (hstart : Start kernelSpace frames)
    (hreach : Reachable KstackSystem.step (KstackSystem.start kernelSpace frames) sys) :
    Inv kernelSpace frames.current frames.«end» sys :=
  hreach.invariant (inv_start hstart) fun _ _ _ hinv hstep => inv_step hinv hstart hstep

/-! ## What the invariant gives -/

/-- The pages of a stack that fits, read off its position. -/
theorem position_pages {kstackId : ℕ} (hfits : Fits kstackId) :
    (kernelStackPosition kstackId).1 / pageSize = stackVpn kstackId ∧
      (kernelStackPosition kstackId).2 / pageSize = stackVpn kstackId + 8 := by
  rw [kernelStackPosition_of_fits hfits]
  unfold stackVpn memoryEnd kernelStackSize pageSize
  omega

/-- A live stack lies from `MEMORY_END` on and below `2 ^ 64`, guard page
included, with no address wrapping. -/
theorem Inv.position (hinv : Inv kernelSpace frames.current frames.«end» sys)
    (hstart : Start kernelSpace frames) {kstackId : ℕ} (hid : kstackId ∈ sys.ids) :
    memoryEnd ≤ (kernelStackPosition kstackId).1 ∧
      (kernelStackPosition kstackId).2 = (kernelStackPosition kstackId).1 + kernelStackSize ∧
      (kernelStackPosition kstackId).2 + pageSize ≤ usizeModulus := by
  have hfits := hinv.fits hstart (hinv.recycle.lt_current hid).le
  have hroom := hfits
  unfold Fits at hroom
  rw [kernelStackPosition_of_fits hfits]
  refine ⟨Nat.le_add_right _ _, rfl, ?_⟩
  calc memoryEnd + kstackId * (kernelStackSize + pageSize) + kernelStackSize + pageSize
      = memoryEnd + (kstackId + 1) * (kernelStackSize + pageSize) := by ring
    _ ≤ usizeModulus := hroom

/-- Two live stacks lie apart, with at least the guard page between them. -/
theorem Inv.apart (hinv : Inv kernelSpace frames.current frames.«end» sys)
    (hstart : Start kernelSpace frames) {kstackId kstackId' : ℕ} (hid : kstackId ∈ sys.ids)
    (hid' : kstackId' ∈ sys.ids) (hne : kstackId ≠ kstackId') :
    (kernelStackPosition kstackId).2 + pageSize ≤ (kernelStackPosition kstackId').1 ∨
      (kernelStackPosition kstackId').2 + pageSize ≤ (kernelStackPosition kstackId).1 := by
  rw [kernelStackPosition_of_fits (hinv.fits hstart (hinv.recycle.lt_current hid).le),
    kernelStackPosition_of_fits (hinv.fits hstart (hinv.recycle.lt_current hid').le)]
  unfold kernelStackSize pageSize
  rcases Nat.lt_or_gt_of_ne hne with hlt | hlt
  · left
    nlinarith
  · right
    nlinarith

/-- The guard page after a live stack is unmapped. -/
theorem Inv.guard_unmapped (hinv : Inv kernelSpace frames.current frames.«end» sys)
    (hstart : Start kernelSpace frames) {kstackId : ℕ} (hid : kstackId ∈ sys.ids) :
    sys.kernel.kernelSpace.pageTable.entries ((kernelStackPosition kstackId).2 / pageSize) = none := by
  rw [(position_pages (hinv.fits hstart (hinv.recycle.lt_current hid).le)).2, hinv.entries_eq,
    stackEntries, holder_eq_none fun p _ => guard_not_inStack kstackId p.1]
  exact hstart.free _ ((stackVpn_ge kstackId).trans (Nat.le_add_right _ _))

/-- `kstack_alloc` never reaches the assertion of `PageTable::map`. -/
theorem Inv.kstackAlloc_ne_mapped (hinv : Inv kernelSpace frames.current frames.«end» sys)
    (hstart : Start kernelSpace frames) (vpn : ℕ) :
    kstackAlloc sys.kernel ≠ .error (.mappedBeforeMapping vpn) := by
  rcases hinv.kstackAlloc_outcome hstart with ⟨-, hcall⟩ | hcall
  all_goals
    rw [hcall]
    simp

/-- Dropping a live `KernelStack` returns, and removes from `KERNEL_SPACE`
exactly the area over the stack's pages, whose pages it unmaps. -/
theorem Inv.drop_removes (hinv : Inv kernelSpace frames.current frames.«end» sys)
    (hstart : Start kernelSpace frames) {kstackId : ℕ} (hid : kstackId ∈ sys.ids) :
    ∃ (front : List MapArea) (area : MapArea) (back : List MapArea),
      sys.kernel.kernelSpace.areas = front ++ area :: back ∧
      area.vpnRange = ⟨(kernelStackPosition kstackId).1 / pageSize,
        (kernelStackPosition kstackId).2 / pageSize⟩ ∧
      ∃ kernel, KernelStack.drop kstackId sys.kernel = .ok kernel ∧
        kernel.kernelSpace.areas = front ++ back ∧
        kernel.kernelSpace.pageTable.entries = PageTable.unmappedRun
          sys.kernel.kernelSpace.pageTable.entries ((kernelStackPosition kstackId).1 / pageSize) 8 := by
  obtain ⟨base, front, back, hlive, -, hnot⟩ := hinv.live_split hid
  obtain ⟨hbottom, htop⟩ := position_pages (hinv.fits hstart (hinv.recycle.lt_current hid).le)
  have hafter := (inv_dropped hinv hstart hlive hnot).areas_eq
  refine ⟨kernelSpace.areas ++ front.map (fun p => stackArea p.1 p.2), stackArea kstackId base,
    back.map (fun p => stackArea p.1 p.2), ?_, by rw [hbottom, htop]; rfl,
    dropped sys.kernel kstackId base, hinv.drop_eq hstart hlive hnot, ?_, by rw [hbottom]; rfl⟩
  · rw [hinv.areas_eq, hlive, List.map_append, List.map_cons, List.append_assoc]
  · rw [hafter, List.map_append, List.append_assoc]

end Invariant

/-- In every state reached by `kstack_alloc` calls and `KernelStack` drops from
a kernel space and frame allocator as `MemorySet::new_kernel` and
`init_frame_allocator` leave them: the live ids are distinct, the id
`KSTACK_ALLOCATOR` hands out next is not live and `dealloc` of a live id passes
its assertions; the live stacks lie from `MEMORY_END` on, below `2 ^ 64`, apart
from each other with an unmapped guard page after each; `kstack_alloc` never
maps a page that is already mapped; and dropping a live `KernelStack` removes
exactly the area over its pages. -/
theorem kernelStacks_distinct_apart_guarded {kernelSpace : MemorySet}
    {frames : StackFrameAllocator} {sys : KstackSystem} (hstart : Start kernelSpace frames)
    (hreach : Reachable KstackSystem.step (KstackSystem.start kernelSpace frames) sys) :
    sys.ids.Nodup ∧ sys.kernel.kstackAllocator.alloc.1 ∉ sys.ids ∧
    (∀ kstackId ∈ sys.ids, ∃ allocator, sys.kernel.kstackAllocator.dealloc kstackId = .ok allocator) ∧
    (∀ kstackId ∈ sys.ids, memoryEnd ≤ (kernelStackPosition kstackId).1 ∧
      (kernelStackPosition kstackId).2 = (kernelStackPosition kstackId).1 + kernelStackSize ∧
      (kernelStackPosition kstackId).2 + pageSize ≤ usizeModulus) ∧
    (∀ kstackId ∈ sys.ids, ∀ kstackId' ∈ sys.ids, kstackId ≠ kstackId' →
      (kernelStackPosition kstackId).2 + pageSize ≤ (kernelStackPosition kstackId').1 ∨
      (kernelStackPosition kstackId').2 + pageSize ≤ (kernelStackPosition kstackId).1) ∧
    (∀ kstackId ∈ sys.ids,
      sys.kernel.kernelSpace.pageTable.entries ((kernelStackPosition kstackId).2 / pageSize) = none) ∧
    (∀ vpn, kstackAlloc sys.kernel ≠ .error (.mappedBeforeMapping vpn)) ∧
    (∀ kstackId ∈ sys.ids, ∃ front area back, sys.kernel.kernelSpace.areas = front ++ area :: back ∧
      area.vpnRange = ⟨(kernelStackPosition kstackId).1 / pageSize,
        (kernelStackPosition kstackId).2 / pageSize⟩ ∧
      ∃ kernel, KernelStack.drop kstackId sys.kernel = .ok kernel ∧
        kernel.kernelSpace.areas = front ++ back ∧
        kernel.kernelSpace.pageTable.entries = PageTable.unmappedRun
          sys.kernel.kernelSpace.pageTable.entries ((kernelStackPosition kstackId).1 / pageSize) 8) := by
  have hinv := inv_of_reachable hstart hreach
  exact ⟨hinv.recycle.live_nodup, RecycleAllocator.alloc_not_mem hinv.recycle,
    fun _ hid => ⟨_, RecycleAllocator.dealloc_of_mem hinv.recycle hid⟩,
    fun _ hid => hinv.position hstart hid,
    fun _ hid _ hid' hne => hinv.apart hstart hid hid' hne,
    fun _ hid => hinv.guard_unmapped hstart hid,
    hinv.kstackAlloc_ne_mapped hstart,
    fun _ hid => hinv.drop_removes hstart hid⟩

/-- A bare kernel space over 256 frames meets the start conditions. -/
theorem start_newBare : Start newBare (StackFrameAllocator.new.init 0x80000 0x80100) where
  free := fun _ _ => rfl
  areas_below := by simp [newBare]
  current_le := by decide
  recycled_lt := by simp [StackFrameAllocator.new]
  room := by decide

theorem kernelStacks_distinct_apart_guarded_after_drop :
    ∃ sys, runSteps KstackSystem.step
        (KstackSystem.start newBare (StackFrameAllocator.new.init 0x80000 0x80100))
        [.alloc, .alloc, .drop 0, .alloc] = some sys ∧
      sys.ids = [1, 0] ∧
      ((kernelStackPosition 1).2 + pageSize ≤ (kernelStackPosition 0).1 ∨
        (kernelStackPosition 0).2 + pageSize ≤ (kernelStackPosition 1).1) ∧
      ∀ vpn, kstackAlloc sys.kernel ≠ .error (.mappedBeforeMapping vpn) := by
  -- the run is evaluated by the kernel
  have hmap : (runSteps KstackSystem.step
      (KstackSystem.start newBare (StackFrameAllocator.new.init 0x80000 0x80100))
      [.alloc, .alloc, .drop 0, .alloc]).map KstackSystem.ids = some [1, 0] := by
    decide +kernel
  obtain ⟨sys, hrun, hids⟩ := Option.map_eq_some_iff.1 hmap
  obtain ⟨-, -, -, -, hapart, -, halloc, -⟩ :=
    kernelStacks_distinct_apart_guarded start_newBare (reachable_of_runSteps hrun)
  refine ⟨sys, hrun, hids, hapart 1 (by rw [hids]; decide) 0 (by rw [hids]; decide) (by decide),
    halloc⟩

end ChaosKernel.Kstack
