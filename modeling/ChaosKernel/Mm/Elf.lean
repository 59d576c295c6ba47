import ChaosKernel.Mm.Area
import ChaosKernel.Mm.Fork
import ChaosKernel.Mm.MmapData
import ChaosKernel.Mm.UserBuffer

/-!
# Loading an ELF image

`MemorySet::from_elf` of `os/src/mm/memory_set.rs` builds the address space of
a new process from an ELF image.  Each `LOAD` program header becomes a framed
area from the page of `p_vaddr` to the page that ends at or after
`p_vaddr + p_memsz`, mapped with `U` and the R/W/X of `p_flags`; its frames are
cleared by `FrameTracker::new`, and `copy_data` writes the segment's
`p_filesz` bytes of the image into them from `p_vaddr`'s offset in its first
page on.  The user stack starts one page above the end of the last `LOAD`
segment, and the heap one page above the stack.

An `INTERP` header reaches `todo!()`, and a `p_vaddr` outside both canonical
halves of Sv39 fails the assertion of `VirtAddr::from`; both panic.

`xmas_elf` is taken to decode the image faithfully: `ElfFile` is its decoded
header and program headers, and the `unwrap`s of the decoding never fail
(`ElfFile::new` already refuses an image without the ELF magic, so the
`assert_eq!` on it never fires either).  As in `Mm.Fork`, the page table of
`new_process` is the empty map of `new_bare`, since its kernel half is not part
of the modelled map.
-/

namespace ChaosKernel

open FrameAllocator Lib PhysMem MemorySet

namespace Elf

/-! ## The decoded image -/

/-- The program header types `from_elf` tells apart; every other type of
`xmas_elf::program::Type` is `other`. -/
inductive PhType
  | load
  | interp
  | other
  deriving DecidableEq, Repr

/-- The R, W and X bits of `p_flags`. -/
structure PhFlags where
  isRead : Bool
  isWrite : Bool
  isExecute : Bool
  deriving DecidableEq, Repr

/-- A program header: `p_type`, `p_offset`, `p_vaddr`, `p_filesz`, `p_memsz`
and `p_flags`. -/
structure ProgramHeader where
  type : PhType
  offset : ℕ
  virtualAddr : ℕ
  fileSize : ℕ
  memSize : ℕ
  flags : PhFlags
  deriving DecidableEq, Repr

/-- An ELF image as `xmas_elf::ElfFile::new` decodes it: the image's bytes, the
fields of the header that `from_elf` reads, and the program headers in order. -/
structure ElfFile where
  input : List UInt8
  entryPoint : ℕ
  phOffset : ℕ
  phEntrySize : ℕ
  programHeaders : List ProgramHeader
  deriving DecidableEq, Repr

/-- `AuxHeader`, an entry of the auxiliary vector. -/
structure AuxHeader where
  auxType : ℕ
  value : ℕ
  deriving DecidableEq, Repr

/-! The `AT_*` types of `os/src/mm/config.rs` that `from_elf` pushes. -/

/-- `map_perm`: `U`, with `R`, `W` and `X` where `p_flags` has them. -/
def mapPerm (flags : PhFlags) : MapPermission :=
  let perm := MapPermission.U
  let perm := if flags.isRead then perm ||| MapPermission.R else perm
  let perm := if flags.isWrite then perm ||| MapPermission.W else perm
  if flags.isExecute then perm ||| MapPermission.X else perm

/-- What the loop of `from_elf` carries from one program header to the next. -/
structure Loader where
  memorySet : MemorySet
  frames : StackFrameAllocator
  phys : PhysMem
  maxEndVpn : ℕ
  headVa : ℕ

section CopyData

variable {pageTable : PageTable} {data : List UInt8} {s c n offset : ℕ}

end CopyData

/-- `map_perm` as page table flags: `U`, and the R/W/X of `p_flags`. -/
@[simp]
theorem toPTEFlags_mapPerm (flags : PhFlags) :
    (mapPerm flags).toPTEFlags =
      { r := flags.isRead, w := flags.isWrite, x := flags.isExecute, u := true } := by
  obtain ⟨r, w, x⟩ := flags
  cases r <;> cases w <;> cases x <;> rfl

/-! ## The loader's invariant -/

/-- The pages of a segment: from the page of `p_vaddr` to the page that ends
at or after `p_vaddr + p_memsz`, as `MapArea::new` rounds them. -/
def ProgramHeader.pages (ph : ProgramHeader) : List ℕ :=
  VPNRange.pages ⟨floorPage ph.virtualAddr, ceilPage (ph.virtualAddr + ph.memSize)⟩

/-- What `from_elf` needs of a `LOAD` segment to load it: a nonempty memory
image whose file part lies in the image, ending in the lower half of Sv39. -/
structure ProgramHeader.Fits (elf : ElfFile) (ph : ProgramHeader) : Prop where
  memSize_pos : 0 < ph.memSize
  fileSize_le : ph.fileSize ≤ ph.memSize
  file_le : ph.offset + ph.fileSize ≤ elf.input.length
  end_le : ph.virtualAddr + ph.memSize ≤ 2 ^ (vaWidthSv39 - 1)

/-- The loader state between two program headers: nothing is mapped from
`max_end_vpn` on, and `max_end_vpn` lies in the lower half of Sv39. -/
structure Loader.Valid (st : Loader) : Prop where
  fresh : ∀ vpn, st.maxEndVpn ≤ vpn → st.memorySet.pageTable.entries vpn = none
  maxEndVpn_le : st.maxEndVpn * pageSize ≤ 2 ^ (vaWidthSv39 - 1)

/-- `st'` keeps what `st` loaded: the pages below `st`'s `max_end_vpn` keep
their entries, and the frames below its allocator's `current` their bytes. -/
structure Loader.Keeps (st st' : Loader) : Prop where
  maxEndVpn_le : st.maxEndVpn ≤ st'.maxEndVpn
  current_le : st.frames.current ≤ st'.frames.current
  entries : ∀ vpn < st.maxEndVpn,
    st'.memorySet.pageTable.entries vpn = st.memorySet.pageTable.entries vpn
  phys : ∀ a < st.frames.current * pageSize, st'.phys a = st.phys a

theorem Loader.Keeps.refl (st : Loader) : st.Keeps st :=
  ⟨le_rfl, le_rfl, fun _ _ => rfl, fun _ _ => rfl⟩

theorem Loader.Keeps.trans {st₁ st₂ st₃ : Loader} (h₁ : st₁.Keeps st₂) (h₂ : st₂.Keeps st₃) :
    st₁.Keeps st₃ where
  maxEndVpn_le := h₁.maxEndVpn_le.trans h₂.maxEndVpn_le
  current_le := h₁.current_le.trans h₂.current_le
  entries vpn hvpn := (h₂.entries vpn (lt_of_lt_of_le hvpn h₁.maxEndVpn_le)).trans (h₁.entries vpn hvpn)
  phys a ha := by
    have hle : st₁.frames.current * pageSize ≤ st₂.frames.current * pageSize :=
      Nat.mul_le_mul_right _ h₁.current_le
    rw [h₂.phys a (by omega), h₁.phys a ha]

namespace ProgramHeader.Fits

variable {elf : ElfFile} {ph : ProgramHeader}

end ProgramHeader.Fits

section Step

variable {elf : ElfFile} {st : Loader} {ph : ProgramHeader}

end Step

/-! ## The loop over the program headers -/

end Elf

end ChaosKernel
