import ChaosKernel.Block.BlockCache
import ChaosKernel.Lib.Memory

/-!
# The disk behind `ext4_rs`

`ext4_rs` reaches its device through `read_offset` and `write_offset` of the
trait `ext4_rs::BlockDevice`.  A read returns the bytes from `offset` to the end
of the 4096-byte block that starts at the sector holding `offset`; a write
stores a slice of any length at any offset (`ext4_rs` writes the superblock's
1024 bytes at 1024, and inodes and bitmaps at their own offsets).  Two drivers
implement the trait over a device of 512-byte sectors: `VirtIOBlock`
(`os/src/drivers/block/virtio_blk.rs`) reads the eight sectors at once and
writes sector by sector, reading each sector first; `SDCard`
(`os/src/drivers/block/vf2_sd.rs`) reads and writes eight whole sectors from
the one that holds `offset`.

The device is a map from sector numbers to sectors, on which the drivers'
sector transfers are taken to be faithful.  `Disk.bytes` sees it byte by byte,
and what the trait is for is the byte memory of `Lib.Memory`: `Driver.Refines`
says that every read returns the span and every write stores its slice, and
from it every run of calls answers as the byte memory does.  `VirtIOBlock`
refines it.  `SDCard` reads as it should, but its write slices eight sectors'
worth out of `data`: a shorter slice panics, and a longer one is cut to 4096
bytes and written from the start of the sector that holds `offset`.
-/

namespace ChaosKernel.Block

open Lib

/-- `ext4_rs::BLOCK_SIZE`. -/
def ext4BlockSize : ℕ := 4096

/-- A device: its 512-byte sectors by number. -/
abbrev Disk := ℕ → BlockBytes

/-- The device byte by byte: byte `a` is byte `a % 512` of sector `a / 512`. -/
def Disk.bytes (disk : Disk) (a : ℕ) : UInt8 :=
  disk (a / blockSz) ⟨a % blockSz, Nat.mod_lt _ (by decide)⟩

/-- `read_blocks(block_id, buf)` into a buffer of `count` sectors: the sectors
from `block_id` on. -/
def readBlocks (disk : Disk) (blockId : ℕ) : ℕ → List UInt8
  | 0 => []
  | count + 1 => List.ofFn (disk blockId) ++ readBlocks disk (blockId + 1) count

/-- `write_blocks(block_id, buf)` and `write_block(block_id, buf)` from a buffer
of one sector; the drivers only pass 512-byte buffers. -/
def writeBlock (disk : Disk) (blockId : ℕ) (buf : List UInt8) : Disk :=
  Function.update disk blockId fun i => buf.getD i 0

/-- What `read_offset` returns: the bytes from `offset` to the end of the
4096-byte block that starts at the sector holding `offset`. -/
def readSpan (mem : ℕ → UInt8) (offset : ℕ) : List UInt8 :=
  load mem offset (ext4BlockSize - offset % blockSz)

/-! ### Sectors seen byte by byte -/

/-- Byte `i` of sector `blockId` is at `blockId * 512 + i`. -/
theorem Disk.bytes_sector (disk : Disk) (blockId : ℕ) (i : Fin blockSz) :
    disk.bytes (blockId * blockSz + i) = disk blockId i := by
  have hi := i.isLt
  have hdiv : (blockId * blockSz + i) / blockSz = blockId := by
    unfold blockSz at *
    omega
  have hmod : (blockId * blockSz + i) % blockSz = i := by
    unfold blockSz at *
    omega
  simp only [Disk.bytes, hdiv, hmod]

/-- A sector read out is the run of its bytes. -/
theorem ofFn_sector (disk : Disk) (blockId : ℕ) :
    List.ofFn (disk blockId) = load disk.bytes (blockId * blockSz) blockSz := by
  apply List.ext_getElem (by simp)
  intro i hi _
  rw [List.getElem_ofFn, getElem_load]
  exact (Disk.bytes_sector disk blockId ⟨i, by simpa using hi⟩).symm

/-- `read_blocks` reads the run of bytes of its sectors. -/
theorem readBlocks_eq_load (disk : Disk) :
    ∀ (blockId count : ℕ),
      readBlocks disk blockId count = load disk.bytes (blockId * blockSz) (count * blockSz)
  | _, 0 => by simp [readBlocks, load]
  | blockId, count + 1 => by
      rw [readBlocks, ofFn_sector, readBlocks_eq_load disk (blockId + 1) count, Nat.succ_mul,
        Nat.succ_mul, Nat.add_comm (count * blockSz), load_add]

/-- Writing a sector stores its 512 bytes. -/
theorem bytes_writeBlock (disk : Disk) (blockId : ℕ) {buf : List UInt8}
    (hlen : buf.length = blockSz) :
    (writeBlock disk blockId buf).bytes = store disk.bytes (blockId * blockSz) buf := by
  funext a
  by_cases hin : a / blockSz = blockId
  · have hlo : blockId * blockSz ≤ a := by
      unfold blockSz at *
      omega
    have hhi : a < blockId * blockSz + buf.length := by
      unfold blockSz at *
      omega
    have hoff : a % blockSz = a - blockId * blockSz := by
      unfold blockSz at *
      omega
    rw [store_of_mem _ _ _ hlo hhi]
    simp only [Disk.bytes, writeBlock, hin, Function.update_self, hoff]
    exact List.getD_eq_getElem _ _ (by omega)
  · have hout : a < blockId * blockSz ∨ blockId * blockSz + buf.length ≤ a := by
      unfold blockSz at *
      omega
    rw [Disk.bytes, writeBlock, Function.update_of_ne hin]
    rcases hout with hout | hout
    · rw [store_of_lt _ _ _ hout]
      rfl
    · rw [store_of_le _ _ _ hout]
      rfl

/-- The eight sectors from the one that holds `offset`, taken from `offset` on,
are the span of `offset`. -/
theorem sliceFrom_readBlocks (disk : Disk) (offset : ℕ) :
    sliceFrom (readBlocks disk (offset / blockSz) (ext4BlockSize / blockSz)) (offset % blockSz) =
      .ok (readSpan disk.bytes offset) := by
  have hmod : offset % blockSz < blockSz := Nat.mod_lt _ (by decide)
  have hstart : offset / blockSz * blockSz + offset % blockSz = offset := Nat.div_add_mod' _ _
  rw [readBlocks_eq_load, sliceFrom_of_le (by simp [ext4BlockSize, blockSz] at *; omega),
    drop_load, hstart]
  rfl

namespace VirtIOBlock

/-- `VirtIOBlock::read_offset`: the eight sectors from the one that holds
`offset`, from `offset` on. -/
def readOffset (disk : Disk) (offset : ℕ) : Except Panic (List UInt8) :=
  sliceFrom (readBlocks disk (offset / blockSz) (ext4BlockSize / blockSz)) (offset % blockSz)

/-- The `while write_size < data.len()` loop of `VirtIOBlock::write_offset`:
each turn reads the sector that holds `offset + write_size`, copies into it as
much of the rest of `data` as fits, and writes it back. -/
def writeOffsetLoop (offset : ℕ) (data : List UInt8) (disk : Disk) (writeSize : ℕ) :
    Except Panic Disk :=
  if writeSize < data.length then do
    let blockId := (offset + writeSize) / blockSz
    let blockOffset := (offset + writeSize) % blockSz
    let copySize := min (data.length - writeSize) (blockSz - blockOffset)
    let src ← sliceRange data writeSize (writeSize + copySize)
    let buf ← copyFromSlice (readBlocks disk blockId 1) blockOffset (blockOffset + copySize) src
    writeOffsetLoop offset data (writeBlock disk blockId buf) (writeSize + copySize)
  else pure disk
termination_by data.length - writeSize
decreasing_by
  have : (offset + writeSize) % blockSz < blockSz := Nat.mod_lt _ (by decide)
  omega

/-- `VirtIOBlock::write_offset`. -/
def writeOffset (disk : Disk) (offset : ℕ) (data : List UInt8) : Except Panic Disk :=
  writeOffsetLoop offset data disk 0

/-- `read_offset` returns the span. -/
theorem readOffset_eq (disk : Disk) (offset : ℕ) :
    readOffset disk offset = .ok (readSpan disk.bytes offset) :=
  sliceFrom_readBlocks disk offset

/-- One turn of the write loop stores the piece of `data` that fits in the
sector holding `offset + write_size`. -/
theorem writeOffsetLoop_of_lt {offset writeSize : ℕ} {data : List UInt8} (disk : Disk)
    (hlt : writeSize < data.length) :
    ∃ buf, (writeBlock disk ((offset + writeSize) / blockSz) buf).bytes =
        store disk.bytes (offset + writeSize) ((data.drop writeSize).take
          (min (data.length - writeSize) (blockSz - (offset + writeSize) % blockSz))) ∧
      writeOffsetLoop offset data disk writeSize =
        writeOffsetLoop offset data (writeBlock disk ((offset + writeSize) / blockSz) buf)
          (writeSize + min (data.length - writeSize) (blockSz - (offset + writeSize) % blockSz)) := by
  rw [writeOffsetLoop.eq_1 offset data disk writeSize, if_pos hlt]
  dsimp only
  set blockId := (offset + writeSize) / blockSz
  set blockOffset := (offset + writeSize) % blockSz with hblockOffset
  set copySize := min (data.length - writeSize) (blockSz - blockOffset) with hcopySize
  set src := (data.drop writeSize).take copySize
  set sector := readBlocks disk blockId 1 with hsectorDef
  have hoffset : blockOffset < blockSz := Nat.mod_lt _ (by decide)
  have hcopy : copySize ≤ blockSz - blockOffset := min_le_right _ _
  have hrest : copySize ≤ data.length - writeSize := min_le_left _ _
  have hsrc : src.length = copySize := by
    simp only [src, List.length_take, List.length_drop]
    omega
  have hsector : sector = load disk.bytes (blockId * blockSz) blockSz := by
    rw [hsectorDef, readBlocks_eq_load, Nat.one_mul]
  have hsectorLen : sector.length = blockSz := by
    rw [hsector, length_load]
  refine ⟨sector.take blockOffset ++ src ++ sector.drop (blockOffset + copySize), ?_, ?_⟩
  · -- the sector was read, patched and written back
    have hlen : (sector.take blockOffset ++ src ++ sector.drop (blockOffset + copySize)).length =
        blockSz := by
      simp only [List.length_append, List.length_take, List.length_drop, hsectorLen, hsrc]
      omega
    rw [bytes_writeBlock _ _ hlen, hsector, ← hsrc, store_splice _ _ _ (by omega),
      hblockOffset, Nat.div_add_mod']
  · have hslice : sliceRange data writeSize (writeSize + copySize) = .ok src := by
      rw [sliceRange_of_le (by omega) (by omega), Nat.add_sub_cancel_left]
    have hpatch : copyFromSlice sector blockOffset (blockOffset + copySize) src =
        .ok (sector.take blockOffset ++ src ++ sector.drop (blockOffset + copySize)) :=
      copyFromSlice_of_length (by rw [hsrc]) (by omega)
    simp only [hslice, hpatch, bind, Except.bind]

/-- The write loop from `write_size` on stores the rest of `data`. -/
theorem writeOffsetLoop_spec (offset : ℕ) (data : List UInt8) (disk : Disk) (writeSize : ℕ) :
    ∃ disk', writeOffsetLoop offset data disk writeSize = .ok disk' ∧
      disk'.bytes = store disk.bytes (offset + writeSize) (data.drop writeSize) := by
  induction disk, writeSize using writeOffsetLoop.induct offset data with
  | case1 disk writeSize hlt blockId _ copySize ih =>
      obtain ⟨buf, hbytes, hloop⟩ := @writeOffsetLoop_of_lt offset writeSize data disk hlt
      obtain ⟨disk', hrest, hrestBytes⟩ := ih buf
      refine ⟨disk', hloop.trans hrest, ?_⟩
      -- this turn stores a piece of the rest of `data`, and the later turns the rest of it
      have hpiece : ((data.drop writeSize).take copySize).length = copySize := by
        have : copySize ≤ data.length - writeSize := min_le_left _ _
        simp only [List.length_take, List.length_drop]
        omega
      have hturn : (writeBlock disk blockId buf).bytes =
          store disk.bytes (offset + writeSize) ((data.drop writeSize).take copySize) := hbytes
      calc disk'.bytes
          = store (store disk.bytes (offset + writeSize) ((data.drop writeSize).take copySize))
              (offset + writeSize + ((data.drop writeSize).take copySize).length)
              ((data.drop writeSize).drop copySize) := by
            rw [hrestBytes, hturn, hpiece, List.drop_drop, Nat.add_assoc]
        _ = store disk.bytes (offset + writeSize) (data.drop writeSize) := by
            rw [← store_append, List.take_append_drop]
  | case2 disk writeSize hge =>
      refine ⟨disk, by rw [writeOffsetLoop, if_neg hge]; rfl, ?_⟩
      rw [List.drop_eq_nil_of_le (by omega), store_nil]

/-- `write_offset` stores `data` at `offset`. -/
theorem writeOffset_spec (disk : Disk) (offset : ℕ) (data : List UInt8) :
    ∃ disk', writeOffset disk offset data = .ok disk' ∧
      disk'.bytes = store disk.bytes offset data := by
  simpa [writeOffset] using writeOffsetLoop_spec offset data disk 0

end VirtIOBlock

namespace SDCard

/-- The `for _ in 0..8` loop of `SDCard::read_offset`: `read_block` fills the
512 bytes of `buf` at `buf_offset` with sector `block_id`. -/
def readOffsetLoop (disk : Disk) : ℕ → ℕ → ℕ → List UInt8 → Except Panic (List UInt8)
  | 0, _, _, buf => pure buf
  | n + 1, blockId, bufOffset, buf => do
      let buf ← copyFromSlice buf bufOffset (bufOffset + blockSz) (readBlocks disk blockId 1)
      readOffsetLoop disk n (blockId + 1) (bufOffset + blockSz) buf

/-- `SDCard::read_offset`. -/
def readOffset (disk : Disk) (offset : ℕ) : Except Panic (List UInt8) := do
  let buf ← readOffsetLoop disk 8 (offset / blockSz) 0 (List.replicate ext4BlockSize 0)
  sliceFrom buf (offset % blockSz)

/-- The `for _ in 0..8` loop of `SDCard::write_offset`: `write_block` writes the
512 bytes of `data` at `data_offset` as sector `block_id`. -/
def writeOffsetLoop (data : List UInt8) : ℕ → ℕ → ℕ → Disk → Except Panic Disk
  | 0, _, _, disk => pure disk
  | n + 1, blockId, dataOffset, disk => do
      let buf ← sliceRange data dataOffset (dataOffset + blockSz)
      writeOffsetLoop data n (blockId + 1) (dataOffset + blockSz) (writeBlock disk blockId buf)

/-- `SDCard::write_offset`. -/
def writeOffset (disk : Disk) (offset : ℕ) (data : List UInt8) : Except Panic Disk :=
  writeOffsetLoop data 8 (offset / blockSz) 0 disk

/-- The read loop fills `8` sectors' worth of `buf` from `buf_offset` on with
the sectors from `block_id` on. -/
theorem readOffsetLoop_eq (disk : Disk) :
    ∀ (n blockId bufOffset : ℕ) (buf : List UInt8), bufOffset + n * blockSz ≤ buf.length →
      readOffsetLoop disk n blockId bufOffset buf =
        .ok (buf.take bufOffset ++ readBlocks disk blockId n ++ buf.drop (bufOffset + n * blockSz))
  | 0, _, bufOffset, buf, _ => by
      simp [readOffsetLoop, readBlocks, pure, Except.pure]
  | n + 1, blockId, bufOffset, buf, hfit => by
      have hsector : (readBlocks disk blockId 1).length = blockSz := by
        simp [readBlocks]
      have hfront : (buf.take bufOffset ++ readBlocks disk blockId 1).length = bufOffset + blockSz := by
        rw [List.length_append, List.length_take, hsector, Nat.min_eq_left (by rw [Nat.succ_mul] at hfit; omega)]
      have hpatch : copyFromSlice buf bufOffset (bufOffset + blockSz) (readBlocks disk blockId 1) =
          .ok (buf.take bufOffset ++ readBlocks disk blockId 1 ++ buf.drop (bufOffset + blockSz)) :=
        copyFromSlice_of_length (by rw [hsector]) (by rw [Nat.succ_mul] at hfit; omega)
      have hrest := readOffsetLoop_eq disk n (blockId + 1) (bufOffset + blockSz)
        (buf.take bufOffset ++ readBlocks disk blockId 1 ++ buf.drop (bufOffset + blockSz))
        (by simp only [List.length_append, List.length_drop, hfront]; rw [Nat.succ_mul] at hfit; omega)
      rw [readOffsetLoop, hpatch]
      refine hrest.trans ?_
      -- the sector read by this turn comes before those of the later turns
      have htake : (buf.take bufOffset ++ readBlocks disk blockId 1 ++
          buf.drop (bufOffset + blockSz)).take (bufOffset + blockSz) =
          buf.take bufOffset ++ readBlocks disk blockId 1 :=
        List.take_left' hfront
      have hdrop : (buf.take bufOffset ++ readBlocks disk blockId 1 ++
          buf.drop (bufOffset + blockSz)).drop (bufOffset + blockSz + n * blockSz) =
          buf.drop (bufOffset + (n + 1) * blockSz) := by
        rw [← List.drop_drop, List.drop_left' hfront, List.drop_drop, Nat.succ_mul,
          Nat.add_comm (n * blockSz), Nat.add_assoc]
      have hblocks : readBlocks disk blockId 1 ++ readBlocks disk (blockId + 1) n =
          readBlocks disk blockId (n + 1) := by
        simp only [readBlocks, List.append_nil]
      rw [htake, hdrop, List.append_assoc (buf.take bufOffset), hblocks]

/-- `read_offset` returns the span. -/
theorem readOffset_eq (disk : Disk) (offset : ℕ) :
    readOffset disk offset = .ok (readSpan disk.bytes offset) := by
  have hfill : 0 + 8 * blockSz = ext4BlockSize := rfl
  have hcount : ext4BlockSize / blockSz = 8 := rfl
  rw [readOffset, readOffsetLoop_eq disk 8 _ 0 _ (by rw [List.length_replicate, hfill]), hfill,
    List.take_zero, List.nil_append, List.drop_eq_nil_of_le (by rw [List.length_replicate]),
    List.append_nil, ← hcount]
  exact sliceFrom_readBlocks disk offset

/-- The write loop writes `n` sectors' worth of `data` from `data_offset` on as
the sectors from `block_id` on, when `data` has them. -/
theorem writeOffsetLoop_of_le (data : List UInt8) :
    ∀ (n blockId dataOffset : ℕ) (disk : Disk), dataOffset + n * blockSz ≤ data.length →
      ∃ disk', writeOffsetLoop data n blockId dataOffset disk = .ok disk' ∧
        disk'.bytes = store disk.bytes (blockId * blockSz) ((data.drop dataOffset).take (n * blockSz))
  | 0, _, _, disk, _ => ⟨disk, rfl, by simp⟩
  | n + 1, blockId, dataOffset, disk, hfit => by
      rw [Nat.succ_mul] at hfit
      set buf := (data.drop dataOffset).take blockSz
      have hbuf : buf.length = blockSz := by
        simp only [buf, List.length_take, List.length_drop]
        omega
      have hslice : sliceRange data dataOffset (dataOffset + blockSz) = .ok buf := by
        rw [sliceRange_of_le (by omega) (by omega), Nat.add_sub_cancel_left]
      obtain ⟨disk', hrest, hrestBytes⟩ :=
        writeOffsetLoop_of_le data n (blockId + 1) (dataOffset + blockSz) (writeBlock disk blockId buf)
          (by omega)
      refine ⟨disk', by rw [writeOffsetLoop, hslice]; exact hrest, ?_⟩
      -- this turn writes the first sector's worth, the later turns the rest
      have hsplit : (data.drop dataOffset).take ((n + 1) * blockSz) =
          buf ++ ((data.drop dataOffset).drop blockSz).take (n * blockSz) := by
        rw [Nat.succ_mul, Nat.add_comm, List.take_add]
      rw [hrestBytes, bytes_writeBlock _ _ hbuf, hsplit, store_append, hbuf, List.drop_drop,
        Nat.succ_mul]

/-- The write loop panics at the first sector's worth that `data` lacks. -/
theorem writeOffsetLoop_of_lt (data : List UInt8) :
    ∀ (n blockId dataOffset : ℕ) (disk : Disk), dataOffset ≤ data.length →
      data.length < dataOffset + n * blockSz →
      writeOffsetLoop data n blockId dataOffset disk =
        .error (.sliceOutOfRange (dataOffset + (data.length - dataOffset) / blockSz * blockSz)
          (dataOffset + (data.length - dataOffset) / blockSz * blockSz + blockSz) data.length)
  | 0, _, _, _, hle, hlt => absurd hlt (by omega)
  | n + 1, blockId, dataOffset, disk, hle, hlt => by
      rw [writeOffsetLoop]
      by_cases hshort : data.length < dataOffset + blockSz
      · -- this turn's slice runs past the end of `data`
        have hfirst : (data.length - dataOffset) / blockSz = 0 := by
          unfold blockSz at *
          omega
        rw [sliceRange_of_lt hshort, hfirst, Nat.zero_mul, Nat.add_zero]
        rfl
      · have hslice : sliceRange data dataOffset (dataOffset + blockSz) =
            .ok ((data.drop dataOffset).take blockSz) := by
          rw [sliceRange_of_le (by omega) (by omega), Nat.add_sub_cancel_left]
        have hlater : dataOffset + blockSz + (data.length - (dataOffset + blockSz)) / blockSz * blockSz =
            dataOffset + (data.length - dataOffset) / blockSz * blockSz := by
          unfold blockSz at *
          omega
        rw [hslice]
        refine (writeOffsetLoop_of_lt data n (blockId + 1) (dataOffset + blockSz) _ (by omega)
          (by rw [Nat.succ_mul] at hlt; omega)).trans ?_
        rw [hlater]

/-- `write_offset` of at least 4096 bytes writes the first 4096 of them from the
start of the sector that holds `offset`. -/
theorem writeOffset_of_le (disk : Disk) (offset : ℕ) {data : List UInt8}
    (hlen : ext4BlockSize ≤ data.length) :
    ∃ disk', writeOffset disk offset data = .ok disk' ∧
      disk'.bytes = store disk.bytes (offset / blockSz * blockSz) (data.take ext4BlockSize) :=
  writeOffsetLoop_of_le data 8 (offset / blockSz) 0 disk (by rw [Nat.zero_add]; exact hlen)

/-- `write_offset` of fewer than 4096 bytes panics at the first sector's worth
that `data` lacks. -/
theorem writeOffset_of_lt (disk : Disk) (offset : ℕ) {data : List UInt8}
    (hlen : data.length < ext4BlockSize) :
    writeOffset disk offset data =
      .error (.sliceOutOfRange (data.length / blockSz * blockSz)
        (data.length / blockSz * blockSz + blockSz) data.length) := by
  simpa [writeOffset] using writeOffsetLoop_of_lt data 8 (offset / blockSz) 0 disk (Nat.zero_le _)
    (by rw [Nat.zero_add]; exact hlen)

end SDCard

/-! ## The byte disk both drivers stand for -/

/-- A call of `ext4_rs` on its device. -/
inductive DiskCall
  | readOffset (offset : ℕ)
  | writeOffset (offset : ℕ) (data : List UInt8)

/-- An implementation of `ext4_rs::BlockDevice` over a device. -/
structure Driver where
  readOffset : Disk → ℕ → Except Panic (List UInt8)
  writeOffset : Disk → ℕ → List UInt8 → Except Panic Disk

/-- `impl ext4_rs::BlockDevice for VirtIOBlock`. -/
def virtIOBlock : Driver := ⟨VirtIOBlock.readOffset, VirtIOBlock.writeOffset⟩

/-- `impl BlockDevice for SDCard`. -/
def sdCard : Driver := ⟨SDCard.readOffset, SDCard.writeOffset⟩

/-- A run of calls on a driver: what its reads return, in order. -/
def Driver.run (driver : Driver) (disk : Disk) : List DiskCall → Except Panic (List (List UInt8))
  | [] => pure []
  | .readOffset offset :: calls => do
      let bytes ← driver.readOffset disk offset
      let rest ← driver.run disk calls
      pure (bytes :: rest)
  | .writeOffset offset data :: calls => do
      let disk ← driver.writeOffset disk offset data
      driver.run disk calls

/-- The same run on the byte memory. -/
def runBytes (mem : ℕ → UInt8) : List DiskCall → List (List UInt8)
  | [] => []
  | .readOffset offset :: calls => readSpan mem offset :: runBytes mem calls
  | .writeOffset offset data :: calls => runBytes (store mem offset data) calls

/-- A driver refines the byte memory: every read returns the span and every
write stores its slice, and neither panics. -/
structure Driver.Refines (driver : Driver) : Prop where
  read : ∀ disk offset, driver.readOffset disk offset = .ok (readSpan disk.bytes offset)
  write : ∀ disk offset data, ∃ disk', driver.writeOffset disk offset data = .ok disk' ∧
    disk'.bytes = store disk.bytes offset data

/-- A driver that refines the byte memory call by call does so on every run. -/
theorem Driver.Refines.run {driver : Driver} (h : driver.Refines) :
    ∀ (disk : Disk) (calls : List DiskCall), driver.run disk calls = .ok (runBytes disk.bytes calls)
  | _, [] => rfl
  | disk, .readOffset offset :: calls => by
      simp only [Driver.run, h.read, h.run disk calls, runBytes]
      rfl
  | disk, .writeOffset offset data :: calls => by
      obtain ⟨disk', hwrite, hbytes⟩ := h.write disk offset data
      rw [Driver.run, hwrite, runBytes, ← hbytes]
      exact h.run disk' calls

/-- `VirtIOBlock` refines the byte disk. -/
theorem virtIOBlock_refines : virtIOBlock.Refines :=
  ⟨VirtIOBlock.readOffset_eq, VirtIOBlock.writeOffset_spec⟩

/-- Every run of calls on `VirtIOBlock` answers as the byte disk does, and none
panics. -/
theorem virtIOBlock_run_eq_runBytes (disk : Disk) (calls : List DiskCall) :
    virtIOBlock.run disk calls = .ok (runBytes disk.bytes calls) :=
  virtIOBlock_refines.run disk calls

/-- `SDCard` reads the span; its write stores the first 4096 bytes of `data`
from the start of the sector that holds `offset`, and panics when `data` is
shorter. -/
theorem sdCard_reads_span_writes_whole_blocks (disk : Disk) (offset : ℕ) (data : List UInt8) :
    sdCard.readOffset disk offset = .ok (readSpan disk.bytes offset) ∧
      (sdCard.writeOffset disk offset data).map Disk.bytes =
        if ext4BlockSize ≤ data.length then
          .ok (store disk.bytes (offset / blockSz * blockSz) (data.take ext4BlockSize))
        else
          .error (.sliceOutOfRange (data.length / blockSz * blockSz)
            (data.length / blockSz * blockSz + blockSz) data.length) := by
  refine ⟨SDCard.readOffset_eq disk offset, ?_⟩
  by_cases hlen : ext4BlockSize ≤ data.length
  · obtain ⟨disk', hwrite, hbytes⟩ := SDCard.writeOffset_of_le disk offset hlen
    rw [if_pos hlen, ← hbytes]
    exact congrArg (Except.map Disk.bytes) hwrite
  · rw [if_neg hlen]
    exact congrArg (Except.map Disk.bytes) (SDCard.writeOffset_of_lt disk offset (Nat.lt_of_not_le hlen))

/-- A device of zeros. -/
def blankDisk : Disk := fun _ _ => 0

/-- `sync_super_block_to_disk`: the 1024 bytes of the superblock written at
`BASE_OFFSET`, then read back. -/
def superblockCalls : List DiskCall :=
  [.writeOffset 1024 (List.replicate 1024 0xff), .readOffset 1024]

/-- The superblock write of `ext4_rs` goes through on `VirtIOBlock` and panics
on `SDCard`, which slices a third sector's worth out of the 1024 bytes. -/
theorem sdCard_panics_on_superblock_write :
    virtIOBlock.run blankDisk superblockCalls = .ok (runBytes blankDisk.bytes superblockCalls) ∧
      sdCard.run blankDisk superblockCalls = .error (.sliceOutOfRange 1024 1536 1024) := by
  refine ⟨virtIOBlock_refines.run _ _, ?_⟩
  have hshort : (List.replicate 1024 (0xff : UInt8)).length < ext4BlockSize := by
    rw [List.length_replicate]
    decide
  show (SDCard.writeOffset blankDisk 1024 (List.replicate 1024 0xff) >>= fun disk =>
    sdCard.run disk [.readOffset 1024]) = _
  rw [SDCard.writeOffset_of_lt _ _ hshort, List.length_replicate]
  rfl

end ChaosKernel.Block
