import ChaosKernel.Block.Device
import ChaosKernel.Lib.Bytes
import ChaosKernel.Lib.Except

/-!
# The file calls of `ext4_rs`

The kernel's ext4 inodes (`os/src/fs/ext4/inode.rs`) read and write through
`Ext4::ext4_file_read` and `Ext4::ext4_file_write` of the vendored `ext4_rs`
(`os/libs/ext4_rs`).  Both begin with `Ext4InodeRef::get_inode_ref`, which
finds an inode on the device: its group and its index within the group come
from `inode_num - 1` in `u32`, the group's descriptor names the block of the
group's inode table, and the inode is read from its slot in that table through
the device's `read_offset`.  The kernel is built in release mode, so
`inode_num - 1` wraps at `0` rather than panicking, while the division by
`inodes_per_group` still panics on a zero divisor and `block_groups[group]`
panics past the last group.

`ext4_file_read` is embedded whole.  The one call it makes into the extent
tree, `get_inode_dblk_idx`, is a parameter: the physical block that a logical
block of the inode maps to, `0` for a hole.  A read refuses a position past the
size it is handed, then re-reads the size from the inode and clamps the count
to what is left, in wrapping `usize`; it reads the first block from the
position's offset within it and every later block whole, through one helper
`readBlock`, and fills holes with zeros.  Of `ext4_file_write` the part before
its block loop is embedded: the superblock read back from `BASE_OFFSET` and the
cursor's inode loaded with `get_inode_ref`.  The loop that appends blocks
through the extent tree and writes the data a block at a time is a parameter.

The main results: inode `0` is never found, since `0 - 1` lands past the last
group of every volume whose inode count fits in `u32` (`getInodeRef_zero`); and
a read copies the file as its block map lays it out, `fileByte` by `fileByte`,
clamped to the file's end only when it starts inside the file
(`ext4FileRead_eq`).
-/

namespace ChaosKernel.Ext4Rs

open Block Lib

/-- `BASE_OFFSET`: the byte of the device where the superblock starts. -/
def baseOffset : ℕ := 1024

/-- `size_of::<Ext4Superblock>()`. -/
def sizeOfSuperblock : ℕ := 1024

/-- `size_of::<Ext4Inode>()`. -/
def sizeOfInode : ℕ := 156

/-- `Ext4Superblock`, with the fields that the modelled calls read. -/
structure Ext4Superblock where
  inodesPerGroup : UInt32
  inodeSize : UInt16
  deriving DecidableEq, Repr

/-- `Ext4Superblock::try_from(Vec<u8>)`: the first `size_of` bytes read as the
`repr(C)` struct, on a little-endian machine. -/
def Ext4Superblock.tryFrom (value : List UInt8) : Except Panic Ext4Superblock := do
  let data ← sliceRange value 0 sizeOfSuperblock
  pure
    { inodesPerGroup := UInt32.ofNat (leValue ((data.drop 40).take 4))
      inodeSize := UInt16.ofNat (leValue ((data.drop 88).take 2)) }

/-- `Ext4BlockGroup`, with the two halves of the inode table's block number. -/
structure Ext4BlockGroup where
  inodeTableFirstBlockLo : UInt32
  inodeTableFirstBlockHi : UInt32
  deriving DecidableEq, Repr

/-- `Ext4BlockGroup::get_inode_table_blk_num`.  The high half is shifted into
the upper 32 bits of a `u64` and then cast to `u32`, which drops it. -/
def Ext4BlockGroup.getInodeTableBlkNum (self : Ext4BlockGroup) : UInt32 :=
  (self.inodeTableFirstBlockHi.toUInt64 <<< 32).toUInt32 ||| self.inodeTableFirstBlockLo

/-- `Ext4Inode` of `ext4_rs`, with the two halves of its size. -/
structure Ext4Inode where
  size : UInt32
  sizeHi : UInt32
  deriving DecidableEq, Repr

/-- `Ext4Inode::try_from(&[u8])`: the first `size_of` bytes read as the
`repr(C)` struct. -/
def Ext4Inode.tryFrom (data : List UInt8) : Except Panic Ext4Inode := do
  let data ← sliceRange data 0 sizeOfInode
  pure
    { size := UInt32.ofNat (leValue ((data.drop 4).take 4))
      sizeHi := UInt32.ofNat (leValue ((data.drop 108).take 4)) }

/-- `Ext4Inode::inode_get_size`. -/
def Ext4Inode.inodeGetSize (self : Ext4Inode) : UInt64 :=
  self.size.toUInt64 ||| (self.sizeHi.toUInt64 <<< 32)

/-- `Ext4`: the mounted volume, with its device, the superblock read at mount
and the descriptors of its block groups. -/
structure Ext4 where
  blockDevice : Driver
  superBlock : Ext4Superblock
  blockGroups : List Ext4BlockGroup

/-- `Ext4InodeRef`: an inode and its number. -/
structure Ext4InodeRef where
  inodeNum : UInt32
  inode : Ext4Inode
  deriving DecidableEq, Repr

/-- `Ext4File`, without the mount point and flags that no modelled call reads.
`fsize` (a `u64`) and `fpos` (a `usize`) are kept as numbers. -/
structure Ext4File where
  inode : UInt32
  fsize : ℕ
  fpos : ℕ
  deriving DecidableEq, Repr

/-- `Ext4File::new()`. -/
def Ext4File.new : Ext4File :=
  ⟨0, 0, 0⟩

/-- The error of `ext4_file_read` that the model reaches. -/
inductive Errnum
  /-- `read offset exceeds file size`. -/
  | einval
  deriving DecidableEq, Repr

/-- `Ext4InodeRef::get_inode_ref(fs, inode_num)`. -/
def getInodeRef (fs : Ext4) (disk : Disk) (inodeNum : UInt32) : Except Panic Ext4InodeRef := do
  let inodesPerGroup := fs.superBlock.inodesPerGroup
  let inodeSize := fs.superBlock.inodeSize.toNat
  -- `u32` division panics on a zero divisor; `UInt32` division would return `0`
  if inodesPerGroup = 0 then throw .divideByZero
  -- `inode_num - 1` in `u32`, which wraps at `0` in a release build
  let group := (inodeNum - 1) / inodesPerGroup
  let index := (inodeNum - 1) % inodesPerGroup
  let group ← sliceIndex fs.blockGroups group.toNat
  -- below `2 ^ 32 * 4096 + 2 ^ 32 * 2 ^ 16`, so the `usize` sum never wraps
  let offset := group.getInodeTableBlkNum.toNat * ext4BlockSize + index.toNat * inodeSize
  let data ← fs.blockDevice.readOffset disk offset
  let inodeData ← sliceRange data 0 sizeOfInode
  let inode ← Ext4Inode.tryFrom inodeData
  pure ⟨inodeNum, inode⟩

/-! ## `ext4_file_read` -/

/-- `get_inode_dblk_idx(&mut iblock, &mut fblock, false)` of an inode: the
physical block that a logical block maps to through the extent tree, `0` for a
hole.  The extent tree is not embedded. -/
abbrev GetInodeDblkIdx := Disk → Ext4InodeRef → UInt32 → Except Panic UInt64

section Read

variable (fs : Ext4) (getInodeDblkIdx : GetInodeDblkIdx) (disk : Disk) (inodeRef : Ext4InodeRef)

/-- One block of the read, as the code does it for the first block and again
in the loop: `len` bytes of the block that `iblock_idx` maps to, from byte
`unalg` of it, copied to `read_buf[offset..offset + len]`.  A hole gives
zeros. -/
def readBlock (iblockIdx : UInt32) (unalg offset len : ℕ) (readBuf : List UInt8) :
    Except Panic (List UInt8) := do
  let fblock ← getInodeDblkIdx disk inodeRef iblockIdx
  if fblock ≠ 0 then
    -- `fblock * block_size as u64 + unalg as u64`, in `u64`
    let blockOffset := fblock * UInt64.ofNat ext4BlockSize + UInt64.ofNat unalg
    let blockData ← fs.blockDevice.readOffset disk blockOffset.toNat
    let src ← sliceRange blockData 0 len
    copyFromSlice readBuf offset (offset + len) src
  else
    -- the loop that zeroes `read_buf[offset..offset + len]`, whose slice
    -- panics as the copy's does
    copyFromSlice readBuf offset (offset + len) (List.replicate len 0)

/-- The locals of `ext4_file_read` that its block steps update: `iblock_idx`,
`offset`, `total_bytes_read`, the cursor's `fpos`, `read_buf` and
`*read_cnt`. -/
structure ReadState where
  iblockIdx : UInt32
  offset : ℕ
  totalBytesRead : ℕ
  fpos : ℕ
  readBuf : List UInt8
  readCnt : ℕ
  deriving DecidableEq, Repr

/-- The counters after a block step of `len` bytes that left `readBuf`. -/
def ReadState.advance (st : ReadState) (len : ℕ) (readBuf : List UInt8) : ReadState :=
  { iblockIdx := st.iblockIdx + 1
    offset := st.offset + len
    totalBytesRead := st.totalBytesRead + len
    fpos := (st.fpos + len) % usizeModulus
    readBuf
    readCnt := st.readCnt + len }

/-- The `if unalg > 0` step: the rest of the block that `fpos` starts in, when
`fpos` is not block-aligned. -/
def readFirstBlock (sizeToRead unalg : ℕ) (st : ReadState) : Except Panic ReadState :=
  if unalg > 0 then do
    let firstBlockReadLen := min (ext4BlockSize - unalg) sizeToRead
    let readBuf ← readBlock fs getInodeDblkIdx disk inodeRef st.iblockIdx unalg st.offset
      firstBlockReadLen st.readBuf
    pure (st.advance firstBlockReadLen readBuf)
  else pure st

/-- The `while total_bytes_read < size_to_read` loop of full blocks. -/
def readLoop (sizeToRead : ℕ) (st : ReadState) : Except Panic ReadState :=
  if st.totalBytesRead < sizeToRead then do
    let readLength := min ext4BlockSize (sizeToRead - st.totalBytesRead)
    let readBuf ← readBlock fs getInodeDblkIdx disk inodeRef st.iblockIdx 0 st.offset readLength
      st.readBuf
    readLoop sizeToRead (st.advance readLength readBuf)
  else pure st
termination_by sizeToRead - st.totalBytesRead
decreasing_by
  simp only [ReadState.advance]
  have : 0 < ext4BlockSize := by decide
  omega

end Read

/-- `Ext4::ext4_file_read(file, read_buf, size, read_cnt)`: its result, then
the cursor, `read_buf` and `*read_cnt` after it. -/
def ext4FileRead (fs : Ext4) (getInodeDblkIdx : GetInodeDblkIdx) (disk : Disk) (file : Ext4File)
    (readBuf : List UInt8) (size readCnt : ℕ) :
    Except Panic (Except Errnum Unit × Ext4File × List UInt8 × ℕ) :=
  if file.fpos > file.fsize then pure (.error .einval, file, readBuf, readCnt)
  else if size = 0 then pure (.ok (), file, readBuf, readCnt)
  else do
    let inodeRef ← getInodeRef fs disk file.inode
    -- the size handed in is replaced by the inode's
    let fsize := inodeRef.inode.inodeGetSize.toNat
    -- `fsize as usize - fpos`, wrapping
    let left := (fsize + usizeModulus - file.fpos) % usizeModulus
    let sizeToRead := if size > left then left else size
    let st : ReadState := ⟨UInt32.ofNat (file.fpos / ext4BlockSize), 0, 0, file.fpos, readBuf, readCnt⟩
    let unalg := file.fpos % ext4BlockSize
    let st ← readFirstBlock fs getInodeDblkIdx disk inodeRef sizeToRead unalg st
    let st ← readLoop fs getInodeDblkIdx disk inodeRef sizeToRead st
    pure (.ok (), { file with fsize, fpos := st.fpos }, st.readBuf, st.readCnt)

/-! ## `ext4_file_write` -/

/-- What `ext4_file_write` does once it has loaded the cursor's inode: the loop
that appends blocks through the extent tree and writes `data` a whole block at
a time, then the inodes written back.  It is not embedded. -/
abbrev WriteBlocks :=
  Ext4Superblock → Ext4InodeRef → Disk → Ext4File → List UInt8 → ℕ → Except Panic Disk

/-- `Ext4::ext4_file_write(file, data, size)`: the device after it. -/
def ext4FileWrite (fs : Ext4) (writeBlocks : WriteBlocks) (disk : Disk) (file : Ext4File)
    (data : List UInt8) (size : ℕ) : Except Panic Disk := do
  let superBlockData ← fs.blockDevice.readOffset disk baseOffset
  let superBlock ← Ext4Superblock.tryFrom superBlockData
  let inodeRef ← getInodeRef fs disk file.inode
  writeBlocks superBlock inodeRef disk file data size

/-! ## Machine words -/

/-- The cast to `u32` drops the shifted high half, so the inode table's block
is its low half. -/
@[simp]
theorem Ext4BlockGroup.getInodeTableBlkNum_eq (self : Ext4BlockGroup) :
    self.getInodeTableBlkNum = self.inodeTableFirstBlockLo := by
  have hhigh : (self.inodeTableFirstBlockHi.toUInt64 <<< 32).toUInt32 = 0 := by
    apply UInt32.toNat_inj.1
    simp [UInt64.toNat_shiftLeft]
    omega
  simp [getInodeTableBlkNum, hhigh]

/-- `u32` wrapping: the number before inode `0` is `0xFFFF_FFFF`, and its group
the quotient of that. -/
theorem group_of_zero {inodesPerGroup : UInt32} :
    ((0 - 1) / inodesPerGroup).toNat = (2 ^ 32 - 1) / inodesPerGroup.toNat := by
  simp [UInt32.toNat_div]

/-! ## `get_inode_ref` -/

/-- The front of a run, sliced out: what the slices of `read_offset`'s bytes
return. -/
theorem sliceRange_load (mem : ℕ → UInt8) (a : ℕ) {m n : ℕ} (hle : m ≤ n) :
    sliceRange (load mem a n) 0 m = .ok (load mem a m) := by
  rw [sliceRange_of_le (Nat.zero_le _) (by simpa using hle), List.drop_zero, Nat.sub_zero,
    take_load _ _ hle]

/-- The inode whose bytes start at `a` of `mem`, as `Ext4Inode::try_from` reads
them. -/
def Ext4Inode.ofMem (mem : ℕ → UInt8) (a : ℕ) : Ext4Inode :=
  ⟨UInt32.ofNat (leValue (load mem (a + 4) 4)), UInt32.ofNat (leValue (load mem (a + 108) 4))⟩

theorem Ext4Inode.tryFrom_load (mem : ℕ → UInt8) (a : ℕ) {n : ℕ} (hn : sizeOfInode ≤ n) :
    Ext4Inode.tryFrom (load mem a n) = .ok (Ext4Inode.ofMem mem a) := by
  have hfield : ∀ k, k + 4 ≤ sizeOfInode →
      ((load mem a sizeOfInode).drop k).take 4 = load mem (a + k) 4 := by
    intro k hk
    rw [drop_load, take_load _ _ (by omega)]
  simp only [tryFrom, sliceRange_load mem a hn, ok_bind, hfield 4 (by decide), hfield 108 (by decide)]
  rfl

/-- On a device that reads as the byte disk, an inode whose group exists is
read from its slot in the group's inode table. -/
theorem getInodeRef_eq {fs : Ext4} (disk : Disk) (hdev : fs.blockDevice.Refines)
    {inodeNum : UInt32} (hzero : fs.superBlock.inodesPerGroup ≠ 0) {group : Ext4BlockGroup}
    (hgroup : fs.blockGroups[((inodeNum - 1) / fs.superBlock.inodesPerGroup).toNat]? = some group) :
    getInodeRef fs disk inodeNum =
      .ok ⟨inodeNum, Ext4Inode.ofMem disk.bytes (group.inodeTableFirstBlockLo.toNat * ext4BlockSize +
        ((inodeNum - 1) % fs.superBlock.inodesPerGroup).toNat * fs.superBlock.inodeSize.toNat)⟩ := by
  -- `read_offset` returns at least the rest of a sector, more than an inode
  have hslice : ∀ a, sliceRange (readSpan disk.bytes a) 0 sizeOfInode =
      .ok (load disk.bytes a sizeOfInode) := by
    intro a
    have hspan : sizeOfInode ≤ ext4BlockSize - a % blockSz := by
      have : a % blockSz < blockSz := Nat.mod_lt _ (by decide)
      unfold sizeOfInode ext4BlockSize blockSz at *
      omega
    rw [readSpan]
    exact sliceRange_load _ _ hspan
  simp only [getInodeRef, hzero, if_false, sliceIndex, hgroup, Ext4BlockGroup.getInodeTableBlkNum_eq,
    hdev.read, ok_bind, hslice, Ext4Inode.tryFrom_load _ _ (le_refl _)]
  rfl

/-- The panic of `get_inode_ref(0)`: the group of `0xFFFF_FFFF` past the last
one, or the division when there are no inodes per group. -/
def inodeZeroPanic (fs : Ext4) : Panic :=
  if fs.superBlock.inodesPerGroup = 0 then .divideByZero
  else .indexOutOfBounds ((2 ^ 32 - 1) / fs.superBlock.inodesPerGroup.toNat) fs.blockGroups.length

/-- Inode `0` is never found.  Its number less one wraps to `0xFFFF_FFFF`, whose
group lies past the last one on every volume whose inode count fits in `u32`,
as `s_inodes_count` does; with no inodes per group the division panics
first. -/
theorem getInodeRef_zero (fs : Ext4) (disk : Disk)
    (hcount : fs.blockGroups.length * fs.superBlock.inodesPerGroup.toNat < 2 ^ 32) :
    getInodeRef fs disk 0 = .error (inodeZeroPanic fs) := by
  by_cases hzero : fs.superBlock.inodesPerGroup = 0
  · simp only [getInodeRef, inodeZeroPanic, hzero, if_true]
    rfl
  · have hpos : 0 < fs.superBlock.inodesPerGroup.toNat := by
      rw [Nat.pos_iff_ne_zero, Ne, ← UInt32.toNat_zero, UInt32.toNat_inj]
      exact hzero
    -- every group index below the count is below the quotient
    have hpast : fs.blockGroups.length ≤ (2 ^ 32 - 1) / fs.superBlock.inodesPerGroup.toNat := by
      rw [Nat.le_div_iff_mul_le hpos]
      omega
    simp only [getInodeRef, inodeZeroPanic, hzero, if_false, group_of_zero, sliceIndex_of_le hpast]
    rfl

/-! ## `ext4_file_write` of inode `0` -/

/-- A write through a cursor on inode `0` panics in `get_inode_ref`, after the
superblock read, which a device that reads as the byte disk passes. -/
theorem ext4FileWrite_of_inode_zero {fs : Ext4} (disk : Disk) (hdev : fs.blockDevice.Refines)
    (hcount : fs.blockGroups.length * fs.superBlock.inodesPerGroup.toNat < 2 ^ 32)
    (writeBlocks : WriteBlocks) {file : Ext4File} (hinode : file.inode = 0) (data : List UInt8)
    (size : ℕ) :
    ext4FileWrite fs writeBlocks disk file data size = .error (inodeZeroPanic fs) := by
  -- `read_offset(BASE_OFFSET)` returns the whole 4096 bytes from the superblock on
  have hsuper : sizeOfSuperblock ≤ ext4BlockSize - baseOffset % blockSz := by decide
  simp only [ext4FileWrite, hdev.read, readSpan, ok_bind, Ext4Superblock.tryFrom,
    sliceRange_load _ _ hsuper, hinode, getInodeRef_zero fs disk hcount]
  rfl

/-- On any device, a write through a cursor on inode `0` panics, in the
superblock read or in `get_inode_ref`. -/
theorem ext4FileWrite_inode_zero_panics (fs : Ext4) (disk : Disk)
    (hcount : fs.blockGroups.length * fs.superBlock.inodesPerGroup.toNat < 2 ^ 32)
    (writeBlocks : WriteBlocks) {file : Ext4File} (hinode : file.inode = 0) (data : List UInt8)
    (size : ℕ) :
    ∃ p, ext4FileWrite fs writeBlocks disk file data size = .error p := by
  apply exists_error_bind
  intro superBlockData _
  apply exists_error_bind
  intro superBlock _
  rw [hinode, getInodeRef_zero fs disk hcount]
  exact ⟨_, rfl⟩

/-! ## What a read returns -/

/-- Byte `pos` of a file whose logical blocks map to physical blocks by
`blockMap`: byte `pos % 4096` of the block that logical block `pos / 4096` maps
to, counting logical blocks in `u32` as `iblock_idx` does, or `0` in a hole. -/
def fileByte (mem : ℕ → UInt8) (blockMap : UInt32 → UInt64) (pos : ℕ) : UInt8 :=
  let fblock := blockMap (UInt32.ofNat (pos / ext4BlockSize))
  if fblock = 0 then 0 else mem (fblock.toNat * ext4BlockSize + pos % ext4BlockSize)

/-- How many bytes a read of `size` from `fpos` hands out of a file of `fsize`
bytes: what is left of the file when the position is inside it, and the whole
request when it is past the end, where `fsize - fpos` wraps to a huge count. -/
def readCount (fsize fpos size : ℕ) : ℕ :=
  if fpos ≤ fsize then min size (fsize - fpos) else size

/-- An extent lookup of `inodeRef` that never panics and follows `blockMap`,
with block numbers of ext4's 48 bits, so that a block's byte address fits in
`u64`. -/
structure FollowsBlockMap (getInodeDblkIdx : GetInodeDblkIdx) (disk : Disk)
    (inodeRef : Ext4InodeRef) (blockMap : UInt32 → UInt64) : Prop where
  lookup : ∀ iblock, getInodeDblkIdx disk inodeRef iblock = .ok (blockMap iblock)
  lt : ∀ iblock, (blockMap iblock).toNat < 2 ^ 48

/-- The clamp of `ext4_file_read` in wrapping `usize` is `readCount`, for a
request that does not run past `usize`. -/
theorem sizeToRead_eq {fsize fpos size : ℕ} (hfsize : fsize < usizeModulus)
    (hlimit : fpos + size < usizeModulus) :
    (if size > (fsize + usizeModulus - fpos) % usizeModulus then
        (fsize + usizeModulus - fpos) % usizeModulus else size) = readCount fsize fpos size := by
  unfold readCount usizeModulus at *
  split_ifs <;> omega

/-- Positions from `pos` to the end of its block share its block. -/
theorem div_mod_add_of_lt {pos j : ℕ} (hj : pos % ext4BlockSize + j < ext4BlockSize) :
    (pos + j) / ext4BlockSize = pos / ext4BlockSize ∧
      (pos + j) % ext4BlockSize = pos % ext4BlockSize + j := by
  unfold ext4BlockSize at *
  omega

/-- A run of the file inside one block is a run of that block, or zeros in a
hole. -/
theorem load_fileByte_of_le (mem : ℕ → UInt8) (blockMap : UInt32 → UInt64) {pos len : ℕ}
    (hlen : pos % ext4BlockSize + len ≤ ext4BlockSize) :
    load (fileByte mem blockMap) pos len =
      if blockMap (UInt32.ofNat (pos / ext4BlockSize)) = 0 then List.replicate len 0
      else load mem ((blockMap (UInt32.ofNat (pos / ext4BlockSize))).toNat * ext4BlockSize +
        pos % ext4BlockSize) len := by
  apply List.ext_getElem (by split <;> simp)
  intro j hj _
  rw [length_load] at hj
  obtain ⟨hdiv, hmod⟩ := div_mod_add_of_lt (show pos % ext4BlockSize + j < ext4BlockSize by omega)
  simp only [getElem_load, fileByte, hdiv, hmod]
  split_ifs <;> simp [Nat.add_assoc]

/-- Below `2 ^ 48` blocks the `u64` byte address of a block does not wrap. -/
theorem blockOffset_toNat {fblock : UInt64} (hlt : fblock.toNat < 2 ^ 48) {unalg : ℕ}
    (hunalg : unalg < ext4BlockSize) :
    (fblock * UInt64.ofNat ext4BlockSize + UInt64.ofNat unalg).toNat =
      fblock.toNat * ext4BlockSize + unalg := by
  unfold ext4BlockSize at *
  rw [UInt64.toNat_add, UInt64.toNat_mul, UInt64.toNat_ofNat', UInt64.toNat_ofNat']
  simp only [Nat.reducePow, Nat.reduceMod]
  omega

section ReadSpec

variable {fs : Ext4} {getInodeDblkIdx : GetInodeDblkIdx} {disk : Disk} {inodeRef : Ext4InodeRef}
  {blockMap : UInt32 → UInt64}

/-- A block step puts the file's bytes from `pos` into `read_buf` at
`offset`, from the device or as the zeros of a hole. -/
theorem readBlock_eq (hdev : fs.blockDevice.Refines)
    (hmap : FollowsBlockMap getInodeDblkIdx disk inodeRef blockMap) {pos offset len : ℕ}
    {readBuf : List UInt8} (hlen : pos % ext4BlockSize + len ≤ ext4BlockSize)
    (hbuf : offset + len ≤ readBuf.length) :
    readBlock fs getInodeDblkIdx disk inodeRef (UInt32.ofNat (pos / ext4BlockSize))
        (pos % ext4BlockSize) offset len readBuf =
      .ok (readBuf.take offset ++ load (fileByte disk.bytes blockMap) pos len ++
        readBuf.drop (offset + len)) := by
  rw [load_fileByte_of_le disk.bytes blockMap hlen]
  simp only [readBlock, hmap.lookup, ok_bind]
  by_cases hhole : blockMap (UInt32.ofNat (pos / ext4BlockSize)) = 0
  · -- a hole: the zeroing loop
    rw [if_neg (not_not.2 hhole), if_pos hhole]
    exact copyFromSlice_of_length (by simp) hbuf
  · -- a block: `read_offset` returns the rest of its 4096 bytes from `pos`
    have hunalg : pos % ext4BlockSize < ext4BlockSize := Nat.mod_lt _ (by decide)
    set fblock := blockMap (UInt32.ofNat (pos / ext4BlockSize))
    have hspan : len ≤ ext4BlockSize - (fblock.toNat * ext4BlockSize + pos % ext4BlockSize) % blockSz := by
      have : (fblock.toNat * ext4BlockSize + pos % ext4BlockSize) % blockSz ≤ pos % ext4BlockSize := by
        unfold ext4BlockSize blockSz at *
        omega
      omega
    rw [if_pos hhole, if_neg hhole, blockOffset_toNat (hmap.lt _) hunalg, hdev.read, ok_bind,
      readSpan, sliceRange_load _ _ hspan, ok_bind]
    exact copyFromSlice_of_length (by simp) hbuf

/-- What a read of `sizeToRead` bytes from `pos` into `buf` has done after
`total_bytes_read` of them: those bytes of the file are in place at the front of
the buffer, and `offset`, `fpos` and `*read_cnt` have moved with them. -/
structure ReadInv (mem : ℕ → UInt8) (blockMap : UInt32 → UInt64) (pos readCnt : ℕ)
    (buf : List UInt8) (sizeToRead : ℕ) (st : ReadState) : Prop where
  offset_eq : st.offset = st.totalBytesRead
  fpos_eq : st.fpos = pos + st.totalBytesRead
  readCnt_eq : st.readCnt = readCnt + st.totalBytesRead
  readBuf_eq : st.readBuf = load (fileByte mem blockMap) pos st.totalBytesRead ++
    buf.drop st.totalBytesRead
  total_le : st.totalBytesRead ≤ sizeToRead

/-- Before the last block, the loop's position is block-aligned and
`iblock_idx` is its block. -/
def Aligned (sizeToRead : ℕ) (st : ReadState) : Prop :=
  st.totalBytesRead < sizeToRead →
    st.fpos % ext4BlockSize = 0 ∧ st.iblockIdx = UInt32.ofNat (st.fpos / ext4BlockSize)

/-- Nothing read yet. -/
theorem readInv_start (mem : ℕ → UInt8) (blockMap : UInt32 → UInt64) (pos readCnt : ℕ)
    (buf : List UInt8) (sizeToRead : ℕ) :
    ReadInv mem blockMap pos readCnt buf sizeToRead
      ⟨UInt32.ofNat (pos / ext4BlockSize), 0, 0, pos, buf, readCnt⟩ :=
  ⟨rfl, rfl, rfl, by simp [load], Nat.zero_le _⟩

variable {pos readCnt sizeToRead : ℕ} {buf : List UInt8}

/-- One block step keeps the invariant, and leaves the position aligned unless
it was the last. -/
theorem ReadInv.advance (hdev : fs.blockDevice.Refines)
    (hmap : FollowsBlockMap getInodeDblkIdx disk inodeRef blockMap) (hsize : sizeToRead ≤ buf.length)
    (hlimit : pos + sizeToRead < usizeModulus) {st : ReadState}
    (hinv : ReadInv disk.bytes blockMap pos readCnt buf sizeToRead st)
    (hidx : st.iblockIdx = UInt32.ofNat (st.fpos / ext4BlockSize)) {len : ℕ}
    (hlen : st.fpos % ext4BlockSize + len ≤ ext4BlockSize) (hle : st.totalBytesRead + len ≤ sizeToRead)
    (hend : st.totalBytesRead + len < sizeToRead → st.fpos % ext4BlockSize + len = ext4BlockSize) :
    ∃ readBuf, readBlock fs getInodeDblkIdx disk inodeRef st.iblockIdx (st.fpos % ext4BlockSize)
        st.offset len st.readBuf = .ok readBuf ∧
      ReadInv disk.bytes blockMap pos readCnt buf sizeToRead (st.advance len readBuf) ∧
      Aligned sizeToRead (st.advance len readBuf) := by
  obtain ⟨hoffset, hfpos, hcnt, hbuf, htotal⟩ := hinv
  have hcopied : (load (fileByte disk.bytes blockMap) pos st.totalBytesRead).length =
      st.totalBytesRead := length_load _ _ _
  have hlength : st.readBuf.length = buf.length := by
    rw [hbuf, List.length_append, hcopied, List.length_drop]
    omega
  refine ⟨_, hidx ▸ readBlock_eq hdev hmap hlen (by omega), ?_, ?_⟩
  · -- the new bytes follow the ones already in place
    have hfront : st.readBuf.take st.offset = load (fileByte disk.bytes blockMap) pos st.totalBytesRead := by
      rw [hbuf, hoffset, List.take_left' hcopied]
    have hback : st.readBuf.drop (st.offset + len) = buf.drop (st.totalBytesRead + len) := by
      rw [hbuf, hoffset, List.drop_append, List.drop_eq_nil_of_le (by rw [hcopied]; omega),
        List.nil_append, hcopied, Nat.add_sub_cancel_left, List.drop_drop]
    refine ⟨?_, ?_, ?_, ?_, ?_⟩ <;> simp only [ReadState.advance]
    · omega
    · unfold usizeModulus at hlimit ⊢
      rw [Nat.mod_eq_of_lt (by omega)]
      omega
    · omega
    · rw [hfront, hback, hfpos, load_add, List.append_assoc]
    · omega
  · -- a step that does not end the read ends a block
    intro hmore
    have hblock := hend hmore
    obtain ⟨hoff, hdiv⟩ : (st.fpos + len) % ext4BlockSize = 0 ∧
        (st.fpos + len) / ext4BlockSize = st.fpos / ext4BlockSize + 1 := by
      unfold ext4BlockSize at *
      omega
    have hwrap : (st.fpos + len) % usizeModulus = st.fpos + len := by
      unfold usizeModulus at hlimit ⊢
      exact Nat.mod_eq_of_lt (by omega)
    simp only [ReadState.advance, hwrap, hoff, hdiv, hidx, UInt32.ofNat_add, true_and]
    rfl

/-- The first block, when `fpos` is not aligned, leaves the read's invariant and
an aligned position for the loop. -/
theorem readFirstBlock_spec (pos readCnt : ℕ) (hdev : fs.blockDevice.Refines)
    (hmap : FollowsBlockMap getInodeDblkIdx disk inodeRef blockMap) (hsize : sizeToRead ≤ buf.length)
    (hlimit : pos + sizeToRead < usizeModulus) :
    ∃ st, readFirstBlock fs getInodeDblkIdx disk inodeRef sizeToRead (pos % ext4BlockSize)
        ⟨UInt32.ofNat (pos / ext4BlockSize), 0, 0, pos, buf, readCnt⟩ = .ok st ∧
      ReadInv disk.bytes blockMap pos readCnt buf sizeToRead st ∧ Aligned sizeToRead st := by
  have hunalg : pos % ext4BlockSize < ext4BlockSize := Nat.mod_lt _ (by decide)
  by_cases hstart : pos % ext4BlockSize > 0
  · -- the rest of the first block, or the whole read if it ends there
    obtain ⟨readBuf, hblock, hinv, haligned⟩ :=
      ReadInv.advance hdev hmap hsize hlimit (readInv_start disk.bytes blockMap pos readCnt buf sizeToRead)
        rfl (show pos % ext4BlockSize + min (ext4BlockSize - pos % ext4BlockSize) sizeToRead ≤
          ext4BlockSize by omega)
        (by dsimp only; omega) (by intro hmore; dsimp only at hmore ⊢; omega)
    refine ⟨_, ?_, hinv, haligned⟩
    rw [readFirstBlock, if_pos hstart]
    exact bind_eq_ok.2 ⟨readBuf, hblock, rfl⟩
  · -- an aligned start is left to the loop
    refine ⟨_, if_neg hstart, readInv_start disk.bytes blockMap pos readCnt buf sizeToRead, ?_⟩
    intro _
    exact ⟨by dsimp only; omega, rfl⟩

/-- The loop reads the rest: from a state with the invariant and an aligned
position it returns one with all `sizeToRead` bytes in place.  By induction
along the loop, a block per turn. -/
theorem readLoop_spec (hdev : fs.blockDevice.Refines)
    (hmap : FollowsBlockMap getInodeDblkIdx disk inodeRef blockMap) (hsize : sizeToRead ≤ buf.length)
    (hlimit : pos + sizeToRead < usizeModulus) (st : ReadState)
    (hinv : ReadInv disk.bytes blockMap pos readCnt buf sizeToRead st)
    (haligned : Aligned sizeToRead st) :
    ∃ st', readLoop fs getInodeDblkIdx disk inodeRef sizeToRead st = .ok st' ∧
      ReadInv disk.bytes blockMap pos readCnt buf sizeToRead st' ∧
      st'.totalBytesRead = sizeToRead := by
  fun_induction readLoop fs getInodeDblkIdx disk inodeRef sizeToRead st with
  | case1 st hmore readLength ih =>
      obtain ⟨hfpos, hidx⟩ := haligned hmore
      -- a whole block, or the rest of the read if it is shorter
      obtain ⟨readBuf, hblock, hinv', haligned'⟩ :=
        ReadInv.advance hdev hmap hsize hlimit hinv hidx
          (show st.fpos % ext4BlockSize + readLength ≤ ext4BlockSize by simp only [hfpos, readLength]; omega)
          (by omega)
          (by intro hless; simp only [hfpos, readLength] at hless ⊢; omega)
      rw [hfpos] at hblock
      obtain ⟨st', hloop, hinv'', htotal⟩ := ih readBuf hinv' haligned'
      exact ⟨st', bind_eq_ok.2 ⟨readBuf, hblock, hloop⟩, hinv'', htotal⟩
  | case2 st hdone =>
      exact ⟨st, rfl, hinv, by have := hinv.total_le; omega⟩

/-- **`ext4_file_read` reads the file as its block map lays it out.**  From a
position inside the size it is handed, a read of `size` bytes re-reads the
size from the inode, hands out `readCount` bytes of the file from `fpos`, puts
them at the front of `read_buf`, and moves `fpos` and `*read_cnt` on by their
count.  From a position past the inode's own size that count is the whole
request. -/
theorem ext4FileRead_eq (hdev : fs.blockDevice.Refines) (file : Ext4File)
    (hload : getInodeRef fs disk file.inode = .ok inodeRef)
    (hmap : FollowsBlockMap getInodeDblkIdx disk inodeRef blockMap) (readBuf : List UInt8)
    (size readCnt : ℕ) (hfpos : file.fpos ≤ file.fsize) (hpos : 0 < size)
    (hsize : size ≤ readBuf.length) (hlimit : file.fpos + size < usizeModulus) :
    ext4FileRead fs getInodeDblkIdx disk file readBuf size readCnt =
      .ok (.ok (),
        { file with
          fsize := inodeRef.inode.inodeGetSize.toNat
          fpos := file.fpos + readCount inodeRef.inode.inodeGetSize.toNat file.fpos size },
        load (fileByte disk.bytes blockMap) file.fpos
            (readCount inodeRef.inode.inodeGetSize.toNat file.fpos size) ++
          readBuf.drop (readCount inodeRef.inode.inodeGetSize.toNat file.fpos size),
        readCnt + readCount inodeRef.inode.inodeGetSize.toNat file.fpos size) := by
  obtain ⟨n, hn_eq⟩ : ∃ n, readCount inodeRef.inode.inodeGetSize.toNat file.fpos size = n := ⟨_, rfl⟩
  have hclamp := (sizeToRead_eq (UInt64.toNat_lt inodeRef.inode.inodeGetSize) hlimit).trans hn_eq
  have hn : n ≤ size := by
    rw [← hn_eq, readCount]
    split_ifs <;> omega
  obtain ⟨st, hfirst, hinv, haligned⟩ :=
    readFirstBlock_spec file.fpos readCnt hdev hmap (le_trans hn hsize) (by omega)
  obtain ⟨st', hloop, hinv', htotal⟩ :=
    readLoop_spec hdev hmap (le_trans hn hsize) (by omega) st hinv haligned
  -- all `n` bytes are in place
  have hfpos' : st'.fpos = file.fpos + n := by rw [hinv'.fpos_eq, htotal]
  have hbuf' : st'.readBuf = load (fileByte disk.bytes blockMap) file.fpos n ++ readBuf.drop n := by
    rw [hinv'.readBuf_eq, htotal]
  have hcnt' : st'.readCnt = readCnt + n := by rw [hinv'.readCnt_eq, htotal]
  rw [hn_eq]
  simp only [ext4FileRead, gt_iff_lt, Nat.not_lt.2 hfpos, if_false, Nat.pos_iff_ne_zero.1 hpos,
    hload, ok_bind, hclamp, hfirst, hloop, hfpos', hbuf', hcnt']
  rfl

end ReadSpec

end ChaosKernel.Ext4Rs
