import ChaosKernel.Fs.Ext4Rs

/-!
# The ext4 inode wrapper

`Ext4Inode` of `os/src/fs/ext4/inode.rs` reads and writes a file through
`ext4_file_read` and `ext4_file_write` of `ext4_rs` (`Fs.Ext4Rs`), building a
fresh `Ext4File` cursor for each call.

`read_at` fills in the cursor's inode and position, and hands it a size equal
to the position, which passes the library's first check; the library then
re-reads the size from the inode.  A read from inside the file hands out what
is left of it, up to the buffer, and consecutive `File::read` calls keep `fpos`
in step, handing out the file from `fpos` call after call.  A read from past
the end is not clamped: `fsize - fpos` wraps, and it hands out a whole buffer
of whatever the blocks past the end hold.

`write_at` loads the file's own inode for its size and sets the cursor's `fpos`
and `fsize`, but not its `inode`, which stays at the `0` of `Ext4File::new()`.
`ext4_file_write` then looks up inode `0`, whose number less one wraps to
`0xFFFF_FFFF` and indexes past the last block group: every `write_at`, and so
every `File::write`, panics.
-/

namespace ChaosKernel.Ext4

open Block Lib Ext4Rs

/-- `Ext4Inode`: its inode number and the `fpos` of its `inner` cell. -/
structure Ext4Inode where
  ino : UInt32
  fpos : ℕ
  deriving DecidableEq, Repr

namespace Ext4Inode

variable (fs : Ext4) (disk : Disk)

/-- `Ext4Inode::read_at(offset, buf)`: the count it returns and `buf` after it;
the library's result is dropped. -/
def readAt (getInodeDblkIdx : GetInodeDblkIdx) (self : Ext4Inode) (offset : ℕ)
    (buf : List UInt8) : Except Panic (ℕ × List UInt8) := do
  let file : Ext4File := { Ext4File.new with inode := self.ino, fpos := offset, fsize := offset }
  let (_, _, buf, readSize) ← ext4FileRead fs getInodeDblkIdx disk file buf buf.length 0
  pure (readSize, buf)

/-- `File::read(buf)`: a read at `fpos`, which then moves on by the count. -/
def read (getInodeDblkIdx : GetInodeDblkIdx) (self : Ext4Inode) (buf : List UInt8) :
    Except Panic (ℕ × List UInt8 × Ext4Inode) := do
  let (readSize, buf) ← self.readAt fs disk getInodeDblkIdx self.fpos buf
  pure (readSize, buf, { self with fpos := (self.fpos + readSize) % usizeModulus })

/-- `Ext4Inode::write_at(offset, buf)`: the count it returns and the device
after it. -/
def writeAt (writeBlocks : WriteBlocks) (self : Ext4Inode) (offset : ℕ) (buf : List UInt8) :
    Except Panic (ℕ × Disk) := do
  let inodeRef ← getInodeRef fs disk self.ino
  let file : Ext4File :=
    { Ext4File.new with fpos := offset, fsize := inodeRef.inode.inodeGetSize.toNat }
  let disk ← ext4FileWrite fs writeBlocks disk file buf buf.length
  pure (buf.length, disk)

/-- `File::write(buf)`: a write at offset `0`. -/
def write (writeBlocks : WriteBlocks) (self : Ext4Inode) (buf : List UInt8) :
    Except Panic (ℕ × Disk) :=
  self.writeAt fs disk writeBlocks 0 buf

/-- Consecutive `File::read` calls with the buffers `bufs`, as `sys_read`
issues them: the bytes each call hands out, and the inode after them. -/
def readCalls (getInodeDblkIdx : GetInodeDblkIdx) :
    Ext4Inode → List (List UInt8) → Except Panic (List (List UInt8) × Ext4Inode)
  | self, [] => pure ([], self)
  | self, buf :: bufs => do
      let (readSize, buf, self) ← self.read fs disk getInodeDblkIdx buf
      let (out, self) ← readCalls getInodeDblkIdx self bufs
      pure (buf.take readSize :: out, self)

end Ext4Inode

/-! ## A volume to run the calls on -/

/-- A volume of one group of 8192 inodes of 256 bytes, with its inode table at
block 5, on `VirtIOBlock`. -/
def sampleVolume : Ext4 :=
  ⟨virtIOBlock, ⟨8192, 256⟩, [⟨5, 0⟩]⟩

/-- A device on which inode `12` of `sampleVolume` (at byte `5 * 4096 + 11 * 256`,
in sector `45`) has size `5`, and block `10` (sectors `80` to `87`) holds
`1, 2, 3, …` from its start. -/
def sampleDisk : Disk := fun sector i =>
  if sector = 45 ∧ i.val = 260 then 5
  else if sector = 80 then UInt8.ofNat (i.val + 1)
  else 0

/-- The extent lookup of a file whose first block is block `10` and whose other
blocks are holes. -/
def sampleDblkIdx : GetInodeDblkIdx := fun _ _ iblock =>
  .ok (if iblock = 0 then 10 else 0)

theorem sampleDblkIdx_follows (inodeRef : Ext4InodeRef) :
    FollowsBlockMap sampleDblkIdx sampleDisk inodeRef fun iblock => if iblock = 0 then 10 else 0 :=
  ⟨fun _ => rfl, fun iblock => by by_cases h : iblock = 0 <;> simp [h]⟩

/-- Inode `12` loads from its slot. -/
theorem getInodeRef_sample :
    getInodeRef sampleVolume sampleDisk 12 =
      .ok ⟨12, Ext4Inode.ofMem sampleDisk.bytes (5 * ext4BlockSize + 11 * 256)⟩ := by
  have hgroup : sampleVolume.blockGroups[((12 - 1 : UInt32) /
      sampleVolume.superBlock.inodesPerGroup).toNat]? = some ⟨5, 0⟩ := by
    decide
  rw [getInodeRef_eq sampleDisk virtIOBlock_refines (by decide) hgroup]
  rfl

namespace Ext4Inode

variable (fs : Ext4) (disk : Disk)

/-! ## Reads -/

section Read

variable {fs disk} {getInodeDblkIdx : GetInodeDblkIdx} {inodeRef : Ext4InodeRef}
  {blockMap : UInt32 → UInt64}

/-- A read from inside the file hands out what is left of it, up to the
request. -/
theorem readCount_of_le {fsize fpos : ℕ} (hfpos : fpos ≤ fsize) (size : ℕ) :
    readCount fsize fpos size = min size (fsize - fpos) := by
  simp [readCount, hfpos]

/-- **`read_at` reads the file as its block map lays it out, past its end
too.**  On a device that reads as the byte disk, for a file whose inode loads
and whose extent lookup follows `blockMap`, `read_at(offset, buf)` puts
`readCount` bytes of the file from `offset` at the front of `buf` and returns
their count: what is left of the file, up to `|buf|`, when `offset` is inside
it, and all of `|buf|` when `offset` is past its end. -/
theorem read_at_reads_block_map (hdev : fs.blockDevice.Refines) {self : Ext4Inode}
    (hload : getInodeRef fs disk self.ino = .ok inodeRef)
    (hmap : FollowsBlockMap getInodeDblkIdx disk inodeRef blockMap) (offset : ℕ)
    (buf : List UInt8) (hlimit : offset + buf.length < usizeModulus) :
    self.readAt fs disk getInodeDblkIdx offset buf =
      .ok (readCount inodeRef.inode.inodeGetSize.toNat offset buf.length,
        load (fileByte disk.bytes blockMap) offset
            (readCount inodeRef.inode.inodeGetSize.toNat offset buf.length) ++
          buf.drop (readCount inodeRef.inode.inodeGetSize.toNat offset buf.length)) := by
  by_cases hempty : buf = []
  · -- an empty buffer returns at `size == 0`, before the inode is loaded
    subst hempty
    simp [readAt, ext4FileRead, readCount, load]
    rfl
  · simp only [readAt]
    rw [ext4FileRead_eq hdev ⟨self.ino, offset, offset⟩ hload hmap buf buf.length 0 (le_refl offset)
      (List.length_pos_of_ne_nil hempty) (le_refl _) hlimit, ok_bind, Nat.zero_add]
    rfl

/-- Of the 5-byte file on `sampleDisk`, `read_at(3, buf)` with a 4-byte buffer
hands out the last 2 bytes, and `read_at(8, buf)` past the end hands out the 2
stale bytes of the block there. -/
theorem read_at_reads_block_map_on_sample_file :
    (⟨12, 0⟩ : Ext4Inode).readAt sampleVolume sampleDisk sampleDblkIdx 3 [0, 0, 0, 0] =
        .ok (2, [4, 5, 0, 0]) ∧
      (⟨12, 0⟩ : Ext4Inode).readAt sampleVolume sampleDisk sampleDblkIdx 8 [0, 0] =
        .ok (2, [9, 10]) := by
  have hdev : sampleVolume.blockDevice.Refines := virtIOBlock_refines
  have hload : getInodeRef sampleVolume sampleDisk (⟨12, 0⟩ : Ext4Inode).ino = .ok _ :=
    getInodeRef_sample
  constructor
  · rw [read_at_reads_block_map hdev hload (sampleDblkIdx_follows _) 3 [0, 0, 0, 0] (by decide)]
    exact congrArg Except.ok (by decide)
  · rw [read_at_reads_block_map hdev hload (sampleDblkIdx_follows _) 8 [0, 0] (by decide)]
    exact congrArg Except.ok (by decide)

/-- `File::read` reads at `fpos` and moves it on by the count. -/
theorem read_eq (hdev : fs.blockDevice.Refines) {self : Ext4Inode}
    (hload : getInodeRef fs disk self.ino = .ok inodeRef)
    (hmap : FollowsBlockMap getInodeDblkIdx disk inodeRef blockMap) (buf : List UInt8)
    (hlimit : self.fpos + buf.length < usizeModulus) :
    self.read fs disk getInodeDblkIdx buf =
      .ok (readCount inodeRef.inode.inodeGetSize.toNat self.fpos buf.length,
        load (fileByte disk.bytes blockMap) self.fpos
            (readCount inodeRef.inode.inodeGetSize.toNat self.fpos buf.length) ++
          buf.drop (readCount inodeRef.inode.inodeGetSize.toNat self.fpos buf.length),
        { self with
          fpos := self.fpos + readCount inodeRef.inode.inodeGetSize.toNat self.fpos buf.length }) := by
  have hcount : readCount inodeRef.inode.inodeGetSize.toNat self.fpos buf.length ≤ buf.length := by
    unfold readCount
    split_ifs <;> omega
  have hwrap : (self.fpos + readCount inodeRef.inode.inodeGetSize.toNat self.fpos buf.length) %
      usizeModulus = self.fpos + readCount inodeRef.inode.inodeGetSize.toNat self.fpos buf.length :=
    Nat.mod_eq_of_lt (by omega)
  rw [read, read_at_reads_block_map hdev hload hmap self.fpos buf hlimit, ok_bind]
  simp only [hwrap]
  rfl

/-- **Consecutive `File::read` calls hand out the file from `fpos` on.**  On a
device that reads as the byte disk, for a file whose inode loads and whose
extent lookup follows `blockMap`, calls that start inside the file hand out its
bytes one call after the other: together the first `Σ |buf|` bytes from `fpos`,
or fewer at the end of the file.  They leave `fpos` past what they handed out
and the inode number as it was.  By induction on the buffers, a call per
step. -/
theorem readCalls_hand_out_file_from_fpos (hdev : fs.blockDevice.Refines) {ino : UInt32}
    (hload : getInodeRef fs disk ino = .ok inodeRef)
    (hmap : FollowsBlockMap getInodeDblkIdx disk inodeRef blockMap) :
    ∀ (self : Ext4Inode) (bufs : List (List UInt8)), self.ino = ino →
      self.fpos ≤ inodeRef.inode.inodeGetSize.toNat →
      self.fpos + (bufs.map List.length).sum < usizeModulus →
      ∃ out self', self.readCalls fs disk getInodeDblkIdx bufs = .ok (out, self') ∧
        out.flatten = load (fileByte disk.bytes blockMap) self.fpos
          (min (bufs.map List.length).sum (inodeRef.inode.inodeGetSize.toNat - self.fpos)) ∧
        self'.ino = ino ∧
        self'.fpos = self.fpos +
          min (bufs.map List.length).sum (inodeRef.inode.inodeGetSize.toNat - self.fpos)
  | self, [], _, _, _ => ⟨[], self, rfl, by simp [load], by assumption, by simp⟩
  | self, buf :: bufs, hino, hfpos, hlimit => by
      simp only [List.map_cons, List.sum_cons] at hlimit ⊢
      have hself : getInodeRef fs disk self.ino = .ok inodeRef := by
        rw [hino]
        exact hload
      -- this call hands out what is left of the file, up to `|buf|`
      have hcall := read_eq hdev hself hmap buf (by omega)
      rw [readCount_of_le hfpos] at hcall
      obtain ⟨out, self', hrest, hflat, hino', hfpos'⟩ :=
        readCalls_hand_out_file_from_fpos hdev hload hmap
          { self with fpos := self.fpos + min buf.length (inodeRef.inode.inodeGetSize.toNat - self.fpos) }
          bufs hino (by dsimp only; omega) (by dsimp only; omega)
      refine ⟨?out, self', ?calls, ?flat, hino', ?fpos⟩
      case calls =>
        -- the call, then the rest of the calls from where it stopped
        rw [readCalls, hcall, ok_bind]
        dsimp only
        rw [hrest, ok_bind]
        rfl
      case flat =>
        -- the rest is handed out from where this call stopped
        rw [List.flatten_cons, hflat, List.take_left' (length_load _ _ _), ← load_add]
        dsimp only
        congr 1
        omega
      case fpos =>
        rw [hfpos']
        dsimp only
        omega

/-- Two `File::read` calls from the start of the 5-byte file on `sampleDisk`,
with buffers of 2 and 4 bytes, hand out the whole file. -/
theorem readCalls_hand_out_file_from_fpos_on_sample_file :
    ∃ out self', (⟨12, 0⟩ : Ext4Inode).readCalls sampleVolume sampleDisk sampleDblkIdx
        [[0, 0], [0, 0, 0, 0]] = .ok (out, self') ∧
      out.flatten = [1, 2, 3, 4, 5] ∧ self'.fpos = 5 := by
  have hdev : sampleVolume.blockDevice.Refines := virtIOBlock_refines
  obtain ⟨out, self', hcalls, hflat, -, hfpos⟩ :=
    readCalls_hand_out_file_from_fpos hdev getInodeRef_sample (sampleDblkIdx_follows _)
      ⟨12, 0⟩ [[0, 0], [0, 0, 0, 0]] rfl (by decide) (by decide)
  refine ⟨out, self', hcalls, ?_, ?_⟩
  · rw [hflat]
    decide
  · rw [hfpos]
    decide

end Read

/-! ## Writes -/

/-- A write on a device that reads as the byte disk, to a file whose inode
loads, panics in `get_inode_ref(0)`. -/
theorem writeAt_eq_error (hdev : fs.blockDevice.Refines)
    (hcount : fs.blockGroups.length * fs.superBlock.inodesPerGroup.toNat < 2 ^ 32)
    (writeBlocks : WriteBlocks) {self : Ext4Inode} {inodeRef : Ext4InodeRef}
    (hload : getInodeRef fs disk self.ino = .ok inodeRef) (offset : ℕ) (buf : List UInt8) :
    self.writeAt fs disk writeBlocks offset buf = .error (inodeZeroPanic fs) := by
  simp only [writeAt, hload, ok_bind, Ext4File.new,
    ext4FileWrite_of_inode_zero disk hdev hcount writeBlocks]
  rfl

/-- **`write_at` panics.**  The cursor that `write_at` hands to
`ext4_file_write` keeps the `inode` of `Ext4File::new()`, `0`, and
`get_inode_ref(0)` indexes past the last block group of every volume whose
inode count fits in `u32`.  So every `write_at` panics, and with it every
`File::write`; on a device that reads as the byte disk, for a file whose inode
loads, the panic is that of `get_inode_ref(0)`. -/
theorem write_at_panics_in_get_inode_ref (writeBlocks : WriteBlocks) (self : Ext4Inode)
    (hcount : fs.blockGroups.length * fs.superBlock.inodesPerGroup.toNat < 2 ^ 32) :
    (∀ offset buf, ∃ p, self.writeAt fs disk writeBlocks offset buf = .error p) ∧
      (∀ buf, ∃ p, self.write fs disk writeBlocks buf = .error p) ∧
      (fs.blockDevice.Refines → (∃ inodeRef, getInodeRef fs disk self.ino = .ok inodeRef) →
        ∀ offset buf, self.writeAt fs disk writeBlocks offset buf = .error (inodeZeroPanic fs)) := by
  -- the file's own inode is loaded first; past it, `ext4_file_write` on inode `0`
  have hpanics : ∀ offset buf, ∃ p, self.writeAt fs disk writeBlocks offset buf = .error p := by
    intro offset buf
    apply exists_error_bind
    intro inodeRef _
    obtain ⟨p, hp⟩ := ext4FileWrite_inode_zero_panics fs disk hcount writeBlocks
      (show (⟨0, inodeRef.inode.inodeGetSize.toNat, offset⟩ : Ext4File).inode = 0 from rfl)
      buf buf.length
    refine ⟨p, ?_⟩
    simp only [Ext4File.new, hp]
    rfl
  refine ⟨hpanics, fun buf => hpanics 0 buf, ?_⟩
  rintro hdev ⟨inodeRef, hload⟩ offset buf
  exact writeAt_eq_error fs disk hdev hcount writeBlocks hload offset buf

/-- On `sampleVolume`, whose one group holds `8192` inodes, `write_at(0, [1, 2, 3])`
on inode `12` panics at the index of group `0xFFFF_FFFF / 8192 = 524287` of `1`,
whatever the block loop would have done. -/
theorem write_at_panics_on_sample_volume :
    sampleVolume.blockGroups.length * sampleVolume.superBlock.inodesPerGroup.toNat < 2 ^ 32 ∧
      (⟨12, 0⟩ : Ext4Inode).writeAt sampleVolume sampleDisk (fun _ _ disk _ _ _ => .ok disk) 0
        [1, 2, 3] = .error (.indexOutOfBounds 524287 1) := by
  have hcount : sampleVolume.blockGroups.length * sampleVolume.superBlock.inodesPerGroup.toNat <
      2 ^ 32 := by
    decide
  refine ⟨hcount, ?_⟩
  rw [(write_at_panics_in_get_inode_ref sampleVolume sampleDisk _ ⟨12, 0⟩ hcount).2.2
    virtIOBlock_refines ⟨_, getInodeRef_sample⟩ 0 [1, 2, 3]]
  exact congrArg Except.error (by decide)

end Ext4Inode

end ChaosKernel.Ext4
