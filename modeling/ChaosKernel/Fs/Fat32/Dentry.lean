import ChaosKernel.Fs.Fat32.Volume

/-!
# FAT32 directory entries

`os/src/fs/fat32/dentry.rs` and the directory functions of `Fat32FS` and
`Fat32Inode`.  A directory is a run of 32-byte slots, walked with
`next_dentry_id`.  A slot is read either as a short entry
(`Fat32DentryLayout`) or as a long-name entry (`Fat32LDentryLayout`); both are
kept here as the fields of the source, with their bytes as `repr(C)` lays them
out.

`insert_dentry` writes a name of `n` characters as `⌈n / 13⌉` long entries in
slot order, the `k`-th holding the `k`-th chunk of 13 characters with order
`k`, and `0x40` added to the order of the last; then the short entry.
`Fat32Dentry::name` walks the same slots in the same order but puts each chunk
in front of the ones before it.  So a name of up to 13 characters reads back,
and a longer one reads back with its chunks in reverse order: `lookup` of the
name does not find it, and `ls` lists another name.

Names are taken as ASCII, for which `len()` counts characters and `c as u8`
and `c as u16` keep them.  The walks that need not end run for at most `fuel`
slots.
-/

namespace ChaosKernel.Fat32

open Block Lib

/-- The `n` little-endian `u16`s from byte `o` of `bytes`. -/
def u16s (bytes : List UInt8) (o n : ℕ) : List ℕ :=
  (List.range n).map fun k => leValue ((bytes.drop (o + 2 * k)).take 2)

/-- The bytes of a run of `u16`s. -/
def u16Bytes (ws : List ℕ) : List UInt8 :=
  ws.flatMap fun w => List.ofFn (leBytes 2 w)

/-- `char::from_u32(v).unwrap()`. -/
def charFromU32 (v : ℕ) : Except Panic Char :=
  if h : v < 0xd800 ∨ (0xdfff < v ∧ v < 0x110000) then .ok (Char.ofNatAux v h)
  else .error .unwrapNone

/-! ## The long-name entry -/

/-- `Fat32LDentryLayout`. -/
structure Fat32LDentryLayout where
  order : UInt8
  name1 : List ℕ
  attr : UInt8
  reserved : UInt8
  checksum : UInt8
  name2 : List ℕ
  startCluster : ℕ
  name3 : List ℕ
  deriving DecidableEq, Repr

namespace Fat32LDentryLayout

/-- The 32 bytes of the entry, `repr(C, packed)`. -/
def toBytes (l : Fat32LDentryLayout) : List UInt8 :=
  [l.order] ++ u16Bytes l.name1 ++ [l.attr, l.reserved, l.checksum] ++ u16Bytes l.name2 ++
    List.ofFn (leBytes 2 l.startCluster) ++ u16Bytes l.name3

/-- The entry that 32 bytes hold. -/
def ofBytes (bytes : List UInt8) : Fat32LDentryLayout where
  order := bytes.getD 0 0
  name1 := u16s bytes 1 5
  attr := bytes.getD 11 0
  reserved := bytes.getD 12 0
  checksum := bytes.getD 13 0
  name2 := u16s bytes 14 6
  startCluster := leValue ((bytes.drop 26).take 2)
  name3 := u16s bytes 28 2

/-- The loop of `Fat32LDentryLayout::new` over the characters of a chunk: the
first five go to `name1`, the next six to `name2`, the rest to `name3`.  The
callers pass at most 13 characters. -/
def fillNames : List Char → ℕ → List ℕ × List ℕ × List ℕ → List ℕ × List ℕ × List ℕ
  | [], _, names => names
  | c :: cs, i, (name1, name2, name3) =>
      let w := c.toNat % 2 ^ 16
      if i < 5 then fillNames cs (i + 1) (name1.set i w, name2, name3)
      else if i < 11 then fillNames cs (i + 1) (name1, name2.set (i - 5) w, name3)
      else fillNames cs (i + 1) (name1, name2, name3.set (i - 11) w)

/-- `Fat32LDentryLayout::new(order, name, is_end)`. -/
def new (order : UInt8) (name : List Char) (isEnd : Bool) : Fat32LDentryLayout :=
  match fillNames name 0 (List.replicate 5 0, List.replicate 6 0, List.replicate 2 0) with
  | (name1, name2, name3) =>
      { order := if isEnd then order ||| 0x40 else order, name1 := name1, attr := 0x0F,
        reserved := 0, checksum := 0, name2 := name2, startCluster := 0, name3 := name3 }

/-- `Fat32LDentryLayout::is_end`. -/
def isEnd (l : Fat32LDentryLayout) : Bool :=
  l.order &&& 0x40 != 0

/-- The loop of `Fat32LDentryLayout::name` over one array: its characters up to
the first `0`, and whether there was one. -/
def nameChars : List ℕ → Except Panic (List Char × Bool)
  | [] => .ok ([], false)
  | w :: ws =>
      if w = 0 then .ok ([], true)
      else do
        let c ← charFromU32 w
        let (cs, finished) ← nameChars ws
        pure (c :: cs, finished)

/-- `Fat32LDentryLayout::name`: the characters of the three arrays up to the
first `0`. -/
def name (l : Fat32LDentryLayout) : Except Panic (List Char) := do
  let (chars1, finished) ← nameChars l.name1
  if finished then return chars1
  let (chars2, finished) ← nameChars l.name2
  if finished then return chars1 ++ chars2
  let (chars3, _) ← nameChars l.name3
  return chars1 ++ chars2 ++ chars3

end Fat32LDentryLayout

/-! ## The short entry -/

/-- `Fat32DentryLayout`. -/
structure Fat32DentryLayout where
  name : List UInt8
  ext : List UInt8
  attr : UInt8
  reserved : UInt8
  createTimeMs : UInt8
  createTime : ℕ
  createDate : ℕ
  lastAccessDate : ℕ
  startClusterHigh : ℕ
  lastModifyTime : ℕ
  lastModifyDate : ℕ
  startClusterLow : ℕ
  fileSize : ℕ
  deriving DecidableEq, Repr

namespace Fat32DentryLayout

/-- The 32 bytes of the entry, `repr(C)`. -/
def toBytes (l : Fat32DentryLayout) : List UInt8 :=
  l.name ++ l.ext ++ [l.attr, l.reserved, l.createTimeMs] ++
    u16Bytes [l.createTime, l.createDate, l.lastAccessDate, l.startClusterHigh, l.lastModifyTime,
      l.lastModifyDate, l.startClusterLow] ++ List.ofFn (leBytes 4 l.fileSize)

/-- The entry that 32 bytes hold. -/
def ofBytes (bytes : List UInt8) : Fat32DentryLayout where
  name := bytes.take 8
  ext := (bytes.drop 8).take 3
  attr := bytes.getD 11 0
  reserved := bytes.getD 12 0
  createTimeMs := bytes.getD 13 0
  createTime := leValue ((bytes.drop 14).take 2)
  createDate := leValue ((bytes.drop 16).take 2)
  lastAccessDate := leValue ((bytes.drop 18).take 2)
  startClusterHigh := leValue ((bytes.drop 20).take 2)
  lastModifyTime := leValue ((bytes.drop 22).take 2)
  lastModifyDate := leValue ((bytes.drop 24).take 2)
  startClusterLow := leValue ((bytes.drop 26).take 2)
  fileSize := leValue ((bytes.drop 28).take 4)

/-- The loop of `Fat32DentryLayout::new` over the characters of the name: `.`
moves on to the extension, the others fill the name and then the extension,
and the loop stops at a twelfth character.  Also whether an upper-case letter
went into the name and into the extension. -/
def fillShortName : List Char → ℕ → List UInt8 × List UInt8 × Bool × Bool →
    List UInt8 × List UInt8 × Bool × Bool
  | [], _, acc => acc
  | c :: cs, i, (name, ext, nameCapital, extCapital) =>
      if c = '.' then fillShortName cs 8 (name, ext, nameCapital, extCapital)
      else if i < 8 then
        fillShortName cs (i + 1) (name.set i (UInt8.ofNat c.toNat), ext, nameCapital || c.isUpper, extCapital)
      else if i < 11 then
        fillShortName cs (i + 1) (name, ext.set (i - 8) (UInt8.ofNat c.toNat), nameCapital, extCapital || c.isUpper)
      else (name, ext, nameCapital, extCapital)

/-- `Fat32DentryLayout::new(file_name, attr, start_cluster, file_size)`. -/
def new (fileName : List Char) (attr : UInt8) (startCluster fileSize : ℕ) : Fat32DentryLayout :=
  match fillShortName fileName 0 (List.replicate 8 0, List.replicate 3 0, false, false) with
  | (name, ext, nameCapital, extCapital) =>
      { name := name, ext := ext, attr := attr,
        reserved := (if nameCapital then 0x08 else 0x00) ||| (if extCapital then 0x10 else 0x00),
        createTimeMs := 0, createTime := 0, createDate := 0, lastAccessDate := 0,
        startClusterHigh := (startCluster >>> 16) % 2 ^ 16, lastModifyTime := 0, lastModifyDate := 0,
        startClusterLow := startCluster % 2 ^ 16, fileSize := fileSize % 2 ^ 32 }

/-- `Fat32DentryLayout::is_long`. -/
def isLong (l : Fat32DentryLayout) : Bool :=
  l.attr &&& 0x0F == 0x0F

/-- `Fat32DentryLayout::is_deleted`. -/
def isDeleted (l : Fat32DentryLayout) : Bool :=
  l.name.getD 0 0 == 0xE5

/-- `Fat32DentryLayout::is_empty`. -/
def isEmpty (l : Fat32DentryLayout) : Bool :=
  l.name.getD 0 0 == 0x00

/-- `Fat32DentryLayout::start_cluster_id`. -/
def startClusterId (l : Fat32DentryLayout) : ℕ :=
  l.startClusterHigh <<< 16 ||| l.startClusterLow

/-- `Fat32DentryLayout::name`: the bytes of the name up to a space, a dot,
and the bytes of the extension up to a space. -/
def nameString (l : Fat32DentryLayout) : List Char :=
  (l.name.takeWhile (· != 0x20)).map (fun b => Char.ofNat b.toNat) ++ ['.'] ++
    (l.ext.takeWhile (· != 0x20)).map (fun b => Char.ofNat b.toNat)

end Fat32DentryLayout

/-! ## Slots of the volume -/

/-- The 32 bytes at `offset` of sector `sectorId`, through the block cache. -/
def readSlot (vol : Volume) (sectorId offset : ℕ) : Except Panic (List UInt8) :=
  (readBlock vol sectorId offset 32).map List.ofFn

/-- The 32 bytes at `offset` of sector `sectorId` replaced by `bytes`. -/
def writeSlot (vol : Volume) (sectorId offset : ℕ) (bytes : List UInt8) : Volume :=
  modifyBlock vol sectorId offset 32 fun _ j => bytes.getD j 0

/-- `next_dentry_id(sector_id, offset).unwrap()`. -/
def nextDentryIdUnwrap (sb : Fat32SB) (vol : Volume) (sectorId offset : ℕ) : Except Panic (ℕ × ℕ) := do
  match ← FAT.nextDentryId sb vol sectorId offset with
  | some next => pure next
  | none => throw .unwrapNone

/-- `Fat32Dentry`, without the device and the table, of which there is one. -/
structure Fat32Dentry where
  sectorId : ℕ
  sectorOffset : ℕ
  deleted : Bool
  deriving DecidableEq, Repr

namespace Fat32Dentry

variable (sb : Fat32SB) (vol : Volume)

/-- `Fat32Dentry::read_dentry`: the slot of the entry as a short entry. -/
def readDentry (self : Fat32Dentry) : Except Panic Fat32DentryLayout :=
  (readSlot vol self.sectorId self.sectorOffset).map Fat32DentryLayout.ofBytes

/-- `Fat32Dentry::is_long`. -/
def isLong (self : Fat32Dentry) : Except Panic Bool :=
  (readDentry vol self).map Fat32DentryLayout.isLong

/-- The loop of `Fat32Dentry::name` over the long entries from the slot at
`(sector_id, offset)`, for at most `fuel` slots: each chunk goes in front of
the characters before it, up to the entry marked as the end. -/
def longName : ℕ → ℕ → ℕ → List Char → Fuelled Panic (List Char)
  | 0, _, _, _ => outOfFuel
  | fuel + 1, sectorId, offset, name => do
      let layout := Fat32LDentryLayout.ofBytes (← liftExcept (readSlot vol sectorId offset))
      let name := (← liftExcept layout.name) ++ name
      if layout.isEnd then pure name
      else
        let (sectorId, offset) ← liftExcept (nextDentryIdUnwrap sb vol sectorId offset)
        longName fuel sectorId offset name

/-- `Fat32Dentry::name`. -/
def name (fuel : ℕ) (self : Fat32Dentry) : Fuelled Panic (List Char) := do
  if ← liftExcept (isLong vol self) then longName sb vol fuel self.sectorId self.sectorOffset []
  else pure (← liftExcept (readDentry vol self)).nameString

/-- The loop of `Fat32Dentry::to_end`, for at most `fuel` slots: past each long
entry, up to the one marked as the end. -/
def toEndLoop : ℕ → ℕ → ℕ → Fuelled Panic (ℕ × ℕ)
  | 0, _, _ => outOfFuel
  | fuel + 1, sectorId, offset => do
      let layout := Fat32LDentryLayout.ofBytes (← liftExcept (readSlot vol sectorId offset))
      let (sectorId, offset) ← liftExcept (nextDentryIdUnwrap sb vol sectorId offset)
      if layout.isEnd then pure (sectorId, offset) else toEndLoop fuel sectorId offset

/-- `Fat32Dentry::to_end`: the slot of the short entry. -/
def toEnd (fuel : ℕ) (self : Fat32Dentry) : Fuelled Panic (ℕ × ℕ) := do
  if !(← liftExcept (isLong vol self)) then pure (self.sectorId, self.sectorOffset)
  else toEndLoop sb vol fuel self.sectorId self.sectorOffset

/-- `Fat32Dentry::start_cluster_id`. -/
def startClusterId (fuel : ℕ) (self : Fat32Dentry) : Fuelled Panic ℕ := do
  let (sectorId, offset) ← toEnd sb vol fuel self
  pure (Fat32DentryLayout.ofBytes (← liftExcept (readSlot vol sectorId offset))).startClusterId

/-- `Fat32Dentry::file_size`. -/
def fileSize (fuel : ℕ) (self : Fat32Dentry) : Fuelled Panic ℕ := do
  let (sectorId, offset) ← toEnd sb vol fuel self
  pure (Fat32DentryLayout.ofBytes (← liftExcept (readSlot vol sectorId offset))).fileSize

/-- `file_size` is a `u32`. -/
theorem fileSize_lt {fuel : ℕ} {self : Fat32Dentry} {size : ℕ}
    (hsize : (fileSize sb vol fuel self).run = some (.ok size)) : size < 2 ^ 32 := by
  rw [fileSize] at hsize
  obtain ⟨⟨sectorId, offset⟩, -, hsize⟩ := run_bind_eq_ok.1 hsize
  obtain ⟨bytes, -, hsize⟩ := run_bind_eq_ok.1 hsize
  simp only [ExceptT.run_pure, Option.pure_def, Option.some.injEq, Except.ok.injEq] at hsize
  subst hsize
  calc (Fat32DentryLayout.ofBytes bytes).fileSize = leValue ((bytes.drop 28).take 4) := rfl
    _ < 256 ^ ((bytes.drop 28).take 4).length := leValue_lt _
    _ ≤ 256 ^ 4 := Nat.pow_le_pow_right (by norm_num) (by simp)
    _ = 2 ^ 32 := by norm_num

/-- `Fat32Dentry::set_file_size`: the short entry's `file_size` field set to
`size as u32`. -/
def setFileSize (fuel : ℕ) (self : Fat32Dentry) (size : ℕ) : Fuelled Panic Volume := do
  let (sectorId, offset) ← toEnd sb vol fuel self
  let layout := Fat32DentryLayout.ofBytes (← liftExcept (readSlot vol sectorId offset))
  pure (writeSlot vol sectorId offset { layout with fileSize := size % 2 ^ 32 }.toBytes)

end Fat32Dentry

namespace Fat32FS

variable (sb : Fat32SB) (vol : Volume)

/-- The loop of `get_dentry` past the long entries of an entry, for at most
`fuel` slots: up to and past the one marked as the end. -/
def skipLong : ℕ → ℕ → ℕ → Fuelled Panic (ℕ × ℕ)
  | 0, _, _ => outOfFuel
  | fuel + 1, sectorId, offset => do
      let layout := Fat32LDentryLayout.ofBytes (← liftExcept (readSlot vol sectorId offset))
      let (sectorId, offset) ← liftExcept (nextDentryIdUnwrap sb vol sectorId offset)
      if layout.isEnd then pure (sectorId, offset) else skipLong fuel sectorId offset

/-- `Fat32FS::get_dentry(sector_id, offset)`: the entry at the slot, if the
slot is not empty, and the slot after the entry. -/
def getDentry (fuel : ℕ) (sectorId offset : ℕ) : Fuelled Panic (Option Fat32Dentry × ℕ × ℕ) := do
  if offset ≥ 512 ∨ offset % 32 ≠ 0 then return (none, sectorId, offset)
  let layout := Fat32DentryLayout.ofBytes (← liftExcept (readSlot vol sectorId offset))
  let (dentry, isLongEntry) :=
    if layout.isEmpty then (none, false)
    else if layout.isDeleted then (some ⟨0, 0, true⟩, false)
    else (some ⟨sectorId, offset, false⟩, layout.isLong)
  let (sectorId, offset) ← if isLongEntry then skipLong sb vol fuel sectorId offset
    else pure (sectorId, offset)
  let (sectorId, offset) ← liftExcept (nextDentryIdUnwrap sb vol sectorId offset)
  pure (dentry, sectorId, offset)

/-- The first loop of `insert_dentry`, for at most `fuel` slots: on to the first
empty slot. -/
def findEmpty : ℕ → ℕ → ℕ → Fuelled Panic (ℕ × ℕ)
  | 0, _, _ => outOfFuel
  | fuel + 1, sectorId, offset => do
      let layout := Fat32DentryLayout.ofBytes (← liftExcept (readSlot vol sectorId offset))
      if layout.isEmpty then pure (sectorId, offset)
      else
        let (sectorId, offset) ← liftExcept (nextDentryIdUnwrap sb vol sectorId offset)
        findEmpty fuel sectorId offset

/-- The second loop of `insert_dentry`, for at most `turns` turns: the chunk of
at most 13 characters from `pos` as a long entry of order `order`, marked as
the end if it is the last, and so on from the next slot.  Each turn takes at
least one character, so `name.len()` turns are enough. -/
def writeLongEntries (name : List Char) :
    ℕ → Volume → ℕ → ℕ → UInt8 → ℕ → Except Panic (Volume × ℕ × ℕ)
  | 0, vol, sectorId, offset, _, _ => pure (vol, sectorId, offset)
  | turns + 1, vol, sectorId, offset, order, pos =>
      if pos < name.length then do
        let copyLen := min 13 (name.length - pos)
        let chunk := (name.drop pos).take copyLen
        let vol := writeSlot vol sectorId offset
          (Fat32LDentryLayout.new order chunk (pos + copyLen == name.length)).toBytes
        let (sectorId, offset) ← nextDentryIdUnwrap sb vol sectorId offset
        writeLongEntries name turns vol sectorId offset (order + 1) (pos + copyLen)
      else pure (vol, sectorId, offset)

/-- `Fat32FS::insert_dentry(cluster_id, name, attr, file_size, start_cluster)`:
the volume after it and the entry it returns, at the slot of the short entry. -/
def insertDentry (fuel clusterId : ℕ) (name : List Char) (attr : UInt8) (fileSize startCluster : ℕ) :
    Fuelled Panic (Volume × Fat32Dentry) := do
  let sectorId ← match FAT.clusterIdToSectorId sb clusterId with
    | some sectorId => pure sectorId
    | none => throw .unwrapNone
  let (sectorId, offset) ← findEmpty sb vol fuel sectorId 0
  let (vol, sectorId, offset) ← liftExcept (writeLongEntries sb name name.length vol sectorId offset 1 0)
  let vol := writeSlot vol sectorId offset (Fat32DentryLayout.new name attr startCluster fileSize).toBytes
  pure (vol, ⟨sectorId, offset, false⟩)

/-- The loop `while let Some(dentry) = fs.get_dentry(..)` of `ls` from a slot,
for at most `fuel` entries: the name of each entry, up to the first empty
slot. -/
def walk (fuel : ℕ) : ℕ → ℕ → ℕ → Fuelled Panic (List (List Char))
  | 0, _, _ => outOfFuel
  | n + 1, sectorId, offset => do
      match ← getDentry sb vol fuel sectorId offset with
      | (some dentry, sectorId, offset) =>
          let name ← Fat32Dentry.name sb vol fuel dentry
          return name :: (← walk fuel n sectorId offset)
      | (none, _, _) => pure []

end Fat32FS

/-- `Fat32InodeType`. -/
inductive Fat32InodeType
  | file
  | dir
  | volumeId
  deriving DecidableEq, Repr

/-- The type `lookup` gives an entry, from `is_file` and `is_dir`: each compares
`FileAttributes::from_bits_truncate(attr)` with one attribute. -/
def inodeType (layout : Fat32DentryLayout) : Fat32InodeType :=
  let attr := layout.attr &&& 0x3F
  let isDir := attr == 0x10
  if !isDir && attr != 0x08 && attr != 0x04 then .file
  else if isDir then .dir
  else .volumeId

/-- The first slot of the directory whose first cluster is `startCluster`:
`cluster_id_to_sector_id(start_cluster).unwrap()`, at offset `0`. -/
def firstSlot (sb : Fat32SB) (startCluster : ℕ) : Except Panic ℕ :=
  match FAT.clusterIdToSectorId sb startCluster with
  | some sectorId => .ok sectorId
  | none => .error .unwrapNone

/-- `Fat32Inode::ls` of the directory whose first cluster is `startCluster`. -/
def ls (sb : Fat32SB) (vol : Volume) (fuel startCluster : ℕ) : Fuelled Panic (List (List Char)) := do
  let sectorId ← liftExcept (firstSlot sb startCluster)
  Fat32FS.walk sb vol fuel fuel sectorId 0

/-- The loop of `Fat32Inode::lookup(name)` from a slot, for at most `fuel`
entries: the first entry whose name is `name`, with its type and first
cluster. -/
def lookupLoop (sb : Fat32SB) (vol : Volume) (fuel : ℕ) (name : List Char) :
    ℕ → ℕ → ℕ → Fuelled Panic (Option (Fat32Dentry × Fat32InodeType × ℕ))
  | 0, _, _ => outOfFuel
  | n + 1, sectorId, offset => do
      match ← Fat32FS.getDentry sb vol fuel sectorId offset with
      | (some dentry, sectorId, offset) =>
          let type := inodeType (← liftExcept (Fat32Dentry.readDentry vol dentry))
          if (← Fat32Dentry.name sb vol fuel dentry) == name then
            return some (dentry, type, ← Fat32Dentry.startClusterId sb vol fuel dentry)
          else lookupLoop sb vol fuel name n sectorId offset
      | (none, _, _) => pure none

/-- `Fat32Inode::lookup(name)` in the directory whose first cluster is
`startCluster`. -/
def lookup (sb : Fat32SB) (vol : Volume) (fuel startCluster : ℕ) (name : List Char) :
    Fuelled Panic (Option (Fat32Dentry × Fat32InodeType × ℕ)) := do
  let sectorId ← liftExcept (firstSlot sb startCluster)
  lookupLoop sb vol fuel name fuel sectorId 0

/-- In the empty root directory of `sampleSb`, `insert_dentry` of the
fourteen-character name `abcdefghijklmn` (for a file of size `0` from cluster
`5`) writes two long entries and the short entry.  The walk then reads the
name back as `nabcdefghijklm`: `ls` lists that, and `lookup` of the name
finds nothing. -/
theorem insertDentry_long_name_reads_back_reversed :
    ∃ vol dentry,
      (Fat32FS.insertDentry sampleSb blankVolume 8 2 "abcdefghijklmn".toList 0x20 0 5).run =
          some (.ok (vol, dentry)) ∧
        (ls sampleSb vol 8 2).run = some (.ok ["nabcdefghijklm".toList]) ∧
        (lookup sampleSb vol 8 2 "abcdefghijklmn".toList).run = some (.ok none) := by
  have hinsert : (Fat32FS.insertDentry sampleSb blankVolume 8 2 "abcdefghijklmn".toList 0x20 0 5).run =
      some (.ok (_, ⟨544, 64, false⟩)) := rfl
  exact ⟨_, _, hinsert, by decide, by decide⟩

end ChaosKernel.Fat32
