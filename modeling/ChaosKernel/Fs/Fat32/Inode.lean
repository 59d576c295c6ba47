import ChaosKernel.Fs.Fat32.Dentry

/-!
# Reading and writing FAT32 files

`Fat32Inode::read_at`, `write_at` and `increase_size` of
`os/src/fs/fat32/inode.rs`.  Both transfers walk the file's cluster chain with
a cursor `pos`: whole clusters before `offset` are passed over, and each other
cluster is read into a 4096-byte buffer from which, or into which, the bytes
are copied from `pos % CLUSTER_SIZE`.

`write_at` bounds each copy by the rest of the cluster; `read_at` does not: it
copies `min(file_size - pos, buf.len() - read_size)` bytes, so a read that
crosses the end of a cluster of a file that goes on past it slices the
cluster's buffer beyond its 4096 bytes and panics.  And `write_at` first calls
`increase_size`, whose loop adds clusters while the chain it read before the
loop is too short; it never reads the chain again, so a write past the last
cluster never returns.
-/

namespace ChaosKernel.Fat32

open Block Lib

/-- `InodeType` of the file-system interface. -/
inductive InodeType
  | regular
  | directory
  | blockDevice
  | charDevice
  | pipe
  deriving DecidableEq, Repr

/-- `Fat32Inode`, without the device and the file system, of which there is
one. -/
structure Fat32Inode where
  type : Fat32InodeType
  dentry : Option Fat32Dentry
  startCluster : ℕ
  deriving DecidableEq, Repr

/-- `Fat32FS::root_inode`: the directory of the root cluster, with no entry. -/
def rootInode (sb : Fat32SB) : Fat32Inode :=
  ⟨.dir, none, sb.rootCluster⟩

namespace Fat32Inode

variable (sb : Fat32SB) (vol : Volume)

/-- `self.dentry.as_ref().unwrap()`. -/
def dentryUnwrap (self : Fat32Inode) : Except Panic Fat32Dentry :=
  match self.dentry with
  | some dentry => .ok dentry
  | none => .error .unwrapNone

/-- `Fat32Inode::file_size`. -/
def fileSize (fuel : ℕ) (self : Fat32Inode) : Fuelled Panic ℕ := do
  Fat32Dentry.fileSize sb vol fuel (← liftExcept self.dentryUnwrap)

/-- `Fat32Inode::set_file_size`. -/
def setFileSize (fuel : ℕ) (self : Fat32Inode) (size : ℕ) : Fuelled Panic Volume := do
  Fat32Dentry.setFileSize sb vol fuel (← liftExcept self.dentryUnwrap) size

/-- The `while` loop of `increase_size`, for at most `turns` turns: a new
cluster linked after the last one, for as long as the chain that was read
before the loop, of `chainLen` clusters, is shorter than `size`. -/
def increaseSizeLoop (fuel chainLen size : ℕ) : ℕ → Volume → ℕ → Fuelled Panic Volume
  | 0, _, _ => outOfFuel
  | turns + 1, vol, lastClusterId =>
      if chainLen * clusterSize < size then do
        let (lastClusterId, vol) ← FAT.increaseCluster fuel sb vol lastClusterId
        increaseSizeLoop fuel chainLen size turns vol lastClusterId
      else pure vol

/-- `Fat32Inode::increase_size(size)`. -/
def increaseSize (fuel : ℕ) (self : Fat32Inode) (size : ℕ) : Fuelled Panic Volume := do
  if size < (← self.fileSize sb vol fuel) then return vol
  let vol ← self.setFileSize sb vol fuel size
  let clusterChain ← Fat32FS.clusterChain sb vol fuel self.startCluster
  if clusterChain.length * clusterSize ≥ size then return vol
  let lastClusterId ← match clusterChain.getLast? with
    | some lastClusterId => pure lastClusterId
    | none => throw .unwrapNone
  increaseSizeLoop sb fuel clusterChain.length size fuel vol lastClusterId

/-- How far `pos` moves over the clusters before `offset`: by the whole
cluster, or up to `offset`. -/
def passSize (offset pos : ℕ) : ℕ :=
  if pos < offset then min clusterSize (offset - pos) else 0

/-- The `for` loop of `read_at` over the clusters of the chain: the count read
so far and `buf`. -/
def readLoop (fuel : ℕ) (self : Fat32Inode) (offset : ℕ) :
    List ℕ → ℕ → ℕ → List UInt8 → List UInt8 → Fuelled Panic (ℕ × List UInt8)
  | [], readSize, _, buf, _ => pure (readSize, buf)
  | clusterId :: clusterChain, readSize, pos, buf, clusterBuf => do
      let pass := passSize offset pos
      let pos := pos + pass
      if pass = clusterSize then readLoop fuel self offset clusterChain readSize pos buf clusterBuf
      else
        let dentry ← liftExcept self.dentryUnwrap
        let clusterBuf ← liftExcept (Fat32FS.readCluster sb vol clusterId clusterBuf)
        -- `file_size() - pos`, a `usize` subtraction
        let fileSize ← Fat32Dentry.fileSize sb vol fuel dentry
        let copySize := min ((fileSize + usizeModulus - pos) % usizeModulus) (buf.length - readSize)
        let src ← liftExcept
          (sliceRange clusterBuf (pos % clusterSize) (pos % clusterSize + copySize))
        let buf ← liftExcept (copyFromSlice buf readSize (readSize + copySize) src)
        let readSize := readSize + copySize
        let pos := pos + copySize
        if readSize ≥ buf.length ∨ pos ≥ (← Fat32Dentry.fileSize sb vol fuel dentry) then
          pure (readSize, buf)
        else readLoop fuel self offset clusterChain readSize pos buf clusterBuf

/-- `Fat32Inode::read_at(offset, buf)`: the count it returns and `buf` after
it. -/
def readAt (fuel : ℕ) (self : Fat32Inode) (offset : ℕ) (buf : List UInt8) :
    Fuelled Panic (ℕ × List UInt8) := do
  let clusterChain ← Fat32FS.clusterChain sb vol fuel self.startCluster
  readLoop sb vol fuel self offset clusterChain 0 0 buf (List.replicate clusterSize 0)

/-- The `for` loop of `write_at` over the clusters of the chain: the volume and
the count written so far. -/
def writeLoop (offset : ℕ) (buf : List UInt8) :
    List ℕ → Volume → ℕ → ℕ → List UInt8 → Except Panic (Volume × ℕ)
  | [], vol, writeSize, _, _ => pure (vol, writeSize)
  | clusterId :: clusterChain, vol, writeSize, pos, clusterBuf => do
      let pass := passSize offset pos
      let pos := pos + pass
      if pass = clusterSize then writeLoop offset buf clusterChain vol writeSize pos clusterBuf
      else
        let clusterBuf ← Fat32FS.readCluster sb vol clusterId clusterBuf
        let copySize := min (buf.length - writeSize) (clusterSize - pos % clusterSize)
        let src ← sliceRange buf writeSize (writeSize + copySize)
        let clusterBuf ← copyFromSlice clusterBuf (pos % clusterSize) (pos % clusterSize + copySize) src
        let vol ← Fat32FS.writeCluster sb vol clusterId clusterBuf
        let writeSize := writeSize + copySize
        let pos := pos + copySize
        if writeSize ≥ buf.length then pure (vol, writeSize)
        else writeLoop offset buf clusterChain vol writeSize pos clusterBuf

/-- `Fat32Inode::write_at(offset, buf)`: the volume after it and the count it
returns. -/
def writeAt (fuel : ℕ) (self : Fat32Inode) (offset : ℕ) (buf : List UInt8) :
    Fuelled Panic (Volume × ℕ) := do
  let vol ← self.increaseSize sb vol fuel ((offset + buf.length) % usizeModulus)
  let clusterChain ← Fat32FS.clusterChain sb vol fuel self.startCluster
  liftExcept (writeLoop sb offset buf clusterChain vol 0 0 (List.replicate clusterSize 0))

/-- `Fat32Inode::create(name, type_)` in the directory `self`: nothing if the
name is taken, and otherwise an entry of size `0` for a first cluster from
`alloc_new_cluster`. -/
def create (fuel : ℕ) (self : Fat32Inode) (name : List Char) (type : InodeType) :
    Fuelled Panic (Option (Volume × Fat32Inode)) := do
  if (← lookup sb vol fuel self.startCluster name).isSome then return none
  -- `ARCHIVE` for every type but `Directory`
  let attr : UInt8 := if type = .directory then 0x10 else 0x20
  let (startCluster, vol) ← FAT.allocNewCluster fuel sb vol
  let (vol, dentry) ← Fat32FS.insertDentry sb vol fuel self.startCluster name attr 0 startCluster
  let type := if type = .regular then Fat32InodeType.file else .dir
  pure (some (vol, ⟨type, some dentry, startCluster⟩))

/-! ## Growing a file

`increase_size` tests the chain it read before its loop, and the loop only
adds clusters; so once the loop is entered it never ends. -/

section Growth

variable {sb : Fat32SB} {vol vol' : Volume} {fuel size : ℕ}

/-- Once entered, the loop of `increase_size` never returns: its test does not
change, and adding a cluster never panics. -/
theorem increaseSizeLoop_run_eq_none {chainLen : ℕ} (hshort : chainLen * clusterSize < size) :
    ∀ (turns : ℕ) (vol : Volume) (lastClusterId : ℕ),
      (increaseSizeLoop sb fuel chainLen size turns vol lastClusterId).run = none := by
  intro turns
  induction turns with
  | zero => intro vol lastClusterId; rfl
  | succ turns ih =>
      intro vol lastClusterId
      rw [increaseSizeLoop, if_pos hshort]
      apply run_bind_eq_none
      · rintro ⟨lastClusterId', vol'⟩ -
        exact ih vol' lastClusterId'
      · exact FAT.increaseCluster_run_ne_error fuel sb vol lastClusterId

/-- `increase_size(size)` for a `size` at least the file's size, on a file
whose chain holds fewer than `size` bytes, never returns. -/
theorem increaseSize_run_eq_none {self : Fat32Inode} {fileSize : ℕ} {clusterChain : List ℕ}
    (hsize : (self.fileSize sb vol fuel).run = some (.ok fileSize)) (hle : fileSize ≤ size)
    (hset : (self.setFileSize sb vol fuel size).run = some (.ok vol'))
    (hchain : (Fat32FS.clusterChain sb vol' fuel self.startCluster).run = some (.ok clusterChain))
    (hshort : clusterChain.length * clusterSize < size) :
    (self.increaseSize sb vol fuel size).run = none := by
  obtain ⟨rest, hhead⟩ := Fat32FS.clusterChain_head sb vol' fuel hchain
  have hlast : clusterChain.getLast? = some (clusterChain.getLast (by simp [hhead])) :=
    List.getLast?_eq_some_getLast _
  rw [increaseSize, run_bind_of_ok hsize, if_neg (Nat.not_lt.2 hle), run_bind_of_ok hset,
    run_bind_of_ok hchain, if_neg (Nat.not_le.2 hshort)]
  simp only [hlast, pure_bind]
  exact increaseSizeLoop_run_eq_none hshort _ _ _

/-- `write_at(offset, buf)` never returns when the file has to grow past the
clusters of its chain: `increase_size(offset + buf.len())` loops for ever. -/
theorem writeAt_never_returns_past_chain {self : Fat32Inode} {offset fileSize : ℕ} {buf : List UInt8}
    {clusterChain : List ℕ} (hfits : offset + buf.length < usizeModulus)
    (hsize : (self.fileSize sb vol fuel).run = some (.ok fileSize)) (hle : fileSize ≤ offset + buf.length)
    (hset : (self.setFileSize sb vol fuel (offset + buf.length)).run = some (.ok vol'))
    (hchain : (Fat32FS.clusterChain sb vol' fuel self.startCluster).run = some (.ok clusterChain))
    (hshort : clusterChain.length * clusterSize < offset + buf.length) :
    (self.writeAt sb vol fuel offset buf).run = none := by
  rw [writeAt, Nat.mod_eq_of_lt hfits]
  exact run_bind_of_none (increaseSize_run_eq_none hsize hle hset hchain hshort)

set_option maxRecDepth 10000 in
/-- A new file of the root directory, written with 4097 bytes from offset `0`. -/
theorem writeAt_never_returns_on_new_file :
    ∃ vol file, ((rootInode sampleSb).create sampleSb blankVolume 8 "f".toList .regular).run =
        some (.ok (some (vol, file))) ∧ (file.writeAt sampleSb vol 8 0 (List.replicate 4097 0)).run = none := by
  have hcreate : ((rootInode sampleSb).create sampleSb blankVolume 8 "f".toList .regular).run =
      some (.ok (some (_, ⟨.file, some ⟨544, 32, false⟩, 3⟩))) := rfl
  refine ⟨_, _, hcreate, ?_⟩
  exact writeAt_never_returns_past_chain (by rw [List.length_replicate]; decide) rfl
    (by rw [List.length_replicate]; decide) rfl rfl (by rw [List.length_replicate]; decide)

end Growth

/-! ## Reading across the end of a cluster -/

section Crossing

variable {sb : Fat32SB} {vol : Volume} {fuel : ℕ}

/-- A read from offset `offset` within the first cluster moves `pos` straight
to it. -/
theorem passSize_zero {offset : ℕ} (hoff : offset < clusterSize) : passSize offset 0 = offset := by
  unfold passSize
  split_ifs <;> omega

/-- A turn of `read_at`'s loop over a cluster it copies from: the copy takes
`min(file_size - pos, buf.len() - read_size)` bytes of the cluster's buffer
from `pos % CLUSTER_SIZE`, with `pos` past the part of `offset` in the
cluster, and panics when they run past the buffer's end. -/
theorem readLoop_cons_of_crossing {self : Fat32Inode} {d : Fat32Dentry}
    {offset clusterId readSize pos fileSize start copySize : ℕ} {clusterChain : List ℕ}
    {buf clusterBuf : List UInt8} (hdentry : self.dentry = some d)
    (hgeom : sb.bytesPerSector * sb.sectorsPerCluster ≤ clusterSize)
    (hbuf : clusterBuf.length = clusterSize) (hpass : passSize offset pos ≠ clusterSize)
    (hsize : (Fat32Dentry.fileSize sb vol fuel d).run = some (.ok fileSize))
    (hstart : (pos + passSize offset pos) % clusterSize = start)
    (hcopy : min ((fileSize + usizeModulus - (pos + passSize offset pos)) % usizeModulus)
      (buf.length - readSize) = copySize)
    (hcross : clusterSize < start + copySize) :
    (self.readLoop sb vol fuel offset (clusterId :: clusterChain) readSize pos buf clusterBuf).run =
      some (.error (.sliceOutOfRange start (start + copySize) clusterSize)) := by
  obtain ⟨clusterBuf', hread, hlen⟩ :=
    Fat32FS.readCluster_ok vol clusterId (hbuf.symm ▸ hgeom)
  have hunwrap : (liftExcept self.dentryUnwrap : Fuelled Panic Fat32Dentry).run = some (.ok d) := by
    simp [dentryUnwrap, hdentry]
  have hcluster : (liftExcept (Fat32FS.readCluster sb vol clusterId clusterBuf) :
      Fuelled Panic (List UInt8)).run = some (.ok clusterBuf') := by
    simp [hread]
  have hslice : sliceRange clusterBuf' start (start + copySize) =
      .error (.sliceOutOfRange start (start + copySize) clusterSize) := by
    rw [← hbuf, ← hlen]
    exact sliceRange_of_lt (by rw [hlen, hbuf]; exact hcross)
  rw [readLoop, if_neg hpass, run_bind_of_ok hunwrap, run_bind_of_ok hcluster, run_bind_of_ok hsize]
  simp [hstart, hcopy, hslice]

/-- `read_at(offset, buf)` from inside the first cluster of a file that goes
on past it, into a buffer that reaches past the cluster, panics: it copies
`min(file_size - offset, buf.len())` bytes from `offset` of the cluster's
4096-byte buffer. -/
theorem readAt_panics_across_first_cluster {self : Fat32Inode} {d : Fat32Dentry}
    {offset fileSize : ℕ} {buf : List UInt8} {clusterChain : List ℕ} (hdentry : self.dentry = some d)
    (hgeom : sb.bytesPerSector * sb.sectorsPerCluster ≤ clusterSize)
    (hchain : (Fat32FS.clusterChain sb vol fuel self.startCluster).run = some (.ok clusterChain))
    (hsize : (Fat32Dentry.fileSize sb vol fuel d).run = some (.ok fileSize))
    (hoff : offset < clusterSize) (hfile : clusterSize < fileSize)
    (hbuf : clusterSize < offset + buf.length) :
    (self.readAt sb vol fuel offset buf).run =
      some (.error (.sliceOutOfRange offset (offset + min (fileSize - offset) buf.length) clusterSize)) := by
  obtain ⟨rest, hhead⟩ := Fat32FS.clusterChain_head sb vol fuel hchain
  have hbound := Fat32Dentry.fileSize_lt sb vol hsize
  have hpos : 0 + passSize offset 0 = offset := by rw [passSize_zero hoff, Nat.zero_add]
  -- `file_size - offset` does not wrap: the size is a `u32` above `offset`
  have hwrap : (fileSize + usizeModulus - offset) % usizeModulus = fileSize - offset := by
    unfold usizeModulus
    omega
  rw [readAt, run_bind_of_ok hchain, hhead]
  apply readLoop_cons_of_crossing hdentry hgeom (List.length_replicate ..)
  · rw [passSize_zero hoff]
    exact Nat.ne_of_lt hoff
  · exact hsize
  · rw [hpos, Nat.mod_eq_of_lt hoff]
  · rw [hpos, hwrap, Nat.sub_zero]
  · unfold clusterSize at *
    omega

set_option maxRecDepth 10000 in
/-- A file of two clusters and 8192 bytes, read from offset `4000` for 200
bytes. -/
theorem readAt_panics_on_two_cluster_file :
    ∃ vol file vol₁ vol₂,
      ((rootInode sampleSb).create sampleSb blankVolume 8 "f".toList .regular).run =
          some (.ok (some (vol, file))) ∧
        (FAT.increaseCluster 8 sampleSb vol file.startCluster).run = some (.ok (4, vol₁)) ∧
        (file.setFileSize sampleSb vol₁ 8 8192).run = some (.ok vol₂) ∧
        (file.readAt sampleSb vol₂ 8 4000 (List.replicate 200 0)).run =
          some (.error (.sliceOutOfRange 4000 (4000 + min (8192 - 4000) 200) clusterSize)) := by
  have hcreate : ((rootInode sampleSb).create sampleSb blankVolume 8 "f".toList .regular).run =
      some (.ok (some (_, ⟨.file, some ⟨544, 32, false⟩, 3⟩))) := rfl
  refine ⟨_, _, _, _, hcreate, rfl, rfl, ?_⟩
  exact readAt_panics_across_first_cluster rfl (by decide) (by exact rfl) (by exact rfl)
    (by decide) (by decide) (by rw [List.length_replicate]; decide)

end Crossing

/-! ## A file of the root directory -/

set_option maxRecDepth 40000 in
/-- A file made in the root directory of the sample volume cannot grow past
its cluster: `write_at(0, buf)` with 4097 bytes never returns, for any fuel.
And once it holds two clusters and 8192 bytes, as a file of a prepared image
may, `read_at(4000, out)` with 200 bytes panics on the slice `4000..4200` of
the 4096-byte cluster buffer. -/
theorem newFile_write_never_returns_and_read_panics :
    ∃ vol file vol₁ vol₂,
      ((rootInode sampleSb).create sampleSb blankVolume 8 "f".toList .regular).run =
          some (.ok (some (vol, file))) ∧
        (∀ fuel, (file.writeAt sampleSb vol fuel 0 (List.replicate 4097 0)).run = none) ∧
        (FAT.increaseCluster 8 sampleSb vol file.startCluster).run = some (.ok (4, vol₁)) ∧
        (file.setFileSize sampleSb vol₁ 8 8192).run = some (.ok vol₂) ∧
        (file.readAt sampleSb vol₂ 8 4000 (List.replicate 200 0)).run =
          some (.error (.sliceOutOfRange 4000 4200 4096)) := by
  have hcreate : ((rootInode sampleSb).create sampleSb blankVolume 8 "f".toList .regular).run =
      some (.ok (some (_, ⟨.file, some ⟨544, 32, false⟩, 3⟩))) := rfl
  refine ⟨_, _, _, _, hcreate, ?_, rfl, rfl, ?_⟩
  · intro fuel
    cases fuel with
    | zero => rfl
    | succ fuel =>
        -- the chain is `[3]` and the size `0` whatever the fuel, so the loop is entered
        have hsize : (0 + (List.replicate 4097 (0 : UInt8)).length) % usizeModulus = 4097 := by
          rw [List.length_replicate]
          decide
        rw [writeAt, hsize]
        apply run_bind_of_none
        exact increaseSize_run_eq_none rfl (Nat.zero_le _) rfl rfl (by decide)
  · rw [readAt]
    refine (run_bind_of_ok (by exact rfl)).trans ?_
    show _ = some (Except.error (Panic.sliceOutOfRange 4000 (4000 + 200) 4096))
    exact readLoop_cons_of_crossing rfl (by decide) (List.length_replicate ..)
      (by decide) rfl (by decide) (by rw [List.length_replicate]; decide) (by decide)

end Fat32Inode

end ChaosKernel.Fat32
