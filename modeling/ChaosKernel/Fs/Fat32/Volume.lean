import ChaosKernel.Block.BlockCache
import ChaosKernel.Lib.Bytes
import ChaosKernel.Lib.Except

/-!
# FAT32 volumes

`os/src/fs/fat32`: the fields of the boot sector (`Fat32SB`), the file
allocation table (`FAT`) and the clusters (`Fat32FS::read_cluster` and
`write_cluster`).  Every access goes through `get_block_cache(sector).read` or
`modify`.  `Block.BlockCache` shows that every read through a cache sees the
block memory in which each `modify` has been made, so the volume here is that
memory: a read is `readBlock` of it and a modification `modifyBlock`.

The loops that need not end, the scan of `alloc_new_cluster` for a free entry
and the walk of `cluster_chain` along the table, run for at most `fuel` turns
(`Lib.Fuelled`).
-/

namespace ChaosKernel.Fat32

open Block Lib

/-- `CLUSTER_SIZE`. -/
def clusterSize : ℕ := 4096

/-- `Fat32SB`, without `total_sectors_32`, which nothing reads. -/
structure Fat32SB where
  bytesPerSector : ℕ
  sectorsPerCluster : ℕ
  reservedSectorsCnt : ℕ
  fatCnt : ℕ
  fatSize32 : ℕ
  rootCluster : ℕ
  deriving DecidableEq, Repr

/-- `Fat32SB::root_sector`: the first sector of cluster `2`. -/
def Fat32SB.rootSector (sb : Fat32SB) : ℕ :=
  sb.reservedSectorsCnt + sb.fatCnt * sb.fatSize32

/-- The volume: the sectors of the device as the block cache shows them. -/
abbrev Volume := ℕ → BlockBytes

/-- A `u32` read with `get_block_cache(sector_id).read(offset, ..)`. -/
def readU32 (vol : Volume) (sectorId offset : ℕ) : Except Panic ℕ :=
  (readBlock vol sectorId offset 4).map fun bytes => leValue (List.ofFn bytes)

/-- A `u32` stored with `get_block_cache(sector_id).modify(offset, ..)`. -/
def writeU32 (vol : Volume) (sectorId offset v : ℕ) : Volume :=
  modifyBlock vol sectorId offset 4 fun _ => leBytes 4 v

/-- A `u32` read at a byte offset that is a multiple of four lies inside its
sector, and never panics. -/
theorem readU32_of_aligned (vol : Volume) {offset : ℕ} (haligned : offset % 4 = 0) :
    ∃ v, readU32 vol (offset / blockSz) (offset % blockSz) = .ok v := by
  have hfit : offset % blockSz + 4 ≤ blockSz := by
    unfold blockSz
    omega
  rw [readU32, readBlock, dif_pos hfit]
  exact ⟨_, rfl⟩

namespace FAT

/-- The byte of the volume where the table's entry for `cluster` starts. -/
def fatOffset (sb : Fat32SB) (cluster : ℕ) : ℕ :=
  sb.reservedSectorsCnt * blockSz + cluster * 4

/-- `FAT::next_cluster_id(cluster)`: the table's entry for `cluster`, unless it
marks the end of a chain. -/
def nextClusterId (sb : Fat32SB) (vol : Volume) (cluster : ℕ) : Except Panic (Option ℕ) := do
  let nextCluster ← readU32 vol (fatOffset sb cluster / blockSz) (fatOffset sb cluster % blockSz)
  pure (if nextCluster ≥ 0x0FFFFFF8 then none else some nextCluster)

/-- The scan of `alloc_new_cluster` from the entry at byte `offset`, for at most
`fuel` entries: the first entry that is `0` sets `cluster_id`, and the loop ends
once `cluster_id` is not `0`.  Returns `cluster_id` and the entry's offset. -/
def allocScan (sb : Fat32SB) (vol : Volume) : ℕ → ℕ → Fuelled Panic (ℕ × ℕ)
  | 0, _ => outOfFuel
  | fuel + 1, offset => do
      let num ← liftExcept (readU32 vol (offset / blockSz) (offset % blockSz))
      let clusterId := if num = 0 then (offset - sb.reservedSectorsCnt * blockSz) / 4 else 0
      if clusterId ≠ 0 then pure (clusterId, offset) else allocScan sb vol fuel (offset + 4)

/-- The scan reads entries at multiples of four from an entry on, so it never
panics: it finds a free entry or runs out of fuel. -/
theorem allocScan_run_ne_error (sb : Fat32SB) (vol : Volume) (fuel : ℕ) :
    ∀ {offset : ℕ}, offset % 4 = 0 → ∀ e, (allocScan sb vol fuel offset).run ≠ some (.error e) := by
  induction fuel with
  | zero => intro offset _ e; simp [allocScan]
  | succ fuel ih =>
      intro offset haligned e hrun
      obtain ⟨num, hnum⟩ := readU32_of_aligned vol haligned
      rw [allocScan] at hrun
      rcases run_bind_eq_error.1 hrun with hread | ⟨num', -, hrest⟩
      · simp [hnum] at hread
      · -- a `cluster_id` that is set ends the scan; otherwise it moves on by one entry
        by_cases hfound : (if num' = 0 then (offset - sb.reservedSectorsCnt * blockSz) / 4 else 0) ≠ 0
        · rw [if_pos hfound] at hrest
          simp at hrest
        · rw [if_neg hfound] at hrest
          exact ih (by omega) e hrest

/-- `FAT::alloc_new_cluster()`: the first free entry from cluster `3` on, which
is then marked as the end of a chain.  It returns `Some` whenever it returns. -/
def allocNewCluster (fuel : ℕ) (sb : Fat32SB) (vol : Volume) : Fuelled Panic (ℕ × Volume) := do
  let (clusterId, offset) ← allocScan sb vol fuel (sb.reservedSectorsCnt * blockSz + 3 * 4)
  pure (clusterId, writeU32 vol (offset / blockSz) (offset % blockSz) 0x0FFFFFFF)

/-- `FAT::increase_cluster(cluster_id)`: a new cluster, linked after
`cluster_id` in the table. -/
def increaseCluster (fuel : ℕ) (sb : Fat32SB) (vol : Volume) (clusterId : ℕ) :
    Fuelled Panic (ℕ × Volume) := do
  let (newClusterId, vol) ← allocNewCluster fuel sb vol
  pure (newClusterId,
    writeU32 vol (fatOffset sb clusterId / blockSz) (fatOffset sb clusterId % blockSz) newClusterId)

/-- `alloc_new_cluster` and `increase_cluster` never panic: they return or run
out of fuel. -/
theorem increaseCluster_run_ne_error (fuel : ℕ) (sb : Fat32SB) (vol : Volume) (clusterId : ℕ)
    (e : Panic) : (increaseCluster fuel sb vol clusterId).run ≠ some (.error e) := by
  have hstart : (sb.reservedSectorsCnt * blockSz + 3 * 4) % 4 = 0 := by
    unfold blockSz
    omega
  have hscan := allocScan_run_ne_error sb vol fuel hstart
  intro hrun
  rcases run_bind_eq_error.1 hrun with halloc | ⟨_, -, hpure⟩
  · rcases run_bind_eq_error.1 halloc with hscanned | ⟨_, -, hpure⟩
    · exact hscan e hscanned
    · cases hpure
  · cases hpure

/-- `FAT::cluster_id_to_sector_id(cluster)`. -/
def clusterIdToSectorId (sb : Fat32SB) (cluster : ℕ) : Option ℕ :=
  if cluster < 2 then none else some (sb.rootSector + (cluster - 2) * sb.sectorsPerCluster)

/-- `FAT::next_dentry_id(sector_id, offset)`, which `Fat32FS::next_dentry_id`
repeats word for word: the next 32-byte slot, in the next sector at the end of
a sector.  At the end of a cluster it looks up the table's entry for the
sector's own number and takes that cluster number for the next sector. -/
def nextDentryId (sb : Fat32SB) (vol : Volume) (sectorId offset : ℕ) :
    Except Panic (Option (ℕ × ℕ)) :=
  if offset ≥ 512 ∨ offset % 32 ≠ 0 then pure none
  else
    let nextOffset := offset + 32
    if nextOffset ≥ 512 then
      let nextSectorId := sectorId + 1
      if nextSectorId % sb.sectorsPerCluster = 0 then
        (nextClusterId sb vol sectorId).map fun next => next.map fun nextSectorId => (nextSectorId, 0)
      else pure (some (nextSectorId, 0))
    else pure (some (sectorId, nextOffset))

end FAT

namespace Fat32FS

/-- The loop of `Fat32FS::cluster_chain(start_cluster)` from `cluster`, for at
most `fuel` clusters: each cluster, then the rest of the chain while the table
has a next one. -/
def clusterChain (sb : Fat32SB) (vol : Volume) : ℕ → ℕ → Fuelled Panic (List ℕ)
  | 0, _ => outOfFuel
  | fuel + 1, cluster => do
      match ← liftExcept (FAT.nextClusterId sb vol cluster) with
      | some nextCluster => return cluster :: (← clusterChain sb vol fuel nextCluster)
      | none => pure [cluster]

/-- A chain starts at the cluster it is walked from. -/
theorem clusterChain_head (sb : Fat32SB) (vol : Volume) (fuel : ℕ) {cluster : ℕ} {chain : List ℕ}
    (hchain : (clusterChain sb vol fuel cluster).run = some (.ok chain)) :
    ∃ rest, chain = cluster :: rest := by
  cases fuel with
  | zero => simp [clusterChain] at hchain
  | succ fuel =>
      rw [clusterChain] at hchain
      obtain ⟨next, -, hchain⟩ := run_bind_eq_ok.1 hchain
      cases next with
      | none =>
          simp only [ExceptT.run_pure, Option.pure_def, Option.some.injEq, Except.ok.injEq] at hchain
          exact ⟨[], hchain.symm⟩
      | some nextCluster =>
          obtain ⟨rest, -, hchain⟩ := run_bind_eq_ok.1 hchain
          simp only [ExceptT.run_pure, Option.pure_def, Option.some.injEq, Except.ok.injEq] at hchain
          exact ⟨rest, hchain.symm⟩

/-- The first sector of `cluster`: `root_sector() + (cluster - 2) *
sectors_per_cluster`, in `usize`. -/
def clusterOffset (sb : Fat32SB) (cluster : ℕ) : ℕ :=
  (sb.rootSector + (cluster + usizeModulus - 2) % usizeModulus * sb.sectorsPerCluster) % usizeModulus

/-- One turn of the loop of `read_cluster`: sector `i` of the cluster copied
into `buf` after the `read_size` bytes already there, at most up to the
cluster's size. -/
def readClusterSector (sb : Fat32SB) (vol : Volume) (cluster : ℕ) (acc : List UInt8 × ℕ) (i : ℕ) :
    Except Panic (List UInt8 × ℕ) := do
  let (buf, readSize) := acc
  let data := List.ofFn (vol (clusterOffset sb cluster + i))
  let copySize := min (sb.bytesPerSector * sb.sectorsPerCluster - readSize) data.length
  let buf ← copyFromSlice buf readSize (readSize + copySize) (data.take copySize)
  pure (buf, readSize + copySize)

/-- `Fat32FS::read_cluster(cluster, buf)`. -/
def readCluster (sb : Fat32SB) (vol : Volume) (cluster : ℕ) (buf : List UInt8) :
    Except Panic (List UInt8) :=
  ((List.range sb.sectorsPerCluster).foldlM (readClusterSector sb vol cluster) (buf, 0)).map Prod.fst

section ReadCluster

variable {sb : Fat32SB} (vol : Volume) (cluster : ℕ)

/-- A turn of `read_cluster` on a buffer that holds the cluster never panics,
and keeps the buffer's length and `read_size` within the cluster. -/
theorem readClusterSector_ok {acc : List UInt8 × ℕ}
    (hread : acc.2 ≤ sb.bytesPerSector * sb.sectorsPerCluster)
    (hfit : sb.bytesPerSector * sb.sectorsPerCluster ≤ acc.1.length) (i : ℕ) :
    ∃ acc', readClusterSector sb vol cluster acc i = .ok acc' ∧ acc'.1.length = acc.1.length ∧
      acc'.2 ≤ sb.bytesPerSector * sb.sectorsPerCluster := by
  obtain ⟨buf, readSize⟩ := acc
  set copySize := min (sb.bytesPerSector * sb.sectorsPerCluster - readSize) blockSz with hcopy
  have hsrc : ((List.ofFn (vol (clusterOffset sb cluster + i))).take copySize).length = copySize := by
    simp only [List.length_take, List.length_ofFn]
    omega
  have hstop : readSize + copySize ≤ buf.length := by
    simp only at hread hfit
    omega
  have hcopied := copyFromSlice_of_length (by rw [hsrc]) hstop
  refine ⟨(buf.take readSize ++ (List.ofFn (vol (clusterOffset sb cluster + i))).take copySize ++
    buf.drop (readSize + copySize), readSize + copySize), ?_, ?_, ?_⟩
  · simp only [readClusterSector, List.length_ofFn, ← hcopy, hcopied, bind, Except.bind, pure,
      Except.pure]
  · exact length_of_copyFromSlice hcopied
  · simp only at hread ⊢
    omega

/-- The loop of `read_cluster` over the sectors left never panics, and keeps
the buffer's length. -/
theorem foldlM_readClusterSector_ok (is : List ℕ) :
    ∀ acc : List UInt8 × ℕ, acc.2 ≤ sb.bytesPerSector * sb.sectorsPerCluster →
      sb.bytesPerSector * sb.sectorsPerCluster ≤ acc.1.length →
      ∃ acc', is.foldlM (readClusterSector sb vol cluster) acc = .ok acc' ∧
        acc'.1.length = acc.1.length := by
  induction is with
  | nil => intro acc _ _; exact ⟨acc, rfl, rfl⟩
  | cons i is ih =>
      intro acc hread hfit
      obtain ⟨acc', hstep, hlen, hread'⟩ := readClusterSector_ok vol cluster hread hfit i
      obtain ⟨acc'', hrest, hlen'⟩ := ih acc' hread' (hlen ▸ hfit)
      refine ⟨acc'', ?_, hlen'.trans hlen⟩
      rw [List.foldlM_cons, hstep]
      exact hrest

/-- `read_cluster` into a buffer that holds the cluster never panics, and
keeps the buffer's length. -/
theorem readCluster_ok {buf : List UInt8} (hfit : sb.bytesPerSector * sb.sectorsPerCluster ≤ buf.length) :
    ∃ buf', readCluster sb vol cluster buf = .ok buf' ∧ buf'.length = buf.length := by
  obtain ⟨acc', hloop, hlen⟩ := foldlM_readClusterSector_ok vol cluster
    (List.range sb.sectorsPerCluster) (buf, 0) (Nat.zero_le _) hfit
  exact ⟨acc'.1, by simp [readCluster, hloop, Except.map], hlen⟩

end ReadCluster

/-- One turn of the loop of `write_cluster`: the next bytes of `buf` written
over the start of sector `i` of the cluster, at most up to the cluster's size. -/
def writeClusterSector (sb : Fat32SB) (cluster : ℕ) (buf : List UInt8) (acc : Volume × ℕ) (i : ℕ) :
    Except Panic (Volume × ℕ) := do
  let (vol, writeSize) := acc
  let copySize := min (sb.bytesPerSector * sb.sectorsPerCluster - writeSize) blockSz
  let src ← sliceRange buf writeSize (writeSize + copySize)
  let vol := modifyBlock vol (clusterOffset sb cluster + i) 0 blockSz fun data j =>
    if (j : ℕ) < copySize then src.getD j 0 else data j
  pure (vol, writeSize + copySize)

/-- `Fat32FS::write_cluster(cluster, buf)`. -/
def writeCluster (sb : Fat32SB) (vol : Volume) (cluster : ℕ) (buf : List UInt8) :
    Except Panic Volume :=
  ((List.range sb.sectorsPerCluster).foldlM (writeClusterSector sb cluster buf) (vol, 0)).map Prod.fst

end Fat32FS

/-- A boot sector with 512-byte sectors, eight sectors to a cluster, 32
reserved sectors and two tables of 256 sectors; the root directory is cluster
`2`, which starts at sector `544`. -/
def sampleSb : Fat32SB :=
  ⟨512, 8, 32, 2, 256, 2⟩

/-- A volume of zero bytes: every table entry free and every directory empty. -/
def blankVolume : Volume :=
  fun _ _ => 0

end ChaosKernel.Fat32
