import ChaosKernel.Fs.Fat32.Volume

/-!
# The allocation table and the directory walk

What `FAT::alloc_new_cluster`, `FAT::increase_cluster` and
`FAT::next_dentry_id` do to and along the table.

`alloc_new_cluster` scans the `u32` entries from entry `3` on and takes the
first that is `0`.  The scan has no bound: it does not stop at the end of the
table, which holds `fat_size_32 * bytes_per_sector / 4` entries, and so never
returns `None`.  On a volume whose table is full it takes the first zero word
after the table, in the second copy of the table or past it, and marks it as
the end of a chain there.

`next_dentry_id` walks the 32-byte slots of a sector and the sectors of a
cluster in order.  At the end of a cluster it looks up the table's entry for
the number of the cluster's last sector, not for the cluster, and takes what
it finds there as the number of the next sector, not of the next cluster.
-/

namespace ChaosKernel.Fat32

open Block Lib

/-! ## Entries of the table -/

/-- The entries one copy of the table holds: `fat_size_32 * bytes_per_sector / 4`. -/
def Fat32SB.entryCount (sb : Fat32SB) : ℕ :=
  sb.fatSize32 * sb.bytesPerSector / 4

namespace FAT

/-- Entry `cluster` of the table, read as `next_cluster_id` reads it. -/
def entry (sb : Fat32SB) (vol : Volume) (cluster : ℕ) : Except Panic ℕ :=
  readU32 vol (fatOffset sb cluster / blockSz) (fatOffset sb cluster % blockSz)

/-- The volume after `modify` has stored `v` in entry `cluster`. -/
def setEntry (sb : Fat32SB) (vol : Volume) (cluster v : ℕ) : Volume :=
  writeU32 vol (fatOffset sb cluster / blockSz) (fatOffset sb cluster % blockSz) v

theorem fatOffset_succ (sb : Fat32SB) (cluster : ℕ) :
    fatOffset sb (cluster + 1) = fatOffset sb cluster + 4 := by
  unfold fatOffset
  ring

theorem fatOffset_aligned (sb : Fat32SB) (cluster : ℕ) : fatOffset sb cluster % 4 = 0 := by
  unfold fatOffset blockSz
  omega

theorem fatOffset_mod_add_four_le (sb : Fat32SB) (cluster : ℕ) :
    fatOffset sb cluster % blockSz + 4 ≤ blockSz := by
  have := fatOffset_aligned sb cluster
  unfold blockSz at *
  omega

/-- An entry is read from inside its sector, so the read never panics. -/
theorem entry_ok (sb : Fat32SB) (vol : Volume) (cluster : ℕ) : ∃ v, entry sb vol cluster = .ok v :=
  readU32_of_aligned vol (fatOffset_aligned sb cluster)

/-- The scan's `cluster_id` for the entry at `fatOffset cluster` is the
entry's number. -/
theorem clusterId_of_fatOffset (sb : Fat32SB) (cluster : ℕ) :
    (fatOffset sb cluster - sb.reservedSectorsCnt * blockSz) / 4 = cluster := by
  unfold fatOffset
  omega

/-! ### Reading back what `modify` stored -/

/-- Two `u32`s at different multiples of four of a sector do not overlap. -/
theorem readU32_writeU32_of_ne (vol : Volume) {s o s' o' : ℕ} (v : ℕ) (ho : o % 4 = 0)
    (ho' : o' % 4 = 0) (hfit : o + 4 ≤ blockSz) (hne : (s, o) ≠ (s', o')) :
    readU32 (writeU32 vol s o v) s' o' = readU32 vol s' o' := by
  unfold readU32 readBlock writeU32 modifyBlock
  rw [dif_pos hfit]
  by_cases hs : s' = s
  · subst hs
    have hoo : o' ≠ o := fun h => hne (by rw [h])
    split_ifs with hfit'
    · congr 2
      funext i
      simp only [slice, splice, Function.update_self]
      rw [dif_neg (by omega)]
    · rfl
  · rw [Function.update_of_ne hs]

/-- A `u32` reads back as the value stored, cut to 32 bits. -/
theorem readU32_writeU32_self (vol : Volume) {s o : ℕ} (v : ℕ) (hfit : o + 4 ≤ blockSz) :
    readU32 (writeU32 vol s o v) s o = .ok (v % 2 ^ 32) := by
  unfold readU32 readBlock writeU32 modifyBlock
  rw [dif_pos hfit, dif_pos hfit]
  have hslice : slice (Function.update vol s (splice (vol s) o 4 hfit fun _ => leBytes 4 v) s) o 4 hfit =
      leBytes 4 v := by
    funext i
    simp only [slice, splice, Function.update_self]
    rw [dif_pos (by omega)]
    congr
    simp
  simp only [Except.map, hslice, leValue_ofFn_leBytes]
  rfl

theorem fatOffset_ne (sb : Fat32SB) {cluster other : ℕ} (hne : other ≠ cluster) :
    (fatOffset sb cluster / blockSz, fatOffset sb cluster % blockSz) ≠
      (fatOffset sb other / blockSz, fatOffset sb other % blockSz) := by
  intro h
  have hdiv := congrArg Prod.fst h
  have hmod := congrArg Prod.snd h
  simp only at hdiv hmod
  have := Nat.div_add_mod (fatOffset sb cluster) blockSz
  have := Nat.div_add_mod (fatOffset sb other) blockSz
  unfold fatOffset blockSz at *
  omega

/-- Storing in one entry leaves every other entry as it was. -/
theorem entry_setEntry_of_ne (sb : Fat32SB) (vol : Volume) {cluster other : ℕ} (v : ℕ)
    (hne : other ≠ cluster) : entry sb (setEntry sb vol cluster v) other = entry sb vol other :=
  readU32_writeU32_of_ne vol v (by have := fatOffset_aligned sb cluster; unfold blockSz; omega)
    (by have := fatOffset_aligned sb other; unfold blockSz; omega)
    (fatOffset_mod_add_four_le sb cluster) (fatOffset_ne sb hne)

theorem entry_setEntry_self (sb : Fat32SB) (vol : Volume) (cluster v : ℕ) :
    entry sb (setEntry sb vol cluster v) cluster = .ok (v % 2 ^ 32) :=
  readU32_writeU32_self vol v (fatOffset_mod_add_four_le sb cluster)

/-! ## `alloc_new_cluster` -/

section Scan

variable (sb : Fat32SB) (vol : Volume)

/-- A turn of the scan at a free entry ends it there. -/
theorem allocScan_free {cluster fuel : ℕ} (hpos : cluster ≠ 0) (hfree : entry sb vol cluster = .ok 0) :
    (allocScan sb vol (fuel + 1) (fatOffset sb cluster)).run =
      some (.ok (cluster, fatOffset sb cluster)) := by
  rw [allocScan, run_bind_of_ok (by rw [run_liftExcept]; exact congrArg _ hfree)]
  simp only [if_pos, clusterId_of_fatOffset, ne_eq, hpos, not_false_eq_true]
  rfl

/-- A turn of the scan at an entry in use moves on to the next entry. -/
theorem allocScan_busy {cluster fuel : ℕ} (hbusy : entry sb vol cluster ≠ .ok 0) :
    (allocScan sb vol (fuel + 1) (fatOffset sb cluster)).run =
      (allocScan sb vol fuel (fatOffset sb (cluster + 1))).run := by
  obtain ⟨num, hnum⟩ := entry_ok sb vol cluster
  have hne : num ≠ 0 := fun h => hbusy (h ▸ hnum)
  rw [allocScan, run_bind_of_ok (by rw [run_liftExcept]; exact congrArg _ hnum), if_neg hne,
    if_neg (by simp), fatOffset_succ]

/-- From entry `cluster` on, the scan stops at the first free entry, `k`
entries on, when it has more than `k` turns. -/
theorem allocScan_first_free (k : ℕ) :
    ∀ {cluster fuel : ℕ}, cluster ≠ 0 → (∀ j < k, entry sb vol (cluster + j) ≠ .ok 0) →
      entry sb vol (cluster + k) = .ok 0 → k < fuel →
      (allocScan sb vol fuel (fatOffset sb cluster)).run =
        some (.ok (cluster + k, fatOffset sb (cluster + k))) := by
  induction k with
  | zero =>
    intro cluster fuel hpos _ hfree hfuel
    obtain ⟨fuel, rfl⟩ := Nat.exists_eq_add_of_lt hfuel
    exact allocScan_free sb vol hpos hfree
  | succ k ih =>
    intro cluster fuel hpos hbusy hfree hfuel
    obtain ⟨fuel, rfl⟩ : ∃ f, fuel = f + 1 := ⟨fuel - 1, by omega⟩
    -- the first entry is in use; the rest of the scan starts at the next one
    have hfirst : entry sb vol cluster ≠ .ok 0 := by simpa using hbusy 0 (Nat.succ_pos k)
    rw [allocScan_busy sb vol hfirst]
    have hrest := @ih (cluster + 1) fuel (Nat.succ_ne_zero _)
      (fun j hj => by rw [Nat.add_assoc, Nat.add_comm 1]; exact hbusy (j + 1) (by omega))
      (by rw [Nat.add_assoc, Nat.add_comm 1]; exact hfree) (by omega)
    rw [hrest, Nat.add_assoc, Nat.add_comm 1]

/-- `alloc_new_cluster` takes the first free entry from entry `3` on, and
marks it as the end of a chain. -/
theorem allocNewCluster_first_free {cluster fuel : ℕ} (h3 : 3 ≤ cluster)
    (hbusy : ∀ other, 3 ≤ other → other < cluster → entry sb vol other ≠ .ok 0)
    (hfree : entry sb vol cluster = .ok 0) (hfuel : cluster - 3 < fuel) :
    (allocNewCluster fuel sb vol).run = some (.ok (cluster, setEntry sb vol cluster 0x0FFFFFFF)) := by
  obtain ⟨k, rfl⟩ := Nat.exists_eq_add_of_le h3
  have hscan := @allocScan_first_free sb vol k 3 fuel (by decide)
    (fun j hj => hbusy (3 + j) (Nat.le_add_right _ _) (by omega)) hfree (by omega)
  have hstart : sb.reservedSectorsCnt * blockSz + 3 * 4 = fatOffset sb 3 := rfl
  rw [allocNewCluster, hstart, run_bind_of_ok hscan]
  rfl

end Scan

/-- `alloc_new_cluster` and `increase_cluster` at the first free entry from
entry `3` on: the new cluster is that entry, which is marked as the end of a
chain, `increase_cluster` links it after `clusterId`, and no other entry
changes. -/
theorem increaseCluster_first_free (sb : Fat32SB) (vol : Volume) {newCluster fuel : ℕ}
    (h3 : 3 ≤ newCluster) (hbusy : ∀ other, 3 ≤ other → other < newCluster → entry sb vol other ≠ .ok 0)
    (hfree : entry sb vol newCluster = .ok 0) (hfuel : newCluster - 3 < fuel) (clusterId : ℕ)
    (hlinked : clusterId ≠ newCluster) (hfits : newCluster < 2 ^ 32) :
    ∃ vol', (increaseCluster fuel sb vol clusterId).run = some (.ok (newCluster, vol')) ∧
      entry sb vol' newCluster = .ok 0x0FFFFFFF ∧ entry sb vol' clusterId = .ok newCluster ∧
      ∀ other, other ≠ newCluster → other ≠ clusterId → entry sb vol' other = entry sb vol other := by
  refine ⟨setEntry sb (setEntry sb vol newCluster 0x0FFFFFFF) clusterId newCluster, ?_, ?_, ?_, ?_⟩
  · rw [increaseCluster, run_bind_of_ok (allocNewCluster_first_free sb vol h3 hbusy hfree hfuel)]
    rfl
  · rw [entry_setEntry_of_ne sb _ _ hlinked.symm, entry_setEntry_self]
    rfl
  · rw [entry_setEntry_self, Nat.mod_eq_of_lt hfits]
  · intro other hnew hcl
    rw [entry_setEntry_of_ne sb _ _ hcl, entry_setEntry_of_ne sb _ _ hnew]

theorem increaseCluster_first_free_on_blank_volume :
    3 ≤ 3 ∧ (∀ other, 3 ≤ other → other < 3 → entry sampleSb blankVolume other ≠ .ok 0) ∧
      entry sampleSb blankVolume 3 = .ok 0 ∧ 3 - 3 < 1 ∧ 2 ≠ 3 ∧ 3 < 2 ^ 32 ∧
      ∃ vol', (increaseCluster 1 sampleSb blankVolume 2).run = some (.ok (3, vol')) ∧
        entry sampleSb vol' 3 = .ok 0x0FFFFFFF ∧ entry sampleSb vol' 2 = .ok 3 ∧
        ∀ other, other ≠ 3 → other ≠ 2 → entry sampleSb vol' other = entry sampleSb blankVolume other := by
  have hbusy : ∀ other, 3 ≤ other → other < 3 → entry sampleSb blankVolume other ≠ .ok 0 :=
    fun _ h3 hlt => absurd hlt (Nat.not_lt.mpr h3)
  have hfree : entry sampleSb blankVolume 3 = .ok 0 := by decide
  exact ⟨le_rfl, hbusy, hfree, by decide, by decide, by decide,
    increaseCluster_first_free sampleSb blankVolume le_rfl hbusy hfree (by decide) 2 (by decide)
      (by decide)⟩

/-- A boot sector with one reserved sector and two copies of a one-sector
table: each copy holds `128` entries, and the second starts at sector `2`. -/
def oneSectorTableSb : Fat32SB :=
  ⟨512, 1, 1, 2, 1, 2⟩

/-- A volume whose first table is full: every byte of its sector is `0xFF`. -/
def fullTableVolume : Volume :=
  fun sector _ => if sector = 1 then 0xFF else 0

theorem entry_fullTableVolume {cluster : ℕ} (hlt : cluster < 128) :
    entry oneSectorTableSb fullTableVolume cluster = .ok 0xFFFFFFFF := by
  have hsector : fatOffset oneSectorTableSb cluster / blockSz = 1 := by
    simp only [fatOffset, oneSectorTableSb, blockSz]
    omega
  -- every byte of the table's sector is `0xFF`, a byte of `0xFFFFFFFF`
  have hslice : ∀ {o : ℕ} (hfit : o + 4 ≤ blockSz),
      slice (fullTableVolume 1) o 4 hfit = leBytes 4 0xFFFFFFFF := by
    intro o hfit
    funext i
    fin_cases i <;> rfl
  rw [entry, readU32, readBlock, dif_pos (fatOffset_mod_add_four_le _ _), hsector, hslice]
  simp only [Except.map, leValue_ofFn_leBytes]
  rfl

/-- With every entry of the table in use, `alloc_new_cluster` does not return
`None`: it returns entry `128`, the first past the table, and marks the first
entry of the table's second copy as the end of a chain. -/
theorem allocNewCluster_past_full_table :
    oneSectorTableSb.entryCount = 128 ∧
      (∀ cluster, 2 ≤ cluster → cluster < 128 →
        entry oneSectorTableSb fullTableVolume cluster ≠ .ok 0) ∧
      (allocNewCluster 126 oneSectorTableSb fullTableVolume).run =
        some (.ok (128, setEntry oneSectorTableSb fullTableVolume 128 0x0FFFFFFF)) ∧
      fatOffset oneSectorTableSb 128 / blockSz =
        oneSectorTableSb.reservedSectorsCnt + oneSectorTableSb.fatSize32 := by
  have hbusy : ∀ cluster, cluster < 128 → entry oneSectorTableSb fullTableVolume cluster ≠ .ok 0 := by
    intro cluster hlt heq
    rw [entry_fullTableVolume hlt] at heq
    cases heq
  have hfree : entry oneSectorTableSb fullTableVolume 128 = .ok 0 := by decide
  exact ⟨rfl, fun cluster _ hlt => hbusy cluster hlt,
    allocNewCluster_first_free _ _ (by decide) (fun cluster _ hlt => hbusy cluster hlt) hfree
      (by decide), rfl⟩

/-! ## `next_dentry_id` -/

/-- `n` turns of `next_dentry_id` from a slot: the slot reached, or `none`
once a turn has returned `None`. -/
def dentryWalk (sb : Fat32SB) (vol : Volume) : ℕ → ℕ × ℕ → Except Panic (Option (ℕ × ℕ))
  | 0, slot => pure (some slot)
  | n + 1, slot => do
    match ← nextDentryId sb vol slot.1 slot.2 with
    | none => pure none
    | some next => dentryWalk sb vol n next

/-- Slot `q` from the start of sector `first`, sixteen slots to a sector. -/
def slotOf (first q : ℕ) : ℕ × ℕ :=
  (first + q / 16, 32 * (q % 16))

section Walk

variable (sb : Fat32SB) (vol : Volume) {first : ℕ} (hspc : 0 < sb.sectorsPerCluster)
  (hfirst : first % sb.sectorsPerCluster = 0)
include hspc hfirst

omit hspc in
/-- Inside a cluster whose first sector is a multiple of `sectors_per_cluster`,
`next_dentry_id` moves to the next slot. -/
theorem nextDentryId_slotOf {q : ℕ} (hq : q + 1 < 16 * sb.sectorsPerCluster) :
    nextDentryId sb vol (slotOf first q).1 (slotOf first q).2 = .ok (some (slotOf first (q + 1))) := by
  have hvalid : ¬ (32 * (q % 16) ≥ 512 ∨ 32 * (q % 16) % 32 ≠ 0) := by omega
  rw [show slotOf first q = (first + q / 16, 32 * (q % 16)) from rfl, nextDentryId, if_neg hvalid]
  dsimp only
  by_cases hend : 32 * (q % 16) + 32 ≥ 512
  · -- the last slot of a sector that is not the cluster's last
    have hsector : (first + q / 16 + 1) % sb.sectorsPerCluster ≠ 0 := by
      have hnext : q / 16 + 1 < sb.sectorsPerCluster := by omega
      rw [Nat.add_assoc, Nat.add_mod, hfirst, Nat.zero_add, Nat.mod_mod, Nat.mod_eq_of_lt hnext]
      omega
    rw [if_pos hend, if_neg hsector]
    congr 3 <;> omega
  · rw [if_neg hend]
    congr 3 <;> omega

/-- At the last slot of the cluster, `next_dentry_id` returns the table's entry
for the number of the cluster's last sector, as a sector number. -/
theorem nextDentryId_last_slot :
    nextDentryId sb vol (slotOf first (16 * sb.sectorsPerCluster - 1)).1
        (slotOf first (16 * sb.sectorsPerCluster - 1)).2 =
      (nextClusterId sb vol (first + sb.sectorsPerCluster - 1)).map (Option.map (·, 0)) := by
  have hslot : slotOf first (16 * sb.sectorsPerCluster - 1) = (first + sb.sectorsPerCluster - 1, 480) := by
    unfold slotOf
    congr 1 <;> omega
  have hnext : (first + sb.sectorsPerCluster - 1 + 1) % sb.sectorsPerCluster = 0 := by
    rw [Nat.sub_add_cancel (by omega), Nat.add_mod_right, hfirst]
  rw [hslot, nextDentryId]
  dsimp only
  rw [if_neg (by decide), if_pos (by decide), if_pos hnext]

omit hspc in
/-- Within the cluster the walk visits its slots in order. -/
theorem dentryWalk_slotOf (n : ℕ) :
    ∀ {q : ℕ}, q + n < 16 * sb.sectorsPerCluster →
      dentryWalk sb vol n (slotOf first q) = .ok (some (slotOf first (q + n))) := by
  induction n with
  | zero => intro q _; rfl
  | succ n ih =>
    intro q hq
    rw [dentryWalk, nextDentryId_slotOf sb vol hfirst (by omega), ok_bind]
    simp only
    rw [ih (by omega), Nat.add_assoc, Nat.add_comm 1]

/-- After the cluster's last slot the walk goes on at what the table holds for
the cluster's last sector. -/
theorem dentryWalk_to_cluster_end (m : ℕ) :
    ∀ {q : ℕ}, q + m + 1 = 16 * sb.sectorsPerCluster →
      dentryWalk sb vol (m + 1) (slotOf first q) =
        (nextClusterId sb vol (first + sb.sectorsPerCluster - 1)).map (Option.map (·, 0)) := by
  induction m with
  | zero =>
    intro q hq
    obtain rfl : q = 16 * sb.sectorsPerCluster - 1 := by omega
    rw [dentryWalk, nextDentryId_last_slot sb vol hspc hfirst]
    rcases nextClusterId sb vol (first + sb.sectorsPerCluster - 1) with e | _ | next <;> rfl
  | succ m ih =>
    intro q hq
    rw [dentryWalk, nextDentryId_slotOf sb vol hfirst (by omega), ok_bind]
    exact ih (by omega)

end Walk

/-- Walked from the first slot of cluster `cluster`, on a volume whose clusters
start at multiples of `sectors_per_cluster`, `next_dentry_id` visits the
cluster's slots in order, sixteen to a sector; the turn after its last slot
goes to the sector whose number is the table's entry for the cluster's last
sector, or ends if that entry marks the end of a chain. -/
theorem dentryWalk_leaves_cluster_by_sector_entry (sb : Fat32SB) (vol : Volume) {cluster first : ℕ}
    (hspc : 0 < sb.sectorsPerCluster) (hroot : sb.rootSector % sb.sectorsPerCluster = 0)
    (hfirst : clusterIdToSectorId sb cluster = some first) :
    (∀ q < 16 * sb.sectorsPerCluster,
        dentryWalk sb vol q (first, 0) = .ok (some (first + q / 16, 32 * (q % 16)))) ∧
      dentryWalk sb vol (16 * sb.sectorsPerCluster) (first, 0) =
        (nextClusterId sb vol (first + sb.sectorsPerCluster - 1)).map (Option.map (·, 0)) := by
  have haligned : first % sb.sectorsPerCluster = 0 := by
    unfold clusterIdToSectorId at hfirst
    split_ifs at hfirst
    cases hfirst
    rw [Nat.add_mul_mod_self_right, hroot]
  have hstart : (first, 0) = slotOf first 0 := by simp [slotOf]
  refine ⟨fun q hq => ?_, ?_⟩
  · rw [hstart, dentryWalk_slotOf sb vol haligned q (by omega), Nat.zero_add]
    rfl
  · obtain ⟨m, hm⟩ : ∃ m, 16 * sb.sectorsPerCluster = m + 1 := ⟨16 * sb.sectorsPerCluster - 1, by omega⟩
    rw [hstart, hm, dentryWalk_to_cluster_end sb vol hspc haligned m (by omega)]

theorem dentryWalk_leaves_cluster_by_sector_entry_on_sample :
    0 < sampleSb.sectorsPerCluster ∧ sampleSb.rootSector % sampleSb.sectorsPerCluster = 0 ∧
      clusterIdToSectorId sampleSb 2 = some 544 ∧
      ((∀ q < 16 * sampleSb.sectorsPerCluster,
          dentryWalk sampleSb blankVolume q (544, 0) = .ok (some (544 + q / 16, 32 * (q % 16)))) ∧
        dentryWalk sampleSb blankVolume (16 * sampleSb.sectorsPerCluster) (544, 0) =
          (nextClusterId sampleSb blankVolume (544 + sampleSb.sectorsPerCluster - 1)).map
            (Option.map (·, 0))) :=
  ⟨by decide, by decide, rfl,
    @dentryWalk_leaves_cluster_by_sector_entry sampleSb blankVolume 2 544 (by decide) (by decide) rfl⟩

/-- A boot sector with one sector to a cluster, 32 reserved sectors and two
one-sector tables: cluster `2` is sector `34`, cluster `3` sector `35`. -/
def smallClusterSb : Fat32SB :=
  ⟨512, 1, 32, 2, 1, 2⟩

/-- A directory of two clusters, `2 → 3`: the first table's entry `2` is `3`
and its entry `3` ends the chain; every other byte is zero. -/
def twoClusterDirVolume : Volume :=
  fun sector i =>
    if sector = 32 then [0, 0, 0, 0, 0, 0, 0, 0, 3, 0, 0, 0, 0xFF, 0xFF, 0xFF, 0x0F].getD i.val 0
    else 0

/-- Walked from the first slot of the directory `2 → 3`, `next_dentry_id`
leaves cluster `2` after its sixteen slots for sector `0`, the boot sector,
and not for sector `35` of cluster `3`: it reads the table's entry for sector
`34`, which is `0`. -/
theorem nextDentryId_leaves_two_cluster_directory :
    clusterIdToSectorId smallClusterSb 2 = some 34 ∧ clusterIdToSectorId smallClusterSb 3 = some 35 ∧
      nextClusterId smallClusterSb twoClusterDirVolume 2 = .ok (some 3) ∧
      nextClusterId smallClusterSb twoClusterDirVolume 3 = .ok none ∧
      dentryWalk smallClusterSb twoClusterDirVolume 15 (34, 0) = .ok (some (34, 480)) ∧
      dentryWalk smallClusterSb twoClusterDirVolume 16 (34, 0) = .ok (some (0, 0)) := by
  decide

end FAT

end ChaosKernel.Fat32
