import ChaosKernel.Fs.Fat32.Inode

/-!
# Removing a directory entry

`Fat32FS::remove_dentry` and `Fat32Inode::unlink` of `os/src/fs/fat32`.

`remove_dentry` of an entry with long-name entries loops over them: it sets
each one's order byte to `0xE5` and then tests the end flag `0x40` on the byte
it has just written.  `0xE5` has that bit set, so the loop always stops after
the first long entry, and `set_deleted` then marks the slot after it.  For a
name of up to 13 characters that slot is the short entry, and the entry is
gone.  A longer name has a second long entry there: the short entry keeps its
first byte, and `ls` goes on listing it under its short name.
-/

namespace ChaosKernel.Fat32

open Block Lib

/-- `modify(offset, ..)` of a slot whose closure sets the slot's first byte to
`0xE5`: `layout.order = 0xE5` of a long entry, `set_deleted` of a short one. -/
def markSlotDeleted (vol : Volume) (sectorId offset : ℕ) : Volume :=
  modifyBlock vol sectorId offset 32 fun bytes j => if (j : ℕ) = 0 then 0xE5 else bytes j

namespace Fat32FS

variable (sb : Fat32SB)

/-- The loop of `remove_dentry` over the long entries, for at most `fuel`
slots: each entry's order set to `0xE5`, and then `is_end` tested on the entry
as changed. -/
def removeLongLoop : ℕ → Volume → ℕ → ℕ → Fuelled Panic (Volume × ℕ × ℕ)
  | 0, _, _, _ => outOfFuel
  | fuel + 1, vol, sectorId, offset => do
      let layout := Fat32LDentryLayout.ofBytes (← liftExcept (readSlot vol sectorId offset))
      let vol := markSlotDeleted vol sectorId offset
      let isEnd := ({ layout with order := 0xE5 } : Fat32LDentryLayout).isEnd
      let (sectorId, offset) ← liftExcept (nextDentryIdUnwrap sb vol sectorId offset)
      if isEnd then pure (vol, sectorId, offset) else removeLongLoop fuel vol sectorId offset

/-- `Fat32FS::remove_dentry(dentry)`. -/
def removeDentry (vol : Volume) (fuel : ℕ) (dentry : Fat32Dentry) : Fuelled Panic Volume := do
  let (vol, sectorId, offset) ←
    if ← liftExcept (Fat32Dentry.isLong vol dentry) then
      removeLongLoop sb fuel vol dentry.sectorId dentry.sectorOffset
    else pure (vol, dentry.sectorId, dentry.sectorOffset)
  pure (markSlotDeleted vol sectorId offset)

end Fat32FS

namespace Fat32Inode

variable (sb : Fat32SB) (vol : Volume)

/-- The loop `while let Some(dentry) = fs.get_dentry(..)` of `unlink(name)`
from a slot, for at most `fuel` entries: the volume after `remove_dentry` of
the first entry whose name is `name`, or `none` (`false`) at the first empty
slot. -/
def unlinkLoop (fuel : ℕ) (name : List Char) : ℕ → ℕ → ℕ → Fuelled Panic (Option Volume)
  | 0, _, _ => outOfFuel
  | n + 1, sectorId, offset => do
      match ← Fat32FS.getDentry sb vol fuel sectorId offset with
      | (some dentry, sectorId, offset) =>
          if (← Fat32Dentry.name sb vol fuel dentry) == name then
            return some (← Fat32FS.removeDentry sb vol fuel dentry)
          else unlinkLoop fuel name n sectorId offset
      | (none, _, _) => pure none

/-- `Fat32Inode::unlink(name)` in the directory `self`. -/
def unlink (fuel : ℕ) (self : Fat32Inode) (name : List Char) : Fuelled Panic (Option Volume) := do
  let sectorId ← liftExcept (firstSlot sb self.startCluster)
  unlinkLoop sb vol fuel name fuel sectorId 0

end Fat32Inode

namespace Fat32FS

section Remove

variable {sb : Fat32SB} {vol : Volume}

end Remove

end Fat32FS

/-- A fourteen-character name inserted into the empty root directory of
`sampleSb` takes two long entries and the short entry.  `remove_dentry` of the
entry `get_dentry` returns marks the two long entries and leaves the short
entry's first byte `a`; `ls` then lists the two deleted entries (named from the
boot sector) and the short entry's name `abcdefgh.ijk`. -/
theorem removeDentry_keeps_short_entry_of_fourteen_char_name :
    ∃ vol vol', (Fat32FS.insertDentry sampleSb blankVolume 8 2 "abcdefghijklmn".toList 0x20 0 5).run =
        some (.ok (vol, ⟨544, 64, false⟩)) ∧
      (Fat32FS.getDentry sampleSb vol 8 544 0).run = some (.ok (some ⟨544, 0, false⟩, 544, 96)) ∧
      (Fat32FS.removeDentry sampleSb vol 8 ⟨544, 0, false⟩).run = some (.ok vol') ∧
      (readSlot vol' 544 64).map List.head? = .ok (some 0x61) ∧
      (ls sampleSb vol' 8 2).run = some (.ok
        [List.replicate 8 (Char.ofNat 0) ++ '.' :: List.replicate 3 (Char.ofNat 0),
          List.replicate 8 (Char.ofNat 0) ++ '.' :: List.replicate 3 (Char.ofNat 0),
          "abcdefgh.ijk".toList]) := by
  have hinsert : (Fat32FS.insertDentry sampleSb blankVolume 8 2 "abcdefghijklmn".toList 0x20 0 5).run =
      some (.ok (_, ⟨544, 64, false⟩)) := rfl
  refine ⟨_, _, hinsert, by decide, rfl, by decide, by decide⟩

end ChaosKernel.Fat32
