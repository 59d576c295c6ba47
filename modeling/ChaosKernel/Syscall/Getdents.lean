import ChaosKernel.Mm.UserBuffer
import ChaosKernel.Syscall.Fd
import ChaosKernel.Lib.Bytes

/-!
# `sys_getdents64`

`sys_getdents64` of `os/src/syscall/fs.rs` and `Dirent` of
`os/src/syscall/process.rs`.  The user buffer is reached through the slices of
`translated_byte_buffer`.  For each name the directory's `ls()` lists, the
syscall builds a `Dirent` and copies the first `19 + name.len() + 1` bytes of
it into the buffer, slice by slice, for as long as the records fit in `len`.

The `Dirent` is built in a 35-byte stack array through a raw pointer and then
read back from it.  The model takes the write to land as the `repr(C)` layout
says: the record's bytes are the struct's fields in order, `ino` (8 bytes),
`off` (8), `len` (2), `type_` (1) and `name` (64), then the five bytes of
padding to the struct's alignment, taken as zero.

The syscall returns `read_size` only when a name did not fit: `is_end` starts
`true` and is cleared only there.  When every record fits, it returns `0`.

As in `Syscall.Fd`, files and inodes are type parameters, and what the file
system answers (whether a file is a directory, its inode, and `ls`) is a
parameter of the syscall.
-/

namespace ChaosKernel.Getdents

open Lib FdTable

/-- `ENOTDIR`. -/
def enotdir : ℤ := -20

/-- `name.len()`: the bytes of the name in UTF-8. -/
def utf8Len (name : List Char) : ℕ :=
  (name.map Char.utf8Size).sum

/-- `dirent.name[i] = c.as_ascii().unwrap() as u8` over the characters of the
name: a character past ASCII panics at `unwrap`, and a 65th character indexes
past the 64-byte array. -/
def asciiName : ℕ → List Char → Except Panic (List UInt8)
  | _, [] => .ok []
  | i, c :: cs =>
      if i < 64 then
        if c.toNat < 128 then do
          let rest ← asciiName (i + 1) cs
          pure (UInt8.ofNat c.toNat :: rest)
        else .error .unwrapNone
      else .error (.sliceOutOfRange i (i + 1) 64)

/-- The bytes of `Dirent::new(off, len, name)`, `repr(C)`: `ino = 0`,
`off as i64`, `len`, `type_ = 0`, the name padded with zeros to 64 bytes, and
the struct's padding. -/
def direntNew (off len : ℕ) (name : List Char) : Except Panic (List UInt8) := do
  let nameBytes ← asciiName 0 name
  pure (List.ofFn (leBytes 8 0) ++ List.ofFn (leBytes 8 off) ++ List.ofFn (leBytes 2 len) ++ [0] ++
    nameBytes ++ List.replicate (64 - nameBytes.length) 0 ++ List.replicate 5 0)

/-- The cursor of the copy: the physical memory written so far, `read_size`,
`offset_in_slice` and `slice_index`. -/
structure Cursor where
  phys : PhysMem
  readSize : ℕ
  offsetInSlice : ℕ
  sliceIndex : ℕ

/-- `v[slice_index]`: an index past the end panics. -/
def sliceAt (v : List FrameSlice) (i : ℕ) : Except Panic FrameSlice :=
  match v[i]? with
  | some slice => .ok slice
  | none => .error (.sliceOutOfRange i (i + 1) v.length)

/-- The inner loop of `sys_getdents64`, for at most `fuel` turns: the bytes of
`record` from `copyLen` on, copied into the slices from the cursor on, each
turn up to the end of the record or of the current slice.  A slice filled to
its end moves the cursor to the next one, and the loop stops after the last. -/
def copyRecordLoop (v : List FrameSlice) (record : List UInt8) : ℕ → Cursor → ℕ → Except Panic Cursor
  | 0, cur, _ => .ok cur
  | fuel + 1, cur, copyLen =>
      if copyLen < record.length then do
        let slice ← sliceAt v cur.sliceIndex
        -- `v[slice_index][offset_in_slice..]`
        if slice.len < cur.offsetInSlice then
          throw (.sliceOutOfRange cur.offsetInSlice slice.len slice.len)
        let copySize := min (record.length - copyLen) (slice.len - cur.offsetInSlice)
        let phys := store cur.phys (slice.ppn * pageSize + slice.start + cur.offsetInSlice)
          ((record.drop copyLen).take copySize)
        let readSize := cur.readSize + copySize
        let offsetInSlice := cur.offsetInSlice + copySize
        let copyLen := copyLen + copySize
        if offsetInSlice = slice.len then
          let sliceIndex := cur.sliceIndex + 1
          if sliceIndex = v.length then pure ⟨phys, readSize, 0, sliceIndex⟩
          else copyRecordLoop v record fuel ⟨phys, readSize, 0, sliceIndex⟩ copyLen
        else copyRecordLoop v record fuel ⟨phys, readSize, offsetInSlice, cur.sliceIndex⟩ copyLen
      else pure cur

/-- The loop of `sys_getdents64` over the names: the record of each name while
it fits in `len`, and whether every name fitted (`is_end`).  A turn of the
inner loop copies a byte or moves to the next slice, so `dirent_len +
v.len() + 1` turns are enough for it. -/
def getdentsLoop (v : List FrameSlice) (len : ℕ) : List (List Char) → Cursor → Except Panic (Cursor × Bool)
  | [], cur => pure (cur, true)
  | name :: names, cur => do
      let direntLen := 19 + utf8Len name + 1
      if cur.readSize + direntLen > len then pure (cur, false)
      else
        let dirent ← direntNew (cur.readSize + direntLen) (direntLen % 2 ^ 16) name
        let cur ← copyRecordLoop v (dirent.take direntLen) (direntLen + v.length + 1) cur 0
        getdentsLoop v len names cur

variable {File Inode : Type}

/-- The directory `sys_getdents64` lists: the root for `AT_FDCWD`, otherwise
the inode of descriptor `dirfd`, or the error the syscall returns for it. -/
def getdentsDir (fdTable : List (Option File)) (isDir : File → Bool)
    (castFileToInode : File → Option Inode) (rootInode : Inode) (dirfd : ℤ) :
    Except Panic (Except ℤ Inode) :=
  if dirfd = atFdcwd then .ok (.ok rootInode)
  else
    let dirfd := usizeOfI32 dirfd
    if dirfd ≥ fdTable.length then .ok (.error ebadf)
    else
      match slot fdTable dirfd with
      | none => .ok (.error ebadf)
      | some dir =>
          if !isDir dir then .ok (.error enotdir)
          else
            match castFileToInode dir with
            | some inode => .ok (.ok inode)
            | none => .error .unwrapNone

/-- `sys_getdents64(dirfd, buf, len)` of the task whose descriptors are
`fdTable` and whose page table is `pageTable`, with the slices of
`translated_byte_buffer` found within `fuel` turns: the result, and the
physical memory after the copy. -/
def sysGetdents64 (fdTable : List (Option File)) (isDir : File → Bool)
    (castFileToInode : File → Option Inode) (rootInode : Inode) (ls : Inode → List (List Char))
    (pageTable : PageTable) (phys : PhysMem) (fuel : ℕ) (dirfd : ℤ) (buf len : ℕ) :
    Fuelled Panic (ℤ × PhysMem) := do
  let dir ← liftExcept (getdentsDir fdTable isDir castFileToInode rootInode dirfd)
  match dir with
  | .error err => pure (err, phys)
  | .ok inode =>
      let v ← translatedByteBuffer fuel pageTable buf len
      let (cur, isEnd) ← liftExcept (getdentsLoop v len (ls inode) ⟨phys, 0, 0, 0⟩)
      pure (if isEnd then 0 else (cur.readSize : ℤ), cur.phys)


/-- `sys_getdents64(AT_FDCWD, 0x1000, 64)` on a root directory that lists the
one name `a`, with the buffer's page mapped to frame `8`: the record of `a`
(header with `d_off = d_reclen = 21`, the name and its NUL) is written at the
start of the frame, and the syscall returns `0`, not `21`. -/
theorem sysGetdents64_returns_zero_when_all_fit :
    (sysGetdents64 ([] : List (Option Unit)) (fun _ => true) some () (fun _ => [['a']])
        twoPageTable (fun _ => 0) 2 atFdcwd 0x1000 64).run.map
        (Except.map fun result => (result.1, load result.2 (8 * pageSize) 21)) =
      some (.ok (0, [0, 0, 0, 0, 0, 0, 0, 0, 21, 0, 0, 0, 0, 0, 0, 0, 21, 0, 0, 0x61, 0])) := by
  decide

end ChaosKernel.Getdents
