import ChaosKernel.Config

/-!
# The descriptor table and the syscalls that edit it

`fd_table : Vec<Option<Arc<dyn File>>>` of `TaskControlBlockInner`, its
allocator `alloc_fd`, and the syscalls of `os/src/syscall/fs.rs` that install,
copy or clear descriptors: `sys_open`, `sys_openat`, `sys_close`, `sys_pipe`,
`sys_dup`, `sys_dup3` and `sys_fcntl`.

Files are a type parameter: an `Arc` clone is the same file.  What the file
system answers (`open_file`, and the casts between files and inodes) is taken as
a parameter of the syscall, since only its result reaches the table.
-/

namespace ChaosKernel.FdTable

/-- `ENOENT`. -/
def enoent : ℤ := -2

/-- `EBADF`. -/
def ebadf : ℤ := -9

/-- `AT_FDCWD`. -/
def atFdcwd : ℤ := -100

/-- `F_DUPFD`. -/
def fDupfd : ℤ := 0

/-- `F_SETFD`. -/
def fSetfd : ℤ := 2

/-- `F_SETFL`. -/
def fSetfl : ℤ := 4

/-- `F_DUPFD_CLOEXEC`. -/
def fDupfdCloexec : ℤ := 1030

/-- `dirfd as usize` for an `i32`: a negative value sign-extends. -/
def usizeOfI32 (value : ℤ) : ℕ := (value % (usizeModulus : ℤ)).toNat

variable {File Inode : Type*}

/-- The file in descriptor `fd`; a descriptor past the end of the table holds
none. -/
def slot (fdTable : List (Option File)) (fd : ℕ) : Option File :=
  (fdTable[fd]?).join

/-- `TaskControlBlockInner::alloc_fd`: the first empty slot, or else a new empty
slot pushed at the end. -/
def allocFd (fdTable : List (Option File)) : ℕ × List (Option File) :=
  match fdTable.findIdx? Option.isNone with
  | some fd => (fd, fdTable)
  | none => (fdTable.length, fdTable ++ [none])

/-- `sys_open`, given the file `open_file` returns for the path in the working
directory (`none` when it does not resolve). -/
def sysOpen (fdTable : List (Option File)) (opened : Option File) :
    ℤ × List (Option File) :=
  match opened with
  | some file =>
      let (fd, fdTable) := allocFd fdTable
      (fd, fdTable.set fd (some file))
  | none => (enoent, fdTable)

/-- `sys_openat`.  For `AT_FDCWD` it is `sys_open`; otherwise the directory
descriptor is checked, cast to an inode (`unwrap`), and the path is opened
below it. -/
def sysOpenat (fdTable : List (Option File)) (dirfd : ℤ) (openedCwd : Option File)
    (castFileToInode : File → Option Inode) (openFile : Inode → Option File) :
    Except Panic (ℤ × List (Option File)) :=
  if dirfd = atFdcwd then .ok (sysOpen fdTable openedCwd)
  else
    let dirfd := usizeOfI32 dirfd
    if dirfd ≥ fdTable.length then .ok (ebadf, fdTable)
    else
      match slot fdTable dirfd with
      | none => .ok (ebadf, fdTable)
      | some dir =>
          match castFileToInode dir with
          | none => .error .unwrapNone
          | some inode =>
              match openFile inode with
              | some file =>
                  let (fd, fdTable) := allocFd fdTable
                  .ok (fd, fdTable.set fd (some file))
              | none => .ok (enoent, fdTable)

/-- `sys_close`. -/
def sysClose (fdTable : List (Option File)) (fd : ℕ) : ℤ × List (Option File) :=
  if fd ≥ fdTable.length then (ebadf, fdTable)
  else if slot fdTable fd = none then (ebadf, fdTable)
  else (0, fdTable.set fd none)

/-- `sys_pipe`, given the two ends `make_pipe` creates: the result, the table,
and the two descriptors written to the user array. -/
def sysPipe (fdTable : List (Option File)) (pipeRead pipeWrite : File) :
    ℤ × List (Option File) × ℕ × ℕ :=
  let (readFd, fdTable) := allocFd fdTable
  let fdTable := fdTable.set readFd (some pipeRead)
  let (writeFd, fdTable) := allocFd fdTable
  (0, fdTable.set writeFd (some pipeWrite), readFd, writeFd)

/-- `sys_dup`. -/
def sysDup (fdTable : List (Option File)) (fd : ℕ) : ℤ × List (Option File) :=
  if fd ≥ fdTable.length then (ebadf, fdTable)
  else if slot fdTable fd = none then (ebadf, fdTable)
  else
    let (newFd, fdTable) := allocFd fdTable
    (newFd, fdTable.set newFd (slot fdTable fd))

/-- `sys_dup3`: the table is grown with empty slots until `new_fd` is a slot,
and `new_fd` is set (twice when it was occupied) to the file of `fd`. -/
def sysDup3 (fdTable : List (Option File)) (fd newFd : ℕ) : ℤ × List (Option File) :=
  if fd ≥ fdTable.length then (ebadf, fdTable)
  else if slot fdTable fd = none then (ebadf, fdTable)
  else
    let grown := fdTable ++ List.replicate (newFd + 1 - fdTable.length) none
    let grown :=
      if (slot grown newFd).isSome then grown.set newFd (slot grown fd) else grown
    (newFd, grown.set newFd (slot grown fd))

/-- `sys_fcntl`.  The two duplicating commands share one body in the source
(the close-on-exec flag is a `TODO` there); `F_SETFD` and `F_SETFL` do nothing,
and every other command reaches `todo!()`. -/
def sysFcntl (fdTable : List (Option File)) (fd : ℕ) (cmd : ℤ) (_arg : ℕ) :
    Except Panic (ℤ × List (Option File)) :=
  if fd ≥ fdTable.length then .ok (ebadf, fdTable)
  else if slot fdTable fd = none then .ok (ebadf, fdTable)
  else if cmd = fDupfd ∨ cmd = fDupfdCloexec then
    let (newFd, fdTable) := allocFd fdTable
    .ok (newFd, fdTable.set newFd (slot fdTable fd))
  else if cmd = fSetfd ∨ cmd = fSetfl then .ok (0, fdTable)
  else .error .notImplemented

/-! ## Slots -/

@[simp]
theorem slot_set_self {fdTable : List (Option File)} {fd : ℕ} (hfd : fd < fdTable.length)
    (file : Option File) : slot (fdTable.set fd file) fd = file := by
  simp [slot, hfd]

@[simp]
theorem slot_set_ne {fdTable : List (Option File)} {fd other : ℕ} (hne : other ≠ fd)
    (file : Option File) : slot (fdTable.set fd file) other = slot fdTable other := by
  simp [slot, List.getElem?_set_ne (Ne.symm hne)]

@[simp]
theorem slot_append_none (fdTable : List (Option File)) (fd : ℕ) :
    slot (fdTable ++ [none]) fd = slot fdTable fd := by
  unfold slot
  by_cases hfd : fd < fdTable.length
  · rw [List.getElem?_append_left hfd]
  · rw [List.getElem?_eq_none (l := fdTable) (by omega), List.getElem?_append_right (by omega)]
    by_cases hlast : fd = fdTable.length
    · simp [hlast]
    · rw [List.getElem?_eq_none (by simp only [List.length_singleton]; omega)]

@[simp]
theorem slot_append_replicate (fdTable : List (Option File)) (count fd : ℕ) :
    slot (fdTable ++ List.replicate count none) fd = slot fdTable fd := by
  induction count generalizing fdTable with
  | zero => simp
  | succ count ih =>
      rw [List.replicate_succ', ← List.append_assoc, slot_append_none, ih]

theorem slot_eq_none_of_le {fdTable : List (Option File)} {fd : ℕ}
    (hle : fdTable.length ≤ fd) : slot fdTable fd = none := by
  simp [slot, List.getElem?_eq_none hle]

theorem slot_eq_of_lt {fdTable : List (Option File)} {fd : ℕ} (hfd : fd < fdTable.length) :
    slot fdTable fd = fdTable[fd] := by
  simp [slot, hfd]

/-! ## `alloc_fd` -/

/-- `fd` is the lowest-numbered descriptor that holds no file. -/
def IsLowestFree (fdTable : List (Option File)) (fd : ℕ) : Prop :=
  slot fdTable fd = none ∧ ∀ other < fd, slot fdTable other ≠ none

/-- `after` is `before` with `file` installed in descriptor `fd`, the lowest free
descriptor of `before`, and every other descriptor as it was. -/
def InstalledLowest (before after : List (Option File)) (fd : ℕ) (file : File) : Prop :=
  IsLowestFree before fd ∧ slot after fd = some file ∧
    ∀ other, other ≠ fd → slot after other = slot before other

theorem allocFd_lowest (fdTable : List (Option File)) :
    IsLowestFree fdTable (allocFd fdTable).1 := by
  unfold allocFd
  split
  · rename_i fd hfind
    obtain ⟨hfd, hnone, hbefore⟩ := List.findIdx?_eq_some_iff_getElem.1 hfind
    refine ⟨by simpa [slot_eq_of_lt hfd] using hnone, ?_⟩
    intro other hother
    rw [slot_eq_of_lt (by omega)]
    simpa using hbefore other hother
  · rename_i hfind
    have hfull := List.findIdx?_eq_none_iff.1 hfind
    refine ⟨slot_eq_none_of_le (le_refl _), ?_⟩
    intro other hother
    rw [slot_eq_of_lt hother]
    have hsome : fdTable[other].isSome = true := by simpa using hfull _ (List.getElem_mem hother)
    exact Option.isSome_iff_ne_none.1 hsome

theorem allocFd_lt_length (fdTable : List (Option File)) :
    (allocFd fdTable).1 < (allocFd fdTable).2.length := by
  unfold allocFd
  split
  · rename_i fd hfind
    exact (List.findIdx?_eq_some_iff_getElem.1 hfind).1
  · simp

@[simp]
theorem slot_allocFd (fdTable : List (Option File)) (fd : ℕ) :
    slot (allocFd fdTable).2 fd = slot fdTable fd := by
  unfold allocFd
  split <;> simp

/-- Allocating a descriptor and storing a file in it installs the file in the
lowest free descriptor. -/
theorem installedLowest_allocFd (fdTable : List (Option File)) (file : File) :
    InstalledLowest fdTable ((allocFd fdTable).2.set (allocFd fdTable).1 (some file))
      (allocFd fdTable).1 file := by
  refine ⟨allocFd_lowest fdTable, slot_set_self (allocFd_lt_length fdTable) _, ?_⟩
  intro other hother
  rw [slot_set_ne hother, slot_allocFd]

/-- Two installs in a row take the two lowest free descriptors, in order. -/
theorem twoLowest_of_installedLowest {before middle after : List (Option File)}
    {first second : ℕ} {firstFile secondFile : File}
    (hfirst : InstalledLowest before middle first firstFile)
    (hsecond : InstalledLowest middle after second secondFile) :
    IsLowestFree before first ∧ first < second ∧ slot before second = none ∧
      (∀ other < second, other ≠ first → slot before other ≠ none) ∧
      slot after first = some firstFile ∧ slot after second = some secondFile ∧
      ∀ other, other ≠ first → other ≠ second → slot after other = slot before other := by
  obtain ⟨hlow, hat, hrest⟩ := hfirst
  obtain ⟨⟨hfree, hbelow⟩, hat', hrest'⟩ := hsecond
  have hne : second ≠ first := by
    rintro rfl
    rw [hat] at hfree
    exact Option.some_ne_none _ hfree
  have hsecondFree : slot before second = none := by rwa [← hrest second hne]
  have hlt : first < second := by
    by_contra hge
    rcases Nat.lt_or_eq_of_le (Nat.not_lt.1 hge) with hlt | heq
    · exact hlow.2 second hlt hsecondFree
    · exact hne heq
  refine ⟨hlow, hlt, hsecondFree, ?_, ?_, hat', ?_⟩
  · intro other hother hnefirst
    rw [← hrest other hnefirst]
    exact hbelow other hother
  · rw [hrest' first (Ne.symm hne), hat]
  · intro other hnefirst hnesecond
    rw [hrest' other hnesecond, hrest other hnefirst]

/-! ## The syscalls -/

theorem allocFd_natCast_ne_neg (fdTable : List (Option File)) {code : ℤ} (hcode : code < 0) :
    ((allocFd fdTable).1 : ℤ) ≠ code := by
  omega

theorem sysOpen_discipline {fdTable after : List (Option File)} {opened : Option File} {r : ℤ}
    (hcall : sysOpen fdTable opened = (r, after)) :
    (r = enoent → after = fdTable) ∧
      (0 ≤ r → ∃ file, opened = some file ∧ InstalledLowest fdTable after r.toNat file) := by
  cases opened with
  | none =>
      simp only [sysOpen, Prod.mk.injEq] at hcall
      obtain ⟨rfl, rfl⟩ := hcall
      exact ⟨fun _ => rfl, fun hpos => absurd hpos (by decide)⟩
  | some file =>
      simp only [sysOpen, Prod.mk.injEq] at hcall
      obtain ⟨rfl, rfl⟩ := hcall
      refine ⟨fun henoent => absurd henoent (allocFd_natCast_ne_neg fdTable (by decide)), ?_⟩
      intro _
      exact ⟨file, rfl, by simpa using installedLowest_allocFd fdTable file⟩

/-- The four ways `sys_openat` can return. -/
theorem sysOpenat_cases {fdTable after : List (Option File)} {dirfd r : ℤ}
    {openedCwd : Option File} {castFileToInode : File → Option Inode}
    {openFile : Inode → Option File}
    (hcall : sysOpenat fdTable dirfd openedCwd castFileToInode openFile = .ok (r, after)) :
    sysOpen fdTable openedCwd = (r, after) ∨ (r = ebadf ∧ after = fdTable) ∨
      (r = enoent ∧ after = fdTable) ∨
      ∃ file, r = (allocFd fdTable).1 ∧
        after = (allocFd fdTable).2.set (allocFd fdTable).1 (some file) := by
  unfold sysOpenat at hcall
  by_cases hat : dirfd = atFdcwd
  · rw [if_pos hat, Except.ok.injEq] at hcall
    exact .inl hcall
  rw [if_neg hat] at hcall
  dsimp only at hcall
  by_cases hge : usizeOfI32 dirfd ≥ fdTable.length
  · rw [if_pos hge, Except.ok.injEq, Prod.mk.injEq] at hcall
    exact .inr (.inl ⟨hcall.1.symm, hcall.2.symm⟩)
  rw [if_neg hge] at hcall
  cases hslot : slot fdTable (usizeOfI32 dirfd) with
  | none =>
      simp only [hslot, Except.ok.injEq, Prod.mk.injEq] at hcall
      exact .inr (.inl ⟨hcall.1.symm, hcall.2.symm⟩)
  | some dir =>
      cases hcast : castFileToInode dir with
      | none => simp [hslot, hcast] at hcall
      | some inode =>
          cases hopen : openFile inode with
          | none =>
              simp only [hslot, hcast, hopen, Except.ok.injEq, Prod.mk.injEq] at hcall
              exact .inr (.inr (.inl ⟨hcall.1.symm, hcall.2.symm⟩))
          | some file =>
              simp only [hslot, hcast, hopen, Except.ok.injEq, Prod.mk.injEq] at hcall
              exact .inr (.inr (.inr ⟨file, hcall.1.symm, hcall.2.symm⟩))

theorem sysOpenat_discipline {fdTable after : List (Option File)} {dirfd r : ℤ}
    {openedCwd : Option File} {castFileToInode : File → Option Inode}
    {openFile : Inode → Option File}
    (hcall : sysOpenat fdTable dirfd openedCwd castFileToInode openFile = .ok (r, after)) :
    (r = ebadf ∨ r = enoent → after = fdTable) ∧
      (0 ≤ r → ∃ file, InstalledLowest fdTable after r.toNat file) := by
  rcases sysOpenat_cases hcall with hopen | ⟨rfl, rfl⟩ | ⟨rfl, rfl⟩ | ⟨file, rfl, rfl⟩
  · -- `AT_FDCWD` is `sys_open`, which never answers `EBADF`
    obtain ⟨henoent, hsuccess⟩ := sysOpen_discipline hopen
    refine ⟨?_, fun hpos => ?_⟩
    · rintro (hbad | hnoent)
      · cases hopened : openedCwd with
        | none =>
            simp only [sysOpen, hopened, Prod.mk.injEq] at hopen
            exact hopen.2.symm
        | some file =>
            simp only [sysOpen, hopened, Prod.mk.injEq] at hopen
            exact absurd (hopen.1.trans hbad) (allocFd_natCast_ne_neg fdTable (by decide))
      · exact henoent hnoent
    · obtain ⟨file, -, hinstalled⟩ := hsuccess hpos
      exact ⟨file, hinstalled⟩
  · exact ⟨fun _ => rfl, fun hpos => absurd hpos (by decide)⟩
  · exact ⟨fun _ => rfl, fun hpos => absurd hpos (by decide)⟩
  · refine ⟨?_, fun _ => ⟨file, by simpa using installedLowest_allocFd fdTable file⟩⟩
    rintro (hbad | hnoent)
    · exact absurd hbad (allocFd_natCast_ne_neg fdTable (by decide))
    · exact absurd hnoent (allocFd_natCast_ne_neg fdTable (by decide))

theorem sysClose_discipline {fdTable after : List (Option File)} {fd : ℕ} {r : ℤ}
    (hcall : sysClose fdTable fd = (r, after)) :
    (r = ebadf → after = fdTable) ∧
      (0 ≤ r → slot after fd = none ∧ ∀ other, other ≠ fd → slot after other = slot fdTable other) := by
  unfold sysClose at hcall
  split at hcall
  · obtain ⟨rfl, rfl⟩ := Prod.mk.injEq _ _ _ _ ▸ hcall
    exact ⟨fun _ => rfl, fun hpos => absurd hpos (by decide)⟩
  · rename_i hlt
    split at hcall
    · obtain ⟨rfl, rfl⟩ := Prod.mk.injEq _ _ _ _ ▸ hcall
      exact ⟨fun _ => rfl, fun hpos => absurd hpos (by decide)⟩
    · obtain ⟨rfl, rfl⟩ := Prod.mk.injEq _ _ _ _ ▸ hcall
      refine ⟨fun hbad => absurd hbad (by decide), fun _ => ⟨?_, ?_⟩⟩
      · exact slot_set_self (by omega) none
      · intro other hother
        exact slot_set_ne hother none

theorem sysPipe_discipline {fdTable after : List (Option File)} {pipeRead pipeWrite : File}
    {r : ℤ} {readFd writeFd : ℕ}
    (hcall : sysPipe fdTable pipeRead pipeWrite = (r, after, readFd, writeFd)) :
    r = 0 ∧ IsLowestFree fdTable readFd ∧ readFd < writeFd ∧ slot fdTable writeFd = none ∧
      (∀ other < writeFd, other ≠ readFd → slot fdTable other ≠ none) ∧
      slot after readFd = some pipeRead ∧ slot after writeFd = some pipeWrite ∧
      ∀ other, other ≠ readFd → other ≠ writeFd → slot after other = slot fdTable other := by
  simp only [sysPipe, Prod.mk.injEq] at hcall
  obtain ⟨rfl, rfl, rfl, rfl⟩ := hcall
  exact ⟨rfl, twoLowest_of_installedLowest (installedLowest_allocFd fdTable pipeRead)
    (installedLowest_allocFd _ pipeWrite)⟩

theorem sysDup_discipline {fdTable after : List (Option File)} {fd : ℕ} {r : ℤ}
    (hcall : sysDup fdTable fd = (r, after)) :
    (r = ebadf → after = fdTable) ∧
      (0 ≤ r → ∃ file, slot fdTable fd = some file ∧ InstalledLowest fdTable after r.toNat file) := by
  unfold sysDup at hcall
  split at hcall
  · obtain ⟨rfl, rfl⟩ := Prod.mk.injEq _ _ _ _ ▸ hcall
    exact ⟨fun _ => rfl, fun hpos => absurd hpos (by decide)⟩
  · split at hcall
    · obtain ⟨rfl, rfl⟩ := Prod.mk.injEq _ _ _ _ ▸ hcall
      exact ⟨fun _ => rfl, fun hpos => absurd hpos (by decide)⟩
    · rename_i hsome
      obtain ⟨file, hfile⟩ := Option.ne_none_iff_exists'.1 hsome
      have hcall' : (((allocFd fdTable).1 : ℤ), (allocFd fdTable).2.set (allocFd fdTable).1
          (slot (allocFd fdTable).2 fd)) = (r, after) := hcall
      obtain ⟨rfl, rfl⟩ := Prod.mk.injEq _ _ _ _ ▸ hcall'
      refine ⟨fun hbad => absurd hbad (allocFd_natCast_ne_neg fdTable (by decide)),
        fun _ => ⟨file, hfile, ?_⟩⟩
      simpa [hfile] using installedLowest_allocFd fdTable file

theorem sysDup3_discipline {fdTable after : List (Option File)} {fd newFd : ℕ} {r : ℤ}
    (hcall : sysDup3 fdTable fd newFd = (r, after)) :
    (r = ebadf → after = fdTable) ∧
      (0 ≤ r → r = newFd ∧ slot after newFd = slot fdTable fd ∧
        (∀ other, other ≠ newFd → slot after other = slot fdTable other) ∧
        after.length = max fdTable.length (newFd + 1)) := by
  unfold sysDup3 at hcall
  split at hcall
  · obtain ⟨rfl, rfl⟩ := Prod.mk.injEq _ _ _ _ ▸ hcall
    exact ⟨fun _ => rfl, fun hpos => absurd hpos (by decide)⟩
  · split at hcall
    · obtain ⟨rfl, rfl⟩ := Prod.mk.injEq _ _ _ _ ▸ hcall
      exact ⟨fun _ => rfl, fun hpos => absurd hpos (by decide)⟩
    · obtain ⟨rfl, rfl⟩ := Prod.mk.injEq _ _ _ _ ▸ hcall
      -- the table grown with empty slots holds the same files and reaches `new_fd`
      set grown := fdTable ++ List.replicate (newFd + 1 - fdTable.length) none with hgrown
      have hlength : grown.length = max fdTable.length (newFd + 1) := by
        simp only [hgrown, List.length_append, List.length_replicate]
        omega
      have hslot : ∀ i, slot grown i = slot fdTable i := slot_append_replicate _ _
      set settled := if (slot grown newFd).isSome then grown.set newFd (slot grown fd) else grown
        with hsettled
      have hsettledLength : settled.length = grown.length := by
        simp only [hsettled]
        split <;> simp
      have hsettledSlot : ∀ i, i ≠ newFd → slot settled i = slot fdTable i := by
        intro i hi
        simp only [hsettled]
        split
        · rw [slot_set_ne hi, hslot]
        · rw [hslot]
      have hsettledFd : slot settled fd = slot fdTable fd := by
        by_cases hsame : fd = newFd
        · subst hsame
          simp only [hsettled]
          split
          · rw [slot_set_self (by omega), hslot]
          · rw [hslot]
        · exact hsettledSlot fd hsame
      refine ⟨fun hbad => absurd hbad (by unfold ebadf; omega), fun _ => ⟨rfl, ?_, ?_, ?_⟩⟩
      · rw [slot_set_self (by omega), hsettledFd]
      · intro other hother
        rw [slot_set_ne hother, hsettledSlot other hother]
      · rw [List.length_set, hsettledLength, hlength]

theorem sysFcntl_discipline {fdTable after : List (Option File)} {fd arg : ℕ} {cmd r : ℤ}
    (hcall : sysFcntl fdTable fd cmd arg = .ok (r, after)) :
    (r = ebadf → after = fdTable) ∧
      (cmd = fDupfd ∨ cmd = fDupfdCloexec → 0 ≤ r →
        ∃ file, slot fdTable fd = some file ∧ InstalledLowest fdTable after r.toNat file) := by
  unfold sysFcntl at hcall
  split at hcall
  · obtain ⟨rfl, rfl⟩ := Prod.mk.injEq _ _ _ _ ▸ Except.ok.inj hcall
    exact ⟨fun _ => rfl, fun _ hpos => absurd hpos (by decide)⟩
  · split at hcall
    · obtain ⟨rfl, rfl⟩ := Prod.mk.injEq _ _ _ _ ▸ Except.ok.inj hcall
      exact ⟨fun _ => rfl, fun _ hpos => absurd hpos (by decide)⟩
    · rename_i hsome
      obtain ⟨file, hfile⟩ := Option.ne_none_iff_exists'.1 hsome
      split at hcall
      · have hcall' : (((allocFd fdTable).1 : ℤ), (allocFd fdTable).2.set (allocFd fdTable).1
            (slot (allocFd fdTable).2 fd)) = (r, after) := Except.ok.inj hcall
        obtain ⟨rfl, rfl⟩ := Prod.mk.injEq _ _ _ _ ▸ hcall'
        refine ⟨fun hbad => absurd hbad (allocFd_natCast_ne_neg fdTable (by decide)),
          fun _ _ => ⟨file, hfile, ?_⟩⟩
        simpa [hfile] using installedLowest_allocFd fdTable file
      · rename_i hnotDup
        split at hcall
        · obtain ⟨rfl, rfl⟩ := Prod.mk.injEq _ _ _ _ ▸ Except.ok.inj hcall
          exact ⟨fun _ => rfl, fun hdup => absurd hdup hnotDup⟩
        · exact absurd hcall (by simp)

/-- The descriptor discipline of the seven syscalls on every table: a call
answering `EBADF` or `ENOENT` leaves the table as it was; `sys_open`,
`sys_openat`, `sys_dup` and the duplicating `sys_fcntl` commands install their
file in the lowest free descriptor and change no other; `sys_pipe` takes the two
lowest free descriptors, read end first; `sys_dup3` changes only `new_fd`, to the
file of `fd`, growing the table as needed; `sys_close` empties only `fd`. -/
theorem fdTable_syscalls_lowest_free (fdTable : List (Option File)) :
    (∀ opened r after, sysOpen fdTable opened = (r, after) →
      (r = enoent → after = fdTable) ∧
        (0 ≤ r → ∃ file, opened = some file ∧ InstalledLowest fdTable after r.toNat file)) ∧
    (∀ dirfd openedCwd (castFileToInode : File → Option Inode) openFile r after,
      sysOpenat fdTable dirfd openedCwd castFileToInode openFile = .ok (r, after) →
        (r = ebadf ∨ r = enoent → after = fdTable) ∧
          (0 ≤ r → ∃ file, InstalledLowest fdTable after r.toNat file)) ∧
    (∀ fd r after, sysClose fdTable fd = (r, after) →
      (r = ebadf → after = fdTable) ∧
        (0 ≤ r → slot after fd = none ∧
          ∀ other, other ≠ fd → slot after other = slot fdTable other)) ∧
    (∀ pipeRead pipeWrite r after readFd writeFd,
      sysPipe fdTable pipeRead pipeWrite = (r, after, readFd, writeFd) →
        r = 0 ∧ IsLowestFree fdTable readFd ∧ readFd < writeFd ∧ slot fdTable writeFd = none ∧
          (∀ other < writeFd, other ≠ readFd → slot fdTable other ≠ none) ∧
          slot after readFd = some pipeRead ∧ slot after writeFd = some pipeWrite ∧
          ∀ other, other ≠ readFd → other ≠ writeFd → slot after other = slot fdTable other) ∧
    (∀ fd r after, sysDup fdTable fd = (r, after) →
      (r = ebadf → after = fdTable) ∧
        (0 ≤ r → ∃ file, slot fdTable fd = some file ∧
          InstalledLowest fdTable after r.toNat file)) ∧
    (∀ fd newFd r after, sysDup3 fdTable fd newFd = (r, after) →
      (r = ebadf → after = fdTable) ∧
        (0 ≤ r → r = newFd ∧ slot after newFd = slot fdTable fd ∧
          (∀ other, other ≠ newFd → slot after other = slot fdTable other) ∧
          after.length = max fdTable.length (newFd + 1))) ∧
    (∀ fd cmd arg r after, sysFcntl fdTable fd cmd arg = .ok (r, after) →
      (r = ebadf → after = fdTable) ∧
        (cmd = fDupfd ∨ cmd = fDupfdCloexec → 0 ≤ r →
          ∃ file, slot fdTable fd = some file ∧ InstalledLowest fdTable after r.toNat file)) :=
  ⟨fun _ _ _ hcall => sysOpen_discipline hcall,
    fun _ _ _ _ _ _ hcall => sysOpenat_discipline hcall,
    fun _ _ _ hcall => sysClose_discipline hcall,
    fun _ _ _ _ _ _ hcall => sysPipe_discipline hcall,
    fun _ _ _ hcall => sysDup_discipline hcall,
    fun _ _ _ _ hcall => sysDup3_discipline hcall,
    fun _ _ _ _ _ hcall => sysFcntl_discipline hcall⟩

/-- The discipline at the initial table of a task (stdin, stdout, stderr) after
a `close(1)`: `pipe` then takes descriptor `1` for its read end and `3` for its
write end. -/
theorem fdTable_syscalls_lowest_free_after_close :
    sysPipe [some 0, none, some 2] 7 8 = (0, [some 0, some 7, some 2, some 8], 1, 3) ∧
      slot [some 0, some 7, some 2, some 8] 3 = some 8 :=
  ⟨rfl, ((@fdTable_syscalls_lowest_free ℕ ℕ [some 0, none, some 2]).2.2.2.1 7 8 0
    [some 0, some 7, some 2, some 8] 1 3 rfl).2.2.2.2.2.2.1⟩

/-- `F_DUPFD` ignores its minimum: with descriptors `0`, `1` and `2` open,
`fcntl(0, F_DUPFD, 10)` returns descriptor `3`. -/
theorem sysFcntl_dupfd_below_minimum :
    ¬ ∀ (fdTable : List (Option ℕ)) fd arg r after,
      sysFcntl fdTable fd fDupfd arg = .ok (r, after) → 0 ≤ r → (arg : ℤ) ≤ r := by
  intro hminimum
  have hcall : sysFcntl [some 0, some 1, some 2] 0 fDupfd 10 =
      .ok (3, [some 0, some 1, some 2, some 0]) := by decide
  have hmin := hminimum _ _ _ _ _ hcall (by decide)
  omega

end ChaosKernel.FdTable
