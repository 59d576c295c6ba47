import ChaosKernel.Config
import ChaosKernel.Fs.Pipe

/-!
# `sys_ppoll`

`sys_ppoll` of `os/src/syscall/ppoll.rs` over the readiness tests of the files
a descriptor can name: `File::hang_up`, `r_ready` and `w_ready`.  Of these files
only a pipe end answers `hang_up`; `Stdin`, `Stdout` and the two inode types end
in `todo!()`.  A pipe end asks the weak pointer to the other end that the shared
`PipeRingBuffer` keeps, and `make_pipe` sets only the one to the write end, so
the read end can be polled but the write end panics.

The entries are polled in order; each one that is ready adds `1` to `done`, and
`revents` collects the events found on top of what it held.  The loop then adds
one more to `done` before it tests it, so it never yields and always returns
one more than the entries that were ready.
-/

namespace ChaosKernel.Poll

open Pipe

/-- `PollEvent::POLLIN`. -/
def pollin : UInt16 := 0x001

/-- `PollEvent::POLLOUT`. -/
def pollout : UInt16 := 0x004

/-- `PollEvent::POLLHUP`. -/
def pollhup : UInt16 := 0x010

/-- `PollFd`: the descriptor, the requested events and the returned ones. -/
structure PollFd where
  fd : UInt32
  events : UInt16
  revents : UInt16
  deriving DecidableEq, Repr

/-- `PollEvent::contains`. -/
def contains (events flag : UInt16) : Bool :=
  events &&& flag == flag

/-- The state both ends of one pipe share: the ring buffer, and its weak
pointers `write_end` and `read_end`, each `none` until it is set and otherwise
whether it still upgrades. -/
structure PipeShared where
  buffer : PipeRingBuffer
  writeEnd : Option Bool
  readEnd : Option Bool

/-- The files behind the descriptors: a pipe end with its `readable` field, the
console, and the inodes of the two file systems. -/
inductive PollFile
  | pipe (readable : Bool) (shared : PipeShared)
  | stdin
  | stdout
  | fat32Inode
  | ext4Inode

namespace PipeShared

/-- `PipeRingBuffer::all_write_ends_closed`: `write_end.unwrap().upgrade().is_none()`. -/
def allWriteEndsClosed (self : PipeShared) : Except Panic Bool :=
  match self.writeEnd with
  | none => .error .unwrapNone
  | some alive => .ok !alive

/-- `PipeRingBuffer::all_read_ends_closed`: `read_end.unwrap().upgrade().is_none()`. -/
def allReadEndsClosed (self : PipeShared) : Except Panic Bool :=
  match self.readEnd with
  | none => .error .unwrapNone
  | some alive => .ok !alive

end PipeShared

/-- `make_pipe`: both ends share a new buffer, and only `set_write_end` is
called. -/
def makePipe : PollFile × PollFile :=
  let shared : PipeShared := ⟨.new, some true, none⟩
  (.pipe true shared, .pipe false shared)

namespace PollFile

/-- `File::hang_up`. -/
def hangUp : PollFile → Except Panic Bool
  | pipe readable shared =>
      if readable then shared.allWriteEndsClosed else shared.allReadEndsClosed
  | _ => .error .notImplemented

/-- `File::r_ready`; every file but a pipe keeps the default `true`. -/
def rReady : PollFile → Bool
  | pipe _ shared => shared.buffer.status != .empty
  | _ => true

/-- `File::w_ready`; every file but a pipe keeps the default `true`. -/
def wReady : PollFile → Bool
  | pipe _ shared => shared.buffer.status != .full
  | _ => true

end PollFile

/-- What the body of the `for` loop does to `revents`: `POLLHUP`, `POLLIN` and
`POLLOUT` are or-ed in as they are found. -/
def addEvents (revents : UInt16) (hup pollIn pollOut : Bool) : UInt16 :=
  let revents := if hup then revents ||| pollhup else revents
  let revents := if pollIn then revents ||| pollin else revents
  if pollOut then revents ||| pollout else revents

/-- The body of the `for` loop for one entry: the entry after it, and the
`trigger` it adds to `done`.  An empty descriptor is skipped with `continue`;
one past the end of the table is an out-of-bounds index. -/
def pollEntry (fdTable : List (Option PollFile)) (pollFd : PollFd) :
    Except Panic (PollFd × ℕ) := do
  let fd := pollFd.fd.toNat
  match fdTable[fd]? with
  | none => throw (.sliceOutOfRange fd (fd + 1) fdTable.length)
  | some none => pure (pollFd, 0)
  | some (some file) =>
      let hup ← file.hangUp
      let pollIn := contains pollFd.events pollin && file.rReady
      let pollOut := contains pollFd.events pollout && file.wReady
      pure ({ pollFd with revents := addEvents pollFd.revents hup pollIn pollOut },
        if hup || pollIn || pollOut then 1 else 0)

/-- The `for i in 0..nfds` loop over the entries: the entries after it, and the
sum of their triggers. -/
def pollPass (fdTable : List (Option PollFile)) : List PollFd → Except Panic (List PollFd × ℕ)
  | [] => pure ([], 0)
  | pollFd :: pollFds => do
      let (pollFd, trigger) ← pollEntry fdTable pollFd
      let (pollFds, done) ← pollPass fdTable pollFds
      pure (pollFd :: pollFds, trigger + done)

/-- The `loop` of `sys_ppoll`, with `done` so far and `fuel` turns of it: a turn
polls every entry, adds one to `done`, and returns once `done` is positive, or
else yields and takes another turn. -/
def ppollLoop (fdTable : List (Option PollFile)) :
    ℕ → List PollFd → ℕ → Except Panic (Option (List PollFd × ℕ))
  | 0, _, _ => pure none
  | fuel + 1, pollFds, done => do
      let (pollFds, triggered) ← pollPass fdTable pollFds
      let done := done + triggered + 1
      if done > 0 then pure (some (pollFds, done))
      else ppollLoop fdTable fuel pollFds done

/-- `sys_ppoll(fds, nfds, tmo_p, sigmask)` over the `nfds` entries at `fds`,
with `fuel` turns of its loop; `none` when they run out. -/
def sysPpoll (fdTable : List (Option PollFile)) (pollFds : List PollFd) (fuel : ℕ) :
    Except Panic (Option (List PollFd × ℕ)) :=
  ppollLoop fdTable fuel pollFds 0

/-! ## What one call computes -/

/-- The events one entry finds on `file`: `POLLHUP` when it has hung up, and
`POLLIN` and `POLLOUT` when they are requested and the file is ready. -/
def readyEvents (file : PollFile) (hup : Bool) (events : UInt16) : UInt16 :=
  addEvents 0 hup (contains events pollin && file.rReady) (contains events pollout && file.wReady)

/-- An entry polling can take: its descriptor is inside the table, and the file
there, if any, answers `hang_up` without a panic. -/
def Pollable (fdTable : List (Option PollFile)) (pollFd : PollFd) : Prop :=
  match fdTable[pollFd.fd.toNat]? with
  | none => False
  | some none => True
  | some (some file) => ∃ hup, file.hangUp = .ok hup

/-- The events polling finds for an entry: none for an empty descriptor (and,
conventionally, for one it cannot take). -/
def foundEvents (fdTable : List (Option PollFile)) (pollFd : PollFd) : UInt16 :=
  match fdTable[pollFd.fd.toNat]? with
  | some (some file) =>
      match file.hangUp with
      | .ok hup => readyEvents file hup pollFd.events
      | .error _ => 0
  | _ => 0

section Spec

variable {fdTable : List (Option PollFile)}

/-- The body ors into `revents` what it would find from nothing. -/
theorem addEvents_eq_or (revents : UInt16) (hup pollIn pollOut : Bool) :
    addEvents revents hup pollIn pollOut = revents ||| addEvents 0 hup pollIn pollOut := by
  cases hup <;> cases pollIn <;> cases pollOut <;>
    simp [addEvents, UInt16.or_zero, UInt16.zero_or, UInt16.or_assoc]

/-- An entry is triggered exactly when it finds some event. -/
theorem addEvents_zero_eq_zero_iff (hup pollIn pollOut : Bool) :
    addEvents 0 hup pollIn pollOut = 0 ↔ (hup || pollIn || pollOut) = false := by
  cases hup <;> cases pollIn <;> cases pollOut <;> decide

/-- One entry: `revents` takes the events found on top of what it held, and the
entry adds `1` to `done` when it found any. -/
theorem pollEntry_of_pollable {pollFd : PollFd} (h : Pollable fdTable pollFd) :
    pollEntry fdTable pollFd =
      .ok ({ pollFd with revents := pollFd.revents ||| foundEvents fdTable pollFd },
        if foundEvents fdTable pollFd = 0 then 0 else 1) := by
  unfold Pollable at h
  unfold pollEntry foundEvents
  split at h
  · exact absurd h not_false
  · next hslot =>
    -- an empty descriptor is skipped and finds nothing
    simp only [hslot, UInt16.or_zero]
    rfl
  · next file hslot =>
    obtain ⟨hup, hhup⟩ := h
    simp only [hslot, hhup, bind, Except.bind, pure, Except.pure, readyEvents]
    rw [← addEvents_eq_or]
    cases htrigger : (hup || (contains pollFd.events pollin && file.rReady) ||
        (contains pollFd.events pollout && file.wReady))
    · rw [if_neg Bool.false_ne_true, if_pos ((addEvents_zero_eq_zero_iff _ _ _).2 htrigger)]
    · rw [if_pos rfl, if_neg fun h => by simp [(addEvents_zero_eq_zero_iff _ _ _).1 h] at htrigger]

/-- The `for` loop over entries it can all take: each entry's `revents` takes
what it found, and `done` counts the entries that found an event. -/
theorem pollPass_of_pollable :
    ∀ {pollFds : List PollFd}, (∀ p ∈ pollFds, Pollable fdTable p) →
      pollPass fdTable pollFds =
        .ok (pollFds.map fun p => { p with revents := p.revents ||| foundEvents fdTable p },
          (pollFds.filter fun p => foundEvents fdTable p ≠ 0).length)
  | [], _ => rfl
  | p :: ps, h => by
      have hrest := pollPass_of_pollable fun q hq => h q (List.mem_cons_of_mem p hq)
      simp only [pollPass, pollEntry_of_pollable (h p List.mem_cons_self), hrest, bind,
        Except.bind, pure, Except.pure, List.map_cons, List.filter_cons]
      by_cases hfound : foundEvents fdTable p = 0
      · simp [hfound]
      · simp only [hfound, ne_eq, not_false_eq_true, decide_true, ↓reduceIte,
          List.length_cons]
        congr 2
        omega

/-- A turn of the loop adds one to `done` after the pass, so it returns on the
first turn. -/
theorem ppollLoop_succ (fuel : ℕ) (pollFds : List PollFd) (done : ℕ) :
    ppollLoop fdTable (fuel + 1) pollFds done =
      (pollPass fdTable pollFds).map fun (pollFds, triggered) =>
        some (pollFds, done + triggered + 1) := by
  simp only [ppollLoop]
  cases pollPass fdTable pollFds with
  | error e => rfl
  | ok pass =>
      obtain ⟨pollFds, triggered⟩ := pass
      simp only [bind, Except.bind, Except.map]
      rw [if_pos (by omega)]
      rfl

/-- `sys_ppoll` over entries it can all take returns on its first turn: each
entry's `revents` gains the events found on its file, and the result counts
the entries that found any, plus one. -/
theorem sysPpoll_of_pollable {pollFds : List PollFd} (h : ∀ p ∈ pollFds, Pollable fdTable p)
    (fuel : ℕ) :
    sysPpoll fdTable pollFds (fuel + 1) =
      .ok (some (pollFds.map (fun p => { p with revents := p.revents ||| foundEvents fdTable p }),
        (pollFds.filter fun p => foundEvents fdTable p ≠ 0).length + 1)) := by
  unfold sysPpoll
  rw [ppollLoop_succ, pollPass_of_pollable h]
  simp only [Except.map, Nat.zero_add]

end Spec

/-- The descriptor table of a task that has just called `pipe`: the read end at
`0` and the write end at `1`. -/
def pipeFdTable : List (Option PollFile) :=
  [some makePipe.1, some makePipe.2]

theorem sysPpoll_of_pollable_on_read_end :
    (∀ p ∈ [(⟨0, pollin, 0⟩ : PollFd)], Pollable pipeFdTable p) ∧
      sysPpoll pipeFdTable [⟨0, pollin, 0⟩] 1 =
        .ok (some ([(⟨0, pollin, 0⟩ : PollFd)].map (fun p =>
            { p with revents := p.revents ||| foundEvents pipeFdTable p }),
          ([(⟨0, pollin, 0⟩ : PollFd)].filter fun p => foundEvents pipeFdTable p ≠ 0).length + 1)) := by
  have hread : ∀ p ∈ [(⟨0, pollin, 0⟩ : PollFd)], Pollable pipeFdTable p := by
    intro p hp
    rw [List.mem_singleton] at hp
    subst hp
    show ∃ hup, makePipe.1.hangUp = .ok hup
    exact ⟨false, rfl⟩
  exact ⟨hread, sysPpoll_of_pollable hread 0⟩

/-- On a fresh pipe: an entry that finds nothing still makes the call return
`1`; a stale `revents` is kept; and polling the write end panics, since
`make_pipe` never sets the buffer's read end. -/
theorem ppoll_counts_one_extra_keeps_revents_and_panics_on_write_end :
    sysPpoll pipeFdTable [⟨0, pollin, 0⟩] 1 = .ok (some ([⟨0, pollin, 0⟩], 1)) ∧
      sysPpoll pipeFdTable [⟨0, pollin, pollout⟩] 1 = .ok (some ([⟨0, pollin, pollout⟩], 1)) ∧
      sysPpoll pipeFdTable [⟨1, pollout, 0⟩] 1 = .error .unwrapNone :=
  ⟨rfl, rfl, rfl⟩

end ChaosKernel.Poll
