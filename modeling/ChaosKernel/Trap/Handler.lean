import ChaosKernel.Fs.Pipe
import ChaosKernel.Syscall.Fd
import ChaosKernel.Task.Wait

/-!
# Returning from a system call

`trap_handler` of `os/src/trap/mod.rs` for `UserEnvCall`, and the two registers
its return path rests on: `satp` and the `SUM` bit of `sstatus`.  The kernel runs
under the page table of the task that trapped (`__alltraps` loads no `satp`),
reaches user memory through raw pointers between `set_sum` and `clear_sum`, and
`__switch` saves neither register, so a task switched back in finds both as the
last task left them.  `trap_handler` compares `satp` on entry and on exit: when
they differ it re-enters the task through `user_entry`, which reloads the task's
`satp` but does not write the return value into `a0`.

`TrapSystem` follows one task through `sys_yield`, `sys_write`, `sys_read` and
`sys_wait4`, the latter three down to `Pipe::write`, `Pipe::read`,
`Stdin::read` and `Stdout::write`, one pass of their loops at a time.  What the
other tasks do while the task is switched out is a `resume` that leaves any
`satp`, `SUM`, pipe and process table behind.  Every access through a user
pointer is logged with the `satp` and `SUM` it runs under.

`AccessInv` says what the code does guarantee of each access, and `Inv` carries
it over every run.  Before the task is first switched out, every access runs
under its own `satp`, but those of `Pipe::write` run with `SUM` clear, since
`sys_write` clears it before the call; after a switch, only `Pipe::read` and
`sys_wait4` call `wait_return` to take back their `satp`.
-/

namespace ChaosKernel.Trap

open Lib Pipe FdTable Process

/-- `EACCES`. -/
def eacces : ℤ := -13

/-- The fields of the task's `TrapContext` the return path reads and writes:
`x[10]` (`a0`), `sepc`, and `SUM` of the saved `sstatus`. -/
structure TrapContext where
  x10 : ℕ
  sepc : ℕ
  sum : Bool
  deriving DecidableEq, Repr

/-- The files the modelled calls reach through the descriptor table: either end
of a pipe, and the console. -/
inductive File
  | pipe
  | stdin
  | stdout
  deriving DecidableEq, Repr

namespace File

/-- `File::readable`; a pipe answers `true` for either end. -/
def readable : File → Bool
  | pipe => true
  | stdin => true
  | stdout => false

/-- `File::writable`; a pipe answers `true` for either end. -/
def writable : File → Bool
  | pipe => true
  | stdin => false
  | stdout => true

end File

/-- A system call by number, with its arguments after `a0`, which is the
descriptor of `sys_write` and `sys_read` and the `pid` of `sys_wait4`:
`sys_write` with the bytes `buf` points at (`len` is their number), `sys_read`
with `len`, and `sys_wait4` with `exit_code_ptr` and `option`. -/
inductive Syscall
  | yield
  | write (buf : List UInt8)
  | read (len : ℕ)
  | wait4 (exitCodePtr option : ℕ)
  deriving DecidableEq, Repr

/-- The code that makes an access through a user pointer. -/
inductive Site
  | stdoutWrite
  | pipeWrite
  | pipeRead
  | stdinRead
  | wait4
  deriving DecidableEq, Repr

/-- One access through a raw pointer into the task's memory: the `satp` and
`SUM` it runs under, the code that makes it, and whether the task had been
switched out since its `ecall`. -/
structure Access where
  satp : ℕ
  sum : Bool
  site : Site
  switched : Bool
  deriving DecidableEq, Repr

/-- Where the call in progress stands: at the top of the `loop` of
`Pipe::write`, of `Pipe::read`, of `Stdin::read` for a buffer of `len` bytes or
of `sys_wait4`; in `sys_yield`; or returned to `trap_handler` with `result`. -/
inductive Call
  | pipeWrite (call : WriteCall)
  | pipeRead (call : ReadCall)
  | stdinRead (len : ℕ)
  | wait4 (pid : ℤ) (exitCodePtr option : ℕ)
  | yield
  | returned (result : ℤ)
  deriving DecidableEq, Repr

/-- The task runs in user mode, runs `call` in the kernel, or is switched out
inside `call`. -/
inductive Phase
  | user
  | kernel (call : Call)
  | switchedOut (call : Call)
  deriving DecidableEq, Repr

/-- The hart, and the task `task` of `procs` with what its calls read. -/
structure TrapSystem where
  /-- `satp` of the hart. -/
  satp : ℕ
  /-- `SUM` of the hart's `sstatus`. -/
  sum : Bool
  /-- `memory_set.token()` of the task. -/
  token : ℕ
  task : ℕ
  /-- The task's trap context. -/
  cx : TrapContext
  /-- `call_trap_process_satp` of the `trap_handler` in progress. -/
  callTrapProcessSatp : ℕ
  phase : Phase
  fdTable : List (Option File)
  /-- The pipe behind the task's pipe descriptors. -/
  pipe : PipeRingBuffer
  writeEndsClosed : Bool
  /-- What `console_getchar` returns, call after call. -/
  console : List ℕ
  procs : ProcessSystem
  /-- Ghost: the context `__alltraps` saved at the last `ecall`. -/
  ecallCx : TrapContext
  /-- Ghost: whether the task has been switched out since that `ecall`. -/
  switched : Bool
  /-- Ghost: the accesses through user pointers so far, in order. -/
  accesses : List Access

/-- What happens next: the task traps with `ecall` at `sepc` with `a0` in its
register; the call runs one pass of its loop; the task, switched out inside its
call or preempted in user mode, is switched back in after the other tasks left
`satp`, `SUM`, the pipe and the process table as given; or `trap_handler`
returns to user mode. -/
inductive TrapOp
  | ecall (a0 sepc : ℕ) (syscall : Syscall)
  | pass
  | resume (satp : ℕ) (sum : Bool) (pipe : PipeRingBuffer) (writeEndsClosed : Bool)
      (procs : ProcessSystem)
  | leave

namespace TrapSystem

variable (s : TrapSystem)

/-- `sstatus::set_sum`. -/
def setSum : TrapSystem := { s with sum := true }

/-- `sstatus::clear_sum`. -/
def clearSum : TrapSystem := { s with sum := false }

/-- `trap::wait_return`: reload the task's `satp`. -/
def waitReturn : TrapSystem := { s with satp := s.token }

/-- `count` accesses from `site` under the hart's `satp` and `SUM`. -/
def access (site : Site) (count : ℕ) : TrapSystem :=
  { s with accesses := s.accesses ++ List.replicate count ⟨s.satp, s.sum, site, s.switched⟩ }

/-- `suspend_current_and_run_next` inside `call`. -/
def suspend (call : Call) : TrapSystem :=
  { s with phase := .switchedOut call, switched := true }

/-- The call goes on at `call`. -/
def continueAt (call : Call) : TrapSystem := { s with phase := .kernel call }

/-- The call returns `result` to `trap_handler`. -/
def returnWith (result : ℤ) : TrapSystem := s.continueAt (.returned result)

/-- `Stdout::write`: `from_utf8` and `print!` read the slice between `set_sum`
and `clear_sum`; the call returns its length. -/
def stdoutWrite (buf : List UInt8) : TrapSystem × ℕ :=
  ((s.setSum.access .stdoutWrite buf.length).clearSum, buf.length)

/-- `sys_write(fd, buf, len)` up to the loop of `Pipe::write`, or its return. -/
def sysWrite (fd : ℕ) (buf : List UInt8) : Option TrapSystem :=
  match slot s.fdTable fd with
  | none => some (s.returnWith ebadf)
  | some file =>
      if !file.writable then some (s.returnWith eacces)
      else
        -- the slice is built between `set_sum` and `clear_sum`, and used after
        let s := s.setSum.clearSum
        match file with
        | .pipe => some (s.continueAt (.pipeWrite ⟨buf, 0, buf.length⟩))
        | .stdout =>
            match s.stdoutWrite buf with
            | (s, written) => some (s.returnWith (usizeToIsize written))
        -- `Stdin::write` panics, but `writable` has turned stdin away
        | .stdin => none

/-- `sys_read(fd, buf, len)` up to the loop of the file's `read`, or its return. -/
def sysRead (fd len : ℕ) : Option TrapSystem :=
  match slot s.fdTable fd with
  | none => some (s.returnWith ebadf)
  | some file =>
      if !file.readable then some (s.returnWith eacces)
      else
        -- `SUM` stays set until `file.read` returns
        let s := s.setSum
        match file with
        | .pipe => some (s.continueAt (.pipeRead ⟨len, 0, len⟩))
        -- `Stdin::read` sets `SUM` once more before its loop
        | .stdin => some (s.setSum.continueAt (.stdinRead len))
        -- `Stdout::read` panics, but `readable` has turned stdout away
        | .stdout => none

/-- One pass of the `loop` of `Pipe::write`: yield while the buffer has no room,
else store bytes, each read through the user slice. -/
def pipeWritePass (call : WriteCall) : TrapSystem :=
  if s.pipe.availableWrite = 0 then s.suspend (.pipeWrite call)
  else
    match PipeRingBuffer.writeLoop s.pipe.availableWrite s.pipe call.rest call.alreadyWrite
        call.wantToWrite with
    | (pipe, rest, alreadyWrite, done) =>
        let s := { s.access .pipeWrite (alreadyWrite - call.alreadyWrite) with pipe }
        if done then s.returnWith (usizeToIsize alreadyWrite)
        else s.continueAt (.pipeWrite { call with rest, alreadyWrite })

/-- One pass of the `loop` of `Pipe::read` inside `sys_read`, which clears `SUM`
once `Pipe::read` returns: with no data, return if every write end is closed and
yield otherwise; else store bytes through the user slice. -/
def pipeReadPass (call : ReadCall) : TrapSystem :=
  if s.pipe.availableRead = 0 then
    if s.writeEndsClosed then s.clearSum.returnWith (usizeToIsize call.alreadyRead)
    else s.suspend (.pipeRead call)
  else
    match PipeRingBuffer.readLoop s.pipe.availableRead s.pipe call.space call.alreadyRead
        call.wantToRead with
    | (pipe, bytes, space, alreadyRead, done) =>
        let s := { s.access .pipeRead bytes.length with pipe }
        if done then s.clearSum.returnWith (usizeToIsize alreadyRead)
        else s.continueAt (.pipeRead { call with space, alreadyRead })

/-- One pass of the `loop` of `Stdin::read` inside `sys_read`: yield while
`console_getchar` returns `0`, else store the character at `user_buf[0]`, a
panic for an empty buffer, and clear `SUM`, as `Stdin::read` and then
`sys_read` do. -/
def stdinReadPass (len : ℕ) : Option TrapSystem :=
  match s.console with
  -- past the input given, the model does not say what the console returns
  | [] => none
  | c :: console =>
      let s := { s with console }
      if c = 0 then some (s.suspend (.stdinRead len))
      else if len = 0 then none
      else some ((s.access .stdinRead 1).clearSum.returnWith 1)

/-- One pass of the `loop` of `sys_wait4`, as `sysWait4` of the process model
decides it: an exit code is stored through `exit_code_ptr` between `set_sum`
and `clear_sum`. -/
def wait4Pass (pid : ℤ) (exitCodePtr option : ℕ) : Option TrapSystem :=
  match sysWait4 s.procs s.task pid exitCodePtr option with
  | .error _ => none
  | .ok (.returned value store, procs) =>
      let s := { s with procs }
      match store with
      | some _ => some ((s.setSum.access .wait4 1).clearSum.returnWith value)
      | none => some (s.returnWith value)
  | .ok (.suspended, procs) => some ({ s with procs }.suspend (.wait4 pid exitCodePtr option))

/-- What the task runs once `suspend_current_and_run_next` returns inside
`call`: `sys_yield` returns `0`, and `Pipe::read` and `sys_wait4` call
`wait_return` before they take their loop again. -/
def resumeAt : Call → TrapSystem
  | .yield => s.returnWith 0
  | .pipeRead call => s.waitReturn.continueAt (.pipeRead call)
  | .wait4 pid exitCodePtr option => s.waitReturn.continueAt (.wait4 pid exitCodePtr option)
  | call => s.continueAt call

/-- The timer path of `trap_handler` for a task preempted in user mode, back
from `suspend_current_and_run_next` with `satp` as the other tasks left it:
`user_entry` reloads the task's `satp` when it differs from that on entry, and
`trap_return` keeps it otherwise; either way `SUM` comes back from the saved
`sstatus`. -/
def preempt (satp : ℕ) : TrapSystem :=
  { s with satp := if s.satp ≠ satp then s.token else satp }

/-- `__alltraps` and the start of `trap_handler` for an `ecall` at `sepc`: the
context is saved, `satp` noted, and `sepc` moved past the `ecall`. -/
def enter (a0 sepc : ℕ) : TrapSystem :=
  let saved : TrapContext := ⟨a0, sepc, s.sum⟩
  { s with cx := { saved with sepc := sepc + 4 }, ecallCx := saved,
           callTrapProcessSatp := s.satp, switched := false }

/-- `syscall` for the modelled numbers, with `a0` the first argument. -/
def syscall (a0 : ℕ) : Syscall → Option TrapSystem
  | .yield => some (s.suspend .yield)
  | .write buf => s.sysWrite a0 buf
  | .read len => s.sysRead a0 len
  | .wait4 exitCodePtr option =>
      some (s.continueAt (.wait4 (usizeToIsize a0) exitCodePtr option))

/-- The end of `trap_handler` for a call that returned `result`.  With `satp`
not what it was on entry, `user_entry` reloads the task's `satp` and leaves `a0`
as it was; otherwise `a0` takes the result and `trap_return` keeps `satp`.  Both
reload `SUM` from the saved `sstatus`. -/
def leave (result : ℤ) : TrapSystem :=
  if s.callTrapProcessSatp ≠ s.satp then
    { s with satp := s.token, sum := s.cx.sum, phase := .user }
  else
    let cx := { s.cx with x10 := isizeToUsize result }
    { s with cx, sum := cx.sum, phase := .user }

/-- A step of the task and the hart. -/
def step : TrapOp → Option TrapSystem
  | .ecall a0 sepc syscall =>
      match s.phase with
      | .user => (s.enter a0 sepc).syscall a0 syscall
      | _ => none
  | .pass =>
      match s.phase with
      | .kernel (.pipeWrite call) => some (s.pipeWritePass call)
      | .kernel (.pipeRead call) => some (s.pipeReadPass call)
      | .kernel (.stdinRead len) => s.stdinReadPass len
      | .kernel (.wait4 pid exitCodePtr option) => s.wait4Pass pid exitCodePtr option
      | _ => none
  | .resume satp sum pipe writeEndsClosed procs =>
      match s.phase with
      | .user => some ({ s with pipe, writeEndsClosed, procs }.preempt satp)
      | .switchedOut call => some ({ s with satp, sum, pipe, writeEndsClosed, procs }.resumeAt call)
      | .kernel _ => none
  | .leave =>
      match s.phase with
      | .kernel (.returned result) => some (s.leave result)
      | _ => none

/-- The task in user mode under its own page table, with `SUM` as its saved
`sstatus` has it. -/
def init (token task : ℕ) (cx : TrapContext) (fdTable : List (Option File))
    (pipe : PipeRingBuffer) (writeEndsClosed : Bool) (console : List ℕ)
    (procs : ProcessSystem) : TrapSystem :=
  { satp := token, sum := cx.sum, token, task, cx, callTrapProcessSatp := token,
    phase := .user, fdTable, pipe, writeEndsClosed, console, procs, ecallCx := cx,
    switched := false, accesses := [] }

end TrapSystem

/-! ## What the code guarantees -/

/-- What the code guarantees of an access through a user pointer of the task
whose page table is `token`. -/
structure AccessInv (token : ℕ) (a : Access) : Prop where
  /-- Until the task is first switched out, `satp` is still its own. -/
  satp_of_unswitched : a.switched = false → a.satp = token
  /-- `Pipe::read` and `sys_wait4` call `wait_return` after every yield. -/
  satp_of_waitReturn : a.site = .pipeRead ∨ a.site = .wait4 → a.satp = token
  /-- Until then, `SUM` is set for every access but those of `Pipe::write`. -/
  sum_of_unswitched : a.switched = false → (a.sum = true ↔ a.site ≠ .pipeWrite)
  /-- `Stdout::write` and `sys_wait4` set `SUM` right before their accesses. -/
  sum_of_setSum : a.site = .stdoutWrite ∨ a.site = .wait4 → a.sum = true

namespace TrapSystem

/-- `trap_handler` is running for the task's `ecall`: it noted the task's `satp`
on entry, and the saved context has `sepc` past the `ecall`. -/
def Entered (s : TrapSystem) : Prop :=
  s.callTrapProcessSatp = s.token ∧ s.cx = { s.ecallCx with sepc := s.ecallCx.sepc + 4 }

/-- What holds of the hart at the top of each loop until the task is switched
out: `sys_write` has cleared `SUM` before `Pipe::write`, `sys_read` has set it
before `Pipe::read` and `Stdin::read`; and `Pipe::read` and `sys_wait4` have
their `satp` back after every yield. -/
def CallInv (s : TrapSystem) : Call → Prop
  | .pipeWrite _ => s.switched = false → s.sum = false
  | .pipeRead _ => s.satp = s.token ∧ (s.switched = false → s.sum = true)
  | .stdinRead _ => s.switched = false → s.sum = true
  | .wait4 .. => s.satp = s.token
  | _ => True

/-- What holds at each phase: in user mode the task runs under its own `satp`,
and a task switched out inside a call is marked so. -/
def PhaseInv (s : TrapSystem) : Phase → Prop
  | .user => s.satp = s.token
  | .kernel call => s.Entered ∧ s.CallInv call
  | .switchedOut _ => s.Entered ∧ s.switched = true

/-- The invariant of the task and the hart, for a task whose page table is
`token`. -/
structure Inv (token : ℕ) (s : TrapSystem) : Prop where
  /-- The task keeps its page table. -/
  token_eq : s.token = token
  phase : s.PhaseInv s.phase
  /-- Only a switch changes `satp` inside a call. -/
  unswitched_satp : s.switched = false → s.satp = s.token
  accesses : ∀ a ∈ s.accesses, AccessInv s.token a

section Preservation

variable {token : ℕ} {s s' : TrapSystem}

/-- The invariant read at a known phase. -/
theorem Inv.at_phase (hinv : Inv token s) {phase : Phase} (hphase : s.phase = phase) :
    s.PhaseInv phase := by
  rw [← hphase]
  exact hinv.phase

theorem Inv.entered (hinv : Inv token s) (hphase : s.phase ≠ .user) : s.Entered := by
  cases hp : s.phase with
  | user => exact absurd hp hphase
  | kernel call => exact (hinv.at_phase hp).1
  | switchedOut call => exact (hinv.at_phase hp).1

/-- A call in the kernel at `call`, from the parts of the invariant. -/
theorem inv_of_kernel {call : Call} (hphase : s.phase = .kernel call) (htoken : s.token = token)
    (hentered : s.Entered) (hcall : s.CallInv call)
    (hsatp : s.switched = false → s.satp = s.token)
    (hacc : ∀ a ∈ s.accesses, AccessInv s.token a) : Inv token s :=
  ⟨htoken, by rw [hphase]; exact ⟨hentered, hcall⟩, hsatp, hacc⟩

theorem inv_continueAt {call : Call} (htoken : s.token = token) (hentered : s.Entered)
    (hcall : s.CallInv call) (hsatp : s.switched = false → s.satp = s.token)
    (hacc : ∀ a ∈ s.accesses, AccessInv s.token a) : Inv token (s.continueAt call) :=
  inv_of_kernel rfl htoken hentered hcall hsatp hacc

/-- Suspending keeps the invariant: `satp` is free from here on. -/
theorem Inv.suspend (hinv : Inv token s) (hentered : s.Entered) (call : Call) :
    Inv token (s.suspend call) :=
  ⟨hinv.token_eq, ⟨hentered, rfl⟩, fun h => Bool.noConfusion h, hinv.accesses⟩

/-- The invariant does not read the pipe, the console or the process table. -/
theorem Inv.withEnv (hinv : Inv token s) (pipe : PipeRingBuffer) (writeEndsClosed : Bool)
    (console : List ℕ) (procs : ProcessSystem) :
    Inv token { s with pipe, writeEndsClosed, console, procs } :=
  ⟨hinv.token_eq, hinv.phase, hinv.unswitched_satp, hinv.accesses⟩

/-- New accesses keep the log guaranteed when the code guarantees them. -/
theorem Inv.accesses_access (hinv : Inv token s) {site : Site} {count : ℕ}
    (hnew : AccessInv s.token ⟨s.satp, s.sum, site, s.switched⟩) :
    ∀ a ∈ (s.access site count).accesses, AccessInv s.token a := by
  intro a ha
  rcases List.mem_append.1 ha with ha | ha
  · exact hinv.accesses a ha
  · rw [List.eq_of_mem_replicate ha]
    exact hnew

/-- The bytes of `Pipe::write` are read under the hart's `satp` and with `SUM`
as `sys_write` left it, clear until the task is switched out. -/
theorem inv_pipeWritePass (hinv : Inv token s) {call : WriteCall}
    (hphase : s.phase = .kernel (.pipeWrite call)) : Inv token (s.pipeWritePass call) := by
  obtain ⟨hentered, hsum⟩ := hinv.at_phase hphase
  have hnew : AccessInv s.token ⟨s.satp, s.sum, .pipeWrite, s.switched⟩ :=
    ⟨hinv.unswitched_satp, by simp, fun h => by simp [hsum h], by simp⟩
  unfold pipeWritePass
  split_ifs with hroom
  · exact hinv.suspend hentered _
  · split
    next pipe rest alreadyWrite done _ =>
      dsimp only
      split_ifs
      · exact inv_continueAt hinv.token_eq hentered trivial hinv.unswitched_satp
          (hinv.accesses_access hnew)
      · exact inv_continueAt hinv.token_eq hentered hsum hinv.unswitched_satp
          (hinv.accesses_access hnew)

/-- `Pipe::read` stores under the task's own `satp`, which `wait_return` takes
back after every yield, with `SUM` set until the task is switched out. -/
theorem inv_pipeReadPass (hinv : Inv token s) {call : ReadCall}
    (hphase : s.phase = .kernel (.pipeRead call)) : Inv token (s.pipeReadPass call) := by
  obtain ⟨hentered, hsatp, hsum⟩ := hinv.at_phase hphase
  have hnew : AccessInv s.token ⟨s.satp, s.sum, .pipeRead, s.switched⟩ :=
    ⟨fun _ => hsatp, fun _ => hsatp, fun h => by simp [hsum h], by simp⟩
  unfold pipeReadPass
  split_ifs with hempty hclosed
  · exact inv_continueAt hinv.token_eq hentered trivial hinv.unswitched_satp hinv.accesses
  · exact hinv.suspend hentered _
  · split
    next pipe bytes space alreadyRead done _ =>
      dsimp only
      split_ifs
      · exact inv_continueAt hinv.token_eq hentered trivial hinv.unswitched_satp
          (hinv.accesses_access hnew)
      · exact inv_continueAt hinv.token_eq hentered ⟨hsatp, hsum⟩ hinv.unswitched_satp
          (hinv.accesses_access hnew)

/-- `Stdin::read` stores its character with `SUM` set until the task is switched
out, and under the task's `satp` until then. -/
theorem inv_stdinReadPass (hinv : Inv token s) {len : ℕ}
    (hphase : s.phase = .kernel (.stdinRead len)) (h : s.stdinReadPass len = some s') :
    Inv token s' := by
  obtain ⟨hentered, hsum⟩ := hinv.at_phase hphase
  have hnew : AccessInv s.token ⟨s.satp, s.sum, .stdinRead, s.switched⟩ :=
    ⟨hinv.unswitched_satp, by simp, fun h => by simp [hsum h], by simp⟩
  unfold stdinReadPass at h
  split at h
  · cases h
  · next c console _ =>
    split_ifs at h with hc hlen <;> cases h
    · exact (hinv.withEnv s.pipe s.writeEndsClosed console s.procs).suspend hentered _
    · exact inv_continueAt hinv.token_eq hentered trivial hinv.unswitched_satp
        ((hinv.withEnv s.pipe s.writeEndsClosed console s.procs).accesses_access hnew)

/-- `sys_wait4` stores the exit code with `SUM` just set, under the `satp` that
`wait_return` took back. -/
theorem inv_wait4Pass (hinv : Inv token s) {pid : ℤ} {exitCodePtr option : ℕ}
    (hphase : s.phase = .kernel (.wait4 pid exitCodePtr option))
    (h : s.wait4Pass pid exitCodePtr option = some s') : Inv token s' := by
  obtain ⟨hentered, hsatp⟩ := hinv.at_phase hphase
  unfold wait4Pass at h
  split at h
  · cases h
  · next value store procs _ =>
    have henv := hinv.withEnv s.pipe s.writeEndsClosed s.console procs
    split at h <;> cases h
    · have hnew : AccessInv s.token ⟨s.satp, true, .wait4, s.switched⟩ :=
        ⟨fun _ => hsatp, fun _ => hsatp, by simp, by simp⟩
      have hset : Inv token ({ s with procs } : TrapSystem).setSum :=
        inv_of_kernel hphase hinv.token_eq hentered hsatp henv.unswitched_satp henv.accesses
      exact inv_continueAt hinv.token_eq hentered trivial hinv.unswitched_satp
        (hset.accesses_access hnew)
    · exact inv_continueAt hinv.token_eq hentered trivial hinv.unswitched_satp hinv.accesses
  · next procs _ =>
    cases h
    exact (hinv.withEnv s.pipe s.writeEndsClosed s.console procs).suspend hentered _

/-- Back from a switch inside a call: `Pipe::read` and `sys_wait4` take their
`satp` back with `wait_return`; nothing else is known of `satp` and `SUM` for
the rest of the call. -/
theorem inv_resume (hinv : Inv token s) {call : Call} (hphase : s.phase = .switchedOut call)
    (satp : ℕ) (sum : Bool) (pipe : PipeRingBuffer) (writeEndsClosed : Bool)
    (procs : ProcessSystem) :
    Inv token ({ s with satp, sum, pipe, writeEndsClosed, procs }.resumeAt call) := by
  obtain ⟨hentered, hswitched⟩ := hinv.at_phase hphase
  have hfree : ∀ {P : Prop}, s.switched = false → P := fun h =>
    absurd (hswitched.symm.trans h) Bool.noConfusion
  cases call with
  | pipeWrite c => exact inv_continueAt hinv.token_eq hentered hfree hfree hinv.accesses
  | pipeRead c => exact inv_continueAt hinv.token_eq hentered ⟨rfl, hfree⟩ hfree hinv.accesses
  | stdinRead len => exact inv_continueAt hinv.token_eq hentered hfree hfree hinv.accesses
  | wait4 pid exitCodePtr option =>
      exact inv_continueAt hinv.token_eq hentered rfl hfree hinv.accesses
  | yield => exact inv_continueAt hinv.token_eq hentered trivial hfree hinv.accesses
  | returned result => exact inv_continueAt hinv.token_eq hentered trivial hfree hinv.accesses

/-- In user mode, the invariant does not read `SUM`. -/
theorem Inv.withSum (hinv : Inv token s) (hphase : s.phase = .user) (sum : Bool) :
    Inv token { s with sum } :=
  ⟨hinv.token_eq, by rw [show (_ : TrapSystem).phase = _ from hphase]; exact hinv.at_phase hphase,
    hinv.unswitched_satp, hinv.accesses⟩

/-- Either way out of the timer path the task has its own `satp`. -/
theorem satp_preempt (hsatp : s.satp = s.token) (satp : ℕ) : (s.preempt satp).satp = s.token := by
  by_cases h : s.satp = satp
  · simp only [preempt, h, ne_eq, not_true_eq_false, if_false]
    rw [← h, hsatp]
  · simp only [preempt, ne_eq, h, not_false_eq_true, if_true]

theorem inv_preempt (hinv : Inv token s) (hphase : s.phase = .user) (satp : ℕ)
    (pipe : PipeRingBuffer) (writeEndsClosed : Bool) (procs : ProcessSystem) :
    Inv token ({ s with pipe, writeEndsClosed, procs }.preempt satp) := by
  have hsatp : s.satp = s.token := hinv.at_phase hphase
  have hsatp' := satp_preempt (s := { s with pipe, writeEndsClosed, procs }) hsatp satp
  exact ⟨hinv.token_eq, by rw [show (_ : TrapSystem).phase = _ from hphase]; exact hsatp',
    fun _ => hsatp', hinv.accesses⟩

/-- Either way out of `trap_handler` the task has its own `satp`: `user_entry`
reloads it, and `trap_return` runs only when it was never changed. -/
theorem satp_leave (hentered : s.Entered) (result : ℤ) : (s.leave result).satp = s.token := by
  unfold leave
  split_ifs with h
  · rfl
  · exact (not_not.1 h).symm.trans hentered.1

theorem phase_leave (result : ℤ) : (s.leave result).phase = .user := by
  unfold leave
  split_ifs <;> rfl

theorem token_leave (result : ℤ) : (s.leave result).token = s.token := by
  unfold leave
  split_ifs <;> rfl

theorem inv_leave (hinv : Inv token s) (hentered : s.Entered) (result : ℤ) :
    Inv token (s.leave result) := by
  have hsatp := (satp_leave hentered result).trans (token_leave result).symm
  refine ⟨(token_leave result).trans hinv.token_eq, ?_, fun _ => hsatp, ?_⟩
  · rw [phase_leave]
    exact hsatp
  · unfold leave
    split_ifs <;> exact hinv.accesses

/-- `__alltraps` saves the context and `trap_handler` notes the task's own `satp`. -/
theorem inv_enter (hinv : Inv token s) (hphase : s.phase = .user) (a0 sepc : ℕ) :
    Inv token (s.enter a0 sepc) ∧ (s.enter a0 sepc).Entered ∧ (s.enter a0 sepc).satp = s.token := by
  have hsatp : s.satp = s.token := hinv.at_phase hphase
  refine ⟨⟨hinv.token_eq, ?_, fun _ => hsatp, hinv.accesses⟩, ⟨hsatp, rfl⟩, hsatp⟩
  rw [show (s.enter a0 sepc).phase = _ from hphase]
  exact hsatp

/-- The straight-line part of each call: `sys_write` clears `SUM` before
`Pipe::write`, `sys_read` sets it before `Pipe::read` and `Stdin::read`, and
`Stdout::write` reads its slice with `SUM` set. -/
theorem inv_syscall (hinv : Inv token s) (hphase : s.phase = .user) (hentered : s.Entered)
    (hsatp : s.satp = s.token) {a0 : ℕ} {syscall : Syscall}
    (h : s.syscall a0 syscall = some s') : Inv token s' := by
  cases syscall with
  | yield =>
      cases h
      exact hinv.suspend hentered _
  | write buf =>
      simp only [TrapSystem.syscall, sysWrite] at h
      split at h
      · cases h
        exact inv_continueAt hinv.token_eq hentered trivial hinv.unswitched_satp hinv.accesses
      · next file _ =>
        split_ifs at h with hwritable
        · cases h
          exact inv_continueAt hinv.token_eq hentered trivial hinv.unswitched_satp hinv.accesses
        · cases file with
          | pipe =>
              cases h
              exact inv_continueAt hinv.token_eq hentered (fun _ => rfl) hinv.unswitched_satp
                hinv.accesses
          | stdout =>
              cases h
              have hnew : AccessInv s.token ⟨s.satp, true, .stdoutWrite, s.switched⟩ :=
                ⟨fun _ => hsatp, by simp, fun _ => by simp, fun _ => rfl⟩
              exact inv_continueAt hinv.token_eq hentered trivial hinv.unswitched_satp
                ((hinv.withSum hphase true).accesses_access hnew)
          | stdin => cases h
  | read len =>
      simp only [TrapSystem.syscall, sysRead] at h
      split at h
      · cases h
        exact inv_continueAt hinv.token_eq hentered trivial hinv.unswitched_satp hinv.accesses
      · next file _ =>
        split_ifs at h with hreadable
        · cases h
          exact inv_continueAt hinv.token_eq hentered trivial hinv.unswitched_satp hinv.accesses
        · cases file with
          | pipe =>
              cases h
              exact inv_continueAt hinv.token_eq hentered ⟨hsatp, fun _ => rfl⟩
                hinv.unswitched_satp hinv.accesses
          | stdin =>
              cases h
              exact inv_continueAt hinv.token_eq hentered (fun _ => rfl) hinv.unswitched_satp
                hinv.accesses
          | stdout => cases h
  | wait4 exitCodePtr option =>
      cases h
      exact inv_continueAt hinv.token_eq hentered hsatp hinv.unswitched_satp hinv.accesses

theorem inv_step (hinv : Inv token s) {op : TrapOp} (h : s.step op = some s') : Inv token s' := by
  cases op with
  | ecall a0 sepc syscall =>
      dsimp only [step] at h
      split at h
      · next hphase =>
        obtain ⟨henter, hentered, hsatp⟩ := inv_enter hinv hphase a0 sepc
        exact inv_syscall henter hphase hentered hsatp h
      · cases h
  | pass =>
      dsimp only [step] at h
      split at h
      · next call hphase => cases h; exact inv_pipeWritePass hinv hphase
      · next call hphase => cases h; exact inv_pipeReadPass hinv hphase
      · next len hphase => exact inv_stdinReadPass hinv hphase h
      · next pid exitCodePtr option hphase => exact inv_wait4Pass hinv hphase h
      · cases h
  | resume satp sum pipe writeEndsClosed procs =>
      dsimp only [step] at h
      split at h
      · next hphase => cases h; exact inv_preempt hinv hphase satp pipe writeEndsClosed procs
      · next call hphase =>
        cases h
        exact inv_resume hinv hphase satp sum pipe writeEndsClosed procs
      · cases h
  | leave =>
      dsimp only [step] at h
      split at h
      · next result hphase =>
        cases h
        exact inv_leave hinv (hinv.entered (by rw [hphase]; exact Phase.noConfusion)) result
      · cases h

end Preservation

theorem inv_init (token task : ℕ) (cx : TrapContext) (fdTable : List (Option File))
    (pipe : PipeRingBuffer) (writeEndsClosed : Bool) (console : List ℕ) (procs : ProcessSystem) :
    Inv token (init token task cx fdTable pipe writeEndsClosed console procs) :=
  ⟨rfl, rfl, fun _ => rfl, fun _ ha => absurd ha List.not_mem_nil⟩

end TrapSystem

/-! ## Over every run -/

open TrapSystem

section Runs

variable {token task : ℕ} {cx : TrapContext} {fdTable : List (Option File)}
  {pipe : PipeRingBuffer} {writeEndsClosed : Bool} {console : List ℕ} {procs : ProcessSystem}
  {s : TrapSystem}

theorem inv_of_reachable
    (hreach : Reachable step (init token task cx fdTable pipe writeEndsClosed console procs) s) :
    Inv token s :=
  hreach.invariant (inv_init token task cx fdTable pipe writeEndsClosed console procs)
    fun _ _ _ hinv h => inv_step hinv h

/-- What the code guarantees of every access through a user pointer, over every
run: until the task is first switched out inside a call, the access runs under
the task's `satp`, with `SUM` set unless it is made by `Pipe::write`;
`Pipe::read` and `sys_wait4` always run under the task's `satp`; `Stdout::write`
and `sys_wait4` always with `SUM` set. -/
theorem user_accesses_guaranteed
    (hreach : Reachable step (init token task cx fdTable pipe writeEndsClosed console procs) s) :
    ∀ a ∈ s.accesses, AccessInv token a := by
  have hinv := inv_of_reachable hreach
  rw [← hinv.token_eq]
  exact hinv.accesses

end Runs

/-! ## A write to a pipe, then a yield -/

/-- The first task of `init_task`, in user mode under page table `7`, with the
two ends of one empty pipe in descriptors 3 and 4. -/
def pipeTask (procs : ProcessSystem) : TrapSystem :=
  init 7 initproc ⟨0, 0x1000, false⟩
    [some .stdin, some .stdout, some .stdout, some .pipe, some .pipe] .new false [] procs

/-- `sys_write(4, buf, 1)` to the pipe, then `sys_yield` with `5` in `a0`, while
another task enters user mode under page table `9`. -/
def writeThenYield (procs : ProcessSystem) : List TrapOp :=
  [.ecall 4 0x1000 (.write [0x41]), .pass, .leave, .ecall 5 0x1004 .yield,
    .resume 9 false .new false procs]

theorem writeThenYield_eval :
    ((initTask bootKernel).toOption.bind fun procs =>
      (runSteps step (pipeTask procs) (writeThenYield procs ++ [.leave])).map fun s =>
        (s.accesses, s.cx, s.satp)) =
      some ([⟨7, false, .pipeWrite, false⟩], ⟨5, 0x1008, false⟩, 7) := by
  decide +kernel

theorem pipe_write_without_sum_and_yield_keeps_a0 :
    ∃ procs s, initTask bootKernel = .ok procs ∧
      runSteps step (pipeTask procs) (writeThenYield procs ++ [.leave]) = some s ∧
      s.accesses = [⟨7, false, .pipeWrite, false⟩] ∧ s.cx = ⟨5, 0x1008, false⟩ ∧ s.satp = 7 := by
  obtain ⟨procs, hinit, hrun⟩ := Option.bind_eq_some_iff.1 writeThenYield_eval
  obtain ⟨s, hrun, hs⟩ := Option.map_eq_some_iff.1 hrun
  simp only [Prod.mk.injEq] at hs
  exact ⟨procs, s, toOption_eq_some.1 hinit, hrun, hs⟩

theorem user_accesses_guaranteed_after_pipe_write :
    ∃ procs s, initTask bootKernel = .ok procs ∧
      runSteps step (pipeTask procs) (writeThenYield procs ++ [.leave]) = some s ∧
      s.accesses = [⟨7, false, .pipeWrite, false⟩] ∧ ∀ a ∈ s.accesses, AccessInv 7 a := by
  obtain ⟨procs, hinit, hrun⟩ := Option.bind_eq_some_iff.1 writeThenYield_eval
  obtain ⟨s, hrun, hs⟩ := Option.map_eq_some_iff.1 hrun
  simp only [Prod.mk.injEq] at hs
  exact ⟨procs, s, toOption_eq_some.1 hinit, hrun, hs.1,
    user_accesses_guaranteed (reachable_of_runSteps hrun)⟩

end ChaosKernel.Trap
