import ChaosKernel.Lib.Except
import ChaosKernel.Lib.Run
import ChaosKernel.Task.Res

/-!
# The process tree: fork, exit and wait4

`TaskControlBlock::fork`, `exit_current_and_run_next` and `sys_wait4`, over the
part of the kernel they change: the blocks, with their pid, kernel stack,
parent pointer, children, zombie flag and exit code; the pid and kernel-stack
allocators; and every place that keeps an `Arc<TaskControlBlock>`.  A block is
dropped, and its pid and kernel stack returned, only when the last of those
goes, so the places are part of the state: the `INITPROC` static, the
processor's current task, the ready queue, the children vectors, `PID2PCB`, and
the `task` local of each `exit_current_and_run_next`, whose frame `schedule`
never returns to.

A block is named by the order its `Arc` was allocated in.  Every call runs on
behalf of the processor's current task; `run_tasks` hands the processor the
front of the FIFO ready queue.  Two ghost fields record what the code forgets:
the blocks `sys_wait4` has returned, and which block forked which.
-/

namespace ChaosKernel.Process

open Lib

/-- `IDLE_PID`: the pid of the init process. -/
def idlePid : ℕ := 0

/-- `ECHILD`, as `sys_wait4` returns it. -/
def echild : ℤ := -10

/-- The block `INITPROC` keeps: the first one allocated. -/
def initproc : ℕ := 0

/-- `pid as usize` for an `isize`. -/
def isizeToUsize (value : ℤ) : ℕ :=
  (value % (usizeModulus : ℤ)).toNat

/-- The fields of a `TaskControlBlock` and of its inner that fork, exit and
wait4 read or write.  For the tasks `fork` creates, `tid` is the pid. -/
structure TaskControlBlock where
  /-- `pid: PidHandle`. -/
  pid : ℕ
  /-- `kstack: KernelStack`, by the id of the stack. -/
  kstack : ℕ
  /-- `parent: Option<Weak<TaskControlBlock>>`: a weak pointer keeps nothing alive. -/
  parent : Option ℕ
  /-- `children: Vec<Arc<TaskControlBlock>>`. -/
  children : List ℕ
  isZombie : Bool
  exitCode : Option ℤ
  deriving DecidableEq, Repr

/-- What the model keeps at an address no block has been allocated at. -/
def TaskControlBlock.vacant : TaskControlBlock :=
  ⟨0, 0, none, [], false, none⟩

/-- The state the process calls change. -/
structure ProcessSystem where
  /-- The blocks, by allocation order; `vacant` from `taskCount` on. -/
  tasks : ℕ → TaskControlBlock
  taskCount : ℕ
  /-- `PID_ALLOCATOR`. -/
  pidAllocator : RecycleAllocator
  /-- `KSTACK_ALLOCATOR`, `KERNEL_SPACE` and `FRAME_ALLOCATOR`. -/
  kernel : KernelState
  /-- `PROCESSOR.current`. -/
  current : Option ℕ
  /-- `TASK_MANAGER.ready_queue`. -/
  readyQueue : List ℕ
  /-- `PID2PCB`. -/
  pid2process : Std.TreeMap ℕ ℕ compare
  /-- The `task` local of every `exit_current_and_run_next` that has run. -/
  exitFrames : List ℕ
  /-- Ghost: the blocks `sys_wait4` has returned, latest first. -/
  reaped : List ℕ
  /-- Ghost: the block that forked each block. -/
  forkedBy : ℕ → ℕ

namespace ProcessSystem

/-- `Arc::strong_count` of block `b`.  A block dropped earlier is a reaped
zombie, whose children vector is empty, so summing over every block allocated
counts the same. -/
def strongCount (sys : ProcessSystem) (b : ℕ) : ℕ :=
  (if b = initproc then 1 else 0) + sys.current.toList.count b + sys.readyQueue.count b +
    ((List.range sys.taskCount).map fun q => (sys.tasks q).children.count b).sum +
    sys.pid2process.values.count b + sys.exitFrames.count b

theorem count_exitFrames_le_strongCount (sys : ProcessSystem) (b : ℕ) :
    sys.exitFrames.count b ≤ sys.strongCount b :=
  Nat.le_add_left _ _

end ProcessSystem

open ProcessSystem

/-- `TaskControlBlock::init_task`, for the fields modelled: the first kernel
stack and pid, in the block `INITPROC` keeps and `add_task` queues. -/
def initTask (kernel : KernelState) : Except Panic ProcessSystem := do
  let (kstack, kernel) ← kstackAlloc kernel
  let (pid, pidAllocator) := RecycleAllocator.new.alloc
  pure
    { tasks := Function.update (fun _ => .vacant) initproc ⟨pid, kstack, none, [], false, none⟩
      taskCount := initproc + 1
      pidAllocator, kernel
      current := none
      readyQueue := [initproc]
      pid2process := ∅
      exitFrames := []
      reaped := []
      forkedBy := fun _ => initproc }

/-- `TaskControlBlock::fork` on block `self`, for the fields modelled: a pid and
a kernel stack for the child, the child linked to `self` both ways, entered in
`PID2PCB` and queued.  It returns the child's pid. -/
def fork (sys : ProcessSystem) (self : ℕ) : Except Panic (ℕ × ProcessSystem) := do
  let (pid, pidAllocator) := sys.pidAllocator.alloc
  let (kstack, kernel) ← kstackAlloc sys.kernel
  let child := sys.taskCount
  let tasks := Function.update sys.tasks child ⟨pid, kstack, some self, [], false, none⟩
  let inner := sys.tasks self
  let tasks := Function.update tasks self { inner with children := inner.children ++ [child] }
  pure (pid,
    { sys with
      tasks, pidAllocator, kernel
      taskCount := child + 1
      pid2process := sys.pid2process.insert pid child
      readyQueue := sys.readyQueue ++ [child]
      forkedBy := Function.update sys.forkedBy child self })

/-- The loop of `exit_current_and_run_next` that hands each child to
`INITPROC`: the child's parent pointer is reset and `INITPROC` pushes it. -/
def moveChildrenToInitproc : (ℕ → TaskControlBlock) → List ℕ → ℕ → TaskControlBlock
  | tasks, [] => tasks
  | tasks, child :: children =>
      let tasks := Function.update tasks child { tasks child with parent := some initproc }
      let initprocInner := tasks initproc
      moveChildrenToInitproc
        (Function.update tasks initproc
          { initprocInner with children := initprocInner.children ++ [child] })
        children

/-- `exit_current_and_run_next(exit_code)`, with `task` the current task, which
it takes from the processor and keeps in its own frame.  `none` is the shutdown
when the init process exits. -/
def exitCurrentAndRunNext (sys : ProcessSystem) (task : ℕ) (exitCode : ℤ) :
    Option ProcessSystem :=
  let inner := sys.tasks task
  if inner.pid = idlePid then none
  else
    let tasks := Function.update sys.tasks task
      { inner with isZombie := true, exitCode := some exitCode }
    let tasks := moveChildrenToInitproc tasks inner.children
    let tasks := Function.update tasks task { tasks task with children := [] }
    some
      { sys with
        tasks
        current := none
        pid2process := sys.pid2process.erase inner.pid
        exitFrames := task :: sys.exitFrames }

/-- `suspend_current_and_run_next`, with `task` the current task: it goes to the
back of the ready queue. -/
def suspendCurrentAndRunNext (sys : ProcessSystem) (task : ℕ) : ProcessSystem :=
  { sys with current := none, readyQueue := sys.readyQueue ++ [task] }

/-- One turn of the loop of `run_tasks`: the front of the ready queue becomes
the current task; with the queue empty the loop returns. -/
def runTasks (sys : ProcessSystem) : Option ProcessSystem :=
  match sys.readyQueue with
  | [] => none
  | task :: readyQueue => some { sys with current := some task, readyQueue }

/-- The drop of a `TaskControlBlock`, field by field in declaration order:
`kstack` (`Drop for KernelStack`), then `pid` (`Drop for PidHandle`). -/
def dropTask (sys : ProcessSystem) (b : ℕ) : Except Panic ProcessSystem := do
  let kernel ← KernelStack.drop (sys.tasks b).kstack sys.kernel
  let pidAllocator ← sys.pidAllocator.dealloc (sys.tasks b).pid
  pure { sys with kernel, pidAllocator }

/-- The end of the scope of an `Arc` to block `b` that has left every holder:
the block is dropped when no strong reference is left. -/
def release (sys : ProcessSystem) (b : ℕ) : Except Panic ProcessSystem :=
  if sys.strongCount b = 0 then dropTask sys b else pure sys

/-- `WNOHANG`. -/
def wnohang : ℕ := 0x1

/-- The flags `WaitOption` defines: `WNOHANG`, `WUNTRACED`, `WEXITED`,
`WCONTINUED` and `WNOWAIT`. -/
def waitOptionAll : ℕ := 0x1 ||| 0x2 ||| 0x4 ||| 0x8 ||| 0x1000000

/-- `WaitOption::from_bits`: `None` when a bit outside the flags is set. -/
def waitOptionFromBits (bits : ℕ) : Option ℕ :=
  if bits &&& waitOptionAll = bits then some bits else none

/-- The test `sys_wait4` applies to a child: `-1` matches every child. -/
def waitMatches (pid : ℤ) (child : TaskControlBlock) : Bool :=
  pid == -1 || isizeToUsize pid == child.pid

/-- How one pass of the loop of `sys_wait4` ends. -/
inductive WaitOutcome
  /-- The call returns `value`; `store` is the write through `exit_code_ptr`. -/
  | returned (value : ℤ) (store : Option (ℕ × ℤ))
  /-- The task suspends and will take the loop again. -/
  | suspended
  deriving DecidableEq, Repr

/-- One pass of the loop of `sys_wait4(pid, exit_code_ptr, option, _)`, with
`task` the current task.  A child it returns is removed from `task`'s children
and the `Arc` to it goes out of scope at the `return`. -/
def sysWait4 (sys : ProcessSystem) (task : ℕ) (pid : ℤ) (exitCodePtr option : ℕ) :
    Except Panic (WaitOutcome × ProcessSystem) := do
  let some option := waitOptionFromBits option | throw .unwrapNone
  let inner := sys.tasks task
  if !inner.children.any fun p => waitMatches pid (sys.tasks p) then
    return (.returned echild none, sys)
  match inner.children.find? fun p => (sys.tasks p).isZombie && waitMatches pid (sys.tasks p) with
  | some child =>
      let tasks := Function.update sys.tasks task
        { inner with children := inner.children.erase child }
      let foundPid := (sys.tasks child).pid
      let some exitCode := (sys.tasks child).exitCode | throw .unwrapNone
      let store := if exitCodePtr = 0 then none else some (exitCodePtr, exitCode)
      let sys ← release { sys with tasks, reaped := child :: sys.reaped } child
      return (.returned (usizeToIsize foundPid) store, sys)
  | none =>
      if option &&& wnohang ≠ 0 then return (.returned 0 none, sys)
      else return (.suspended, suspendCurrentAndRunNext sys task)

/-- A step of the process state machine. -/
inductive ProcessOp
  /-- `run_tasks` fetches the next ready task. -/
  | run
  /-- `suspend_current_and_run_next`, from `sys_yield` or a timer interrupt. -/
  | suspend
  /-- `sys_clone` without `CLONE_THREAD`, which calls `fork`. -/
  | fork
  /-- `exit_current_and_run_next`, from `sys_exit` or a fatal trap. -/
  | exit (exitCode : ℤ)
  /-- One pass of `sys_wait4`. -/
  | wait4 (pid : ℤ) (exitCodePtr option : ℕ)
  deriving DecidableEq, Repr

namespace ProcessSystem

/-- `run_tasks` runs on the idle control flow, which a task reaches only once it
has been taken from the processor; every other call is made by the current
task, and a panic or the shutdown stops the machine. -/
def step (sys : ProcessSystem) : ProcessOp → Option ProcessSystem
  | .run => if sys.current = none then runTasks sys else none
  | .suspend => sys.current.map (suspendCurrentAndRunNext sys)
  | .fork => sys.current.bind fun task => ((Process.fork sys task).toOption).map Prod.snd
  | .exit exitCode => sys.current.bind fun task => exitCurrentAndRunNext sys task exitCode
  | .wait4 pid exitCodePtr option =>
      sys.current.bind fun task => ((sysWait4 sys task pid exitCodePtr option).toOption).map Prod.snd

end ProcessSystem

/-! ## What each call does -/

section Spec

variable {sys sys' : ProcessSystem} {task : ℕ}

theorem moveChildrenToInitproc_apply {tasks : ℕ → TaskControlBlock} {children : List ℕ}
    (hinit : initproc ∉ children) (q : ℕ) :
    moveChildrenToInitproc tasks children q =
      if q = initproc then { tasks q with children := (tasks q).children ++ children }
      else if q ∈ children then { tasks q with parent := some initproc } else tasks q := by
  induction children generalizing tasks with
  | nil =>
      rw [moveChildrenToInitproc]
      split_ifs with hq hmem
      · simp
      · simp at hmem
      · rfl
  | cons child children ih =>
      have hchild : child ≠ initproc := fun h => hinit (h ▸ List.mem_cons_self)
      have hrest : initproc ∉ children := fun h => hinit (List.mem_cons_of_mem _ h)
      rw [moveChildrenToInitproc, ih hrest]
      by_cases hq : q = initproc
      · subst hq
        simp [hchild.symm]
      · by_cases hqc : q = child
        · subst hqc
          simp [Function.update_apply, hq]
        · simp [Function.update_apply, hq, hqc]

theorem initTask_eq_ok {kernel : KernelState} (h : initTask kernel = .ok sys) :
    sys.taskCount = initproc + 1 ∧
      (∀ b, sys.tasks b =
        if b = initproc then ⟨0, kernel.kstackAllocator.alloc.1, none, [], false, none⟩
        else .vacant) ∧
      sys.pidAllocator = ⟨1, []⟩ ∧ sys.kernel.kstackAllocator = kernel.kstackAllocator.alloc.2 ∧
      sys.current = none ∧ sys.readyQueue = [initproc] ∧ sys.exitFrames = [] ∧
      sys.reaped = [] := by
  unfold initTask at h
  rw [bind_eq_ok] at h
  obtain ⟨⟨kstack, kernel'⟩, halloc, h⟩ := h
  obtain ⟨rfl, hallocator⟩ := kstackAlloc_eq_ok halloc
  cases h
  refine ⟨rfl, fun b => ?_, rfl, hallocator, rfl, rfl, rfl, rfl⟩
  dsimp only
  rw [Function.update_apply]
  rfl

theorem fork_eq_ok {self pid : ℕ} (h : fork sys self = .ok (pid, sys')) :
    ∃ kstack kernel, kstackAlloc sys.kernel = .ok (kstack, kernel) ∧
      pid = sys.pidAllocator.alloc.1 ∧
      sys' = { sys with
        tasks := Function.update
          (Function.update sys.tasks sys.taskCount
            ⟨sys.pidAllocator.alloc.1, kstack, some self, [], false, none⟩)
          self { sys.tasks self with children := (sys.tasks self).children ++ [sys.taskCount] }
        pidAllocator := sys.pidAllocator.alloc.2
        kernel
        taskCount := sys.taskCount + 1
        pid2process := sys.pid2process.insert sys.pidAllocator.alloc.1 sys.taskCount
        readyQueue := sys.readyQueue ++ [sys.taskCount]
        forkedBy := Function.update sys.forkedBy sys.taskCount self } := by
  unfold fork at h
  rw [bind_eq_ok] at h
  obtain ⟨⟨kstack, kernel⟩, halloc, h⟩ := h
  cases h
  exact ⟨kstack, kernel, halloc, rfl, rfl⟩

/-- The block `b` of the state `fork` leaves, for `self` allocated. -/
theorem fork_tasks {self pid : ℕ} (h : fork sys self = .ok (pid, sys'))
    (hself : self < sys.taskCount) (b : ℕ) :
    sys'.tasks b =
      if b = sys.taskCount then ⟨pid, sys.kernel.kstackAllocator.alloc.1, some self, [], false, none⟩
      else if b = self then
        { sys.tasks self with children := (sys.tasks self).children ++ [sys.taskCount] }
      else sys.tasks b := by
  obtain ⟨kstack, kernel, halloc, rfl, rfl⟩ := fork_eq_ok h
  obtain ⟨rfl, -⟩ := kstackAlloc_eq_ok halloc
  by_cases hb : b = sys.taskCount
  · subst hb
    simp [hself.ne']
  · by_cases hbs : b = self
    · subst hbs
      simp [hb]
    · simp [hb, hbs]

theorem exitCurrentAndRunNext_eq_some {exitCode : ℤ}
    (h : exitCurrentAndRunNext sys task exitCode = some sys') :
    (sys.tasks task).pid ≠ idlePid ∧
      sys' = { sys with
        tasks := Function.update
          (moveChildrenToInitproc
            (Function.update sys.tasks task
              { sys.tasks task with isZombie := true, exitCode := some exitCode })
            (sys.tasks task).children)
          task
          { moveChildrenToInitproc
              (Function.update sys.tasks task
                { sys.tasks task with isZombie := true, exitCode := some exitCode })
              (sys.tasks task).children task with children := [] }
        current := none
        pid2process := sys.pid2process.erase (sys.tasks task).pid
        exitFrames := task :: sys.exitFrames } := by
  simp only [exitCurrentAndRunNext] at h
  split_ifs at h with hpid
  cases h
  exact ⟨hpid, rfl⟩

/-- The block `q` of the state `exit_current_and_run_next` leaves, for a task
other than `INITPROC` that is not its own child and does not have `INITPROC`
as a child. -/
theorem exitCurrentAndRunNext_tasks {exitCode : ℤ}
    (h : exitCurrentAndRunNext sys task exitCode = some sys') (htask : task ≠ initproc)
    (hinit : initproc ∉ (sys.tasks task).children) (hself : task ∉ (sys.tasks task).children)
    (q : ℕ) :
    sys'.tasks q =
      if q = task then
        { sys.tasks task with isZombie := true, exitCode := some exitCode, children := [] }
      else if q = initproc then
        { sys.tasks q with children := (sys.tasks q).children ++ (sys.tasks task).children }
      else if q ∈ (sys.tasks task).children then { sys.tasks q with parent := some initproc }
      else sys.tasks q := by
  obtain ⟨-, rfl⟩ := exitCurrentAndRunNext_eq_some h
  by_cases hq : q = task
  · subst hq
    simp [moveChildrenToInitproc_apply hinit, htask, hself]
  · by_cases hqi : q = initproc
    · subst hqi
      simp [moveChildrenToInitproc_apply hinit, hq]
    · simp [moveChildrenToInitproc_apply hinit, hq, hqi]

/-- Releasing an `Arc` to a block some exit frame still holds drops nothing. -/
theorem release_of_mem_exitFrames {b : ℕ} (hb : b ∈ sys.exitFrames) : release sys b = .ok sys := by
  have hpos : 0 < sys.strongCount b :=
    lt_of_lt_of_le (List.count_pos_iff.2 hb) (count_exitFrames_le_strongCount sys b)
  rw [release, if_neg hpos.ne']
  rfl

/-- The test of `sys_wait4` for a child it may return. -/
def reapable (sys : ProcessSystem) (pid : ℤ) (p : ℕ) : Bool :=
  (sys.tasks p).isZombie && waitMatches pid (sys.tasks p)

/-- What one pass of `sys_wait4` can do: report that no child matches; return
the first matching zombie child, removed from the children and released; or,
with matching children but no matching zombie, return `0` under `WNOHANG` or
suspend the task. -/
theorem sysWait4_eq_ok {pid : ℤ} {exitCodePtr option : ℕ} {outcome : WaitOutcome}
    (h : sysWait4 sys task pid exitCodePtr option = .ok (outcome, sys')) :
    ∃ bits, waitOptionFromBits option = some bits ∧
      (((∀ c ∈ (sys.tasks task).children, waitMatches pid (sys.tasks c) = false) ∧
          outcome = .returned echild none ∧ sys' = sys) ∨
      (∃ child exitCode,
          (sys.tasks task).children.find? (reapable sys pid) = some child ∧
          (sys.tasks child).exitCode = some exitCode ∧
          outcome = .returned (usizeToIsize (sys.tasks child).pid)
            (if exitCodePtr = 0 then none else some (exitCodePtr, exitCode)) ∧
          release
            { sys with
              tasks := Function.update sys.tasks task
                { sys.tasks task with children := (sys.tasks task).children.erase child }
              reaped := child :: sys.reaped } child = .ok sys') ∨
      ((∃ c ∈ (sys.tasks task).children, waitMatches pid (sys.tasks c) = true) ∧
          (sys.tasks task).children.find? (reapable sys pid) = none ∧
          bits &&& wnohang ≠ 0 ∧ outcome = .returned 0 none ∧ sys' = sys) ∨
      ((∃ c ∈ (sys.tasks task).children, waitMatches pid (sys.tasks c) = true) ∧
          (sys.tasks task).children.find? (reapable sys pid) = none ∧
          bits &&& wnohang = 0 ∧ outcome = .suspended ∧
          sys' = suspendCurrentAndRunNext sys task)) := by
  unfold sysWait4 at h
  cases hbits : waitOptionFromBits option with
  | none => simp [hbits] at h
  | some bits =>
      refine ⟨bits, rfl, ?_⟩
      simp only [hbits] at h
      by_cases hany : (sys.tasks task).children.any fun p => waitMatches pid (sys.tasks p)
      · have hmatch : ∃ c ∈ (sys.tasks task).children, waitMatches pid (sys.tasks c) = true :=
          List.any_eq_true.1 hany
        rw [if_neg (by simpa using hany)] at h
        change (match (sys.tasks task).children.find? (reapable sys pid) with
          | some child => _
          | none => _) = _ at h
        cases hfind : (sys.tasks task).children.find? (reapable sys pid) with
        | some child =>
            rw [hfind] at h
            cases hcode : (sys.tasks child).exitCode with
            | none => simp [hcode] at h
            | some exitCode =>
                simp only [hcode, bind_eq_ok] at h
                obtain ⟨next, hrelease, h⟩ := h
                cases h
                exact .inr (.inl ⟨child, exitCode, rfl, hcode, rfl, hrelease⟩)
        | none =>
            rw [hfind] at h
            by_cases hnohang : bits &&& wnohang ≠ 0
            · rw [if_pos hnohang] at h
              cases h
              exact .inr (.inr (.inl ⟨hmatch, rfl, hnohang, rfl, rfl⟩))
            · rw [if_neg hnohang] at h
              cases h
              exact .inr (.inr (.inr ⟨hmatch, rfl, not_not.1 hnohang, rfl, rfl⟩))
      · rw [if_pos (by simpa using hany)] at h
        cases h
        exact .inl ⟨by simpa using hany, rfl, rfl⟩

/-- What one step of the process state machine can be. -/
theorem step_eq_some {op : ProcessOp} (h : sys.step op = some sys') :
    (op = .run ∧ sys.current = none ∧ runTasks sys = some sys') ∨
      ∃ task, sys.current = some task ∧
        ((op = .suspend ∧ sys' = suspendCurrentAndRunNext sys task) ∨
          (op = .fork ∧ ∃ pid, fork sys task = .ok (pid, sys')) ∨
          (∃ exitCode, op = .exit exitCode ∧ exitCurrentAndRunNext sys task exitCode = some sys') ∨
          (∃ pid exitCodePtr option outcome, op = .wait4 pid exitCodePtr option ∧
            sysWait4 sys task pid exitCodePtr option = .ok (outcome, sys'))) := by
  cases op with
  | run =>
      simp only [step] at h
      split_ifs at h with hcurrent
      exact .inl ⟨rfl, hcurrent, h⟩
  | suspend =>
      obtain ⟨task, htask, rfl⟩ := Option.map_eq_some_iff.1 h
      exact .inr ⟨task, htask, .inl ⟨rfl, rfl⟩⟩
  | fork =>
      obtain ⟨task, htask, h⟩ := Option.bind_eq_some_iff.1 h
      obtain ⟨⟨pid, next⟩, hfork, rfl⟩ := Option.map_eq_some_iff.1 h
      exact .inr ⟨task, htask, .inr (.inl ⟨rfl, pid, toOption_eq_some.1 hfork⟩)⟩
  | exit exitCode =>
      obtain ⟨task, htask, h⟩ := Option.bind_eq_some_iff.1 h
      exact .inr ⟨task, htask, .inr (.inr (.inl ⟨exitCode, rfl, h⟩))⟩
  | wait4 pid exitCodePtr option =>
      obtain ⟨task, htask, h⟩ := Option.bind_eq_some_iff.1 h
      obtain ⟨⟨outcome, next⟩, hwait, rfl⟩ := Option.map_eq_some_iff.1 h
      exact .inr ⟨task, htask, .inr (.inr (.inr
        ⟨pid, exitCodePtr, option, outcome, rfl, toOption_eq_some.1 hwait⟩))⟩

end Spec

end ChaosKernel.Process
