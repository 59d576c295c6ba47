import ChaosKernel.Task.Tree

/-!
# What `sys_wait4` returns, and what stays behind

Over every reachable state, one pass of `sys_wait4` returns `ECHILD` when no
child matches; otherwise it returns the first matching child that has exited,
with the exit code that child passed to `exit_current_and_run_next`, and takes
it out of the caller's vector, or, with no matching child exited, returns `0`
under `WNOHANG` or suspends.  A returned child is never returned again.

What `sys_wait4` does not do is free the child: the frame of the child's
`exit_current_and_run_next` still holds an `Arc` to it, so the block is never
dropped and its pid and kernel stack never go back to their allocators.
-/

namespace ChaosKernel.Process

open Lib ProcessSystem FrameAllocator

section Spec

variable {sys sys' : ProcessSystem} {task : ℕ}

theorem runTasks_tasks (h : runTasks sys = some sys') :
    sys'.tasks = sys.tasks ∧ sys'.reaped = sys.reaped := by
  unfold runTasks at h
  split at h
  · cases h
  · cases h
    exact ⟨rfl, rfl⟩

/-- `exit_current_and_run_next` records the code it is passed. -/
theorem exitCurrentAndRunNext_exitCode (hinv : Inv sys) {exitCode : ℤ}
    (h : exitCurrentAndRunNext sys task exitCode = some sys') :
    (sys'.tasks task).exitCode = some exitCode := by
  rw [(exit_fields hinv h (ne_initproc_of_exit hinv h) task).2.1, if_pos rfl]

/-- One pass of `sys_wait4`: `ECHILD` when no child matches; otherwise the first
matching exited child, with its exit code, or, with none exited, `0` or a
suspension that leaves the children and the reaped blocks alone. -/
theorem sysWait4_spec (hinv : Inv sys) {pid : ℤ} {exitCodePtr option : ℕ}
    {outcome : WaitOutcome} (h : sysWait4 sys task pid exitCodePtr option = .ok (outcome, sys')) :
    ((∀ c ∈ (sys.tasks task).children, waitMatches pid (sys.tasks c) = false) →
        outcome = .returned echild none ∧ sys' = sys) ∧
      ((∃ c ∈ (sys.tasks task).children, waitMatches pid (sys.tasks c) = true) →
        (∃ child exitCode, child ∈ (sys.tasks task).children ∧
            waitMatches pid (sys.tasks child) = true ∧ (sys.tasks child).isZombie = true ∧
            (sys.tasks child).exitCode = some exitCode ∧ child ∉ sys.reaped ∧
            outcome = .returned (usizeToIsize (sys.tasks child).pid)
              (if exitCodePtr = 0 then none else some (exitCodePtr, exitCode)) ∧
            (sys'.tasks task).children = (sys.tasks task).children.erase child ∧
            sys'.reaped = child :: sys.reaped) ∨
          ((∀ c ∈ (sys.tasks task).children, waitMatches pid (sys.tasks c) = true →
              (sys.tasks c).isZombie = false) ∧
            (outcome = .returned 0 none ∨ outcome = .suspended) ∧
            sys'.reaped = sys.reaped ∧ (sys'.tasks task).children = (sys.tasks task).children)) := by
  -- a branch taken with a matching child cannot be the `ECHILD` one
  have hsome : ∀ {c}, c ∈ (sys.tasks task).children → waitMatches pid (sys.tasks c) = true →
      ¬ ∀ c ∈ (sys.tasks task).children, waitMatches pid (sys.tasks c) = false :=
    fun hc hm hnone => by rw [hnone _ hc] at hm; cases hm
  -- with no matching zombie found, no matching child has exited
  have hnoZombie : (sys.tasks task).children.find? (reapable sys pid) = none →
      ∀ c ∈ (sys.tasks task).children, waitMatches pid (sys.tasks c) = true →
        (sys.tasks c).isZombie = false := by
    intro hfind c hc hm
    have hnot := List.find?_eq_none.1 hfind c hc
    simpa [reapable, hm] using hnot
  obtain ⟨bits, -, hcases⟩ := sysWait4_eq_ok h
  rcases hcases with ⟨hnone, rfl, rfl⟩ | ⟨child, exitCode, hfind, hcode, rfl, hrelease⟩ |
    ⟨⟨c, hc, hm⟩, hfind, -, rfl, rfl⟩ | ⟨⟨c, hc, hm⟩, hfind, -, rfl, rfl⟩
  · refine ⟨fun _ => ⟨rfl, rfl⟩, fun hex => ?_⟩
    obtain ⟨c, hc, hm⟩ := hex
    exact absurd hnone (hsome hc hm)
  · have hreapable := List.find?_some hfind
    simp only [reapable, Bool.and_eq_true] at hreapable
    have hmem := List.mem_of_find?_eq_some hfind
    rw [wait4_returned_eq hinv hreapable.1 hrelease]
    refine ⟨fun hnone => absurd hnone (hsome hmem hreapable.2), fun _ => .inl
      ⟨child, exitCode, hmem, hreapable.2, hreapable.1, hcode,
        hinv.not_reaped_of_mem_children hmem, rfl, ?_, rfl⟩⟩
    dsimp only
    rw [update_children_apply, if_pos rfl]
  · exact ⟨fun hnone => absurd hnone (hsome hc hm),
      fun _ => .inr ⟨hnoZombie hfind, .inl rfl, rfl, rfl⟩⟩
  · exact ⟨fun hnone => absurd hnone (hsome hc hm),
      fun _ => .inr ⟨hnoZombie hfind, .inr rfl, rfl, rfl⟩⟩

/-- No step changes a recorded exit code. -/
theorem step_exitCode (hinv : Inv sys) {op : ProcessOp} (h : sys.step op = some sys') {b : ℕ}
    {exitCode : ℤ} (hb : (sys.tasks b).exitCode = some exitCode) :
    (sys'.tasks b).exitCode = some exitCode := by
  rcases step_eq_some h with ⟨-, -, hrun⟩ | ⟨task, htask, hop⟩
  · rw [(runTasks_tasks hrun).1]
    exact hb
  obtain ⟨hlt, hlive⟩ := hinv.current_live htask
  rcases hop with ⟨-, rfl⟩ | ⟨-, pid, hfork⟩ | ⟨code, -, hexit⟩ |
    ⟨pid, exitCodePtr, option, outcome, -, hwait⟩
  · exact hb
  · rw [fork_exitCode hinv hfork hlt]
    exact hb
  · -- the exiting task had no code: it was live
    have hbt : b ≠ task := by
      rintro rfl
      have hzombie := (hinv.zombie_exitCode b).2 (by rw [hb]; rfl)
      rw [hlive] at hzombie
      cases hzombie
    rw [(exit_fields hinv hexit (ne_initproc_of_exit hinv hexit) b).2.1, if_neg hbt]
    exact hb
  · obtain ⟨bits, -, hcases⟩ := sysWait4_eq_ok hwait
    rcases hcases with ⟨-, -, rfl⟩ | ⟨child, code, hfind, -, -, hrelease⟩ |
      ⟨-, -, -, -, rfl⟩ | ⟨-, -, -, -, rfl⟩
    · exact hb
    · have hzombie : (sys.tasks child).isZombie = true := by
        have hreapable := List.find?_some hfind
        simp only [reapable, Bool.and_eq_true] at hreapable
        exact hreapable.1
      rw [wait4_returned_eq hinv hzombie hrelease]
      dsimp only
      rw [update_children_apply]
      exact hb
    · exact hb
    · exact hb

/-- A block `sys_wait4` has returned stays returned. -/
theorem step_reaped (hinv : Inv sys) {op : ProcessOp} (h : sys.step op = some sys') {b : ℕ}
    (hb : b ∈ sys.reaped) : b ∈ sys'.reaped := by
  rcases step_eq_some h with ⟨-, -, hrun⟩ | ⟨task, -, hop⟩
  · rw [(runTasks_tasks hrun).2]
    exact hb
  rcases hop with ⟨-, rfl⟩ | ⟨-, pid, hfork⟩ | ⟨code, -, hexit⟩ |
    ⟨pid, exitCodePtr, option, outcome, -, hwait⟩
  · exact hb
  · obtain ⟨-, -, -, -, rfl⟩ := fork_eq_ok hfork
    exact hb
  · obtain ⟨-, rfl⟩ := exitCurrentAndRunNext_eq_some hexit
    exact hb
  · obtain ⟨bits, -, hcases⟩ := sysWait4_eq_ok hwait
    rcases hcases with ⟨-, -, rfl⟩ | ⟨child, code, hfind, -, -, hrelease⟩ |
      ⟨-, -, -, -, rfl⟩ | ⟨-, -, -, -, rfl⟩
    · exact hb
    · have hzombie : (sys.tasks child).isZombie = true := by
        have hreapable := List.find?_some hfind
        simp only [reapable, Bool.and_eq_true] at hreapable
        exact hreapable.1
      rw [wait4_returned_eq hinv hzombie hrelease]
      exact List.mem_cons_of_mem child hb
    · exact hb
    · exact hb

end Spec

/-- The tree part of the invariant, with the parent named: the forking block,
or `INITPROC` once that has exited. -/
theorem Inv.tree {sys : ProcessSystem} (hinv : Inv sys) :
    ∀ b < sys.taskCount, b ≠ initproc → b ∉ sys.reaped →
      ∃ p, (sys.tasks b).parent = some p ∧
        (p = sys.forkedBy b ∨ (p = initproc ∧ (sys.tasks (sys.forkedBy b)).isZombie = true)) ∧
        (sys.tasks p).isZombie = false ∧
        ∀ q, (sys.tasks q).children.count b = if q = p then 1 else 0 := by
  intro b hb hinit hreaped
  obtain ⟨p, hbp, hp, hcount⟩ := hinv.parent_children b hb hinit hreaped
  refine ⟨p, hbp, ?_, hp, hcount⟩
  rcases hinv.parent_forker b hb hinit with hforker | ⟨hinitp, hexited⟩
  · rw [hbp, Option.some_inj] at hforker
    exact .inl hforker
  · rw [hbp, Option.some_inj] at hinitp
    exact .inr ⟨hinitp, hexited⟩

section Reachable

variable {kernel : KernelState} {start sys : ProcessSystem}

/-- The process tree over every reachable state: an unreaped forked task hangs
once in the vector of its live parent, its forker or `INITPROC`; exit codes are
recorded once and kept; and `sys_wait4` returns `ECHILD` exactly when no child
matches, otherwise a matching exited child not returned before, with its exit
code, taking it out of the caller's vector. -/
theorem processTree_wait4_reaps_exited_children
    (hkernel : kernel.kstackAllocator = RecycleAllocator.new) (hinit : initTask kernel = .ok start)
    (hreach : Reachable ProcessSystem.step start sys) :
    (∀ b < sys.taskCount, b ≠ initproc → b ∉ sys.reaped →
      ∃ p, (sys.tasks b).parent = some p ∧
        (p = sys.forkedBy b ∨ (p = initproc ∧ (sys.tasks (sys.forkedBy b)).isZombie = true)) ∧
        (sys.tasks p).isZombie = false ∧
        ∀ q, (sys.tasks q).children.count b = if q = p then 1 else 0) ∧
    (∀ task exitCode sys', exitCurrentAndRunNext sys task exitCode = some sys' →
      (sys'.tasks task).exitCode = some exitCode) ∧
    (∀ op sys' b exitCode, sys.step op = some sys' → (sys.tasks b).exitCode = some exitCode →
      (sys'.tasks b).exitCode = some exitCode) ∧
    (∀ task pid exitCodePtr option outcome sys',
      sysWait4 sys task pid exitCodePtr option = .ok (outcome, sys') →
      ((∀ c ∈ (sys.tasks task).children, waitMatches pid (sys.tasks c) = false) →
          outcome = .returned echild none ∧ sys' = sys) ∧
        ((∃ c ∈ (sys.tasks task).children, waitMatches pid (sys.tasks c) = true) →
          (∃ child exitCode, child ∈ (sys.tasks task).children ∧
              waitMatches pid (sys.tasks child) = true ∧ (sys.tasks child).isZombie = true ∧
              (sys.tasks child).exitCode = some exitCode ∧ child ∉ sys.reaped ∧
              outcome = .returned (usizeToIsize (sys.tasks child).pid)
                (if exitCodePtr = 0 then none else some (exitCodePtr, exitCode)) ∧
              (sys'.tasks task).children = (sys.tasks task).children.erase child ∧
              sys'.reaped = child :: sys.reaped) ∨
            ((∀ c ∈ (sys.tasks task).children, waitMatches pid (sys.tasks c) = true →
                (sys.tasks c).isZombie = false) ∧
              (outcome = .returned 0 none ∨ outcome = .suspended) ∧
              sys'.reaped = sys.reaped ∧
              (sys'.tasks task).children = (sys.tasks task).children))) ∧
    (∀ op sys', sys.step op = some sys' → ∀ b ∈ sys.reaped, b ∈ sys'.reaped) := by
  have hinv := inv_of_reachable hkernel hinit hreach
  exact ⟨hinv.tree, fun _ _ _ hexit => exitCurrentAndRunNext_exitCode hinv hexit,
    fun _ _ _ _ hstep hb => step_exitCode hinv hstep hb,
    fun _ _ _ _ _ _ hwait => sysWait4_spec hinv hwait,
    fun _ _ hstep _ hb => step_reaped hinv hstep hb⟩

/-- No block is ever dropped: every block that has exited, returned by
`sys_wait4` or not, is still held by the frame of its
`exit_current_and_run_next`, and neither `PID_ALLOCATOR` nor `KSTACK_ALLOCATOR`
ever takes an id back, so no two blocks ever share a pid. -/
theorem exited_tasks_never_released
    (hkernel : kernel.kstackAllocator = RecycleAllocator.new) (hinit : initTask kernel = .ok start)
    (hreach : Reachable ProcessSystem.step start sys) :
    (∀ b, (sys.tasks b).isZombie = true → b ∈ sys.exitFrames ∧ 0 < sys.strongCount b) ∧
    (∀ b ∈ sys.reaped, 0 < sys.strongCount b) ∧
    sys.pidAllocator.recycled = [] ∧ sys.kernel.kstackAllocator.recycled = [] ∧
    (∀ b < sys.taskCount, ∀ c < sys.taskCount, (sys.tasks b).pid = (sys.tasks c).pid → b = c) := by
  have hinv := inv_of_reachable hkernel hinit hreach
  -- an exit frame holds every zombie, and a strong count counts the frames
  have hheld : ∀ b, (sys.tasks b).isZombie = true → b ∈ sys.exitFrames ∧ 0 < sys.strongCount b :=
    fun b hb =>
      have hframe := (hinv.zombie_iff b).1 hb
      ⟨hframe, lt_of_lt_of_le (List.count_pos_iff.2 hframe) (count_exitFrames_le_strongCount sys b)⟩
  refine ⟨hheld, fun b hb => (hheld b (hinv.reaped_zombie b hb)).2, by rw [hinv.pidAllocator_eq],
    by rw [hinv.kstackAllocator_eq], fun b hb c hc hpid => ?_⟩
  rw [hinv.pid_eq b hb, hinv.pid_eq c hc] at hpid
  exact hpid

end Reachable

/-! ## A run from boot -/

/-- A kernel at boot: no kernel stack yet, an empty `KERNEL_SPACE`, and 256
frames. -/
def bootKernel : KernelState :=
  ⟨RecycleAllocator.new, MemorySet.newBare, StackFrameAllocator.new.init 0x80000 0x80100⟩

theorem processTree_wait4_reaps_exited_children_after_exit :
    ∃ start sys, initTask bootKernel = .ok start ∧
      runSteps ProcessSystem.step start [.run, .fork, .wait4 (-1) 0 0, .run, .exit 7] = some sys ∧
      (sys.tasks 1).parent = some initproc ∧ (sys.tasks initproc).isZombie = false ∧
      (sys.tasks initproc).children.count 1 = 1 := by
  -- the init process forks, waits, and its child exits with code 7
  have hcomp : ((initTask bootKernel).toOption.bind fun start =>
      (runSteps ProcessSystem.step start [.run, .fork, .wait4 (-1) 0 0, .run, .exit 7]).map
        fun sys => (sys.taskCount, sys.reaped, (sys.tasks 1).parent)) =
      some (2, [], some initproc) := by
    decide +kernel
  obtain ⟨start, hstart, hrest⟩ := Option.bind_eq_some_iff.1 hcomp
  obtain ⟨sys, hrun, hproj⟩ := Option.map_eq_some_iff.1 hrest
  simp only [Prod.mk.injEq] at hproj
  obtain ⟨hcount, hreaped, hparent⟩ := hproj
  obtain ⟨htree, -⟩ := processTree_wait4_reaps_exited_children rfl (toOption_eq_some.1 hstart)
    (reachable_of_runSteps hrun)
  obtain ⟨p, hp, -, hlive, hchildren⟩ :=
    htree 1 (by rw [hcount]; decide) (by decide) (by rw [hreaped]; simp)
  rw [hparent, Option.some_inj] at hp
  subst hp
  refine ⟨start, sys, toOption_eq_some.1 hstart, hrun, hparent, hlive, ?_⟩
  rw [hchildren initproc, if_pos rfl]

theorem exited_tasks_never_released_after_wait :
    ∃ start sys, initTask bootKernel = .ok start ∧
      runSteps ProcessSystem.step start
        [.run, .fork, .wait4 (-1) 0 0, .run, .exit 0, .run, .wait4 (-1) 0 0] = some sys ∧
      sys.reaped = [1] ∧ 0 < sys.strongCount 1 ∧ sys.pidAllocator.recycled = [] := by
  have hcomp : ((initTask bootKernel).toOption.bind fun start =>
      (runSteps ProcessSystem.step start
        [.run, .fork, .wait4 (-1) 0 0, .run, .exit 0, .run, .wait4 (-1) 0 0]).map
        fun sys => sys.reaped) = some [1] := by
    decide +kernel
  obtain ⟨start, hstart, hrest⟩ := Option.bind_eq_some_iff.1 hcomp
  obtain ⟨sys, hrun, hreaped⟩ := Option.map_eq_some_iff.1 hrest
  obtain ⟨-, hheld, hpid, -⟩ := exited_tasks_never_released rfl (toOption_eq_some.1 hstart)
    (reachable_of_runSteps hrun)
  exact ⟨start, sys, toOption_eq_some.1 hstart, hrun, hreaped,
    hheld 1 (by rw [hreaped]; simp), hpid⟩

set_option synthInstance.maxSize 1024 in
/-- The init process forks a child, the child exits, and the init process reaps
it with `sys_wait4(-1, null, 0)`: the call returns the child's pid `1`, yet the
child's block is still held once, by the frame of its
`exit_current_and_run_next`, so neither its pid nor its kernel stack is back in
its allocator, and the next fork gets pid `2`. -/
theorem wait4_reaped_child_keeps_pid :
    ∃ start sys sys', initTask bootKernel = .ok start ∧
      runSteps ProcessSystem.step start [.run, .fork, .wait4 (-1) 0 0, .run, .exit 0, .run] =
        some sys ∧
      sysWait4 sys initproc (-1) 0 0 = .ok (.returned 1 none, sys') ∧
      sys'.reaped = [1] ∧ sys'.exitFrames = [1] ∧ sys'.strongCount 1 = 1 ∧
      sys'.pidAllocator = ⟨2, []⟩ ∧ sys'.kernel.kstackAllocator = ⟨2, []⟩ ∧
      (fork sys' initproc).map Prod.fst = .ok 2 := by
  have hcomp : ((initTask bootKernel).toOption.bind fun start =>
      (runSteps ProcessSystem.step start [.run, .fork, .wait4 (-1) 0 0, .run, .exit 0, .run]).bind
        fun sys => (sysWait4 sys initproc (-1) 0 0).toOption.map fun result =>
          (result.1, result.2.reaped, result.2.exitFrames, result.2.strongCount 1,
            result.2.pidAllocator, result.2.kernel.kstackAllocator,
            ((fork result.2 initproc).map Prod.fst).toOption)) =
      some (.returned 1 none, [1], [1], 1, ⟨2, []⟩, ⟨2, []⟩, some 2) := by
    decide +kernel
  obtain ⟨start, hstart, hrest⟩ := Option.bind_eq_some_iff.1 hcomp
  obtain ⟨sys, hrun, hrest⟩ := Option.bind_eq_some_iff.1 hrest
  obtain ⟨⟨outcome, sys'⟩, hwait, hproj⟩ := Option.map_eq_some_iff.1 hrest
  simp only [Prod.mk.injEq] at hproj
  obtain ⟨rfl, hreaped, hframes, hcount, hpid, hkstack, hfork⟩ := hproj
  exact ⟨start, sys, sys', toOption_eq_some.1 hstart, hrun, toOption_eq_some.1 hwait, hreaped,
    hframes, hcount, hpid, hkstack, toOption_eq_some.1 hfork⟩

end ChaosKernel.Process
