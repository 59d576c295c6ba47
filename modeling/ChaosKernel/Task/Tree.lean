import ChaosKernel.Task.Process

/-!
# The process tree invariant

`Inv` is what holds of the process state after any run from `init_task`:

* the pid and kernel-stack ids are those of the block's allocation order, and
  neither allocator has taken an id back;
* every forked block that `sys_wait4` has not returned is in exactly one
  children vector, that of the live block its parent pointer names, which is
  the block that forked it or, once that one has exited, `INITPROC`;
* a block has exited iff the frame of its `exit_current_and_run_next` holds it,
  and then it has an exit code and no children;
* the current and the queued tasks are distinct live blocks.

Each call keeps it (`inv_step`), so it holds in every reachable state.  The
frame of `exit_current_and_run_next` is never resumed, so the `Arc` it holds
keeps every exited block alive: no block is ever dropped, and the pid and the
kernel stack of a reaped child never go back to their allocators.
-/

namespace ChaosKernel.Process

open Lib ProcessSystem

/-- The invariant of the process state. -/
structure Inv (sys : ProcessSystem) : Prop where
  /-- Nothing is allocated from `taskCount` on. -/
  vacant : ∀ b, sys.taskCount ≤ b → sys.tasks b = .vacant
  /-- `INITPROC` is allocated, has no parent and never exits. -/
  init_lt : initproc < sys.taskCount
  init_parent : (sys.tasks initproc).parent = none
  init_live : (sys.tasks initproc).isZombie = false
  /-- Block `b` has pid `b` and kernel stack `b`. -/
  pid_eq : ∀ b < sys.taskCount, (sys.tasks b).pid = b
  kstack_eq : ∀ b < sys.taskCount, (sys.tasks b).kstack = b
  /-- Neither allocator has ever taken an id back. -/
  pidAllocator_eq : sys.pidAllocator = ⟨sys.taskCount, []⟩
  kstackAllocator_eq : sys.kernel.kstackAllocator = ⟨sys.taskCount, []⟩
  /-- A children vector holds allocated blocks, never `INITPROC` nor its owner. -/
  children_lt : ∀ q c, c ∈ (sys.tasks q).children → c < sys.taskCount ∧ c ≠ initproc ∧ c ≠ q
  /-- A forked block `sys_wait4` has not returned is in exactly one children
  vector, that of the live block its parent pointer names. -/
  parent_children : ∀ b < sys.taskCount, b ≠ initproc → b ∉ sys.reaped →
    ∃ p, (sys.tasks b).parent = some p ∧ (sys.tasks p).isZombie = false ∧
      ∀ q, (sys.tasks q).children.count b = if q = p then 1 else 0
  /-- A block `sys_wait4` has returned is in no children vector. -/
  reaped_children : ∀ b ∈ sys.reaped, ∀ q, b ∉ (sys.tasks q).children
  /-- The parent pointer names the forking block, or `INITPROC` once that has
  exited. -/
  parent_forker : ∀ b < sys.taskCount, b ≠ initproc →
    (sys.tasks b).parent = some (sys.forkedBy b) ∨
      ((sys.tasks b).parent = some initproc ∧ (sys.tasks (sys.forkedBy b)).isZombie = true)
  /-- A block has exited iff an exit frame holds it, iff it has an exit code;
  it then has no children. -/
  zombie_iff : ∀ b, (sys.tasks b).isZombie = true ↔ b ∈ sys.exitFrames
  zombie_exitCode : ∀ b, (sys.tasks b).isZombie = true ↔ (sys.tasks b).exitCode.isSome
  zombie_children : ∀ b, (sys.tasks b).isZombie = true → (sys.tasks b).children = []
  /-- `sys_wait4` has returned distinct zombies. -/
  reaped_zombie : ∀ b ∈ sys.reaped, (sys.tasks b).isZombie = true
  reaped_nodup : sys.reaped.Nodup
  /-- The current task and the queued ones are distinct live blocks. -/
  runnable_nodup : (sys.current.toList ++ sys.readyQueue).Nodup
  runnable_live : ∀ b ∈ sys.current.toList ++ sys.readyQueue,
    b < sys.taskCount ∧ (sys.tasks b).isZombie = false

namespace Inv

variable {sys : ProcessSystem}

theorem lt_of_isZombie (hinv : Inv sys) {b : ℕ} (hb : (sys.tasks b).isZombie = true) :
    b < sys.taskCount := by
  by_contra hge
  rw [hinv.vacant b (Nat.le_of_not_lt hge)] at hb
  cases hb

theorem current_live (hinv : Inv sys) {task : ℕ} (htask : sys.current = some task) :
    task < sys.taskCount ∧ (sys.tasks task).isZombie = false :=
  hinv.runnable_live task (by simp [htask])

theorem not_reaped_of_mem_children (hinv : Inv sys) {q c : ℕ}
    (hc : c ∈ (sys.tasks q).children) : c ∉ sys.reaped :=
  fun hreaped => hinv.reaped_children c hreaped q hc

/-- A child is in its owner's vector once, and its parent pointer names the
owner. -/
theorem parent_of_mem_children (hinv : Inv sys) {q c : ℕ} (hc : c ∈ (sys.tasks q).children) :
    (sys.tasks c).parent = some q ∧ (sys.tasks q).isZombie = false ∧
      ∀ q', (sys.tasks q').children.count c = if q' = q then 1 else 0 := by
  obtain ⟨hlt, hinit, -⟩ := hinv.children_lt q c hc
  obtain ⟨p, hparent, hlive, hcount⟩ :=
    hinv.parent_children c hlt hinit (hinv.not_reaped_of_mem_children hc)
  have hq : q = p := by
    have hpos := List.count_pos_iff.2 hc
    rw [hcount q] at hpos
    by_contra hne
    simp [hne] at hpos
  subst hq
  exact ⟨hparent, hlive, hcount⟩

end Inv

/-! ## The start -/

theorem inv_initTask {kernel : KernelState} {sys : ProcessSystem}
    (hkernel : kernel.kstackAllocator = RecycleAllocator.new) (h : initTask kernel = .ok sys) :
    Inv sys := by
  obtain ⟨hcount, hblock, hpid, hkstack, hcurrent, hqueue, hframes, hreaped⟩ := initTask_eq_ok h
  rw [hkernel] at hblock hkstack
  -- one block, `INITPROC`, queued and linked to nothing
  have hinit : sys.tasks initproc = ⟨0, 0, none, [], false, none⟩ := by
    rw [hblock, if_pos rfl]
    rfl
  have hother : ∀ b, b ≠ initproc → sys.tasks b = .vacant := fun b hb => by
    rw [hblock, if_neg hb]
  have hvacant : ∀ b, sys.taskCount ≤ b → sys.tasks b = .vacant := fun b hb =>
    hother b (by rw [hcount] at hb; simp [initproc] at hb ⊢; omega)
  have honly : ∀ b < sys.taskCount, b = initproc := fun b hb => by
    rw [hcount] at hb
    simpa [initproc] using hb
  have hnoChildren : ∀ q, (sys.tasks q).children = [] := fun q => by
    by_cases hq : q = initproc
    · rw [hq, hinit]
    · rw [hother q hq]
      rfl
  have hlive : ∀ b, (sys.tasks b).isZombie = false ∧ (sys.tasks b).exitCode = none := fun b => by
    by_cases hb : b = initproc
    · rw [hb, hinit]
      exact ⟨rfl, rfl⟩
    · rw [hother b hb]
      exact ⟨rfl, rfl⟩
  exact
    { vacant := hvacant
      init_lt := by rw [hcount]; exact Nat.lt_succ_self _
      init_parent := by rw [hinit]
      init_live := (hlive initproc).1
      pid_eq := fun b hb => by rw [honly b hb, hinit]; rfl
      kstack_eq := fun b hb => by rw [honly b hb, hinit]; rfl
      pidAllocator_eq := by rw [hpid, hcount]; rfl
      kstackAllocator_eq := by rw [hkstack, hcount]; rfl
      children_lt := fun q c hc => by simp [hnoChildren q] at hc
      parent_children := fun b hb hinitb => absurd (honly b hb) hinitb
      reaped_children := fun b hb => by simp [hreaped] at hb
      parent_forker := fun b hb hinitb => absurd (honly b hb) hinitb
      zombie_iff := fun b => by simp [(hlive b).1, hframes]
      zombie_exitCode := fun b => by simp [(hlive b).1, (hlive b).2]
      zombie_children := fun b _ => hnoChildren b
      reaped_zombie := fun b hb => by simp [hreaped] at hb
      reaped_nodup := by rw [hreaped]; exact List.nodup_nil
      runnable_nodup := by simp [hcurrent, hqueue]
      runnable_live := fun b hb => by
        simp only [hcurrent, hqueue, Option.toList_none, List.nil_append,
          List.mem_singleton] at hb
        subst hb
        exact ⟨by rw [hcount]; exact Nat.lt_succ_self _, (hlive _).1⟩ }

/-! ## The scheduler -/

section Scheduler

variable {sys sys' : ProcessSystem}

theorem inv_runTasks (hinv : Inv sys) (hcurrent : sys.current = none)
    (h : runTasks sys = some sys') : Inv sys' := by
  unfold runTasks at h
  split at h
  · cases h
  · rename_i task readyQueue hqueue
    cases h
    -- the front of the queue moves to the processor
    have hlist : (some task).toList ++ readyQueue = sys.current.toList ++ sys.readyQueue := by
      rw [hcurrent, hqueue]
      rfl
    exact { hinv with
      runnable_nodup := by
        dsimp only
        rw [hlist]
        exact hinv.runnable_nodup
      runnable_live := fun b hb => by
        dsimp only at hb
        rw [hlist] at hb
        exact hinv.runnable_live b hb }

theorem inv_suspend (hinv : Inv sys) {task : ℕ} (htask : sys.current = some task) :
    Inv (suspendCurrentAndRunNext sys task) := by
  have hperm : ((none : Option ℕ).toList ++ (sys.readyQueue ++ [task])).Perm
      (sys.current.toList ++ sys.readyQueue) := by
    rw [htask]
    simp
  exact { hinv with
    runnable_nodup := hperm.nodup_iff.2 hinv.runnable_nodup
    runnable_live := fun b hb => hinv.runnable_live b (hperm.subset hb) }

end Scheduler

/-! ## `fork` -/

section Fork

variable {sys sys' : ProcessSystem} {self pid : ℕ}

theorem fork_isZombie (hinv : Inv sys) (h : fork sys self = .ok (pid, sys'))
    (hself : self < sys.taskCount) (b : ℕ) :
    (sys'.tasks b).isZombie = (sys.tasks b).isZombie := by
  rw [fork_tasks h hself]
  split_ifs with hb hbs
  · rw [hb, hinv.vacant _ le_rfl]
    rfl
  · rw [hbs]
  · rfl

theorem fork_exitCode (hinv : Inv sys) (h : fork sys self = .ok (pid, sys'))
    (hself : self < sys.taskCount) (b : ℕ) :
    (sys'.tasks b).exitCode = (sys.tasks b).exitCode := by
  rw [fork_tasks h hself]
  split_ifs with hb hbs
  · rw [hb, hinv.vacant _ le_rfl]
    rfl
  · rw [hbs]
  · rfl

theorem fork_children (hinv : Inv sys) (h : fork sys self = .ok (pid, sys'))
    (hself : self < sys.taskCount) (b : ℕ) :
    (sys'.tasks b).children =
      (sys.tasks b).children ++ if b = self then [sys.taskCount] else [] := by
  rw [fork_tasks h hself]
  by_cases hb : b = sys.taskCount
  · subst hb
    rw [if_pos rfl, if_neg hself.ne', hinv.vacant _ le_rfl]
    rfl
  · by_cases hbs : b = self
    · subst hbs
      simp [hb]
    · simp [hb, hbs]

theorem fork_parent (h : fork sys self = .ok (pid, sys')) (hself : self < sys.taskCount)
    (b : ℕ) :
    (sys'.tasks b).parent = if b = sys.taskCount then some self else (sys.tasks b).parent := by
  rw [fork_tasks h hself]
  split_ifs with hb hbs
  · rfl
  · rw [hbs]
  · rfl

/-- `fork` keeps the invariant. -/
theorem inv_fork (hinv : Inv sys) {task : ℕ} (htask : sys.current = some task)
    (h : fork sys task = .ok (pid, sys')) : Inv sys' := by
  obtain ⟨hself, hlive⟩ := hinv.current_live htask
  obtain ⟨kstack, kernel, halloc, hpidEq, hsys'⟩ := fork_eq_ok h
  obtain ⟨-, hkstackAllocator⟩ := kstackAlloc_eq_ok halloc
  have htaskCount : sys'.taskCount = sys.taskCount + 1 := by rw [hsys']
  have hreaped : sys'.reaped = sys.reaped := by rw [hsys']
  have hframes : sys'.exitFrames = sys.exitFrames := by rw [hsys']
  have hrunnable : sys'.current.toList ++ sys'.readyQueue =
      sys.current.toList ++ sys.readyQueue ++ [sys.taskCount] := by
    rw [hsys', List.append_assoc]
  have hforkedBy : ∀ b, sys'.forkedBy b = if b = sys.taskCount then task else sys.forkedBy b :=
    fun b => by rw [hsys']; exact Function.update_apply _ _ _ _
  have hzombie := fork_isZombie hinv h hself
  have hchildren := fork_children hinv h hself
  have hparent := fork_parent h hself
  have hinit := hinv.init_lt
  -- the new block is past every block the state links
  have hfresh : ∀ q, sys.taskCount ∉ (sys.tasks q).children := fun q hc =>
    (hinv.children_lt q _ hc).1.ne rfl
  have hids : ∀ b < sys'.taskCount, (sys'.tasks b).pid = b ∧ (sys'.tasks b).kstack = b := by
    intro b hb
    rw [fork_tasks h hself]
    split_ifs with hnew hbs
    · subst hnew
      rw [hpidEq, hinv.pidAllocator_eq, hinv.kstackAllocator_eq]
      exact ⟨rfl, rfl⟩
    · subst hbs
      exact ⟨hinv.pid_eq _ hself, hinv.kstack_eq _ hself⟩
    · have hlt : b < sys.taskCount := by omega
      exact ⟨hinv.pid_eq b hlt, hinv.kstack_eq b hlt⟩
  refine
    { vacant := fun b hb => by
        rw [fork_tasks h hself, if_neg (by omega), if_neg (by omega)]
        exact hinv.vacant b (by omega)
      init_lt := by omega
      init_parent := by rw [hparent, if_neg (by omega)]; exact hinv.init_parent
      init_live := by rw [hzombie]; exact hinv.init_live
      pid_eq := fun b hb => (hids b hb).1
      kstack_eq := fun b hb => (hids b hb).2
      pidAllocator_eq := by rw [hsys', hinv.pidAllocator_eq]; rfl
      kstackAllocator_eq := by
        rw [hsys', hkstackAllocator, hinv.kstackAllocator_eq]
        rfl
      children_lt := fun q c hc => by
        rw [hchildren, List.mem_append] at hc
        rcases hc with hc | hc
        · obtain ⟨hlt, hinitc, hne⟩ := hinv.children_lt q c hc
          exact ⟨by omega, hinitc, hne⟩
        · split_ifs at hc with hq
          · rw [List.mem_singleton] at hc
            subst hc hq
            exact ⟨by omega, by omega, hself.ne'⟩
          · simp at hc
      parent_children := ?_
      reaped_children := fun b hb q hc => by
        rw [hreaped] at hb
        rw [hchildren, List.mem_append] at hc
        rcases hc with hc | hc
        · exact hinv.reaped_children b hb q hc
        · have hlt := hinv.lt_of_isZombie (hinv.reaped_zombie b hb)
          split_ifs at hc <;> simp at hc
          omega
      parent_forker := fun b hb hinitb => by
        rw [hparent, hforkedBy, hzombie]
        by_cases hnew : b = sys.taskCount
        · rw [if_pos hnew, if_pos hnew]
          exact .inl rfl
        · rw [if_neg hnew, if_neg hnew]
          exact hinv.parent_forker b (by omega) hinitb
      zombie_iff := fun b => by rw [hzombie, hframes]; exact hinv.zombie_iff b
      zombie_exitCode := fun b => by
        rw [hzombie, fork_exitCode hinv h hself]
        exact hinv.zombie_exitCode b
      zombie_children := fun b hb => by
        rw [hzombie] at hb
        have hne : b ≠ task := by rintro rfl; rw [hlive] at hb; cases hb
        rw [hchildren, hinv.zombie_children b hb, if_neg hne]
        rfl
      reaped_zombie := fun b hb => by
        rw [hreaped] at hb
        rw [hzombie]
        exact hinv.reaped_zombie b hb
      reaped_nodup := by rw [hreaped]; exact hinv.reaped_nodup
      runnable_nodup := by
        rw [hrunnable, List.nodup_append]
        refine ⟨hinv.runnable_nodup, List.nodup_singleton _, ?_⟩
        intro b hb c hc
        rw [List.mem_singleton] at hc
        subst hc
        exact (hinv.runnable_live b hb).1.ne
      runnable_live := fun b hb => by
        rw [hrunnable, List.mem_append, List.mem_singleton] at hb
        rcases hb with hb | rfl
        · obtain ⟨hlt, hb⟩ := hinv.runnable_live b hb
          exact ⟨by omega, by rw [hzombie]; exact hb⟩
        · refine ⟨by omega, ?_⟩
          rw [hzombie, hinv.vacant _ le_rfl]
          rfl }
  -- the child's only vector is its parent's; nothing else moves
  intro b hb hinitb hreapedb
  rw [hreaped] at hreapedb
  by_cases hnew : b = sys.taskCount
  · subst hnew
    refine ⟨task, by rw [hparent, if_pos rfl], by rw [hzombie]; exact hlive, fun q => ?_⟩
    rw [hchildren, List.count_append, List.count_eq_zero.2 (hfresh q)]
    split_ifs with hq <;> simp
  · have hlt : b < sys.taskCount := by omega
    have hne : sys.taskCount ≠ b := Ne.symm hnew
    obtain ⟨p, hbp, hp, hcount⟩ := hinv.parent_children b hlt hinitb hreapedb
    refine ⟨p, by rw [hparent, if_neg hnew]; exact hbp, by rw [hzombie]; exact hp,
      fun q => ?_⟩
    rw [hchildren, List.count_append, hcount q]
    split_ifs <;> simp [hne]

end Fork

/-! ## `exit_current_and_run_next` -/

section Exit

variable {sys sys' : ProcessSystem} {task : ℕ} {exitCode : ℤ}

/-- The block a live current task other than `INITPROC` leaves, field by field. -/
theorem exit_fields (hinv : Inv sys) (h : exitCurrentAndRunNext sys task exitCode = some sys')
    (htask : task ≠ initproc) (b : ℕ) :
    (sys'.tasks b).isZombie = (if b = task then true else (sys.tasks b).isZombie) ∧
      (sys'.tasks b).exitCode = (if b = task then some exitCode else (sys.tasks b).exitCode) ∧
      (sys'.tasks b).children =
        (if b = task then []
          else if b = initproc then (sys.tasks b).children ++ (sys.tasks task).children
          else (sys.tasks b).children) ∧
      (sys'.tasks b).parent =
        (if b ∈ (sys.tasks task).children then some initproc else (sys.tasks b).parent) ∧
      (sys'.tasks b).pid = (sys.tasks b).pid ∧ (sys'.tasks b).kstack = (sys.tasks b).kstack := by
  have hinit : initproc ∉ (sys.tasks task).children := fun hc =>
    (hinv.children_lt task _ hc).2.1 rfl
  have hself : task ∉ (sys.tasks task).children := fun hc =>
    (hinv.children_lt task _ hc).2.2 rfl
  rw [exitCurrentAndRunNext_tasks h htask hinit hself b]
  by_cases hb : b = task
  · subst hb
    simp [hself]
  · by_cases hbi : b = initproc
    · subst hbi
      simp [hb, hinit]
    · by_cases hbc : b ∈ (sys.tasks task).children <;> simp [hb, hbi, hbc]

/-- Only a task other than `INITPROC` gets past the shutdown check. -/
theorem ne_initproc_of_exit (hinv : Inv sys)
    (h : exitCurrentAndRunNext sys task exitCode = some sys') : task ≠ initproc := by
  rintro rfl
  exact (exitCurrentAndRunNext_eq_some h).1 (hinv.pid_eq _ hinv.init_lt)

/-- `exit_current_and_run_next` keeps the invariant. -/
theorem inv_exit (hinv : Inv sys) (htask : sys.current = some task)
    (h : exitCurrentAndRunNext sys task exitCode = some sys') : Inv sys' := by
  obtain ⟨hlt, hlive⟩ := hinv.current_live htask
  obtain ⟨-, hsys'⟩ := exitCurrentAndRunNext_eq_some h
  have htaskCount : sys'.taskCount = sys.taskCount := by rw [hsys']
  have hreaped : sys'.reaped = sys.reaped := by rw [hsys']
  have hframes : sys'.exitFrames = task :: sys.exitFrames := by rw [hsys']
  have hforkedBy : sys'.forkedBy = sys.forkedBy := by rw [hsys']
  have hrunnable : sys'.current.toList ++ sys'.readyQueue = sys.readyQueue := by rw [hsys']; rfl
  have htaskinit := ne_initproc_of_exit hinv h
  have hfields := exit_fields hinv h htaskinit
  have hzombie b := (hfields b).1
  have hchildren b := (hfields b).2.2.1
  have hparent b := (hfields b).2.2.2.1
  have hinitLive : (sys.tasks initproc).isZombie = false := hinv.init_live
  have hinitChild : initproc ∉ (sys.tasks task).children := fun hc =>
    (hinv.children_lt task _ hc).2.1 rfl
  have hinitLt := hinv.init_lt
  -- the queue holds neither the exiting task nor a zombie
  have hqueue : ∀ b ∈ sys.readyQueue, b ≠ task ∧ b < sys.taskCount ∧
      (sys.tasks b).isZombie = false := by
    intro b hb
    have hnodup := hinv.runnable_nodup
    rw [htask, Option.toList_some, List.singleton_append, List.nodup_cons] at hnodup
    obtain ⟨hlt', hlive'⟩ := hinv.runnable_live b (by simp [hb])
    exact ⟨fun hbt => hnodup.1 (hbt ▸ hb), hlt', hlive'⟩
  have hzombie_mono : ∀ b, (sys.tasks b).isZombie = true → (sys'.tasks b).isZombie = true := by
    intro b hb
    rw [hzombie]
    split_ifs <;> simp [hb]
  refine
    { vacant := fun b hb => ?_
      init_lt := by omega
      init_parent := by rw [hparent, if_neg hinitChild]; exact hinv.init_parent
      init_live := by rw [hzombie, if_neg htaskinit.symm]; exact hinitLive
      pid_eq := fun b hb => by
        rw [(hfields b).2.2.2.2.1]
        exact hinv.pid_eq b (by omega)
      kstack_eq := fun b hb => by
        rw [(hfields b).2.2.2.2.2]
        exact hinv.kstack_eq b (by omega)
      pidAllocator_eq := by rw [htaskCount, ← hinv.pidAllocator_eq, hsys']
      kstackAllocator_eq := by rw [htaskCount, ← hinv.kstackAllocator_eq, hsys']
      children_lt := fun q c hc => ?_
      parent_children := ?_
      reaped_children := fun b hb q hc => ?_
      parent_forker := ?_
      zombie_iff := fun b => by
        rw [hzombie, hframes, List.mem_cons]
        split_ifs with hb
        · simp [hb]
        · simp [hb, hinv.zombie_iff b]
      zombie_exitCode := fun b => by
        rw [hzombie, (hfields b).2.1]
        split_ifs with hbt
        · simp
        · exact hinv.zombie_exitCode b
      zombie_children := fun b hb => by
        rw [hzombie] at hb
        rw [hchildren]
        split_ifs at hb ⊢ with hbt hbi
        · rfl
        · rw [hbi, hinitLive] at hb
          cases hb
        · exact hinv.zombie_children b hb
      reaped_zombie := fun b hb => by
        rw [hreaped] at hb
        exact hzombie_mono b (hinv.reaped_zombie b hb)
      reaped_nodup := by rw [hreaped]; exact hinv.reaped_nodup
      runnable_nodup := by
        rw [hrunnable]
        have hnodup := hinv.runnable_nodup
        rw [htask, Option.toList_some, List.singleton_append, List.nodup_cons] at hnodup
        exact hnodup.2
      runnable_live := fun b hb => by
        rw [hrunnable] at hb
        obtain ⟨hbt, hlt', hlive'⟩ := hqueue b hb
        refine ⟨by omega, ?_⟩
        rw [hzombie, if_neg hbt]
        exact hlive' }
  · -- an unallocated block is linked to nothing
    have hbt : b ≠ task := by omega
    have hbi : b ≠ initproc := by omega
    have hbc : b ∉ (sys.tasks task).children := fun hc => by
      have := (hinv.children_lt task b hc).1
      omega
    rw [exitCurrentAndRunNext_tasks h htaskinit hinitChild
      (fun hc => (hinv.children_lt task _ hc).2.2 rfl), if_neg hbt, if_neg hbi, if_neg hbc]
    exact hinv.vacant b (by omega)
  · rw [htaskCount]
    rw [hchildren] at hc
    split_ifs at hc with hqt hqi
    · simp at hc
    · rw [List.mem_append] at hc
      rcases hc with hc | hc
      · exact hinv.children_lt q c hc
      · obtain ⟨hlt', hinit', -⟩ := hinv.children_lt task c hc
        exact ⟨hlt', hinit', hqi ▸ hinit'⟩
    · exact hinv.children_lt q c hc
  · -- a child of the exiting task now hangs under `INITPROC`, once
    intro b hb hinitb hreapedb
    rw [htaskCount] at hb
    rw [hreaped] at hreapedb
    obtain ⟨p, hbp, hp, hcount⟩ := hinv.parent_children b hb hinitb hreapedb
    by_cases hbc : b ∈ (sys.tasks task).children
    · obtain ⟨-, -, hcount'⟩ := hinv.parent_of_mem_children hbc
      refine ⟨initproc, by rw [hparent, if_pos hbc], ?_, fun q => ?_⟩
      · rw [hzombie, if_neg htaskinit.symm]
        exact hinitLive
      · rw [hchildren]
        by_cases hqt : q = task
        · rw [if_pos hqt, if_neg (hqt ▸ htaskinit)]
          rfl
        · rw [if_neg hqt]
          by_cases hqi : q = initproc
          · rw [if_pos hqi, if_pos hqi, hqi, List.count_append, hcount' initproc, hcount' task,
              if_neg htaskinit.symm, if_pos rfl]
          · rw [if_neg hqi, if_neg hqi, hcount' q, if_neg hqt]
    · have hpt : p ≠ task := by
        rintro rfl
        have hpos : 0 < (sys.tasks p).children.count b := by rw [hcount p]; simp
        exact hbc (List.count_pos_iff.1 hpos)
      refine ⟨p, by rw [hparent, if_neg hbc]; exact hbp, by rw [hzombie, if_neg hpt]; exact hp,
        fun q => ?_⟩
      rw [hchildren]
      by_cases hqt : q = task
      · rw [if_pos hqt, if_neg (hqt ▸ hpt.symm)]
        rfl
      · rw [if_neg hqt]
        by_cases hqi : q = initproc
        · rw [if_pos hqi, List.count_append, List.count_eq_zero.2 hbc, Nat.add_zero, hcount q]
        · rw [if_neg hqi, hcount q]
  · -- a reaped block was in no vector, and so in none of the exiting task's children
    rw [hreaped] at hb
    rw [hchildren] at hc
    split_ifs at hc with hqt hqi
    · simp at hc
    · rw [List.mem_append] at hc
      rcases hc with hc | hc
      · exact hinv.reaped_children b hb q hc
      · exact hinv.reaped_children b hb task hc
    · exact hinv.reaped_children b hb q hc
  · -- the children handed to `INITPROC` were forked by the exiting task
    intro b hb hinitb
    rw [htaskCount] at hb
    rw [hparent, hforkedBy]
    split_ifs with hbc
    · obtain ⟨hbp, -, -⟩ := hinv.parent_of_mem_children hbc
      rcases hinv.parent_forker b hb hinitb with hforker | ⟨hinitp, -⟩
      · rw [hbp, Option.some_inj] at hforker
        refine .inr ⟨rfl, ?_⟩
        rw [← hforker, hzombie, if_pos rfl]
      · rw [hbp, Option.some_inj] at hinitp
        exact absurd hinitp htaskinit
    · rcases hinv.parent_forker b hb hinitb with hforker | ⟨hinitp, hexited⟩
      · exact .inl hforker
      · exact .inr ⟨hinitp, hzombie_mono _ hexited⟩

end Exit

/-! ## `sys_wait4` -/

section Wait

variable {sys sys' : ProcessSystem} {task : ℕ}

/-- Replacing the children vector of one block. -/
theorem update_children_apply (tasks : ℕ → TaskControlBlock) (task : ℕ) (children : List ℕ)
    (b : ℕ) :
    Function.update tasks task { tasks task with children } b =
      { tasks b with children := if b = task then children else (tasks b).children } := by
  rw [Function.update_apply]
  split_ifs with hb
  · subst hb
    rfl
  · rfl

/-- The state `sys_wait4` leaves when it returns `child`: the child leaves the
caller's vector and, an exit frame still holding it, is not dropped. -/
theorem wait4_returned_eq (hinv : Inv sys) {child : ℕ} (hzombie : (sys.tasks child).isZombie = true)
    (h : release
      { sys with
        tasks := Function.update sys.tasks task
          { sys.tasks task with children := (sys.tasks task).children.erase child }
        reaped := child :: sys.reaped } child = .ok sys') :
    sys' = { sys with
      tasks := Function.update sys.tasks task
        { sys.tasks task with children := (sys.tasks task).children.erase child }
      reaped := child :: sys.reaped } := by
  rw [release_of_mem_exitFrames ?_] at h
  · cases h
    rfl
  · exact (hinv.zombie_iff child).1 hzombie

/-- Returning a zombie child keeps the invariant. -/
theorem inv_reap (hinv : Inv sys) (htask : sys.current = some task) {child : ℕ}
    (hchild : child ∈ (sys.tasks task).children) (hzombie : (sys.tasks child).isZombie = true) :
    Inv { sys with
      tasks := Function.update sys.tasks task
        { sys.tasks task with children := (sys.tasks task).children.erase child }
      reaped := child :: sys.reaped } := by
  obtain ⟨hlt, hlive⟩ := hinv.current_live htask
  obtain ⟨-, -, hcount⟩ := hinv.parent_of_mem_children hchild
  have hnotReaped := hinv.not_reaped_of_mem_children hchild
  have hblock : ∀ b, Function.update sys.tasks task
      { sys.tasks task with children := (sys.tasks task).children.erase child } b =
      if b = task then { sys.tasks task with children := (sys.tasks task).children.erase child }
      else sys.tasks b := fun b => Function.update_apply _ _ _ _
  -- only the caller's vector changes
  have hsame : ∀ b, (Function.update sys.tasks task
      { sys.tasks task with children := (sys.tasks task).children.erase child } b).isZombie =
        (sys.tasks b).isZombie ∧
      (Function.update sys.tasks task
        { sys.tasks task with children := (sys.tasks task).children.erase child } b).parent =
        (sys.tasks b).parent ∧
      (Function.update sys.tasks task
        { sys.tasks task with children := (sys.tasks task).children.erase child } b).exitCode =
        (sys.tasks b).exitCode ∧
      (Function.update sys.tasks task
        { sys.tasks task with children := (sys.tasks task).children.erase child } b).pid =
        (sys.tasks b).pid ∧
      (Function.update sys.tasks task
        { sys.tasks task with children := (sys.tasks task).children.erase child } b).kstack =
        (sys.tasks b).kstack := by
    intro b
    rw [hblock]
    split_ifs with hb
    · subst hb
      exact ⟨rfl, rfl, rfl, rfl, rfl⟩
    · exact ⟨rfl, rfl, rfl, rfl, rfl⟩
  have hchildren : ∀ b, (Function.update sys.tasks task
      { sys.tasks task with children := (sys.tasks task).children.erase child } b).children =
      if b = task then (sys.tasks task).children.erase child else (sys.tasks b).children := by
    intro b
    rw [hblock]
    split_ifs <;> rfl
  exact
    { vacant := fun b hb => by
        simp only at hb ⊢
        rw [hblock, if_neg (by omega)]
        exact hinv.vacant b hb
      init_lt := hinv.init_lt
      init_parent := (hsame initproc).2.1.trans hinv.init_parent
      init_live := (hsame initproc).1.trans hinv.init_live
      pid_eq := fun b hb => (hsame b).2.2.2.1.trans (hinv.pid_eq b hb)
      kstack_eq := fun b hb => (hsame b).2.2.2.2.trans (hinv.kstack_eq b hb)
      pidAllocator_eq := hinv.pidAllocator_eq
      kstackAllocator_eq := hinv.kstackAllocator_eq
      children_lt := fun q c hc => by
        dsimp only at hc
        rw [hchildren] at hc
        by_cases hq : q = task
        · rw [if_pos hq] at hc
          rw [hq]
          exact hinv.children_lt task c (List.mem_of_mem_erase hc)
        · rw [if_neg hq] at hc
          exact hinv.children_lt q c hc
      parent_children := fun b hb hinit hreaped => by
        simp only [List.mem_cons, not_or] at hreaped
        obtain ⟨p, hbp, hp, hcountb⟩ := hinv.parent_children b hb hinit hreaped.2
        refine ⟨p, (hsame b).2.1.trans hbp, (hsame p).1.trans hp, fun q => ?_⟩
        dsimp only
        rw [hchildren]
        by_cases hq : q = task
        · rw [if_pos hq, List.count_erase, beq_false_of_ne (Ne.symm hreaped.1)]
          simp only [Bool.false_eq_true, if_false, Nat.sub_zero]
          rw [← hq]
          exact hcountb q
        · rw [if_neg hq]
          exact hcountb q
      reaped_children := fun b hb q hc => by
        dsimp only at hb hc
        rw [hchildren] at hc
        rw [List.mem_cons] at hb
        rcases hb with rfl | hb
        · -- the returned child was in the caller's vector only, and once
          by_cases hq : q = task
          · rw [if_pos hq] at hc
            have hzero : ((sys.tasks task).children.erase b).count b = 0 := by
              rw [List.count_erase, hcount task]
              simp
            exact List.count_eq_zero.1 hzero hc
          · rw [if_neg hq] at hc
            have hzero := hcount q
            rw [if_neg hq] at hzero
            exact List.count_eq_zero.1 hzero hc
        · by_cases hq : q = task
          · rw [if_pos hq] at hc
            exact hinv.reaped_children b hb task (List.mem_of_mem_erase hc)
          · rw [if_neg hq] at hc
            exact hinv.reaped_children b hb q hc
      parent_forker := fun b hb hinit => by
        simp only
        rw [(hsame b).2.1, (hsame _).1]
        exact hinv.parent_forker b hb hinit
      zombie_iff := fun b => (hsame b).1 ▸ hinv.zombie_iff b
      zombie_exitCode := fun b => by
        dsimp only
        rw [(hsame b).1, (hsame b).2.2.1]
        exact hinv.zombie_exitCode b
      zombie_children := fun b hb => by
        simp only at hb ⊢
        rw [(hsame b).1] at hb
        rw [hchildren, if_neg (by rintro rfl; rw [hlive] at hb; cases hb)]
        exact hinv.zombie_children b hb
      reaped_zombie := fun b hb => by
        simp only [List.mem_cons] at hb ⊢
        rw [(hsame b).1]
        rcases hb with rfl | hb
        · exact hzombie
        · exact hinv.reaped_zombie b hb
      reaped_nodup := List.nodup_cons.2 ⟨hnotReaped, hinv.reaped_nodup⟩
      runnable_nodup := hinv.runnable_nodup
      runnable_live := fun b hb => by
        obtain ⟨hlt', hlive'⟩ := hinv.runnable_live b hb
        exact ⟨hlt', (hsame b).1.trans hlive'⟩ }

/-- `sys_wait4` keeps the invariant. -/
theorem inv_wait4 (hinv : Inv sys) (htask : sys.current = some task) {pid : ℤ}
    {exitCodePtr option : ℕ} {outcome : WaitOutcome}
    (h : sysWait4 sys task pid exitCodePtr option = .ok (outcome, sys')) : Inv sys' := by
  obtain ⟨bits, -, hcases⟩ := sysWait4_eq_ok h
  rcases hcases with ⟨-, -, rfl⟩ | ⟨child, exitCode, hfind, -, -, hrelease⟩ |
    ⟨-, -, -, -, rfl⟩ | ⟨-, -, -, -, rfl⟩
  · exact hinv
  · have hreapable := List.find?_some hfind
    have hzombie : (sys.tasks child).isZombie = true := by
      simp only [reapable, Bool.and_eq_true] at hreapable
      exact hreapable.1
    rw [wait4_returned_eq hinv hzombie hrelease]
    exact inv_reap hinv htask (List.mem_of_find?_eq_some hfind) hzombie
  · exact hinv
  · exact inv_suspend hinv htask

end Wait

/-! ## Every reachable state -/

theorem inv_step {sys sys' : ProcessSystem} {op : ProcessOp} (hinv : Inv sys)
    (h : sys.step op = some sys') : Inv sys' := by
  rcases step_eq_some h with ⟨-, hcurrent, hrun⟩ | ⟨task, htask, hop⟩
  · exact inv_runTasks hinv hcurrent hrun
  · rcases hop with ⟨-, rfl⟩ | ⟨-, pid, hfork⟩ | ⟨exitCode, -, hexit⟩ |
      ⟨pid, exitCodePtr, option, outcome, -, hwait⟩
    · exact inv_suspend hinv htask
    · exact inv_fork hinv htask hfork
    · exact inv_exit hinv htask hexit
    · exact inv_wait4 hinv htask hwait

theorem inv_of_reachable {kernel : KernelState} {start sys : ProcessSystem}
    (hkernel : kernel.kstackAllocator = RecycleAllocator.new) (hinit : initTask kernel = .ok start)
    (hreach : Reachable ProcessSystem.step start sys) : Inv sys :=
  hreach.invariant (inv_initTask hkernel hinit) fun _ _ _ hinv hstep => inv_step hinv hstep

end ChaosKernel.Process
