import ChaosKernel.Config
import ChaosKernel.Lib.Run

/-!
# The physical frame allocator

`StackFrameAllocator` of `os/src/mm/frame_allocator.rs`: a bump pointer
`current` running up to `end`, and a `recycled` stack that `dealloc` pushes
freed frames onto.  The reuse branch of `alloc` is commented out in the source,
so `alloc` and `alloc_contiguous` only ever bump `current`.

Above the allocator sits `FrameSystem`, which adds the ghost state a caller
sees: the frames it currently holds and every frame it has ever been handed.
The run lemmas over `FrameSystem` say what the allocator guarantees to the
`FrameTracker`s built on top of it.
-/

namespace ChaosKernel.FrameAllocator

open ChaosKernel.Lib

/-- `StackFrameAllocator`.  Frames are physical page numbers.  The head of
`recycled` is the top of the Rust `Vec`. -/
structure StackFrameAllocator where
  current : ℕ
  «end» : ℕ
  recycled : List ℕ
  deriving DecidableEq, Repr

namespace StackFrameAllocator

/-- `FrameAllocator::new`. -/
def new : StackFrameAllocator :=
  { current := 0, «end» := 0, recycled := [] }

/-- `StackFrameAllocator::init`: only the two bounds are set. -/
def init (self : StackFrameAllocator) (l r : ℕ) : StackFrameAllocator :=
  { self with current := l, «end» := r }

/-- `FrameAllocator::alloc`: `None` once `current` reaches `end`. -/
def alloc (self : StackFrameAllocator) : Option ℕ × StackFrameAllocator :=
  if self.current = self.«end» then (none, self)
  else (some self.current, { self with current := self.current + 1 })

/-- The `for _ in 0..num` loop of `alloc_contiguous`, with the frames pushed so
far in `ret`. -/
def allocContiguousLoop : ℕ → StackFrameAllocator → List ℕ →
    Except Panic (List ℕ × StackFrameAllocator)
  | 0, self, ret => .ok (ret, self)
  | num + 1, self, ret =>
      if self.current = self.«end» then .error .frameOutOfMemory
      else allocContiguousLoop num { self with current := self.current + 1 }
        (ret ++ [self.current])

/-- `FrameAllocator::alloc_contiguous`: the frames and the root `current` had
when the call started. -/
def allocContiguous (self : StackFrameAllocator) (num : ℕ) :
    Except Panic ((List ℕ × ℕ) × StackFrameAllocator) :=
  (allocContiguousLoop num self []).map fun (ret, next) => ((ret, self.current), next)

/-- `FrameAllocator::dealloc`: the validity check, then a push on `recycled`. -/
def dealloc (self : StackFrameAllocator) (ppn : ℕ) : Except Panic StackFrameAllocator :=
  if ppn ≥ self.current ∨ ppn ∈ self.recycled then .error (.frameNotAllocated ppn)
  else .ok { self with recycled := ppn :: self.recycled }

@[simp]
theorem init_current (self : StackFrameAllocator) (l r : ℕ) : (self.init l r).current = l := rfl

@[simp]
theorem init_end (self : StackFrameAllocator) (l r : ℕ) : (self.init l r).«end» = r := rfl

@[simp]
theorem init_recycled (self : StackFrameAllocator) (l r : ℕ) :
    (self.init l r).recycled = self.recycled := rfl

theorem alloc_eq_none_iff (self : StackFrameAllocator) :
    self.alloc.1 = none ↔ self.current = self.«end» := by
  unfold alloc
  split <;> simp_all

theorem alloc_of_ne {self : StackFrameAllocator} (hne : self.current ≠ self.«end») :
    self.alloc = (some self.current, { self with current := self.current + 1 }) := by
  simp [alloc, hne]

theorem alloc_of_eq {self : StackFrameAllocator} (heq : self.current = self.«end») :
    self.alloc = (none, self) := by
  simp [alloc, heq]

/-- The loop fails exactly when `end` lies among the next `num` frames, and
otherwise pushes those frames in order. -/
theorem allocContiguousLoop_eq (num : ℕ) (self : StackFrameAllocator) (ret : List ℕ) :
    allocContiguousLoop num self ret =
      if self.current ≤ self.«end» ∧ self.«end» < self.current + num then
        .error .frameOutOfMemory
      else .ok (ret ++ List.range' self.current num, { self with current := self.current + num }) := by
  induction num generalizing self ret with
  | zero => simp [allocContiguousLoop]
  | succ num ih =>
      by_cases hend : self.current = self.«end»
      · simp [allocContiguousLoop, hend]
      · rw [allocContiguousLoop, if_neg hend, ih]
        simp only [List.range'_succ, List.append_assoc, List.singleton_append, Nat.add_assoc,
          Nat.add_comm 1 num]
        have hiff : (self.current + 1 ≤ self.«end» ∧ self.«end» < self.current + (num + 1)) ↔
            (self.current ≤ self.«end» ∧ self.«end» < self.current + (num + 1)) := by
          omega
        simp only [hiff]

/-- `alloc_contiguous(num)` returns the `num` frames starting at its root. -/
theorem allocContiguous_eq (self : StackFrameAllocator) (num : ℕ) :
    self.allocContiguous num =
      if self.current ≤ self.«end» ∧ self.«end» < self.current + num then
        .error .frameOutOfMemory
      else .ok ((List.range' self.current num, self.current),
          { self with current := self.current + num }) := by
  rw [allocContiguous, allocContiguousLoop_eq num self []]
  split <;> rfl

theorem dealloc_eq_ok_iff {self next : StackFrameAllocator} {ppn : ℕ} :
    self.dealloc ppn = .ok next ↔
      ppn < self.current ∧ ppn ∉ self.recycled ∧
        next = { self with recycled := ppn :: self.recycled } := by
  unfold dealloc
  split
  · rename_i hbad
    simp only [reduceCtorEq, false_iff, not_and]
    intro hlt hfree
    rcases hbad with hge | hmem
    · exact absurd hlt (Nat.not_lt.mpr hge)
    · exact absurd hmem hfree
  · rename_i hgood
    simp only [Except.ok.injEq, not_or, not_le] at hgood ⊢
    constructor
    · rintro rfl
      exact ⟨hgood.1, hgood.2, rfl⟩
    · rintro ⟨-, -, rfl⟩
      rfl

end StackFrameAllocator

/-! ## Frame trackers

A `FrameTracker` owns one frame and gives it back with `frame_dealloc` when it
is dropped.  The maps `BTreeMap<VirtPageNum, FrameTracker>` of the memory sets
are `Std.TreeMap ℕ ℕ` from pages to frames; a tracker that `insert` replaces or
`remove` takes out is dropped at once. -/

/-- `frame_alloc().unwrap()`: `frame_alloc` wraps the frame of `alloc` in a
tracker. -/
def frameAllocUnwrap (self : StackFrameAllocator) : Except Panic (ℕ × StackFrameAllocator) :=
  match self.alloc with
  | (some ppn, next) => .ok (ppn, next)
  | (none, _) => .error .unwrapNone

/-- Dropping the tracker an owning map gave up, if any. -/
def dropTracker (self : StackFrameAllocator) : Option ℕ → Except Panic StackFrameAllocator
  | some ppn => self.dealloc ppn
  | none => .ok self

/-- `BTreeMap<VirtPageNum, FrameTracker>::insert`. -/
def insertFrame (frames : Std.TreeMap ℕ ℕ) (vpn ppn : ℕ) (self : StackFrameAllocator) :
    Except Panic (Std.TreeMap ℕ ℕ × StackFrameAllocator) :=
  (dropTracker self frames[vpn]?).map fun self => (frames.insert vpn ppn, self)

/-- `BTreeMap<VirtPageNum, FrameTracker>::remove`. -/
def removeFrame (frames : Std.TreeMap ℕ ℕ) (vpn : ℕ) (self : StackFrameAllocator) :
    Except Panic (Std.TreeMap ℕ ℕ × StackFrameAllocator) :=
  (dropTracker self frames[vpn]?).map fun self => (frames.erase vpn, self)

theorem frameAllocUnwrap_eq_ok_iff {self next : StackFrameAllocator} {ppn : ℕ} :
    frameAllocUnwrap self = .ok (ppn, next) ↔
      self.current ≠ self.«end» ∧ ppn = self.current ∧
        next = { self with current := self.current + 1 } := by
  unfold frameAllocUnwrap
  by_cases heq : self.current = self.«end»
  · simp [StackFrameAllocator.alloc_of_eq heq, heq]
  · simp only [StackFrameAllocator.alloc_of_ne heq, Except.ok.injEq, Prod.mk.injEq]
    constructor
    · rintro ⟨rfl, rfl⟩
      exact ⟨heq, rfl, rfl⟩
    · rintro ⟨-, rfl, rfl⟩
      exact ⟨rfl, rfl⟩

theorem frameAllocUnwrap_of_ne {self : StackFrameAllocator} (hne : self.current ≠ self.«end») :
    frameAllocUnwrap self = .ok (self.current, { self with current := self.current + 1 }) :=
  frameAllocUnwrap_eq_ok_iff.2 ⟨hne, rfl, rfl⟩

theorem frameAllocUnwrap_of_eq {self : StackFrameAllocator} (heq : self.current = self.«end») :
    frameAllocUnwrap self = .error .unwrapNone := by
  simp [frameAllocUnwrap, StackFrameAllocator.alloc_of_eq heq]

theorem insertFrame_of_none {frames : Std.TreeMap ℕ ℕ} {vpn : ℕ} (hnone : frames[vpn]? = none)
    (ppn : ℕ) (self : StackFrameAllocator) :
    insertFrame frames vpn ppn self = .ok (frames.insert vpn ppn, self) := by
  simp [insertFrame, hnone, dropTracker, Except.map]

theorem removeFrame_of_some {frames : Std.TreeMap ℕ ℕ} {vpn ppn : ℕ}
    (hsome : frames[vpn]? = some ppn) (self : StackFrameAllocator) :
    removeFrame frames vpn self = (self.dealloc ppn).map fun self => (frames.erase vpn, self) := by
  simp [removeFrame, hsome, dropTracker]


/-! ## The allocator seen by its callers -/

/-- The allocator together with ghost state: the frames callers currently hold,
and every frame `alloc` or `alloc_contiguous` has ever returned, in order. -/
structure FrameSystem where
  allocator : StackFrameAllocator
  held : List ℕ
  handedOut : List ℕ

/-- The calls a caller can make. -/
inductive FrameOp
  | alloc
  | allocContiguous (num : ℕ)
  | dealloc (ppn : ℕ)

namespace FrameSystem

/-- The system right after `init_frame_allocator` set the bounds `l` and `r`. -/
def start (l r : ℕ) : FrameSystem :=
  { allocator := StackFrameAllocator.new.init l r, held := [], handedOut := [] }

/-- One call.  A panic of `alloc_contiguous` ends the run, and `dealloc` is only
applied to a frame the caller holds (a `FrameTracker` frees its own frame). -/
def step (sys : FrameSystem) : FrameOp → Option FrameSystem
  | .alloc =>
      match sys.allocator.alloc with
      | (some ppn, next) =>
          some { allocator := next, held := ppn :: sys.held, handedOut := sys.handedOut ++ [ppn] }
      | (none, next) => some { sys with allocator := next }
  | .allocContiguous num =>
      match sys.allocator.allocContiguous num with
      | .ok ((frames, _), next) =>
          some { allocator := next, held := frames ++ sys.held, handedOut := sys.handedOut ++ frames }
      | .error _ => none
  | .dealloc ppn =>
      if ppn ∈ sys.held then
        match sys.allocator.dealloc ppn with
        | .ok next => some { sys with allocator := next, held := sys.held.erase ppn }
        | .error _ => none
      else none

/-- The allocator invariant: everything below `current` has been handed out,
and each handed-out frame is either held or recycled, never both. -/
structure Inv (l : ℕ) (sys : FrameSystem) : Prop where
  l_le_current : l ≤ sys.allocator.current
  handedOut_eq : sys.handedOut = List.range' l (sys.allocator.current - l)
  held_nodup : sys.held.Nodup
  held_handedOut : ∀ ppn ∈ sys.held, ppn ∈ sys.handedOut
  held_not_recycled : ∀ ppn ∈ sys.held, ppn ∉ sys.allocator.recycled
  recycled_lt : ∀ ppn ∈ sys.allocator.recycled, ppn < sys.allocator.current

theorem inv_start (l r : ℕ) : Inv l (start l r) where
  l_le_current := le_refl l
  handedOut_eq := by simp [start]
  held_nodup := List.nodup_nil
  held_handedOut := by simp [start]
  held_not_recycled := by simp [start]
  recycled_lt := by simp [start, StackFrameAllocator.new]

theorem mem_handedOut {l : ℕ} {sys : FrameSystem} (hinv : Inv l sys) {ppn : ℕ} :
    ppn ∈ sys.handedOut ↔ l ≤ ppn ∧ ppn < sys.allocator.current := by
  rw [hinv.handedOut_eq, List.mem_range'_1]
  have := hinv.l_le_current
  omega

/-- A frame at or above `current` is held by nobody. -/
theorem not_held_of_le {l : ℕ} {sys : FrameSystem} (hinv : Inv l sys) {ppn : ℕ}
    (hle : sys.allocator.current ≤ ppn) : ppn ∉ sys.held := by
  intro hheld
  have := (mem_handedOut hinv).1 (hinv.held_handedOut ppn hheld)
  omega

theorem inv_alloc {l : ℕ} {sys : FrameSystem} (hinv : Inv l sys) :
    ∀ next, step sys .alloc = some next → Inv l next := by
  intro next hstep
  by_cases hend : sys.allocator.current = sys.allocator.«end»
  · simp only [step, StackFrameAllocator.alloc_of_eq hend, Option.some.injEq] at hstep
    subst hstep
    exact hinv
  · simp only [step, StackFrameAllocator.alloc_of_ne hend, Option.some.injEq] at hstep
    subst hstep
    have hfresh := not_held_of_le hinv (le_refl _)
    have hl := hinv.l_le_current
    refine ⟨by simp only; omega, ?_, List.nodup_cons.2 ⟨hfresh, hinv.held_nodup⟩, ?_, ?_, ?_⟩
    · simp only [hinv.handedOut_eq]
      rw [show sys.allocator.current + 1 - l = (sys.allocator.current - l) + 1 by omega,
        List.range'_concat]
      congr 2
      omega
    · intro ppn hppn
      rcases List.mem_cons.1 hppn with rfl | hheld
      · simp
      · exact List.mem_append_left _ (hinv.held_handedOut ppn hheld)
    · intro ppn hppn
      rcases List.mem_cons.1 hppn with rfl | hheld
      · intro hrec
        exact absurd (hinv.recycled_lt _ hrec) (lt_irrefl _)
      · exact hinv.held_not_recycled ppn hheld
    · intro ppn hppn
      exact Nat.lt_succ_of_lt (hinv.recycled_lt ppn hppn)

theorem inv_allocContiguous {l : ℕ} {sys : FrameSystem} (hinv : Inv l sys) (num : ℕ) :
    ∀ next, step sys (.allocContiguous num) = some next → Inv l next := by
  intro next hstep
  have hl := hinv.l_le_current
  by_cases hfail : sys.allocator.current ≤ sys.allocator.«end» ∧
      sys.allocator.«end» < sys.allocator.current + num
  · simp [step, StackFrameAllocator.allocContiguous_eq, hfail] at hstep
  · simp only [step, StackFrameAllocator.allocContiguous_eq, if_neg hfail,
      Option.some.injEq] at hstep
    subst hstep
    have hfresh : ∀ ppn ∈ List.range' sys.allocator.current num, ppn ∉ sys.held := by
      intro ppn hppn
      exact not_held_of_le hinv (List.mem_range'_1.1 hppn).1
    refine ⟨by simp only; omega, ?_, ?_, ?_, ?_, ?_⟩
    · simp only [hinv.handedOut_eq]
      have hsplit : sys.allocator.current + num - l = (sys.allocator.current - l) + num := by
        omega
      rw [hsplit, ← List.range'_append_1, Nat.add_sub_cancel' hl]
    · refine List.nodup_append.2 ⟨List.nodup_range', hinv.held_nodup, ?_⟩
      rintro ppn hppn other hother rfl
      exact hfresh ppn hppn hother
    · intro ppn hppn
      rcases List.mem_append.1 hppn with hnew | hheld
      · exact List.mem_append_right _ hnew
      · exact List.mem_append_left _ (hinv.held_handedOut ppn hheld)
    · intro ppn hppn hrec
      rcases List.mem_append.1 hppn with hnew | hheld
      · have := hinv.recycled_lt ppn hrec
        have := (List.mem_range'_1.1 hnew).1
        omega
      · exact hinv.held_not_recycled ppn hheld hrec
    · intro ppn hppn
      have := hinv.recycled_lt ppn hppn
      simp only
      omega

/-- `dealloc` of a frame the caller holds passes the validity check. -/
theorem dealloc_of_held {l : ℕ} {sys : FrameSystem} (hinv : Inv l sys) {ppn : ℕ}
    (hheld : ppn ∈ sys.held) :
    sys.allocator.dealloc ppn =
      .ok { sys.allocator with recycled := ppn :: sys.allocator.recycled } := by
  have hlt := ((mem_handedOut hinv).1 (hinv.held_handedOut ppn hheld)).2
  exact StackFrameAllocator.dealloc_eq_ok_iff.2 ⟨hlt, hinv.held_not_recycled ppn hheld, rfl⟩

theorem inv_dealloc {l : ℕ} {sys : FrameSystem} (hinv : Inv l sys) (ppn : ℕ) :
    ∀ next, step sys (.dealloc ppn) = some next → Inv l next := by
  intro next hstep
  by_cases hheld : ppn ∈ sys.held
  · simp only [step, if_pos hheld, dealloc_of_held hinv hheld, Option.some.injEq] at hstep
    subst hstep
    have hlt := ((mem_handedOut hinv).1 (hinv.held_handedOut ppn hheld)).2
    refine ⟨hinv.l_le_current, hinv.handedOut_eq, hinv.held_nodup.erase ppn, ?_, ?_, ?_⟩
    · intro other hother
      exact hinv.held_handedOut other (List.mem_of_mem_erase hother)
    · intro other hother hrec
      obtain ⟨hne, hother⟩ := (hinv.held_nodup.mem_erase_iff).1 hother
      rcases List.mem_cons.1 hrec with rfl | hrec
      · exact hne rfl
      · exact hinv.held_not_recycled other hother hrec
    · intro other hother
      rcases List.mem_cons.1 hother with rfl | hrec
      · exact hlt
      · exact hinv.recycled_lt other hrec
  · simp [step, hheld] at hstep

theorem inv_step {l : ℕ} {sys : FrameSystem} (hinv : Inv l sys) :
    ∀ op next, step sys op = some next → Inv l next
  | .alloc => inv_alloc hinv
  | .allocContiguous num => inv_allocContiguous hinv num
  | .dealloc ppn => inv_dealloc hinv ppn

theorem inv_of_reachable {l r : ℕ} {sys : FrameSystem} (hreach : Reachable step (start l r) sys) :
    Inv l sys :=
  hreach.invariant (inv_start l r) fun _ op _ hinv hstep => inv_step hinv op _ hstep

/-- `current` has not passed `end`, and `end` is still the bound `r`. -/
def WithinBounds (r : ℕ) (sys : FrameSystem) : Prop :=
  sys.allocator.current ≤ sys.allocator.«end» ∧ sys.allocator.«end» = r

/-- With the bounds in order, `current` never passes `end`. -/
theorem current_le_end {l r : ℕ} (hlr : l ≤ r) {sys : FrameSystem}
    (hreach : Reachable step (start l r) sys) : WithinBounds r sys := by
  apply @Reachable.invariant _ _ step (start l r) (WithinBounds r) ⟨hlr, rfl⟩ _ sys hreach
  rintro sys (_ | num | ppn) next ⟨hle, hend⟩ hstep
  · by_cases heq : sys.allocator.current = sys.allocator.«end»
    · simp only [step, StackFrameAllocator.alloc_of_eq heq, Option.some.injEq] at hstep
      subst hstep
      exact ⟨hle, hend⟩
    · simp only [step, StackFrameAllocator.alloc_of_ne heq, Option.some.injEq] at hstep
      subst hstep
      exact ⟨by simp only; omega, hend⟩
  · by_cases hfail : sys.allocator.current ≤ sys.allocator.«end» ∧
        sys.allocator.«end» < sys.allocator.current + num
    · simp [step, StackFrameAllocator.allocContiguous_eq, hfail] at hstep
    · simp only [step, StackFrameAllocator.allocContiguous_eq, if_neg hfail,
        Option.some.injEq] at hstep
      subst hstep
      exact ⟨by simp only; omega, hend⟩
  · by_cases hheld : ppn ∈ sys.held
    · simp only [step, if_pos hheld] at hstep
      split at hstep
      · simp only [Option.some.injEq] at hstep
        rename_i hdealloc
        obtain ⟨-, -, rfl⟩ := StackFrameAllocator.dealloc_eq_ok_iff.1 hdealloc
        subst hstep
        exact ⟨hle, hend⟩
      · simp at hstep
    · simp [step, hheld] at hstep

end FrameSystem

open FrameSystem in
/-- The frame allocator's guarantees from `init(l, r)` on, for every history of
calls: `alloc` and `alloc_contiguous` hand out frames no caller holds, the
latter as `num` consecutive frames from its root; and `alloc` fails exactly when
every frame of `[l, r)` has been handed out at some time, deallocated or not. -/
theorem frameAllocator_fresh_and_exhausted {l r : ℕ} (hlr : l ≤ r) {sys : FrameSystem}
    (hreach : Reachable step (start l r) sys) :
    (∀ ppn next, sys.allocator.alloc = (some ppn, next) →
      ppn ∉ sys.held ∧ l ≤ ppn ∧ ppn < r) ∧
    (∀ num frames root next, sys.allocator.allocContiguous num = .ok ((frames, root), next) →
      frames = List.range' root num ∧ ∀ ppn ∈ frames, ppn ∉ sys.held) ∧
    (sys.allocator.alloc.1 = none ↔ ∀ ppn, l ≤ ppn → ppn < r → ppn ∈ sys.handedOut) := by
  have hinv := inv_of_reachable hreach
  obtain ⟨hle, hend⟩ := current_le_end hlr hreach
  have hl := hinv.l_le_current
  refine ⟨?_, ?_, ?_⟩
  · intro ppn next halloc
    by_cases heq : sys.allocator.current = sys.allocator.«end»
    · simp [StackFrameAllocator.alloc_of_eq heq] at halloc
    · simp only [StackFrameAllocator.alloc_of_ne heq, Prod.mk.injEq, Option.some.injEq] at halloc
      obtain ⟨rfl, -⟩ := halloc
      exact ⟨not_held_of_le hinv (le_refl _), hl, by omega⟩
  · intro num frames root next hcont
    rw [StackFrameAllocator.allocContiguous_eq] at hcont
    split at hcont
    · simp at hcont
    · simp only [Except.ok.injEq, Prod.mk.injEq] at hcont
      obtain ⟨⟨rfl, rfl⟩, -⟩ := hcont
      exact ⟨rfl, fun ppn hppn => not_held_of_le hinv (List.mem_range'_1.1 hppn).1⟩
  · rw [StackFrameAllocator.alloc_eq_none_iff]
    constructor
    · intro heq ppn hlow hhigh
      exact (mem_handedOut hinv).2 ⟨hlow, by omega⟩
    · intro hall
      by_contra hne
      have := ((mem_handedOut hinv).1 (hall sys.allocator.current hl (by omega))).2
      omega

/-- The guarantees at the state reached by `alloc` and the `dealloc` of its frame
from `init(0, 1)`: the frame has been handed out, so `alloc` reports exhaustion. -/
theorem frameAllocator_fresh_and_exhausted_after_dealloc :
    (0 : ℕ) ≤ 1 ∧
      (({ current := 1, «end» := 1, recycled := [0] } : StackFrameAllocator).alloc.1 = none ↔
        ∀ ppn, 0 ≤ ppn → ppn < 1 → ppn ∈ [0]) := by
  have hrun : runSteps FrameSystem.step (FrameSystem.start 0 1) [.alloc, .dealloc 0] =
      some
        { allocator := { current := 1, «end» := 1, recycled := [0] }
          held := []
          handedOut := [0] } := rfl
  exact ⟨le_of_lt Nat.one_pos,
    (frameAllocator_fresh_and_exhausted (le_of_lt Nat.one_pos) (reachable_of_runSteps hrun)).2.2⟩

/-- `alloc` does not reuse a deallocated frame: from `init(0, 1)`, after one
`alloc` and the `dealloc` of its frame, `alloc` returns `None` although frame `0`
is held by nobody. -/
theorem frameAllocator_alloc_none_with_free_frame :
    ¬ ∀ sys, Reachable FrameSystem.step (FrameSystem.start 0 1) sys →
      sys.allocator.alloc.1 = none → ∀ ppn, 0 ≤ ppn → ppn < 1 → ppn ∈ sys.held := by
  intro hreuse
  have hrun : runSteps FrameSystem.step (FrameSystem.start 0 1) [.alloc, .dealloc 0] =
      some
        { allocator := { current := 1, «end» := 1, recycled := [0] }
          held := []
          handedOut := [0] } := rfl
  have hheld := hreuse _ (reachable_of_runSteps hrun) rfl 0 le_rfl Nat.one_pos
  simp at hheld

end ChaosKernel.FrameAllocator
