import ChaosKernel.Config

/-!
# Page tables, as the map they implement

`PageTable` of `os/src/mm/page_table.rs` is a three-level SV39 radix tree whose
leaf entries map virtual page numbers to physical ones.  This module keeps only
what the tree implements: the partial map from a virtual page to its valid leaf
entry.  `map` and `unmap` keep the assertions of the source: a page is mapped
only when it has no valid entry, and unmapped only when it has one.  The
intermediate frames the tree allocates on the way down are not modelled; nor is
the difference between an absent leaf table (an `unwrap` of `None` in `unmap`)
and an invalid leaf entry, both of which are a panic.
-/

namespace ChaosKernel

/-- `PTEFlags`, one field per bit: `V` is bit 0 and `D` bit 7. -/
structure PTEFlags where
  v : Bool := false
  r : Bool := false
  w : Bool := false
  x : Bool := false
  u : Bool := false
  g : Bool := false
  a : Bool := false
  d : Bool := false
  deriving DecidableEq, Repr

namespace PTEFlags

instance : OrOp PTEFlags :=
  ⟨fun f g => ⟨f.v || g.v, f.r || g.r, f.w || g.w, f.x || g.x, f.u || g.u, f.g || g.g,
    f.a || g.a, f.d || g.d⟩⟩

def V : PTEFlags := { v := true }
def R : PTEFlags := { r := true }
def W : PTEFlags := { w := true }
def X : PTEFlags := { x := true }
def U : PTEFlags := { u := true }
def A : PTEFlags := { a := true }
def D : PTEFlags := { d := true }

end PTEFlags

/-- `PageTableEntry`, the physical page number and the flags of `bits`. -/
structure PageTableEntry where
  ppn : ℕ
  flags : PTEFlags
  deriving DecidableEq, Repr

/-- The leaf entries of a `PageTable`: the valid entry of each virtual page, if
any. -/
structure PageTable where
  entries : ℕ → Option PageTableEntry

namespace PageTable

/-- `PageTable::new`: a root with no valid entry. -/
def new : PageTable := ⟨fun _ => none⟩

/-- The flags `PageTable::map` stores: the requested ones with `V`, `D` and `A`. -/
def leafFlags (flags : PTEFlags) : PTEFlags :=
  flags ||| PTEFlags.V ||| PTEFlags.D ||| PTEFlags.A

/-- `PageTable::map`. -/
def map (self : PageTable) (vpn ppn : ℕ) (flags : PTEFlags) : Except Panic PageTable :=
  if (self.entries vpn).isSome then .error (.mappedBeforeMapping vpn)
  else .ok ⟨Function.update self.entries vpn (some ⟨ppn, leafFlags flags⟩)⟩

/-- `PageTable::unmap`. -/
def unmap (self : PageTable) (vpn : ℕ) : Except Panic PageTable :=
  if (self.entries vpn).isSome then .ok ⟨Function.update self.entries vpn none⟩
  else .error (.invalidBeforeUnmapping vpn)

/-- `PageTable::translate`, for a page with a valid entry. -/
def translate (self : PageTable) (vpn : ℕ) : Option PageTableEntry :=
  self.entries vpn

@[simp]
theorem entries_new (vpn : ℕ) : new.entries vpn = none := rfl

theorem map_eq_ok_iff {self next : PageTable} {vpn ppn : ℕ} {flags : PTEFlags} :
    self.map vpn ppn flags = .ok next ↔
      self.entries vpn = none ∧
        next = ⟨Function.update self.entries vpn (some ⟨ppn, leafFlags flags⟩)⟩ := by
  unfold map
  cases hentry : self.entries vpn with
  | none => simp [eq_comm]
  | some entry => simp

theorem map_eq_error_iff {self : PageTable} {vpn ppn : ℕ} {flags : PTEFlags} {err : Panic} :
    self.map vpn ppn flags = .error err ↔
      (self.entries vpn).isSome ∧ err = .mappedBeforeMapping vpn := by
  unfold map
  split_ifs with hsome
  · simp [hsome, eq_comm]
  · simp [hsome]

theorem map_of_none {self : PageTable} {vpn : ℕ} (hnone : self.entries vpn = none) (ppn : ℕ)
    (flags : PTEFlags) :
    self.map vpn ppn flags =
      .ok ⟨Function.update self.entries vpn (some ⟨ppn, leafFlags flags⟩)⟩ := by
  simp [map, hnone]

/-- A `map` that returns keeps every valid entry: it refuses a page that has
one. -/
theorem entries_of_map {self next : PageTable} {vpn ppn : ℕ} {flags : PTEFlags}
    (hmap : self.map vpn ppn flags = .ok next) {vpn' : ℕ} {entry : PageTableEntry}
    (hvalid : self.entries vpn' = some entry) : next.entries vpn' = some entry := by
  obtain ⟨hfree, rfl⟩ := map_eq_ok_iff.1 hmap
  have hne : vpn' ≠ vpn := by
    rintro rfl
    rw [hfree] at hvalid
    cases hvalid
  exact (Function.update_of_ne hne _ _).trans hvalid

theorem unmap_eq_ok_iff {self next : PageTable} {vpn : ℕ} :
    self.unmap vpn = .ok next ↔
      (self.entries vpn).isSome ∧ next = ⟨Function.update self.entries vpn none⟩ := by
  unfold unmap
  split_ifs with hsome
  · simp [hsome, eq_comm]
  · simp [hsome]

/-- The entries once the pages `[first, first + count)` are mapped, in order,
to the frames from `ppn` on, with `flags`. -/
def mappedRun (entries : ℕ → Option PageTableEntry) (first count ppn : ℕ) (flags : PTEFlags) :
    ℕ → Option PageTableEntry :=
  fun vpn =>
    if first ≤ vpn ∧ vpn < first + count then some ⟨ppn + (vpn - first), leafFlags flags⟩
    else entries vpn

@[simp]
theorem mappedRun_zero (entries : ℕ → Option PageTableEntry) (first ppn : ℕ) (flags : PTEFlags) :
    mappedRun entries first 0 ppn flags = entries := by
  funext vpn
  simp only [mappedRun]
  rw [if_neg (by omega)]

/-- Mapping the first page of a run, then the rest, maps the run. -/
theorem mappedRun_succ (entries : ℕ → Option PageTableEntry) (first count ppn : ℕ)
    (flags : PTEFlags) :
    mappedRun (Function.update entries first (some ⟨ppn, leafFlags flags⟩)) (first + 1) count
        (ppn + 1) flags =
      mappedRun entries first (count + 1) ppn flags := by
  funext vpn
  simp only [mappedRun]
  by_cases hfirst : vpn = first
  · subst hfirst
    rw [if_neg (by omega), if_pos (by omega), Function.update_self, Nat.sub_self, Nat.add_zero]
  · rw [Function.update_of_ne hfirst]
    by_cases hrun : first + 1 ≤ vpn ∧ vpn < first + 1 + count
    · have hppn : ppn + 1 + (vpn - (first + 1)) = ppn + (vpn - first) := by omega
      rw [if_pos hrun, if_pos (by omega), hppn]
    · rw [if_neg hrun, if_neg (by omega)]

/-- The entries once the pages `[first, first + count)` are unmapped. -/
def unmappedRun (entries : ℕ → Option PageTableEntry) (first count : ℕ) :
    ℕ → Option PageTableEntry :=
  fun vpn => if first ≤ vpn ∧ vpn < first + count then none else entries vpn

@[simp]
theorem unmappedRun_zero (entries : ℕ → Option PageTableEntry) (first : ℕ) :
    unmappedRun entries first 0 = entries := by
  funext vpn
  simp only [unmappedRun]
  rw [if_neg (by omega)]

/-- Unmapping the first page of a run, then the rest, unmaps the run. -/
theorem unmappedRun_succ (entries : ℕ → Option PageTableEntry) (first count : ℕ) :
    unmappedRun (Function.update entries first none) (first + 1) count =
      unmappedRun entries first (count + 1) := by
  funext vpn
  simp only [unmappedRun]
  by_cases hfirst : vpn = first
  · subst hfirst
    rw [if_neg (by omega), if_pos (by omega), Function.update_self]
  · rw [Function.update_of_ne hfirst]
    by_cases hrun : first + 1 ≤ vpn ∧ vpn < first + 1 + count
    · rw [if_pos hrun, if_pos (by omega)]
    · rw [if_neg hrun, if_neg (by omega)]

theorem unmap_of_isSome {self : PageTable} {vpn : ℕ} (hsome : (self.entries vpn).isSome) :
    self.unmap vpn = .ok ⟨Function.update self.entries vpn none⟩ := by
  simp [unmap, hsome]

end PageTable

end ChaosKernel
