import ChaosKernel.Mm.PageTable
import ChaosKernel.Mm.FrameAllocator
import ChaosKernel.Lib.Walk

/-!
# The SV39 page table

`PageTable` of `os/src/mm/page_table.rs` as the code keeps it: a root frame and
two levels of tables below it, each a frame of 512 entries.  An entry is a
`usize` with a physical page number from bit 10 on and the flags in its low
byte.  `find_pte_create` walks down the three nine-bit indexes of a virtual
page and, where an entry on the way is not valid, links a zeroed frame from
`frame_alloc` as the next table; `find_pte` stops there instead.

The tables are the walks of `Lib.Walk` from the root, along the paths of at
most two indexes.  The tree is well formed when those frames are distinct and
below the allocator's `current`, and frame numbers fit in the 44 bits of an
entry.  Over a well-formed tree `map` and `unmap` act on the valid leaf entries
as `Mm.PageTable` says, for every page below `2 ^ 27`: the map that the other
modules reason about is the one the tree implements.

`translate` itself shows two differences from that map.  It returns the leaf
entry whether or not it is valid, and `None` only where a table on the way is
missing.  And `map` may add a leaf table, so that `translate` of another page
whose entry lies in that table goes from `None` to an invalid entry.
-/

namespace ChaosKernel

namespace PTEFlags

/-- `PTEFlags::bits`: `V` is bit 0 and `D` bit 7. -/
def bits (self : PTEFlags) : ℕ :=
  self.v.toNat + 2 * self.r.toNat + 4 * self.w.toNat + 8 * self.x.toNat + 16 * self.u.toNat +
    32 * self.g.toNat + 64 * self.a.toNat + 128 * self.d.toNat

/-- `PTEFlags::from_bits(b).unwrap()` on a byte `b`: each of its eight bits is
a flag, so the `unwrap` never fails. -/
def ofBits (b : ℕ) : PTEFlags :=
  ⟨b.testBit 0, b.testBit 1, b.testBit 2, b.testBit 3, b.testBit 4, b.testBit 5, b.testBit 6,
    b.testBit 7⟩

theorem bits_lt (self : PTEFlags) : self.bits < 256 := by
  have := Bool.toNat_le self.v
  have := Bool.toNat_le self.r
  have := Bool.toNat_le self.w
  have := Bool.toNat_le self.x
  have := Bool.toNat_le self.u
  have := Bool.toNat_le self.g
  have := Bool.toNat_le self.a
  have := Bool.toNat_le self.d
  unfold bits
  omega

@[simp]
theorem ofBits_bits (self : PTEFlags) : ofBits self.bits = self := by
  obtain ⟨v, r, w, x, u, g, a, d⟩ := self
  revert v r w x u g a d
  decide

@[simp]
theorem ofBits_zero : ofBits 0 = {} := rfl

end PTEFlags

@[simp]
theorem PageTable.leafFlags_v (flags : PTEFlags) : (PageTable.leafFlags flags).v = true := by
  simp [PageTable.leafFlags, HOr.hOr, OrOp.or, PTEFlags.V]

namespace Sv39

open FrameAllocator Lib

/-- `PageTableEntry`: its `bits`, a `usize`. -/
structure PageTableEntry where
  bits : ℕ
  deriving DecidableEq, Repr

namespace PageTableEntry

/-- `PageTableEntry::new(ppn, flags)`: `ppn << 10 | flags.bits`. -/
def new (ppn : ℕ) (flags : PTEFlags) : PageTableEntry :=
  ⟨(ppn <<< 10 ||| flags.bits) % usizeModulus⟩

/-- `PageTableEntry::empty()`. -/
def empty : PageTableEntry :=
  ⟨0⟩

/-- `PageTableEntry::ppn`: `bits >> 10 & ((1 << 44) - 1)`. -/
def ppn (self : PageTableEntry) : ℕ :=
  self.bits >>> 10 &&& ((1 <<< 44) - 1)

/-- `PageTableEntry::flags`: `PTEFlags::from_bits(bits as u8).unwrap()`. -/
def flags (self : PageTableEntry) : PTEFlags :=
  PTEFlags.ofBits (self.bits % 256)

/-- `PageTableEntry::is_valid`. -/
def isValid (self : PageTableEntry) : Bool :=
  self.flags.v

/-- The table an entry on the way down leads to: its `ppn()`, if it is valid. -/
def next (self : PageTableEntry) : Option ℕ :=
  if self.isValid then some self.ppn else none

theorem bits_new {ppn : ℕ} (hppn : ppn < 2 ^ 44) (flags : PTEFlags) :
    (new ppn flags).bits = ppn * 2 ^ 10 + flags.bits := by
  have hflags := flags.bits_lt
  have hor : ppn <<< 10 ||| flags.bits = ppn * 2 ^ 10 + flags.bits := by
    rw [← Nat.shiftLeft_add_eq_or_of_lt (by omega), Nat.shiftLeft_eq]
  rw [new, hor, Nat.mod_eq_of_lt]
  unfold usizeModulus
  omega

@[simp]
theorem ppn_new {ppn : ℕ} (hppn : ppn < 2 ^ 44) (flags : PTEFlags) : (new ppn flags).ppn = ppn := by
  have hflags := flags.bits_lt
  rw [PageTableEntry.ppn, bits_new hppn, Nat.shiftLeft_eq, Nat.one_mul,
    Nat.and_two_pow_sub_one_eq_mod, Nat.shiftRight_eq_div_pow]
  omega

@[simp]
theorem flags_new {ppn : ℕ} (hppn : ppn < 2 ^ 44) (flags : PTEFlags) : (new ppn flags).flags = flags := by
  have hflags := flags.bits_lt
  have hbyte : (ppn * 2 ^ 10 + flags.bits) % 256 = flags.bits := by omega
  rw [PageTableEntry.flags, bits_new hppn, hbyte, PTEFlags.ofBits_bits]

theorem next_new {ppn : ℕ} (hppn : ppn < 2 ^ 44) {flags : PTEFlags} (hv : flags.v = true) :
    (new ppn flags).next = some ppn := by
  rw [next, isValid, flags_new hppn, if_pos hv, ppn_new hppn]

@[simp]
theorem isValid_empty : empty.isValid = false := rfl

@[simp]
theorem next_empty : empty.next = none := rfl

theorem next_eq_none {self : PageTableEntry} (hinvalid : self.isValid = false) : self.next = none := by
  simp [next, hinvalid]

theorem next_eq_some {self : PageTableEntry} {table : ℕ} :
    self.next = some table ↔ self.isValid = true ∧ self.ppn = table := by
  unfold next
  split_ifs with hvalid <;> simp [hvalid]

end PageTableEntry

/-- Physical memory through `PhysPageNum::get_pte_array`: the entry at each of
the 512 indexes of each frame. -/
abbrev PteMem := ℕ → Fin 512 → PageTableEntry

/-- `PageTable`: the root frame and the frames the table owns. -/
structure PageTable where
  rootPpn : ℕ
  frames : List ℕ
  deriving DecidableEq, Repr

/-- What the page-table code works on: a table, the memory its frames are in,
and the frame allocator. -/
structure State where
  table : PageTable
  mem : PteMem
  allocator : StackFrameAllocator

/-- `VirtPageNum::indexes`: nine bits for each level, the root's first. -/
def indexes (vpn : ℕ) : Fin 512 × Fin 512 × Fin 512 :=
  (⟨vpn >>> 18 &&& 511, Nat.lt_succ_of_le Nat.and_le_right⟩,
    ⟨vpn >>> 9 &&& 511, Nat.lt_succ_of_le Nat.and_le_right⟩,
    ⟨vpn &&& 511, Nat.lt_succ_of_le Nat.and_le_right⟩)

/-- The table reached from the root along `path`. -/
def tableAt (st : State) (path : List (Fin 512)) : Option ℕ :=
  walk PageTableEntry.next st.mem st.table.rootPpn path

/-- A turn of the loop of `find_pte_create` above the leaf level: the entry
`idx` of the table `ppn`, made to point to a zeroed frame from
`frame_alloc().unwrap()` if it is not valid, and the table it points to.  The
new frame joins the frames the table owns. -/
def descendCreate (st : State) (ppn : ℕ) (idx : Fin 512) : Except Panic (ℕ × State) := do
  let pte := st.mem ppn idx
  if pte.isValid then return (pte.ppn, st)
  let (frame, allocator) ← frameAllocUnwrap st.allocator
  -- `FrameTracker::new` zeroes the frame before the entry is written
  let mem := writeCell (Function.update st.mem frame fun _ => .empty) ppn idx (.new frame PTEFlags.V)
  return ((PageTableEntry.new frame PTEFlags.V).ppn,
    ⟨⟨st.table.rootPpn, st.table.frames ++ [frame]⟩, mem, allocator⟩)

/-- `find_pte_create(vpn)`: the table and the index of the leaf entry of
`vpn`.  The loop always reaches the leaf level, so the `Option` it returns is
never `None`. -/
def findPteCreate (st : State) (vpn : ℕ) : Except Panic ((ℕ × Fin 512) × State) := do
  let (i0, i1, i2) := indexes vpn
  let (ppn, st) ← descendCreate st st.table.rootPpn i0
  let (ppn, st) ← descendCreate st ppn i1
  return ((ppn, i2), st)

/-- `find_pte(vpn)`: `None` where an entry on the way down is not valid. -/
def findPte (st : State) (vpn : ℕ) : Option (ℕ × Fin 512) := do
  let (i0, i1, i2) := indexes vpn
  let ppn ← (st.mem st.table.rootPpn i0).next
  let ppn ← (st.mem ppn i1).next
  return (ppn, i2)

/-- `PageTable::map(vpn, ppn, flags)`. -/
def map (st : State) (vpn ppn : ℕ) (flags : PTEFlags) : Except Panic State := do
  let ((table, idx), st) ← findPteCreate st vpn
  if (st.mem table idx).isValid then throw (.mappedBeforeMapping vpn)
  return { st with mem := writeCell st.mem table idx (.new ppn (ChaosKernel.PageTable.leafFlags flags)) }

/-- `PageTable::unmap(vpn)`. -/
def unmap (st : State) (vpn : ℕ) : Except Panic State := do
  let some (table, idx) := findPte st vpn | throw .unwrapNone
  if !(st.mem table idx).isValid then throw (.invalidBeforeUnmapping vpn)
  return { st with mem := writeCell st.mem table idx .empty }

/-- `PageTable::translate(vpn)`. -/
def translate (st : State) (vpn : ℕ) : Option PageTableEntry :=
  (findPte st vpn).map fun (table, idx) => st.mem table idx

/-- `PageTable::new()`: a zeroed root frame from `frame_alloc().unwrap()`. -/
def new (mem : PteMem) (allocator : StackFrameAllocator) : Except Panic State := do
  let (root, allocator) ← frameAllocUnwrap allocator
  return ⟨⟨root, [root]⟩, Function.update mem root fun _ => .empty, allocator⟩

/-- The leaf entry of `vpn` as `Mm.PageTable` records it: its frame and flags,
if it is valid. -/
def leaf (st : State) (vpn : ℕ) : Option ChaosKernel.PageTableEntry :=
  (translate st vpn).bind fun pte => if pte.isValid then some ⟨pte.ppn, pte.flags⟩ else none

/-- A well-formed tree: its tables, the frames reached along the paths of at
most two indexes, are distinct and below the allocator's `current`, and the
allocator hands out frames that fit in an entry. -/
structure WellFormed (st : State) : Prop where
  current_le : st.allocator.current ≤ st.allocator.«end»
  end_le : st.allocator.«end» ≤ 2 ^ 44
  tree : IsTree PageTableEntry.next st.mem st.table.rootPpn 2
  lt_current : ∀ path, path.length ≤ 2 → ∀ table, tableAt st path = some table →
    table < st.allocator.current

/-! ## Walking the tree -/

/-- The path from the root to the leaf table of `vpn`. -/
def leafPath (vpn : ℕ) : List (Fin 512) :=
  [(indexes vpn).1, (indexes vpn).2.1]

theorem findPte_eq (st : State) (vpn : ℕ) :
    findPte st vpn = (tableAt st (leafPath vpn)).map fun table => (table, (indexes vpn).2.2) := by
  rcases hroot : (st.mem st.table.rootPpn (indexes vpn).1).next with _ | table
  · simp [findPte, tableAt, leafPath, hroot]
  · rcases hnext : (st.mem table (indexes vpn).2.1).next with _ | leafTable
    · simp [findPte, tableAt, leafPath, hroot, hnext]
    · simp [findPte, tableAt, leafPath, hroot, hnext]

theorem translate_eq (st : State) (vpn : ℕ) :
    translate st vpn = (tableAt st (leafPath vpn)).map fun table => st.mem table (indexes vpn).2.2 := by
  rw [translate, findPte_eq, Option.map_map]
  rfl

/-- The table reached through the entry `idx` of the table at `pos`. -/
theorem tableAt_concat {st : State} {pos : List (Fin 512)} {table : ℕ}
    (htable : tableAt st pos = some table) (idx : Fin 512) :
    tableAt st (pos ++ [idx]) = (st.mem table idx).next := by
  rw [tableAt, walk_concat, ← tableAt, htable, Option.bind_some]

namespace WellFormed

variable {st : State} (hwf : WellFormed st)
include hwf

/-- Tables at different depths are different frames. -/
theorem ne_of_length_ne {path path' : List (Fin 512)} {table table' : ℕ} (hlen : path.length ≤ 2)
    (hlen' : path'.length ≤ 2) (hne : path.length ≠ path'.length)
    (htable : tableAt st path = some table) (htable' : tableAt st path' = some table') :
    table ≠ table' := by
  rintro rfl
  exact hne (congrArg List.length (hwf.tree.eq hlen hlen' htable htable'))

/-- The frame the allocator hands out next is none of the tables. -/
theorem current_unreached :
    ∀ pre, pre.length ≤ 2 → tableAt st pre ≠ some st.allocator.current :=
  fun pre hpre hcurrent => lt_irrefl _ (hwf.lt_current pre hpre _ hcurrent)

end WellFormed

/-! ## A turn of `find_pte_create` -/

/-- What a turn of `find_pte_create` at the entry `idx` of `table`, the table at
`pos`, does: it adds at most the table at `pos ++ [idx]`, which it returns,
from a frame that was free and is left zeroed, and writes no other entry of a
frame in use. -/
structure Descends (st st' : State) (pos : List (Fin 512)) (table : ℕ) (idx : Fin 512)
    (child : ℕ) : Prop where
  wf : WellFormed st'
  root : st'.table.rootPpn = st.table.rootPpn
  end_eq : st'.allocator.«end» = st.allocator.«end»
  current_le : st.allocator.current ≤ st'.allocator.current
  le_succ : st'.allocator.current ≤ st.allocator.current + 1
  linked : tableAt st' (pos ++ [idx]) = some child
  other : ∀ path, path.length ≤ 2 → path ≠ pos ++ [idx] → tableAt st' path = tableAt st path
  cells : ∀ p j, p < st.allocator.current → (p, j) ≠ (table, idx) → st'.mem p j = st.mem p j
  fresh : tableAt st (pos ++ [idx]) = some child ∨
    tableAt st (pos ++ [idx]) = none ∧ ∀ j, st'.mem child j = .empty

/-- A turn over a valid entry changes nothing. -/
theorem descendCreate_of_isValid {st : State} {pos : List (Fin 512)} {table : ℕ} {idx : Fin 512}
    (hwf : WellFormed st) (htable : tableAt st pos = some table)
    (hvalid : (st.mem table idx).isValid = true) :
    descendCreate st table idx = .ok ((st.mem table idx).ppn, st) ∧
      Descends st st pos table idx (st.mem table idx).ppn := by
  have hlinked : tableAt st (pos ++ [idx]) = some (st.mem table idx).ppn := by
    rw [tableAt_concat htable, PageTableEntry.next, if_pos hvalid]
  refine ⟨by rw [descendCreate, if_pos hvalid]; rfl, ?_⟩
  exact
    { wf := hwf
      root := rfl
      end_eq := rfl
      current_le := le_refl _
      le_succ := Nat.le_succ _
      linked := hlinked
      other := fun _ _ _ => rfl
      cells := fun _ _ _ _ => rfl
      fresh := .inl hlinked }

/-- A turn over an entry that is not valid links the frame at `current`, zeroed,
as a new table. -/
theorem descendCreate_of_not_isValid {st : State} {pos : List (Fin 512)} {table : ℕ}
    {idx : Fin 512} (hwf : WellFormed st) (hfree : st.allocator.current < st.allocator.«end»)
    (hpos : pos.length < 2) (htable : tableAt st pos = some table)
    (hinvalid : (st.mem table idx).isValid = false) :
    ∃ st', descendCreate st table idx = .ok (st.allocator.current, st') ∧
      Descends st st' pos table idx st.allocator.current := by
  set fresh := st.allocator.current with hfreshDef
  have hfit : fresh < 2 ^ 44 := lt_of_lt_of_le hfree hwf.end_le
  have hunreached : ∀ pre, pre.length ≤ 2 → tableAt st pre ≠ some fresh := hwf.current_unreached
  set cleared : PteMem := Function.update st.mem fresh fun _ => .empty with hcleared
  -- zeroing the fresh frame is seen by no walk
  have hwalk : ∀ path, path.length ≤ 3 →
      walk PageTableEntry.next cleared st.table.rootPpn path = tableAt st path :=
    fun path hpath => walk_update_of_unreached _ hunreached hpath
  have htree : IsTree PageTableEntry.next cleared st.table.rootPpn 2 :=
    hwf.tree.update_of_unreached _ hunreached
  have hne : table ≠ fresh := fun heq => hunreached pos hpos.le (heq ▸ htable)
  have htable' : walk PageTableEntry.next cleared st.table.rootPpn pos = some table := by
    rw [hwalk pos (by omega), htable]
  have hcell : (cleared table idx).next = none := by
    rw [hcleared, Function.update_of_ne hne]
    exact PageTableEntry.next_eq_none hinvalid
  have hempty : ∀ j, (cleared fresh j).next = none := by
    intro j
    simp [hcleared]
  have hunreached' : ∀ pre, pre.length ≤ 2 →
      walk PageTableEntry.next cleared st.table.rootPpn pre ≠ some fresh := by
    intro pre hpre
    rw [hwalk pre (by omega)]
    exact hunreached pre hpre
  have hlink : (PageTableEntry.new fresh PTEFlags.V).next = some fresh :=
    PageTableEntry.next_new hfit rfl
  obtain ⟨hlinked, hother⟩ := htree.walk_link hpos htable' hcell hlink hempty hunreached'
  let st' : State := ⟨⟨st.table.rootPpn, st.table.frames ++ [fresh]⟩,
    writeCell cleared table idx (.new fresh PTEFlags.V), { st.allocator with current := fresh + 1 }⟩
  have hother' : ∀ path, path.length ≤ 2 → path ≠ pos ++ [idx] → tableAt st' path = tableAt st path :=
    fun path hpath hne' => (hother path hpath hne').trans (hwalk path (by omega))
  refine ⟨st', ?_, ?_⟩
  · simp [descendCreate, hinvalid, frameAllocUnwrap_of_ne (Nat.ne_of_lt hfree),
      PageTableEntry.ppn_new hfit, st', hcleared, ← hfreshDef]
  refine
    { wf := ?_
      root := rfl
      end_eq := rfl
      current_le := Nat.le_succ _
      le_succ := le_refl _
      linked := hlinked
      other := hother'
      cells := ?_
      fresh := ?_ }
  · refine ⟨Nat.succ_le_of_lt hfree, hwf.end_le,
      htree.link hpos htable' hcell hlink hempty hunreached', ?_⟩
    intro path hpath q hq
    by_cases hnew : path = pos ++ [idx]
    · rw [hnew] at hq
      have : q = fresh := Option.some.inj (hq.symm.trans hlinked)
      show q < fresh + 1
      omega
    · rw [hother' path hpath hnew] at hq
      exact Nat.lt_succ_of_lt (hwf.lt_current path hpath q hq)
  · intro p j hp hpj
    show writeCell cleared table idx _ p j = st.mem p j
    rw [writeCell_of_ne _ _ hpj, hcleared, Function.update_of_ne (Nat.ne_of_lt hp)]
  · refine .inr ⟨?_, fun j => ?_⟩
    · rw [tableAt_concat htable]
      exact PageTableEntry.next_eq_none hinvalid
    · show writeCell cleared table idx _ fresh j = _
      rw [writeCell_of_ne _ _ (fun h => hne (Prod.mk.inj h).1.symm), hcleared, Function.update_self]

/-- A turn of `find_pte_create` in a well-formed tree with a free frame. -/
theorem descendCreate_spec {st : State} {pos : List (Fin 512)} {table : ℕ} (idx : Fin 512)
    (hwf : WellFormed st) (hfree : st.allocator.current < st.allocator.«end»)
    (hpos : pos.length < 2) (htable : tableAt st pos = some table) :
    ∃ child st', descendCreate st table idx = .ok (child, st') ∧
      Descends st st' pos table idx child := by
  cases hvalid : (st.mem table idx).isValid with
  | true => exact ⟨_, st, descendCreate_of_isValid hwf htable hvalid⟩
  | false =>
      obtain ⟨st', hdescend, hspec⟩ := descendCreate_of_not_isValid hwf hfree hpos htable hvalid
      exact ⟨_, st', hdescend, hspec⟩


/-! ## `find_pte_create` -/

/-- What `find_pte_create(vpn)` does to a well-formed tree: it returns the leaf
table of `vpn`, the one there was or a zeroed new one, and leaves every other
leaf table in its place with its entries. -/
structure Creates (st st' : State) (vpn table : ℕ) : Prop where
  wf : WellFormed st'
  end_eq : st'.allocator.«end» = st.allocator.«end»
  le_two : st'.allocator.current ≤ st.allocator.current + 2
  leafTable : tableAt st' (leafPath vpn) = some table
  other : ∀ path, path.length = 2 → path ≠ leafPath vpn → tableAt st' path = tableAt st path
  leaves : ∀ path, path.length = 2 → ∀ q, tableAt st path = some q → ∀ j, st'.mem q j = st.mem q j
  fresh : tableAt st (leafPath vpn) = some table ∨
    tableAt st (leafPath vpn) = none ∧ ∀ j, st'.mem table j = .empty

theorem findPteCreate_spec {st : State} (hwf : WellFormed st)
    (hfree : st.allocator.current + 2 ≤ st.allocator.«end») (vpn : ℕ) :
    ∃ table st', findPteCreate st vpn = .ok ((table, (indexes vpn).2.2), st') ∧
      Creates st st' vpn table := by
  have hroot : tableAt st [] = some st.table.rootPpn := rfl
  obtain ⟨table₁, st₁, hstep₁, hd₁⟩ :=
    descendCreate_spec (indexes vpn).1 hwf (by omega) (by simp) hroot
  have hfree₁ : st₁.allocator.current < st₁.allocator.«end» := by
    have := hd₁.le_succ
    have := hd₁.end_eq
    omega
  obtain ⟨table₂, st₂, hstep₂, hd₂⟩ :=
    descendCreate_spec (indexes vpn).2.1 hd₁.wf hfree₁ (by simp) hd₁.linked
  -- the first turn changes only the table at `[i0]`, which is no leaf table
  have hother₁ : ∀ path, path.length = 2 → tableAt st₁ path = tableAt st path := by
    intro path hlen
    exact hd₁.other path hlen.le (fun heq => by simp [heq] at hlen)
  refine ⟨table₂, st₂, by simp [findPteCreate, hstep₁, hstep₂, bind, Except.bind, pure, Except.pure], ?_⟩
  refine
    { wf := hd₂.wf
      end_eq := hd₂.end_eq.trans hd₁.end_eq
      le_two := by
        have := hd₁.le_succ
        have := hd₂.le_succ
        omega
      leafTable := hd₂.linked
      other := ?_
      leaves := ?_
      fresh := ?_ }
  · intro path hlen hne
    rw [hd₂.other path hlen.le hne, hother₁ path hlen]
  · intro path hlen q hq j
    have hlt := hwf.lt_current path hlen.le q hq
    have hq₁ : tableAt st₁ path = some q := (hother₁ path hlen).trans hq
    have hne₀ : q ≠ st.table.rootPpn := hwf.ne_of_length_ne hlen.le (by simp) (by simp [hlen]) hq hroot
    have hne₁ : q ≠ table₁ :=
      hd₁.wf.ne_of_length_ne hlen.le (by simp) (by simp [hlen]) hq₁ hd₁.linked
    rw [hd₂.cells q j (lt_of_lt_of_le hlt hd₁.current_le) (fun h => hne₁ (Prod.mk.inj h).1),
      hd₁.cells q j hlt (fun h => hne₀ (Prod.mk.inj h).1)]
  · rcases hd₂.fresh with hold | ⟨hnone, hempty⟩
    · exact .inl ((hother₁ (leafPath vpn) rfl).symm.trans hold)
    · exact .inr ⟨(hother₁ (leafPath vpn) rfl).symm.trans hnone, hempty⟩

/-- `find_pte_create` changes the translation of a page only from `None` to an
invalid entry, in a leaf table it adds. -/
theorem Creates.translate {st st' : State} {vpn table : ℕ} (hc : Creates st st' vpn table) (w : ℕ) :
    translate st' w = translate st w ∨ translate st w = none ∧ translate st' w = some .empty := by
  rw [translate_eq, translate_eq]
  by_cases hpath : leafPath w = leafPath vpn
  · rw [hpath, hc.leafTable]
    rcases hc.fresh with hold | ⟨hnone, hempty⟩
    · left
      rw [hold, Option.map_some, Option.map_some, hc.leaves (leafPath vpn) rfl table hold]
    · right
      rw [hnone, Option.map_some, hempty]
      exact ⟨rfl, rfl⟩
  · left
    rw [hc.other (leafPath w) rfl hpath]
    cases hq : tableAt st (leafPath w) with
    | none => rfl
    | some q => rw [Option.map_some, Option.map_some, hc.leaves (leafPath w) rfl q hq]

/-! ## Writing a leaf entry -/

/-- The state with the entry `idx` of the table `table` set to `v`, as `map`
and `unmap` leave it. -/
def setEntry (st : State) (table : ℕ) (idx : Fin 512) (v : PageTableEntry) : State :=
  { st with mem := writeCell st.mem table idx v }

section WriteLeaf

variable {st : State} {vpn table : ℕ} (hwf : WellFormed st)
  (htable : tableAt st (leafPath vpn) = some table) (v : PageTableEntry)
include hwf htable

/-- A leaf entry is read by no walk to a table. -/
theorem tableAt_setEntry {path : List (Fin 512)} (hpath : path.length ≤ 2) :
    tableAt (setEntry st table (indexes vpn).2.2 v) path = tableAt st path :=
  hwf.tree.walk_writeCell v (by simp [leafPath]) (by omega) htable
    (fun hpre => by simpa [leafPath] using hpre.length_le.trans hpath)

theorem wellFormed_setEntry : WellFormed (setEntry st table (indexes vpn).2.2 v) where
  current_le := hwf.current_le
  end_le := hwf.end_le
  tree := by
    intro path path' q hlen hlen' hq hq'
    exact hwf.tree.eq hlen hlen' ((tableAt_setEntry hwf htable v hlen).symm.trans hq)
      ((tableAt_setEntry hwf htable v hlen').symm.trans hq')
  lt_current := by
    intro path hlen q hq
    exact hwf.lt_current path hlen q ((tableAt_setEntry hwf htable v hlen).symm.trans hq)

theorem translate_setEntry_self : translate (setEntry st table (indexes vpn).2.2 v) vpn = some v := by
  rw [translate_eq, tableAt_setEntry hwf htable v (by simp [leafPath]), htable, Option.map_some]
  simp [setEntry]

/-- The write changes the translation of no page with other indexes. -/
theorem translate_setEntry_of_ne {w : ℕ} (hw : indexes w ≠ indexes vpn) :
    translate (setEntry st table (indexes vpn).2.2 v) w = translate st w := by
  rw [translate_eq, translate_eq, tableAt_setEntry hwf htable v (by simp [leafPath])]
  cases hq : tableAt st (leafPath w) with
  | none => rfl
  | some q =>
      rw [Option.map_some, Option.map_some, setEntry]
      congr 1
      apply writeCell_of_ne
      intro hcell
      obtain ⟨rfl, hidx⟩ := Prod.mk.inj hcell
      have hpath : leafPath w = leafPath vpn :=
        hwf.tree.eq (by simp [leafPath]) (by simp [leafPath]) hq htable
      simp only [leafPath, List.cons.injEq, and_true] at hpath
      exact hw (Prod.ext hpath.1 (Prod.ext hpath.2 hidx))

end WriteLeaf


/-! ## `map` and `unmap` -/

/-- A leaf entry `leaf` calls unmapped is not valid. -/
theorem isValid_of_leaf_eq_none {st : State} {vpn : ℕ} {pte : PageTableEntry}
    (hleaf : leaf st vpn = none) (htranslate : translate st vpn = some pte) : pte.isValid = false := by
  simp only [leaf, htranslate, Option.bind_some] at hleaf
  cases hvalid : pte.isValid with
  | true => simp [hvalid] at hleaf
  | false => rfl

/-- A page `leaf` calls mapped has a leaf table and a valid entry in it. -/
theorem exists_of_leaf_ne_none {st : State} {vpn : ℕ} (hleaf : leaf st vpn ≠ none) :
    ∃ table, tableAt st (leafPath vpn) = some table ∧
      (st.mem table (indexes vpn).2.2).isValid = true := by
  cases htable : tableAt st (leafPath vpn) with
  | none => simp [leaf, translate_eq, htable] at hleaf
  | some table =>
      refine ⟨table, rfl, ?_⟩
      cases hvalid : (st.mem table (indexes vpn).2.2).isValid with
      | true => rfl
      | false => simp [leaf, translate_eq, htable, hvalid] at hleaf

/-- `map` on a page with no valid entry, in a well-formed tree with two free
frames: the page gets the entry, the tree stays well formed, and any other
page keeps its translation or goes from `None` to an invalid entry. -/
theorem map_spec {st : State} (hwf : WellFormed st)
    (hfree : st.allocator.current + 2 ≤ st.allocator.«end») {vpn ppn : ℕ} (flags : PTEFlags)
    (hunmapped : leaf st vpn = none) :
    ∃ st', map st vpn ppn flags = .ok st' ∧ WellFormed st' ∧
      st'.allocator.«end» = st.allocator.«end» ∧ st'.allocator.current ≤ st.allocator.current + 2 ∧
      translate st' vpn = some (.new ppn (ChaosKernel.PageTable.leafFlags flags)) ∧
      ∀ w, indexes w ≠ indexes vpn →
        translate st' w = translate st w ∨ translate st w = none ∧ translate st' w = some .empty := by
  obtain ⟨table, st₁, hfind, hc⟩ := findPteCreate_spec hwf hfree vpn
  -- the leaf entry is not valid: it was not before, or its table is new
  have hinvalid : (st₁.mem table (indexes vpn).2.2).isValid = false := by
    rcases hc.fresh with hold | ⟨-, hempty⟩
    · rw [hc.leaves (leafPath vpn) rfl table hold]
      apply isValid_of_leaf_eq_none hunmapped
      rw [translate_eq, hold, Option.map_some]
    · rw [hempty]
      rfl
  set v := PageTableEntry.new ppn (ChaosKernel.PageTable.leafFlags flags)
  refine ⟨setEntry st₁ table (indexes vpn).2.2 v, ?_, wellFormed_setEntry hc.wf hc.leafTable v,
    hc.end_eq, hc.le_two, translate_setEntry_self hc.wf hc.leafTable v, ?_⟩
  · simp [map, hfind, hinvalid, setEntry, v, bind, Except.bind, pure, Except.pure]
  · intro w hw
    rw [translate_setEntry_of_ne hc.wf hc.leafTable v hw]
    exact hc.translate w

/-- `unmap` on a page with a valid entry: the entry is cleared and nothing else
changes. -/
theorem unmap_spec {st : State} (hwf : WellFormed st) {vpn : ℕ} (hmapped : leaf st vpn ≠ none) :
    ∃ st', unmap st vpn = .ok st' ∧ WellFormed st' ∧ st'.allocator = st.allocator ∧
      translate st' vpn = some .empty ∧ ∀ w, indexes w ≠ indexes vpn → translate st' w = translate st w := by
  obtain ⟨table, htable, hvalid⟩ := exists_of_leaf_ne_none hmapped
  have hfind : findPte st vpn = some (table, (indexes vpn).2.2) := by
    rw [findPte_eq, htable, Option.map_some]
  refine ⟨setEntry st table (indexes vpn).2.2 .empty, ?_, wellFormed_setEntry hwf htable _, rfl,
    translate_setEntry_self hwf htable _, fun w hw => translate_setEntry_of_ne hwf htable _ hw⟩
  simp [unmap, hfind, hvalid, setEntry, pure, Except.pure]


theorem leaf_eq_none_iff {st : State} {vpn : ℕ} :
    leaf st vpn = none ↔ ∀ pte, translate st vpn = some pte → pte.isValid = false := by
  constructor
  · exact fun hleaf pte htranslate => isValid_of_leaf_eq_none hleaf htranslate
  · intro hinvalid
    cases htranslate : translate st vpn with
    | none => simp [leaf, htranslate]
    | some pte => simp [leaf, htranslate, hinvalid pte htranslate]

/-- In a well-formed tree, `map` on a page with no valid entry, given two free
frames and a frame number of 44 bits, gives the page an entry with that frame
and the flags with `V`, `A` and `D`, and changes the translation of a page with
other indexes at most from `None` to an invalid entry; `unmap` on a page with a
valid entry leaves it the empty entry and changes no other translation. -/
theorem sv39_map_unmap_translate (st : State) (hwf : WellFormed st) (vpn : ℕ) :
    (∀ ppn flags, ppn < 2 ^ 44 → (∀ pte, translate st vpn = some pte → pte.isValid = false) →
      st.allocator.current + 2 ≤ st.allocator.«end» →
      ∃ st', map st vpn ppn flags = .ok st' ∧ WellFormed st' ∧
        (∃ pte, translate st' vpn = some pte ∧ pte.ppn = ppn ∧
          pte.flags = ChaosKernel.PageTable.leafFlags flags) ∧
        ∀ w, indexes w ≠ indexes vpn →
          translate st' w = translate st w ∨ translate st w = none ∧ translate st' w = some .empty) ∧
    ((∃ pte, translate st vpn = some pte ∧ pte.isValid = true) →
      ∃ st', unmap st vpn = .ok st' ∧ WellFormed st' ∧ translate st' vpn = some .empty ∧
        ∀ w, indexes w ≠ indexes vpn → translate st' w = translate st w) := by
  constructor
  · intro ppn flags hppn hunmapped hfree
    obtain ⟨st', hmap, hwf', -, -, htranslate, hother⟩ :=
      map_spec hwf hfree flags (leaf_eq_none_iff.2 hunmapped)
    exact ⟨st', hmap, hwf', ⟨_, htranslate, PageTableEntry.ppn_new hppn _,
      PageTableEntry.flags_new hppn _⟩, hother⟩
  · rintro ⟨pte, htranslate, hvalid⟩
    have hmapped : leaf st vpn ≠ none := fun hleaf =>
      absurd (isValid_of_leaf_eq_none hleaf htranslate) (by simp [hvalid])
    obtain ⟨st', hunmap, hwf', -, htranslate', hother⟩ := unmap_spec hwf hmapped
    exact ⟨st', hunmap, hwf', htranslate', hother⟩

/-- A tree of the root alone, frame `0`, with the frames `1` to `3` free. -/
def rootOnly : State :=
  ⟨⟨0, [0]⟩, fun _ _ => .empty, ⟨1, 4, []⟩⟩

/-- A tree whose root has no valid entry has no other table. -/
theorem eq_nil_of_zeroed_root {st : State} (hroot : ∀ j, st.mem st.table.rootPpn j = .empty)
    {path : List (Fin 512)} {table : ℕ} (htable : tableAt st path = some table) : path = [] := by
  cases path with
  | nil => rfl
  | cons i path => simp [tableAt, hroot] at htable

/-- A zeroed root below `current` is a well-formed tree. -/
theorem wellFormed_of_zeroed_root {st : State} (hroot : ∀ j, st.mem st.table.rootPpn j = .empty)
    (hlt : st.table.rootPpn < st.allocator.current)
    (hle : st.allocator.current ≤ st.allocator.«end») (hend : st.allocator.«end» ≤ 2 ^ 44) :
    WellFormed st where
  current_le := hle
  end_le := hend
  tree := fun _ _ _ _ _ htable htable' =>
    (eq_nil_of_zeroed_root hroot htable).trans (eq_nil_of_zeroed_root hroot htable').symm
  lt_current := by
    intro path _ table htable
    cases eq_nil_of_zeroed_root hroot htable
    cases htable
    exact hlt

theorem wellFormed_rootOnly : WellFormed rootOnly :=
  wellFormed_of_zeroed_root (fun _ => rfl) (by decide) (by decide) (by decide)

theorem sv39_map_unmap_translate_on_root_only :
    WellFormed rootOnly ∧
      (∀ ppn flags, ppn < 2 ^ 44 → (∀ pte, translate rootOnly 0 = some pte → pte.isValid = false) →
        rootOnly.allocator.current + 2 ≤ rootOnly.allocator.«end» →
        ∃ st', map rootOnly 0 ppn flags = .ok st' ∧ WellFormed st' ∧
          (∃ pte, translate st' 0 = some pte ∧ pte.ppn = ppn ∧
            pte.flags = ChaosKernel.PageTable.leafFlags flags) ∧
          ∀ w, indexes w ≠ indexes 0 →
            translate st' w = translate rootOnly w ∨
              translate rootOnly w = none ∧ translate st' w = some .empty) ∧
      ((∃ pte, translate rootOnly 0 = some pte ∧ pte.isValid = true) →
        ∃ st', unmap rootOnly 0 = .ok st' ∧ WellFormed st' ∧ translate st' 0 = some .empty ∧
          ∀ w, indexes w ≠ indexes 0 → translate st' w = translate rootOnly w) :=
  ⟨wellFormed_rootOnly, sv39_map_unmap_translate rootOnly wellFormed_rootOnly 0⟩

/-- Mapping page `0` in the tree of the root alone adds the leaf table of pages
`0` to `511`: the translation of page `1` goes from `None` to the empty
entry. -/
theorem map_turns_neighbour_translate_from_none_to_empty :
    ∃ st', map rootOnly 0 5 PTEFlags.R = .ok st' ∧ indexes 1 ≠ indexes 0 ∧
      translate rootOnly 1 = none ∧ translate st' 1 = some .empty :=
  ⟨_, rfl, by decide, rfl, rfl⟩


/-! ## The map the tree implements -/

/-- The tree implements the map `pt` on the pages below `2 ^ 27`, each of which
has an index triple of its own. -/
def Refines (st : State) (pt : ChaosKernel.PageTable) : Prop :=
  ∀ vpn < 2 ^ 27, pt.entries vpn = leaf st vpn

/-- Below `2 ^ 27` a page is its index triple. -/
theorem indexes_injOn {v w : ℕ} (hv : v < 2 ^ 27) (hw : w < 2 ^ 27) (h : indexes v = indexes w) :
    v = w := by
  have hmask : (511 : ℕ) = 2 ^ 9 - 1 := rfl
  simp only [indexes, Prod.mk.injEq, Fin.mk.injEq, hmask, Nat.and_two_pow_sub_one_eq_mod,
    Nat.shiftRight_eq_div_pow] at h
  omega

/-- The leaf entry is read off the translation, so it does not see `None`
turn into an invalid entry. -/
theorem leaf_congr {st st' : State} {w : ℕ}
    (h : translate st' w = translate st w ∨ translate st w = none ∧ translate st' w = some .empty) :
    leaf st' w = leaf st w := by
  rcases h with heq | ⟨hnone, hempty⟩
  · rw [leaf, heq, leaf]
  · simp [leaf, hnone, hempty]

theorem leaf_of_translate {st : State} {vpn ppn : ℕ} (hppn : ppn < 2 ^ 44) {flags : PTEFlags}
    (htranslate : translate st vpn = some (.new ppn flags)) (hv : flags.v = true) :
    leaf st vpn = some ⟨ppn, flags⟩ := by
  simp [leaf, htranslate, PageTableEntry.isValid, PageTableEntry.flags_new hppn,
    PageTableEntry.ppn_new hppn, hv]

/-- A turn over an entry that points to a table changes nothing. -/
theorem descendCreate_of_next {st : State} {ppn child : ℕ} {idx : Fin 512}
    (hnext : (st.mem ppn idx).next = some child) : descendCreate st ppn idx = .ok (child, st) := by
  obtain ⟨hvalid, rfl⟩ := PageTableEntry.next_eq_some.1 hnext
  rw [descendCreate, if_pos hvalid]
  rfl

/-- Where the leaf table exists, `find_pte_create` only finds it. -/
theorem findPteCreate_of_tableAt {st : State} {vpn table : ℕ}
    (htable : tableAt st (leafPath vpn) = some table) :
    findPteCreate st vpn = .ok ((table, (indexes vpn).2.2), st) := by
  simp only [tableAt, leafPath, walk_cons, walk_nil, Option.bind_eq_some_iff] at htable
  obtain ⟨table₁, hroot, _, hnext, hleaf⟩ := htable
  cases hleaf
  simp [findPteCreate, descendCreate_of_next hroot, descendCreate_of_next hnext, bind, Except.bind,
    pure, Except.pure]

section Refines

variable {st : State} {pt : ChaosKernel.PageTable} (hwf : WellFormed st) (href : Refines st pt)
include hwf href

theorem map_refines (hfree : st.allocator.current + 2 ≤ st.allocator.«end») {pt' : ChaosKernel.PageTable}
    {vpn ppn : ℕ} (hvpn : vpn < 2 ^ 27) (hppn : ppn < 2 ^ 44) {flags : PTEFlags}
    (hmap : pt.map vpn ppn flags = .ok pt') :
    ∃ st', map st vpn ppn flags = .ok st' ∧ WellFormed st' ∧ Refines st' pt' ∧
      st'.allocator.«end» = st.allocator.«end» ∧ st'.allocator.current ≤ st.allocator.current + 2 := by
  obtain ⟨hnone, rfl⟩ := ChaosKernel.PageTable.map_eq_ok_iff.1 hmap
  obtain ⟨st', hmap', hwf', hend, hcurrent, htranslate, hother⟩ :=
    map_spec hwf hfree flags ((href vpn hvpn).symm.trans hnone)
  refine ⟨st', hmap', hwf', ?_, hend, hcurrent⟩
  intro w hw
  dsimp only
  by_cases hwv : w = vpn
  · subst hwv
    rw [Function.update_self, leaf_of_translate hppn htranslate (ChaosKernel.PageTable.leafFlags_v flags)]
  · rw [Function.update_of_ne hwv, href w hw]
    exact (leaf_congr (hother w fun h => hwv (indexes_injOn hw hvpn h))).symm

omit hwf in
/-- `map` panics on the tree exactly as on the map, with the same message. -/
theorem map_error_of_refines {vpn ppn : ℕ} (hvpn : vpn < 2 ^ 27) {flags : PTEFlags} {err : Panic}
    (hmap : pt.map vpn ppn flags = .error err) : map st vpn ppn flags = .error err := by
  obtain ⟨hsome, rfl⟩ := ChaosKernel.PageTable.map_eq_error_iff.1 hmap
  have hmapped : leaf st vpn ≠ none := by
    rw [← href vpn hvpn]
    exact Option.isSome_iff_ne_none.1 hsome
  obtain ⟨table, htable, hvalid⟩ := exists_of_leaf_ne_none hmapped
  simp [map, findPteCreate_of_tableAt htable, hvalid, bind, Except.bind, throw, throwThe,
    MonadExceptOf.throw]

theorem unmap_refines {pt' : ChaosKernel.PageTable} {vpn : ℕ} (hvpn : vpn < 2 ^ 27)
    (hunmap : pt.unmap vpn = .ok pt') :
    ∃ st', unmap st vpn = .ok st' ∧ WellFormed st' ∧ Refines st' pt' ∧ st'.allocator = st.allocator := by
  obtain ⟨hsome, rfl⟩ := ChaosKernel.PageTable.unmap_eq_ok_iff.1 hunmap
  have hmapped : leaf st vpn ≠ none := by
    rw [← href vpn hvpn]
    exact Option.isSome_iff_ne_none.1 hsome
  obtain ⟨st', hunmap', hwf', halloc, htranslate, hother⟩ := unmap_spec hwf hmapped
  refine ⟨st', hunmap', hwf', ?_, halloc⟩
  intro w hw
  dsimp only
  by_cases hwv : w = vpn
  · subst hwv
    simp [leaf, htranslate]
  · rw [Function.update_of_ne hwv, href w hw]
    exact (leaf_congr (.inl (hother w fun h => hwv (indexes_injOn hw hvpn h)))).symm

omit hwf in
/-- `unmap` panics on the tree when it panics on the map: on a missing table
with an `unwrap` of `None`, on an invalid entry with the map's message. -/
theorem unmap_error_of_refines {vpn : ℕ} (hvpn : vpn < 2 ^ 27) {err : Panic}
    (hunmap : pt.unmap vpn = .error err) : ∃ err', unmap st vpn = .error err' := by
  have hleaf : leaf st vpn = none := by
    rw [← href vpn hvpn]
    cases hentry : pt.entries vpn with
    | none => rfl
    | some entry => simp [ChaosKernel.PageTable.unmap, hentry] at hunmap
  cases htable : tableAt st (leafPath vpn) with
  | none => exact ⟨.unwrapNone, by simp [unmap, findPte_eq, htable, throw, throwThe, MonadExceptOf.throw]⟩
  | some table =>
      have hinvalid := isValid_of_leaf_eq_none hleaf (by rw [translate_eq, htable, Option.map_some])
      exact ⟨.invalidBeforeUnmapping vpn, by
        simp [unmap, findPte_eq, htable, hinvalid, throw, throwThe, MonadExceptOf.throw,
          Functor.map, Except.map]⟩

end Refines


/-! ## Runs of calls -/

/-- A call on a page table. -/
inductive Call
  | map (vpn ppn : ℕ) (flags : PTEFlags)
  | unmap (vpn : ℕ)
  deriving DecidableEq, Repr

namespace Call

/-- The call on the tree. -/
def run (st : State) : Call → Except Panic State
  | .map vpn ppn flags => Sv39.map st vpn ppn flags
  | .unmap vpn => Sv39.unmap st vpn

/-- The call on the map of `Mm.PageTable`. -/
def runAbstract (pt : ChaosKernel.PageTable) : Call → Except Panic ChaosKernel.PageTable
  | .map vpn ppn flags => pt.map vpn ppn flags
  | .unmap vpn => pt.unmap vpn

/-- A call on a page of the lower half, `vpn < 2 ^ 27`, and, for `map`, a frame
of 44 bits. -/
def Fits : Call → Prop
  | .map vpn ppn _ => vpn < 2 ^ 27 ∧ ppn < 2 ^ 44
  | .unmap vpn => vpn < 2 ^ 27

end Call

/-- One call: where the map returns, the tree returns a well-formed tree that
implements the new map, having taken at most two frames; where the map panics,
the tree panics. -/
theorem call_refines {st : State} {pt : ChaosKernel.PageTable} (hwf : WellFormed st)
    (href : Refines st pt) (hfree : st.allocator.current + 2 ≤ st.allocator.«end») {call : Call}
    (hfits : call.Fits) :
    (∀ pt', call.runAbstract pt = .ok pt' → ∃ st', call.run st = .ok st' ∧ WellFormed st' ∧
      Refines st' pt' ∧ st'.allocator.«end» = st.allocator.«end» ∧
      st'.allocator.current ≤ st.allocator.current + 2) ∧
    (∀ err, call.runAbstract pt = .error err → ∃ err', call.run st = .error err') := by
  cases call with
  | map vpn ppn flags =>
      obtain ⟨hvpn, hppn⟩ := hfits
      exact ⟨fun _ hmap => map_refines hwf href hfree hvpn hppn hmap,
        fun err hmap => ⟨err, map_error_of_refines href hvpn hmap⟩⟩
  | unmap vpn =>
      refine ⟨fun _ hunmap => ?_, fun _ hunmap => unmap_error_of_refines href hfits hunmap⟩
      obtain ⟨st', hunmap', hwf', href', halloc⟩ := unmap_refines hwf href hfits hunmap
      exact ⟨st', hunmap', hwf', href', by rw [halloc], by rw [halloc]; omega⟩

/-- A run of calls, two free frames for each: where the map's run returns, the
tree's run returns a well-formed tree that implements the map it ends with;
where the map's run panics, the tree's run panics.  Induction over the calls,
carrying the tree's well-formedness and the refinement. -/
theorem calls_refine (calls : List Call) (hfits : ∀ call ∈ calls, call.Fits) :
    ∀ st pt, WellFormed st → Refines st pt →
      st.allocator.current + 2 * calls.length ≤ st.allocator.«end» →
      (∀ pt', calls.foldlM Call.runAbstract pt = .ok pt' →
        ∃ st', calls.foldlM Call.run st = .ok st' ∧ WellFormed st' ∧ Refines st' pt') ∧
      (∀ err, calls.foldlM Call.runAbstract pt = .error err →
        ∃ err', calls.foldlM Call.run st = .error err') := by
  induction calls with
  | nil =>
      intro st pt hwf href _
      refine ⟨fun pt' hrun => ?_, fun err hrun => ?_⟩
      · cases hrun
        exact ⟨st, rfl, hwf, href⟩
      · cases hrun
  | cons call calls ih =>
      intro st pt hwf href hfree
      have hlen : st.allocator.current + 2 + 2 * calls.length ≤ st.allocator.«end» := by
        simp only [List.length_cons] at hfree
        omega
      obtain ⟨hok, herr⟩ := call_refines hwf href (by omega) (hfits call List.mem_cons_self)
      have hrest := fun st' pt' => ih (fun c hc => hfits c (List.mem_cons_of_mem call hc)) st' pt'
      simp only [List.foldlM_cons]
      cases hcall : call.runAbstract pt with
      | error err =>
          obtain ⟨err', hcall'⟩ := herr err hcall
          refine ⟨fun pt' hrun => (by cases hrun), fun _ _ => ⟨err', ?_⟩⟩
          rw [hcall']
          rfl
      | ok pt₁ =>
          obtain ⟨st₁, hcall', hwf₁, href₁, hend, hcurrent⟩ := hok pt₁ hcall
          rw [hcall']
          exact hrest st₁ pt₁ hwf₁ href₁ (by omega)

/-- `PageTable::new()` with a free frame of 44 bits gives a well-formed tree
that implements the empty map. -/
theorem new_refines (mem : PteMem) {allocator : StackFrameAllocator}
    (hfree : allocator.current < allocator.«end») (hend : allocator.«end» ≤ 2 ^ 44) :
    ∃ st, new mem allocator = .ok st ∧ WellFormed st ∧ Refines st ChaosKernel.PageTable.new ∧
      st.allocator.current = allocator.current + 1 ∧ st.allocator.«end» = allocator.«end» := by
  let st : State := ⟨⟨allocator.current, [allocator.current]⟩,
    Function.update mem allocator.current fun _ => .empty, { allocator with current := allocator.current + 1 }⟩
  have hroot : ∀ j, st.mem st.table.rootPpn j = .empty := fun j => by simp [st]
  have hwf : WellFormed st :=
    wellFormed_of_zeroed_root hroot (Nat.lt_succ_self _) (Nat.succ_le_of_lt hfree) hend
  refine ⟨st, ?_, hwf, fun vpn _ => ?_, rfl, rfl⟩
  · simp [new, frameAllocUnwrap_of_ne (Nat.ne_of_lt hfree), st, pure, Except.pure, bind, Except.bind]
  · simp [leaf, translate, findPte, hroot]


/-- From `PageTable::new()`, a run of calls on pages of the lower half and
frames of 44 bits, with two free frames for each call: where the same calls on
the empty map of `Mm.PageTable` return, the tree's run returns a well-formed
tree that implements the map they build, and where they panic, it panics. -/
theorem pageTable_runs_refine_map (mem : PteMem) {allocator : StackFrameAllocator} (calls : List Call)
    (hfits : ∀ call ∈ calls, call.Fits)
    (hfree : allocator.current + 1 + 2 * calls.length ≤ allocator.«end»)
    (hend : allocator.«end» ≤ 2 ^ 44) :
    ∃ st, new mem allocator = .ok st ∧
      (∀ pt', calls.foldlM Call.runAbstract ChaosKernel.PageTable.new = .ok pt' →
        ∃ st', calls.foldlM Call.run st = .ok st' ∧ WellFormed st' ∧ Refines st' pt') ∧
      (∀ err, calls.foldlM Call.runAbstract ChaosKernel.PageTable.new = .error err →
        ∃ err', calls.foldlM Call.run st = .error err') := by
  obtain ⟨st, hnew, hwf, href, hcurrent, hend'⟩ := new_refines mem (by omega) hend
  exact ⟨st, hnew, calls_refine calls hfits st _ hwf href (by omega)⟩

/-- Page `0` mapped to frame `5` and unmapped again, from a table made with the
frames `0` to `9`. -/
theorem pageTable_runs_refine_map_on_map_unmap :
    (∀ call ∈ [Call.map 0 5 PTEFlags.R, Call.unmap 0], call.Fits) ∧
      (⟨0, 10, []⟩ : StackFrameAllocator).current + 1 + 2 * 2 ≤ (⟨0, 10, []⟩ : StackFrameAllocator).«end» ∧
      (⟨0, 10, []⟩ : StackFrameAllocator).«end» ≤ 2 ^ 44 ∧
      ∃ st, new (fun _ _ => .empty) ⟨0, 10, []⟩ = .ok st ∧
        (∀ pt', [Call.map 0 5 PTEFlags.R, Call.unmap 0].foldlM Call.runAbstract ChaosKernel.PageTable.new =
            .ok pt' →
          ∃ st', [Call.map 0 5 PTEFlags.R, Call.unmap 0].foldlM Call.run st = .ok st' ∧ WellFormed st' ∧
            Refines st' pt') ∧
        (∀ err, [Call.map 0 5 PTEFlags.R, Call.unmap 0].foldlM Call.runAbstract ChaosKernel.PageTable.new =
            .error err →
          ∃ err', [Call.map 0 5 PTEFlags.R, Call.unmap 0].foldlM Call.run st = .error err') := by
  have hfits : ∀ call ∈ [Call.map 0 5 PTEFlags.R, Call.unmap 0], call.Fits := by
    simp [Call.Fits]
  exact ⟨hfits, by decide, by decide,
    pageTable_runs_refine_map (fun _ _ => .empty) [Call.map 0 5 PTEFlags.R, Call.unmap 0] hfits
      (by decide) (by decide)⟩


end Sv39

end ChaosKernel
