import Mathlib.Data.List.Infix
import Mathlib.Logic.Function.Basic

/-!
# Walks through linked tables

A memory of tables, each a row of cells indexed by `ι`, in which a cell may
point to another table.  A walk follows a path of indexes from a table: at each
step it reads the cell of the index in the table it is at, and goes on to the
table that cell points to.

The tables reached by the paths of at most `depth` steps form a tree when no
two of those paths end at the same table.  In a tree a cell is read only by the
walks through it, so a write to a cell changes no other walk, and linking an
empty table into an empty cell adds one table and changes nothing else.
-/

namespace ChaosKernel.Lib

variable {ι α : Type*} (next : α → Option ℕ)

/-- The table reached from `node` along `path`, if each cell on the way points
on. -/
def walk (mem : ℕ → ι → α) (node : ℕ) : List ι → Option ℕ
  | [] => some node
  | i :: path => (next (mem node i)).bind fun child => walk mem child path

/-- No two walks of at most `depth` steps from `root` end at the same table. -/
def IsTree (mem : ℕ → ι → α) (root depth : ℕ) : Prop :=
  ∀ path path' table, path.length ≤ depth → path'.length ≤ depth →
    walk next mem root path = some table → walk next mem root path' = some table → path = path'

/-- The memory with the cell `i` of `table` set to `v`. -/
def writeCell [DecidableEq ι] (mem : ℕ → ι → α) (table : ℕ) (i : ι) (v : α) : ℕ → ι → α :=
  Function.update mem table (Function.update (mem table) i v)

variable {next}

@[simp]
theorem walk_nil (mem : ℕ → ι → α) (node : ℕ) : walk next mem node [] = some node := rfl

@[simp]
theorem walk_cons (mem : ℕ → ι → α) (node : ℕ) (i : ι) (path : List ι) :
    walk next mem node (i :: path) = (next (mem node i)).bind fun child => walk next mem child path :=
  rfl

theorem walk_append (mem : ℕ → ι → α) (node : ℕ) (path path' : List ι) :
    walk next mem node (path ++ path') =
      (walk next mem node path).bind fun table => walk next mem table path' := by
  induction path generalizing node with
  | nil => rfl
  | cons i path ih => simp only [List.cons_append, walk_cons, ih, Option.bind_assoc]

theorem walk_concat (mem : ℕ → ι → α) (node : ℕ) (path : List ι) (i : ι) :
    walk next mem node (path ++ [i]) =
      (walk next mem node path).bind fun table => next (mem table i) := by
  rw [walk_append]
  congr 1
  funext table
  simp

@[simp]
theorem writeCell_self [DecidableEq ι] (mem : ℕ → ι → α) (table : ℕ) (i : ι) (v : α) :
    writeCell mem table i v table i = v := by
  simp [writeCell]

theorem writeCell_of_ne [DecidableEq ι] (mem : ℕ → ι → α) {table table' : ℕ} {i j : ι} (v : α)
    (hne : (table', j) ≠ (table, i)) : writeCell mem table i v table' j = mem table' j := by
  unfold writeCell
  by_cases htable : table' = table
  · subst htable
    have hj : j ≠ i := fun hj => hne (by rw [hj])
    rw [Function.update_self, Function.update_of_ne hj]
  · rw [Function.update_of_ne htable]

/-- A walk reads, for each step `pre ++ [j]` of its path, the cell `j` of the
table `pre` ends at; a memory that agrees with `mem` on those cells gives the
same walk. -/
theorem walk_congr {mem mem' : ℕ → ι → α} {node : ℕ} {path : List ι}
    (hagree : ∀ pre j table, pre ++ [j] <+: path → walk next mem node pre = some table →
      mem' table j = mem table j) :
    walk next mem' node path = walk next mem node path := by
  induction path generalizing node with
  | nil => rfl
  | cons i path ih =>
      have hcell : mem' node i = mem node i := hagree [] i node (by simp) rfl
      simp only [walk_cons, hcell]
      cases hchild : next (mem node i) with
      | none => rfl
      | some child =>
          apply ih
          intro pre j table hpre hwalk
          apply hagree (i :: pre) j table (by simpa using hpre)
          simp [hchild, hwalk]

section Tree

variable {mem : ℕ → ι → α} {root depth : ℕ}

/-- In a tree, a table of the tree is reached by one path only. -/
theorem IsTree.eq (htree : IsTree next mem root depth) {path path' : List ι} {table : ℕ}
    (hlen : path.length ≤ depth) (hlen' : path'.length ≤ depth)
    (hwalk : walk next mem root path = some table) (hwalk' : walk next mem root path' = some table) :
    path = path' :=
  htree path path' table hlen hlen' hwalk hwalk'

/-- A walk of at most `depth + 1` steps reads the cell `i` of the table at
`pos` only when it goes through `pos ++ [i]`. -/
theorem IsTree.reads (htree : IsTree next mem root depth) {pos path pre : List ι} {i j : ι}
    {table : ℕ} (hpos : pos.length ≤ depth) (hpath : path.length ≤ depth + 1)
    (htable : walk next mem root pos = some table) (hpre : pre ++ [j] <+: path)
    (hwalk : walk next mem root pre = some table) (hij : j = i) : pos ++ [i] <+: path := by
  have hlen : (pre ++ [j]).length ≤ path.length := hpre.length_le
  have heq : pre = pos := htree.eq (by simp at hlen; omega) hpos hwalk htable
  rw [← heq, ← hij]
  exact hpre

/-- A write to the cell `i` of the table at `pos` changes no walk of at most
`depth + 1` steps that does not go through `pos ++ [i]`. -/
theorem IsTree.walk_writeCell [DecidableEq ι] (htree : IsTree next mem root depth) {pos path : List ι}
    {table : ℕ} {i : ι} (v : α) (hpos : pos.length ≤ depth) (hpath : path.length ≤ depth + 1)
    (htable : walk next mem root pos = some table) (hout : ¬pos ++ [i] <+: path) :
    walk next (writeCell mem table i v) root path = walk next mem root path := by
  apply walk_congr
  intro pre j table' hpre hwalk
  apply writeCell_of_ne
  intro hcell
  obtain ⟨rfl, rfl⟩ := Prod.mk.inj hcell
  exact hout (htree.reads hpos hpath htable hpre hwalk rfl)

/-- A change to a table that no walk of at most `depth` steps reaches changes no
walk of at most `depth + 1` steps. -/
theorem walk_update_of_unreached {fresh : ℕ} (row : ι → α) {path : List ι}
    (hfresh : ∀ pre, pre.length ≤ depth → walk next mem root pre ≠ some fresh)
    (hpath : path.length ≤ depth + 1) :
    walk next (Function.update mem fresh row) root path = walk next mem root path := by
  apply walk_congr
  intro pre j table hpre hwalk
  have hlen : (pre ++ [j]).length ≤ path.length := hpre.length_le
  have hne : table ≠ fresh := by
    rintro rfl
    exact hfresh pre (by simp at hlen; omega) hwalk
  rw [Function.update_of_ne hne]

theorem IsTree.update_of_unreached (htree : IsTree next mem root depth) {fresh : ℕ} (row : ι → α)
    (hfresh : ∀ pre, pre.length ≤ depth → walk next mem root pre ≠ some fresh) :
    IsTree next (Function.update mem fresh row) root depth := by
  intro path path' table hlen hlen' hwalk hwalk'
  rw [walk_update_of_unreached row hfresh (by omega)] at hwalk hwalk'
  exact htree.eq hlen hlen' hwalk hwalk'

/-- Linking a table `fresh` that the tree does not reach, and whose cells all
point nowhere, into an empty cell `i` of the table at `pos` adds the table
`pos ++ [i]` and changes no other walk of at most `depth` steps. -/
theorem IsTree.walk_link [DecidableEq ι] (htree : IsTree next mem root depth) {pos : List ι}
    {table fresh : ℕ} {i : ι} {v : α} (hpos : pos.length < depth)
    (htable : walk next mem root pos = some table) (hcell : next (mem table i) = none)
    (hv : next v = some fresh) (hempty : ∀ j, next (mem fresh j) = none)
    (hfresh : ∀ pre, pre.length ≤ depth → walk next mem root pre ≠ some fresh) :
    walk next (writeCell mem table i v) root (pos ++ [i]) = some fresh ∧
      ∀ path, path.length ≤ depth → path ≠ pos ++ [i] →
        walk next (writeCell mem table i v) root path = walk next mem root path := by
  have hne : table ≠ fresh := by
    rintro rfl
    exact hfresh pos hpos.le htable
  have hkeep : walk next (writeCell mem table i v) root pos = some table := by
    rw [htree.walk_writeCell v hpos.le (by omega) htable (fun h => absurd h.length_le (by simp))]
    exact htable
  have hlinked : walk next (writeCell mem table i v) root (pos ++ [i]) = some fresh := by
    rw [walk_concat, hkeep]
    simp [writeCell, hv]
  refine ⟨hlinked, fun path hpath hne' => ?_⟩
  by_cases hthrough : pos ++ [i] <+: path
  · -- below the new table every walk stops, as it stopped at the empty cell before
    obtain ⟨rest, rfl⟩ := hthrough
    cases rest with
    | nil => exact absurd (List.append_nil _) hne'
    | cons j rest =>
        have hstop : walk next mem root (pos ++ [i]) = none := by
          simp [walk_concat, htable, hcell]
        have hfreshCell : writeCell mem table i v fresh j = mem fresh j := by
          rw [writeCell, Function.update_of_ne hne.symm]
        rw [walk_append _ _ (pos ++ [i]) (j :: rest), walk_append _ _ (pos ++ [i]) (j :: rest),
          hlinked, hstop]
        simp [hfreshCell, hempty]
  · exact htree.walk_writeCell v (by omega) (by omega) htable hthrough

/-- Linking keeps the tree: the new table is reached by its own path only. -/
theorem IsTree.link [DecidableEq ι] (htree : IsTree next mem root depth) {pos : List ι}
    {table fresh : ℕ} {i : ι} {v : α} (hpos : pos.length < depth)
    (htable : walk next mem root pos = some table) (hcell : next (mem table i) = none)
    (hv : next v = some fresh) (hempty : ∀ j, next (mem fresh j) = none)
    (hfresh : ∀ pre, pre.length ≤ depth → walk next mem root pre ≠ some fresh) :
    IsTree next (writeCell mem table i v) root depth := by
  obtain ⟨hlinked, hother⟩ := htree.walk_link hpos htable hcell hv hempty hfresh
  intro path path' table' hlen hlen' hwalk hwalk'
  by_cases hnew : path = pos ++ [i]
  · by_cases hnew' : path' = pos ++ [i]
    · rw [hnew, hnew']
    · rw [hnew, hlinked] at hwalk
      rw [hother path' hlen' hnew', ← hwalk] at hwalk'
      exact absurd hwalk' (hfresh path' hlen')
  · rw [hother path hlen hnew] at hwalk
    by_cases hnew' : path' = pos ++ [i]
    · rw [hnew', hlinked] at hwalk'
      rw [← hwalk'] at hwalk
      exact absurd hwalk (hfresh path hlen)
    · rw [hother path' hlen' hnew'] at hwalk'
      exact htree.eq hlen hlen' hwalk hwalk'

end Tree

end ChaosKernel.Lib
