import ChaosKernel.Config

/-!
# Time values

`TimeSpec` of `os/src/timer.rs`: whole seconds and nanoseconds, both `usize`.
A value is normalised when its nanoseconds are below `NSEC_PER_SEC`.  `Add`
moves the carry of the nanoseconds into the seconds; `AddAssign` adds the two
fields on their own and keeps no such invariant, so on a carry `a += b` leaves
a value that `a + b` is not.  `Sub` saturates at zero through nanoseconds, and
`Ord` compares seconds, then nanoseconds.  `from_tick` reads the timer's tick
counter at `CLOCK_FREQ` ticks a second.
-/

namespace ChaosKernel.Timer

/-- `NSEC_PER_SEC`. -/
def nsecPerSec : ℕ := 1_000_000_000

/-- `TimeSpec`. -/
structure TimeSpec where
  tvSec : ℕ
  tvNsec : ℕ
  deriving DecidableEq, Repr

namespace TimeSpec

/-- `TimeSpec::new()`. -/
def new : TimeSpec := ⟨0, 0⟩

/-- `AddAssign::add_assign`: seconds and nanoseconds added each on their own. -/
def addAssign (self rhs : TimeSpec) : TimeSpec :=
  ⟨(self.tvSec + rhs.tvSec) % usizeModulus, (self.tvNsec + rhs.tvNsec) % usizeModulus⟩

/-- `Add::add`: the whole seconds of the nanoseconds' sum carried over. -/
def add (self other : TimeSpec) : TimeSpec :=
  let sec := (self.tvSec + other.tvSec) % usizeModulus
  let nsec := (self.tvNsec + other.tvNsec) % usizeModulus
  let sec := (sec + nsec / nsecPerSec) % usizeModulus
  let nsec := nsec % nsecPerSec
  ⟨sec, nsec⟩

/-- `TimeSpec::to_ns`. -/
def toNs (self : TimeSpec) : ℕ :=
  (self.tvSec * nsecPerSec % usizeModulus + self.tvNsec) % usizeModulus

/-- `TimeSpec::from_ns`. -/
def fromNs (ns : ℕ) : TimeSpec :=
  ⟨ns / nsecPerSec, ns % nsecPerSec⟩

/-- `Sub::sub`: zero when `other` is not earlier, the difference of the two in
nanoseconds otherwise. -/
def sub (self other : TimeSpec) : TimeSpec :=
  let selfNs := self.toNs
  let otherNs := other.toNs
  if selfNs ≤ otherNs then new else fromNs (selfNs - otherNs)

/-- `Ord::cmp`: the seconds, and on a tie the nanoseconds. -/
def cmp (self other : TimeSpec) : Ordering :=
  match compare self.tvSec other.tvSec with
  | .lt => .lt
  | .eq => compare self.tvNsec other.tvNsec
  | .gt => .gt

/-- `a <= b` of `PartialOrd`, which is `cmp` answering `Less` or `Equal`. -/
def le (a b : TimeSpec) : Prop :=
  cmp a b ≠ .gt

instance (a b : TimeSpec) : Decidable (le a b) :=
  inferInstanceAs (Decidable (cmp a b ≠ .gt))

/-- `TimeSpec::from_tick(tick)`. -/
def fromTick (tick : ℕ) : TimeSpec :=
  ⟨tick / clockFreq, tick % clockFreq * nsecPerSec % usizeModulus / clockFreq⟩

/-- `TimeSpec::now()` at the tick counter's value `tick`. -/
def now (tick : ℕ) : TimeSpec :=
  fromTick tick

/-- Normalised: the nanoseconds are less than a second. -/
def Normalised (t : TimeSpec) : Prop :=
  t.tvNsec < nsecPerSec

instance (t : TimeSpec) : Decidable t.Normalised :=
  inferInstanceAs (Decidable (t.tvNsec < nsecPerSec))

end TimeSpec

end ChaosKernel.Timer

namespace ChaosKernel.Timer.TimeSpec

/-! ## Nanosecond counts

`to_ns` wraps at `2^64`; `nanos` is the same count without the wrap, so that
the facts below say what `to_ns` computes whenever the count fits a `usize`. -/

/-- The nanoseconds a value stands for, counted in `ℕ`. -/
def nanos (t : TimeSpec) : ℕ :=
  t.tvSec * nsecPerSec + t.tvNsec

theorem toNs_eq_nanos_mod (t : TimeSpec) : t.toNs = t.nanos % usizeModulus :=
  Nat.mod_add_mod _ _ _

theorem toNs_lt (t : TimeSpec) : t.toNs < usizeModulus :=
  Nat.mod_lt _ (by unfold usizeModulus; positivity)

theorem toNs_of_lt {t : TimeSpec} (h : t.nanos < usizeModulus) : t.toNs = t.nanos := by
  rw [toNs_eq_nanos_mod, Nat.mod_eq_of_lt h]

@[simp]
theorem nanos_fromNs (ns : ℕ) : (fromNs ns).nanos = ns :=
  Nat.div_add_mod' ns nsecPerSec

theorem fromNs_normalised (ns : ℕ) : (fromNs ns).Normalised :=
  Nat.mod_lt _ (by decide)

theorem toNs_fromNs {ns : ℕ} (h : ns < usizeModulus) : (fromNs ns).toNs = ns := by
  rw [toNs_of_lt (by rwa [nanos_fromNs]), nanos_fromNs]

/-- A normalised value is its nanosecond count cut at whole seconds. -/
theorem fromNs_nanos {t : TimeSpec} (ht : t.Normalised) : fromNs t.nanos = t := by
  have hsec : t.nanos / nsecPerSec = t.tvSec := by
    rw [nanos, Nat.add_comm, Nat.add_mul_div_right _ _ (by decide), Nat.div_eq_of_lt ht,
      Nat.zero_add]
  have hnsec : t.nanos % nsecPerSec = t.tvNsec := by
    rw [nanos, Nat.add_comm, Nat.add_mul_mod_self_right, Nat.mod_eq_of_lt ht]
  simp only [fromNs, hsec, hnsec]

/-- Within one second a later second is a later count. -/
theorem nanos_lt_of_tvSec_lt {a b : TimeSpec} (ha : a.Normalised) (h : a.tvSec < b.tvSec) :
    a.nanos < b.nanos :=
  calc a.nanos < (a.tvSec + 1) * nsecPerSec := by unfold nanos Normalised at *; rw [Nat.succ_mul]; omega
    _ ≤ b.tvSec * nsecPerSec := Nat.mul_le_mul_right _ h
    _ ≤ b.nanos := Nat.le_add_right _ _

/-! ## Addition -/

theorem add_normalised (a b : TimeSpec) : (add a b).Normalised :=
  Nat.mod_lt _ (by decide)

/-- The two counts of a sum, field by field. -/
theorem nanos_add_nanos (a b : TimeSpec) :
    a.nanos + b.nanos = (a.tvSec + b.tvSec) * nsecPerSec + (a.tvNsec + b.tvNsec) := by
  unfold nanos; ring

section NoWrap

variable {a b : TimeSpec} (h : a.nanos + b.nanos < usizeModulus)
include h

theorem tvNsec_add_lt : a.tvNsec + b.tvNsec < usizeModulus := by
  apply lt_of_le_of_lt _ h
  rw [nanos_add_nanos]; exact Nat.le_add_left _ _

/-- The seconds after the carry stay below `2^64`. -/
theorem tvSec_carry_lt :
    a.tvSec + b.tvSec + (a.tvNsec + b.tvNsec) / nsecPerSec < usizeModulus := by
  apply lt_of_le_of_lt _ h
  calc _ ≤ (a.tvSec + b.tvSec + (a.tvNsec + b.tvNsec) / nsecPerSec) * nsecPerSec :=
        Nat.le_mul_of_pos_right _ (by decide)
    _ ≤ a.nanos + b.nanos := by
      rw [nanos_add_nanos, Nat.add_mul]; exact Nat.add_le_add_left (Nat.div_mul_le_self _ _) _

theorem tvSec_add_lt : a.tvSec + b.tvSec < usizeModulus :=
  lt_of_le_of_lt (Nat.le_add_right _ _) (tvSec_carry_lt h)

/-- Without a wrap, `a + b` carries the whole seconds of the nanoseconds. -/
theorem add_of_lt :
    add a b = ⟨a.tvSec + b.tvSec + (a.tvNsec + b.tvNsec) / nsecPerSec,
      (a.tvNsec + b.tvNsec) % nsecPerSec⟩ := by
  simp only [add]
  rw [Nat.mod_eq_of_lt (tvSec_add_lt h), Nat.mod_eq_of_lt (tvNsec_add_lt h),
    Nat.mod_eq_of_lt (tvSec_carry_lt h)]

/-- Without a wrap, `a += b` adds field by field. -/
theorem addAssign_of_lt : addAssign a b = ⟨a.tvSec + b.tvSec, a.tvNsec + b.tvNsec⟩ := by
  rw [addAssign, Nat.mod_eq_of_lt (tvSec_add_lt h), Nat.mod_eq_of_lt (tvNsec_add_lt h)]

/-- Without a wrap, `Add` adds the counts: the carry moves whole seconds from
one field to the other. -/
theorem nanos_add : (add a b).nanos = a.nanos + b.nanos := by
  rw [add_of_lt h, nanos_add_nanos, nanos, Nat.add_mul, Nat.add_assoc, Nat.div_add_mod']

theorem toNs_add : (add a b).toNs = a.toNs + b.toNs := by
  have ha : a.nanos < usizeModulus := lt_of_le_of_lt (Nat.le_add_right _ _) h
  have hb : b.nanos < usizeModulus := lt_of_le_of_lt (Nat.le_add_left _ _) h
  have hab : (add a b).nanos < usizeModulus := by rw [nanos_add h]; exact h
  rw [toNs_of_lt hab, nanos_add h, toNs_of_lt ha, toNs_of_lt hb]

/-- `a += b` and `a + b` agree exactly when the nanoseconds do not carry. -/
theorem addAssign_eq_add_iff : addAssign a b = add a b ↔ a.tvNsec + b.tvNsec < nsecPerSec := by
  rw [addAssign_of_lt h, add_of_lt h, TimeSpec.mk.injEq]
  constructor
  · rintro ⟨hsec, -⟩
    -- equal seconds leave no room for a carry
    have hcarry : (a.tvNsec + b.tvNsec) / nsecPerSec = 0 := by omega
    exact (Nat.div_eq_zero_iff_lt (by decide)).mp hcarry
  · intro hlt
    rw [Nat.div_eq_of_lt hlt, Nat.mod_eq_of_lt hlt]
    exact ⟨rfl, rfl⟩

end NoWrap

theorem addAssign_eq_add_iff_of_small :
    (⟨1, 2⟩ : TimeSpec).nanos + (⟨3, 4⟩ : TimeSpec).nanos < usizeModulus ∧
      (addAssign ⟨1, 2⟩ ⟨3, 4⟩ = add ⟨1, 2⟩ ⟨3, 4⟩ ↔ 2 + 4 < nsecPerSec) :=
  ⟨by decide, addAssign_eq_add_iff (by decide)⟩

/-- With a carry, `a += b` keeps `1.2` seconds in the nanoseconds where `a + b`
moves one of them to the seconds. -/
theorem addAssign_drops_carry :
    (⟨0, 600000000⟩ : TimeSpec).Normalised ∧
      (⟨0, 600000000⟩ : TimeSpec).nanos + (⟨0, 600000000⟩ : TimeSpec).nanos < usizeModulus ∧
      addAssign ⟨0, 600000000⟩ ⟨0, 600000000⟩ = ⟨0, 1200000000⟩ ∧
      add ⟨0, 600000000⟩ ⟨0, 600000000⟩ = ⟨1, 200000000⟩ ∧
      addAssign ⟨0, 600000000⟩ ⟨0, 600000000⟩ ≠ add ⟨0, 600000000⟩ ⟨0, 600000000⟩ := by
  decide

/-! ## Subtraction and order -/

/-- `Sub` saturates: the count of `a - b` is the truncated difference. -/
theorem toNs_sub (a b : TimeSpec) : (sub a b).toNs = a.toNs - b.toNs := by
  simp only [sub]
  split_ifs with hle
  · rw [Nat.sub_eq_zero_of_le hle]
    rfl
  · exact toNs_fromNs (lt_of_le_of_lt (Nat.sub_le _ _) (toNs_lt a))

theorem compare_add_left_cancel (c x y : ℕ) : compare (c + x) (c + y) = compare x y := by
  rw [← cmp_eq_compare, ← cmp_eq_compare]
  exact (strictMono_id.const_add c).cmp_map_eq x y

/-- On normalised values `Ord` is the order of the nanosecond counts. -/
theorem cmp_eq_compare_nanos {a b : TimeSpec} (ha : a.Normalised) (hb : b.Normalised) :
    cmp a b = compare a.nanos b.nanos := by
  unfold cmp
  rcases lt_trichotomy a.tvSec b.tvSec with hlt | heq | hgt
  · rw [compare_lt_iff_lt.mpr hlt, eq_comm, compare_lt_iff_lt]
    exact nanos_lt_of_tvSec_lt ha hlt
  · rw [compare_eq_iff_eq.mpr heq, nanos, nanos, heq, compare_add_left_cancel]
  · rw [compare_gt_iff_gt.mpr hgt, eq_comm, compare_gt_iff_gt]
    exact nanos_lt_of_tvSec_lt hb hgt

theorem le_iff_nanos_le {a b : TimeSpec} (ha : a.Normalised) (hb : b.Normalised) :
    le a b ↔ a.nanos ≤ b.nanos := by
  rw [le, cmp_eq_compare_nanos ha hb, compare_le_iff_le]

/-- Two normalised values whose counts add without a wrap: `+` normalises and
adds the counts, `-` saturates, `<=` compares the counts and `from_ns` inverts
`to_ns`. -/
theorem add_sub_and_order_agree_with_nanoseconds {a b : TimeSpec} (ha : a.Normalised)
    (hb : b.Normalised) (h : a.nanos + b.nanos < usizeModulus) :
    (add a b).Normalised ∧ (add a b).toNs = a.toNs + b.toNs ∧
      (sub a b).toNs = a.toNs - b.toNs ∧ (le a b ↔ a.toNs ≤ b.toNs) ∧ fromNs a.toNs = a := by
  have fa : a.nanos < usizeModulus := lt_of_le_of_lt (Nat.le_add_right _ _) h
  have fb : b.nanos < usizeModulus := lt_of_le_of_lt (Nat.le_add_left _ _) h
  refine ⟨add_normalised a b, toNs_add h, toNs_sub a b, ?_, ?_⟩
  · rw [le_iff_nanos_le ha hb, toNs_of_lt fa, toNs_of_lt fb]
  · rw [toNs_of_lt fa, fromNs_nanos ha]

theorem add_sub_and_order_agree_with_nanoseconds_of_small :
    (⟨1, 999999999⟩ : TimeSpec).Normalised ∧ (⟨2, 1⟩ : TimeSpec).Normalised ∧
      (⟨1, 999999999⟩ : TimeSpec).nanos + (⟨2, 1⟩ : TimeSpec).nanos < usizeModulus ∧
      ((add ⟨1, 999999999⟩ ⟨2, 1⟩).Normalised ∧
        (add ⟨1, 999999999⟩ ⟨2, 1⟩).toNs = toNs ⟨1, 999999999⟩ + toNs ⟨2, 1⟩ ∧
        (sub ⟨1, 999999999⟩ ⟨2, 1⟩).toNs = toNs ⟨1, 999999999⟩ - toNs ⟨2, 1⟩ ∧
        (le ⟨1, 999999999⟩ ⟨2, 1⟩ ↔ toNs ⟨1, 999999999⟩ ≤ toNs ⟨2, 1⟩) ∧
        fromNs (toNs ⟨1, 999999999⟩) = ⟨1, 999999999⟩) :=
  ⟨by decide, by decide, by decide,
    add_sub_and_order_agree_with_nanoseconds (by decide) (by decide) (by decide)⟩

/-! ## Ticks -/

theorem clockFreq_pos : 0 < clockFreq := by decide

/-- The rest of the ticks times `NSEC_PER_SEC` stays far below a wrap. -/
theorem fromTick_tvNsec (tick : ℕ) :
    (fromTick tick).tvNsec = tick % clockFreq * nsecPerSec / clockFreq := by
  have hlt : tick % clockFreq * nsecPerSec < usizeModulus :=
    calc _ < clockFreq * nsecPerSec :=
          Nat.mul_lt_mul_of_pos_right (Nat.mod_lt _ clockFreq_pos) (by decide)
      _ < usizeModulus := by decide
  rw [fromTick, Nat.mod_eq_of_lt hlt]

theorem fromTick_normalised (tick : ℕ) : (fromTick tick).Normalised := by
  rw [Normalised, fromTick_tvNsec, Nat.div_lt_iff_lt_mul clockFreq_pos, Nat.mul_comm nsecPerSec]
  exact Nat.mul_lt_mul_of_pos_right (Nat.mod_lt _ clockFreq_pos) (by decide)

/-- The count of `from_tick` is the ticks in nanoseconds, rounded down. -/
theorem nanos_fromTick (tick : ℕ) : (fromTick tick).nanos = tick * nsecPerSec / clockFreq := by
  -- split the ticks into whole seconds and the ticks of the last second
  have hsplit : tick * nsecPerSec =
      tick % clockFreq * nsecPerSec + clockFreq * (tick / clockFreq * nsecPerSec) := by
    conv_lhs => rw [← Nat.mod_add_div tick clockFreq]
    ring
  rw [nanos, fromTick_tvNsec, hsplit, Nat.add_mul_div_left _ _ clockFreq_pos, Nat.add_comm]
  rfl

/-- `from_tick` is normalised, its `to_ns` is the ticks in nanoseconds (wrapped
at `2^64`), and `now` never goes back as the tick counter grows. -/
theorem fromTick_counts_nanoseconds (tick : ℕ) :
    (fromTick tick).Normalised ∧
      (fromTick tick).toNs = tick * nsecPerSec / clockFreq % usizeModulus ∧
      ∀ tick', tick ≤ tick' → le (now tick) (now tick') := by
  refine ⟨fromTick_normalised tick, by rw [toNs_eq_nanos_mod, nanos_fromTick], ?_⟩
  intro tick' hle
  rw [now, now, le_iff_nanos_le (fromTick_normalised tick) (fromTick_normalised tick'),
    nanos_fromTick, nanos_fromTick]
  exact Nat.div_le_div_right (Nat.mul_le_mul_right _ hle)

end ChaosKernel.Timer.TimeSpec
