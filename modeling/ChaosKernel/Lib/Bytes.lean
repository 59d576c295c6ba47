import Mathlib

/-!
# Little-endian fields

Numbers stored in memory a byte at a time, least significant byte first:
`leBytes n v` is the field of `n` bytes that holds `v`, cut to its `n` bytes,
and `leValue` reads a field back.  Reading a stored field gives the value
modulo `256 ^ n`.
-/

namespace ChaosKernel.Lib

/-- The `n` bytes of `v`, least significant first. -/
def leBytes (n v : ℕ) : Fin n → UInt8 :=
  fun i => UInt8.ofNat (v / 256 ^ (i : ℕ))

/-- The number that a run of bytes holds, least significant first. -/
def leValue (bytes : List UInt8) : ℕ :=
  bytes.foldr (fun b acc => b.toNat + 256 * acc) 0

@[simp]
theorem leValue_nil : leValue [] = 0 := rfl

@[simp]
theorem leValue_cons (b : UInt8) (bytes : List UInt8) :
    leValue (b :: bytes) = b.toNat + 256 * leValue bytes := rfl

/-- A run of `n` bytes holds a number below `256 ^ n`. -/
theorem leValue_lt (bytes : List UInt8) : leValue bytes < 256 ^ bytes.length := by
  induction bytes with
  | nil => simp
  | cons b bytes ih =>
      have hb : b.toNat < 256 := b.toNat_lt
      rw [leValue_cons, List.length_cons, pow_succ]
      omega

/-- The bytes of `v` after the first are the bytes of `v / 256`. -/
theorem leBytes_succ (n v : ℕ) (i : Fin n) : leBytes (n + 1) v i.succ = leBytes n (v / 256) i := by
  simp only [leBytes, Fin.val_succ, pow_succ', Nat.div_div_eq_div_mul]

/-- Reading back a stored field gives its value, cut to the field's bytes. -/
theorem leValue_ofFn_leBytes (n v : ℕ) : leValue (List.ofFn (leBytes n v)) = v % 256 ^ n := by
  induction n generalizing v with
  | zero => simp [Nat.mod_one]
  | succ n ih =>
      have htail : (fun i : Fin n => leBytes (n + 1) v i.succ) = leBytes n (v / 256) :=
        funext (leBytes_succ n v)
      rw [List.ofFn_succ, leValue_cons, htail, ih, pow_succ', Nat.mod_mul]
      simp [leBytes]

end ChaosKernel.Lib
