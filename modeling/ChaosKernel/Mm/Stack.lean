import ChaosKernel.Lib.Memory

/-!
# The initial user stack

`MemorySet::build_stack` of `os/src/mm/memory_set.rs` lays out the stack a new
program starts with, downward from `user_sp`: the environment strings, the
argument strings, sixteen random bytes, the auxiliary vector, the `envp` and
`argv` pointer arrays, and `argc` at the stack pointer it returns.  Every store
goes through `write_to_user_ptr`, which is modelled as a store at the virtual
address into the memory of the address space; a `usize` is stored as its eight
little-endian bytes.

The arrays sit where the System V layout puts them: `argv` right above `argc`,
`envp` right above the null that ends `argv`, the auxiliary vector right above
the null that ends `envp`, and the auxiliary vector starts on a 16-byte
boundary.  The stack pointer does not: it lies `8 * (|argv| + |envp| + 3)`
bytes below that boundary, which is a multiple of 16 only when `|argv| + |envp|`
is odd.

The subtractions on `user_sp` are `usize` ones.  A stack image that fits below
`user_sp`, the only case the statements below consider, never wraps, so they
are subtractions of naturals here.
-/

namespace ChaosKernel.Stack

open Lib

/-- The memory `build_stack` writes into: the byte at each virtual address of
the address space. -/
abbrev UserMem := ℕ → UInt8

/-- `AuxHeader`: a type and a value, each a `usize`. -/
structure AuxHeader where
  type : ℕ
  value : ℕ
  deriving DecidableEq, Repr

/-- `AT_NULL`. -/
def atNull : ℕ := 0

/-- `AT_RANDOM`. -/
def atRandom : ℕ := 25

/-- `AT_EXECFN`. -/
def atExecfn : ℕ := 31

/-- The eight little-endian bytes of a `usize`. -/
def usizeBytes (v : ℕ) : List UInt8 :=
  List.ofFn fun i : Fin 8 => UInt8.ofNat (v / 256 ^ (i : ℕ))

/-- `*self.write_to_user_ptr(token, addr as *mut usize) = v`. -/
def writeUsize (mem : UserMem) (addr v : ℕ) : UserMem :=
  store mem addr (usizeBytes v)

/-- The words `vs` written as `usize`s from `addr` on, one after the other, as
the loops over the pointer arrays and the auxiliary vector do. -/
def writeUsizes (mem : UserMem) (addr : ℕ) : List ℕ → UserMem
  | [] => mem
  | v :: vs => writeUsizes (writeUsize mem addr v) (addr + 8) vs

/-- The closure `push_stack`: each string of `parms` in turn, with a NUL after
it, is written right below `user_sp`, which moves down over it.  Returns the
memory, `user_sp` after, and `ptr_vec`: the address of each string, then `0`.
The bytes go one at a time to consecutive addresses, which is one store of the
string and its NUL. -/
def pushStack (mem : UserMem) (userSp : ℕ) : List (List UInt8) → UserMem × ℕ × List ℕ
  | [] => (mem, userSp, [0])
  | parm :: parms =>
      let userSp := userSp - (parm.length + 1)
      let mem := store mem userSp (parm ++ [0])
      match pushStack mem userSp parms with
      | (mem, userSp', ptrVec) => (mem, userSp', userSp :: ptrVec)

/-- `MemorySet::build_stack(user_sp, argv_vec, envp_vec, auxv_vec, token)`: the
memory after it and the tuple it returns, `(user_sp, argc, argv_base,
envp_base, aux_base)`. -/
def buildStack (mem : UserMem) (userSp : ℕ) (argvVec envpVec : List (List UInt8))
    (auxvVec : List AuxHeader) : UserMem × ℕ × ℕ × ℕ × ℕ × ℕ :=
  let userSp := userSp - 2 * 8
  -- the environment strings, then down to a multiple of 8
  match pushStack mem userSp envpVec with
  | (mem, userSp, envp) =>
  let userSp := userSp - userSp % 8
  -- the argument strings, then down to a multiple of 8
  let argc := argvVec.length
  match pushStack mem userSp argvVec with
  | (mem, userSp, argv) =>
  let userSp := userSp - userSp % 8
  -- sixteen random bytes, which `AT_RANDOM` points to
  let userSp := userSp - 16
  let auxvVec := auxvVec ++ [⟨atRandom, userSp⟩]
  let mem := writeUsize mem userSp 0x01020304050607
  let mem := writeUsize mem (userSp + 8) 0x08090a0b0c0d0e0f
  -- padding down to a multiple of 16
  let userSp := userSp - userSp % 16
  -- `argv[0]` is the `0` that ends `ptr_vec` when there is no argument
  let auxvVec := auxvVec ++ [⟨atExecfn, argv.getD 0 0⟩, ⟨atNull, 0⟩]
  let userSp := userSp - auxvVec.length * 16
  let auxBase := userSp
  let mem := writeUsizes mem auxBase (auxvVec.flatMap fun aux => [aux.type, aux.value])
  let userSp := userSp - envp.length * 8
  let envpBase := userSp
  let mem := writeUsizes mem envpBase envp
  let userSp := userSp - argv.length * 8
  let argvBase := userSp
  let mem := writeUsizes mem argvBase argv
  let userSp := userSp - 8
  let mem := writeUsize mem userSp argc
  (mem, userSp, argc, argvBase, envpBase, auxBase)

/-! ## Where the pieces go -/

/-- The bytes `push_stack` takes for `parms`: each string with its NUL. -/
def stringsSize (parms : List (List UInt8)) : ℕ :=
  (parms.map fun parm => parm.length + 1).sum

/-- A bound on the bytes `build_stack` takes below `user_sp`: the strings, the
random bytes, the headers and the words, and at most 7, 7 and 15 bytes of
alignment. -/
def stackBound (argvVec envpVec : List (List UInt8)) (auxvVec : List AuxHeader) : ℕ :=
  16 + stringsSize envpVec + 7 + stringsSize argvVec + 7 + 16 + 15 + 16 * (auxvVec.length + 3) +
    8 * (envpVec.length + 1) + 8 * (argvVec.length + 1) + 8

theorem stringsSize_cons (parm : List UInt8) (parms : List (List UInt8)) :
    stringsSize (parm :: parms) = parm.length + 1 + stringsSize parms := by
  simp [stringsSize]

/-- `push_stack` moves `user_sp` down over the strings, and hands out one
pointer per string and the null. -/
theorem pushStack_userSp_ptrVec (parms : List (List UInt8)) :
    ∀ (mem : UserMem) (userSp : ℕ),
      (pushStack mem userSp parms).2.1 = userSp - stringsSize parms ∧
        (pushStack mem userSp parms).2.2.length = parms.length + 1 := by
  induction parms with
  | nil => simp [pushStack, stringsSize]
  | cons parm parms ih =>
      intro mem userSp
      have hrest := ih (store mem (userSp - (parm.length + 1)) (parm ++ [0])) (userSp - (parm.length + 1))
      simp only [pushStack]
      generalize pushStack (store mem (userSp - (parm.length + 1)) (parm ++ [0]))
        (userSp - (parm.length + 1)) parms = rest at hrest ⊢
      obtain ⟨mem', userSp', ptrVec⟩ := rest
      obtain ⟨hsp, hlen⟩ := hrest
      simp only [List.length_cons, stringsSize_cons] at hsp hlen ⊢
      omega

/-- The addresses `build_stack` returns, for a stack image that fits below
`user_sp`: `argc` is the number of arguments, the arrays follow one another
above the stack pointer, each with its null, the auxiliary vector starts on a
16-byte boundary, and the stack pointer is on one exactly when
`|argv| + |envp|` is odd. -/
theorem buildStack_layout {mem mem' : UserMem} {userSp sp argc argvBase envpBase auxBase : ℕ}
    {argvVec envpVec : List (List UInt8)} {auxvVec : List AuxHeader}
    (hfits : stackBound argvVec envpVec auxvVec ≤ userSp)
    (hbuild : buildStack mem userSp argvVec envpVec auxvVec =
      (mem', sp, argc, argvBase, envpBase, auxBase)) :
    argc = argvVec.length ∧ argvBase = sp + 8 ∧ envpBase = argvBase + 8 * (argvVec.length + 1) ∧
      auxBase = envpBase + 8 * (envpVec.length + 1) ∧ auxBase % 16 = 0 ∧
      (sp % 16 = 0 ↔ (argvVec.length + envpVec.length) % 2 = 1) := by
  dsimp only [buildStack] at hbuild
  obtain ⟨hspEnvp, hlenEnvp⟩ := pushStack_userSp_ptrVec envpVec mem (userSp - 2 * 8)
  generalize pushStack mem (userSp - 2 * 8) envpVec = envp at hspEnvp hlenEnvp hbuild
  obtain ⟨mem₁, sp₁, envpPtrs⟩ := envp
  dsimp only at hspEnvp hlenEnvp
  obtain ⟨hspArgv, hlenArgv⟩ := pushStack_userSp_ptrVec argvVec mem₁ (sp₁ - sp₁ % 8)
  generalize pushStack mem₁ (sp₁ - sp₁ % 8) argvVec = argv at hspArgv hlenArgv hbuild
  obtain ⟨mem₂, sp₂, argvPtrs⟩ := argv
  dsimp only at hspArgv hlenArgv
  simp only [Prod.mk.injEq, List.length_append, List.length_cons, List.length_nil] at hbuild
  obtain ⟨-, hsp, hargc, hargvBase, henvpBase, hauxBase⟩ := hbuild
  simp only [stackBound] at hfits
  rw [hlenEnvp, hlenArgv] at *
  subst hargc hauxBase henvpBase hargvBase hsp
  -- below the random bytes `user_sp` goes down to a multiple of 16 with room for the rest
  generalize hr : sp₂ - sp₂ % 8 - 16 = r
  have hroom : 16 * (auxvVec.length + 3) + 8 * (envpVec.length + 1) + 8 * (argvVec.length + 1) + 8 ≤
      r - r % 16 := by
    omega
  have haligned : (r - r % 16) % 16 = 0 := Nat.sub_mod_eq_zero_of_mod_eq (Nat.mod_mod _ _).symm
  clear hr hspArgv hspEnvp hfits
  generalize r - r % 16 = aux at hroom haligned ⊢
  refine ⟨rfl, by omega, by omega, by omega, by omega, ?_⟩
  omega

/-- One argument and one environment string, from `user_sp = 0x10000`. -/
theorem buildStack_layout_on_one_argument_one_variable :
    ∃ mem' sp argc argvBase envpBase auxBase,
      buildStack (fun _ => 0) 0x10000 [[97]] [[98]] [] = (mem', sp, argc, argvBase, envpBase, auxBase) ∧
        argc = 1 ∧ argvBase = sp + 8 ∧ envpBase = argvBase + 8 * (1 + 1) ∧
        auxBase = envpBase + 8 * (1 + 1) ∧ auxBase % 16 = 0 ∧ (sp % 16 = 0 ↔ (1 + 1) % 2 = 1) := by
  have hbuild : buildStack (fun _ => 0) 0x10000 [[97]] [[98]] [] =
      (_, 0xff78, 1, 0xff80, 0xff90, 0xffa0) := rfl
  exact ⟨_, _, _, _, _, _, hbuild, buildStack_layout (by decide) hbuild⟩

/-- `build_stack` with the argument `"a"` and the environment string `"b"` below
`user_sp = 0x10000` puts the auxiliary vector at `0xffa0`, on a 16-byte
boundary, and returns the stack pointer `0xff78`, eight bytes off one. -/
theorem buildStack_sp_off_sixteen_for_one_argument_one_variable :
    (buildStack (fun _ => 0) 0x10000 [[97]] [[98]] []).2 = (0xff78, 1, 0xff80, 0xff90, 0xffa0) ∧
      0xff78 % 16 = 8 ∧ 0xffa0 % 16 = 0 := by
  decide

end ChaosKernel.Stack
