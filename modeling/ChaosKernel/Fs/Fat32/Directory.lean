import ChaosKernel.Fs.Fat32.Table
import ChaosKernel.Fs.Fat32.Inode
import ChaosKernel.Fs.Fat32.ShortName

/-!
# Directories: what `insert_dentry` writes and `ls` reads back

A directory is read by `ls` as a run of entries in its slots, up to the first
empty one: a deleted slot, a short entry, or a run of long-name entries closed
by the one marked as the end, followed by their short entry.  `DirEntry` is
such an entry as the slots hold it, and a directory laid out as a list of
entries and then empty slots is what `ls` lists entry by entry.

`insert_dentry` writes a name into the first empty slot and those after it:
`⌈n / 13⌉` long entries, the `k`-th with the `k`-th chunk of 13 characters,
then the short entry.  So on a directory laid out as entries and empty slots,
with room for the name in its first cluster, `ls` afterwards lists what it
listed before and then the new name read back, each chunk in front of the
ones before it.

Names are taken as ASCII without `NUL`, for which `len()` counts characters and
`c as u16` keeps them, and of at most 63 chunks, so that no order written
before the last has the end bit `0x40`.
-/

namespace ChaosKernel.Fat32

open Block Lib FAT

/-! ## The `u16` arrays of a long entry -/

theorem u16Bytes_cons (w : ℕ) (ws : List ℕ) :
    u16Bytes (w :: ws) = List.ofFn (leBytes 2 w) ++ u16Bytes ws := rfl

@[simp]
theorem length_u16Bytes (ws : List ℕ) : (u16Bytes ws).length = 2 * ws.length := by
  induction ws with
  | nil => rfl
  | cons w ws ih =>
    rw [u16Bytes_cons, List.length_append, ih, List.length_ofFn, List.length_cons]
    ring

theorem drop_u16Bytes (ws : List ℕ) (k : ℕ) : (u16Bytes ws).drop (2 * k) = u16Bytes (ws.drop k) := by
  induction ws generalizing k with
  | nil => simp [u16Bytes]
  | cons w ws ih =>
    cases k with
    | zero => rfl
    | succ k =>
      rw [u16Bytes_cons, show 2 * (k + 1) = 2 + 2 * k by ring, ← List.drop_drop,
        List.drop_left' (List.length_ofFn), ih, List.drop_succ_cons]

/-- Word `k` of the `u16`s stored after `pre` reads back, cut to 16 bits. -/
theorem leValue_u16Bytes (pre post : List UInt8) (ws : List ℕ) {k : ℕ} (hk : k < ws.length) :
    leValue (((pre ++ u16Bytes ws ++ post).drop (pre.length + 2 * k)).take 2) = ws[k] % 2 ^ 16 := by
  rw [List.append_assoc, List.drop_length_add_append, List.drop_append_of_le_length (by simp; omega),
    drop_u16Bytes, List.drop_eq_getElem_cons hk, u16Bytes_cons, List.append_assoc,
    List.take_left' (List.length_ofFn), leValue_ofFn_leBytes]
  rfl

/-- The words stored as `u16`s at an offset read back, when each fits. -/
theorem u16s_append (pre post : List UInt8) (ws : List ℕ) (hws : ∀ w ∈ ws, w < 2 ^ 16) :
    u16s (pre ++ u16Bytes ws ++ post) pre.length ws.length = ws := by
  apply List.ext_getElem (by simp [u16s])
  intro k hk _
  have hk' : k < ws.length := by simpa [u16s] using hk
  simp only [u16s, List.getElem_map, List.getElem_range]
  rw [leValue_u16Bytes pre post ws hk']
  exact Nat.mod_eq_of_lt (hws _ (List.getElem_mem hk'))

/-! ## The name a long entry holds -/

/-- A character of the names taken here: ASCII, and not `NUL`. -/
def NameChar (c : Char) : Prop :=
  0 < c.toNat ∧ c.toNat < 128

instance (c : Char) : Decidable (NameChar c) :=
  inferInstanceAs (Decidable (_ ∧ _))

/-- `c as u16` for each character. -/
def u16sOfChars (cs : List Char) : List ℕ :=
  cs.map fun c => c.toNat % 2 ^ 16

/-- A run of words padded with zeros to `n` of them. -/
def padWords (ws : List ℕ) (n : ℕ) : List ℕ :=
  ws ++ List.replicate (n - ws.length) 0

/-- The arrays `name1`, `name2` and `name3` that `Fat32LDentryLayout::new`
fills from a chunk: its first five characters, the next six and the rest, each
padded with zeros. -/
def chunkArrays (cs : List Char) : List ℕ × List ℕ × List ℕ :=
  (padWords (u16sOfChars (cs.take 5)) 5, padWords (u16sOfChars ((cs.drop 5).take 6)) 6,
    padWords (u16sOfChars (cs.drop 11)) 2)

@[simp]
theorem length_u16sOfChars (cs : List Char) : (u16sOfChars cs).length = cs.length :=
  List.length_map _

theorem u16sOfChars_append (cs ds : List Char) :
    u16sOfChars (cs ++ ds) = u16sOfChars cs ++ u16sOfChars ds :=
  List.map_append

theorem padWords_cons (w : ℕ) (ws : List ℕ) (n : ℕ) :
    padWords (w :: ws) (n + 1) = w :: padWords ws n := by
  simp [padWords]

/-- Setting the word after the ones written extends the run. -/
theorem set_padWords {ws : List ℕ} {n : ℕ} (hlt : ws.length < n) (w : ℕ) :
    (padWords ws n).set ws.length w = padWords (ws ++ [w]) n := by
  obtain ⟨k, hk⟩ : ∃ k, n - ws.length = k + 1 := ⟨n - ws.length - 1, by omega⟩
  have hrest : n - (ws ++ [w]).length = k := by
    rw [List.length_append, List.length_singleton]
    omega
  rw [padWords, padWords, List.set_append, if_neg (lt_irrefl _), Nat.sub_self, hk,
    List.replicate_succ, List.set_cons_zero, hrest, List.append_assoc, List.singleton_append]

theorem NameChar.u16 {c : Char} (hc : NameChar c) : c.toNat % 2 ^ 16 = c.toNat :=
  Nat.mod_eq_of_lt (by have := hc.2; omega)

/-- `char::from_u32(c as u32).unwrap()` gives the character back. -/
theorem NameChar.charFromU32 {c : Char} (hc : NameChar c) : charFromU32 c.toNat = .ok c := by
  have hvalid : c.toNat < 0xd800 ∨ (0xdfff < c.toNat ∧ c.toNat < 0x110000) := Or.inl (by
    have := hc.2
    omega)
  rw [Fat32.charFromU32, dif_pos hvalid]
  congr 1

/-- One more character lands in `name1`, `name2` or `name3` by its position. -/
theorem chunkArrays_concat {p : List Char} (hp : p.length < 13) (c : Char) :
    chunkArrays (p ++ [c]) =
      if p.length < 5 then
        ((chunkArrays p).1.set p.length (c.toNat % 2 ^ 16), (chunkArrays p).2.1, (chunkArrays p).2.2)
      else if p.length < 11 then
        ((chunkArrays p).1, (chunkArrays p).2.1.set (p.length - 5) (c.toNat % 2 ^ 16), (chunkArrays p).2.2)
      else ((chunkArrays p).1, (chunkArrays p).2.1, (chunkArrays p).2.2.set (p.length - 11) (c.toNat % 2 ^ 16)) := by
  have hc : u16sOfChars [c] = [c.toNat % 2 ^ 16] := rfl
  by_cases h5 : p.length < 5
  · -- the character goes to `name1`; `name2` and `name3` stay zeros
    have hset := @set_padWords (u16sOfChars p) 5 (by simpa using h5) (c.toNat % 2 ^ 16)
    rw [length_u16sOfChars] at hset
    simp only [chunkArrays, if_pos h5, List.take_of_length_le (show (p ++ [c]).length ≤ 5 by simp; omega),
      List.take_of_length_le (show p.length ≤ 5 by omega),
      List.drop_eq_nil_of_le (show (p ++ [c]).length ≤ 5 by simp; omega),
      List.drop_eq_nil_of_le (show p.length ≤ 5 by omega),
      List.drop_eq_nil_of_le (show (p ++ [c]).length ≤ 11 by simp; omega),
      List.drop_eq_nil_of_le (show p.length ≤ 11 by omega), hset, u16sOfChars_append, hc]
  by_cases h11 : p.length < 11
  · -- the character goes to `name2`
    have hset := @set_padWords (u16sOfChars (p.drop 5)) 6 (by simp; omega) (c.toNat % 2 ^ 16)
    rw [length_u16sOfChars, List.length_drop] at hset
    simp only [chunkArrays, if_neg h5, if_pos h11, List.take_append_of_le_length (show 5 ≤ p.length by omega),
      List.drop_append_of_le_length (show 5 ≤ p.length by omega),
      List.take_of_length_le (show (p.drop 5 ++ [c]).length ≤ 6 by simp; omega),
      List.take_of_length_le (show (p.drop 5).length ≤ 6 by simp; omega),
      List.drop_eq_nil_of_le (show (p ++ [c]).length ≤ 11 by simp; omega),
      List.drop_eq_nil_of_le (show p.length ≤ 11 by omega), hset, u16sOfChars_append, hc]
  · -- the character goes to `name3`
    have hset := @set_padWords (u16sOfChars (p.drop 11)) 2 (by simp; omega) (c.toNat % 2 ^ 16)
    rw [length_u16sOfChars, List.length_drop] at hset
    simp only [chunkArrays, if_neg h5, if_neg h11, List.take_append_of_le_length (show 5 ≤ p.length by omega),
      List.drop_append_of_le_length (show 5 ≤ p.length by omega),
      List.take_append_of_le_length (show 6 ≤ (p.drop 5).length by simp; omega),
      List.drop_append_of_le_length (show 11 ≤ p.length by omega), hset, u16sOfChars_append, hc]

/-- The loop of `Fat32LDentryLayout::new` fills the arrays with the chunk, one
character after the other. -/
theorem fillNames_chunkArrays (cs : List Char) :
    ∀ p : List Char, p.length + cs.length ≤ 13 →
      Fat32LDentryLayout.fillNames cs p.length (chunkArrays p) = chunkArrays (p ++ cs) := by
  induction cs with
  | nil => intro p _; simp [Fat32LDentryLayout.fillNames]
  | cons c cs ih =>
    intro p hlen
    have hp : p.length < 13 := by simp at hlen; omega
    have hstep := chunkArrays_concat hp c
    have hnext := ih (p ++ [c]) (by simp at hlen ⊢; omega)
    rw [List.length_append, List.length_singleton, List.append_assoc, List.singleton_append] at hnext
    rw [← hnext, hstep]
    rcases chunkArrays p with ⟨name1, name2, name3⟩
    simp only [Fat32LDentryLayout.fillNames]
    split_ifs <;> rfl

/-- `Fat32LDentryLayout::name`'s loop over one array reads the characters back,
and stops at the padding if there is some. -/
theorem nameChars_padWords {cs : List Char} (hcs : ∀ c ∈ cs, NameChar c) :
    ∀ {n : ℕ}, cs.length ≤ n →
      Fat32LDentryLayout.nameChars (padWords (u16sOfChars cs) n) = .ok (cs, decide (cs.length < n)) := by
  induction cs with
  | nil =>
    intro n _
    cases n with
    | zero => rfl
    | succ n => simp [padWords, u16sOfChars, List.replicate_succ, Fat32LDentryLayout.nameChars]
  | cons c cs ih =>
    intro n hlen
    obtain ⟨n, rfl⟩ := Nat.exists_eq_add_one_of_ne_zero
      (show n ≠ 0 by simp at hlen; omega)
    have hc := hcs c List.mem_cons_self
    have hrest := @ih (fun d hd => hcs d (List.mem_cons_of_mem c hd)) n (by simp at hlen; omega)
    rw [u16sOfChars, List.map_cons, ← u16sOfChars, padWords_cons, Fat32LDentryLayout.nameChars, if_neg (by rw [hc.u16]; exact hc.1.ne'),
      hc.u16, hc.charFromU32, ok_bind, hrest]
    simp

/-! ## The bytes of a long entry -/

namespace Fat32LDentryLayout

/-- The arrays have the lengths of the source's, hold `u16`s, and so does
`start_cluster`. -/
def WellSized (l : Fat32LDentryLayout) : Prop :=
  l.name1.length = 5 ∧ l.name2.length = 6 ∧ l.name3.length = 2 ∧
    (∀ w ∈ l.name1 ++ l.name2 ++ l.name3, w < 2 ^ 16) ∧ l.startCluster < 2 ^ 16

theorem u16s_eq {bytes pre post : List UInt8} {ws : List ℕ} (hbytes : bytes = pre ++ u16Bytes ws ++ post)
    (hws : ∀ w ∈ ws, w < 2 ^ 16) {o n : ℕ} (ho : o = pre.length) (hn : n = ws.length) :
    u16s bytes o n = ws := by
  rw [hbytes, ho, hn, u16s_append pre post ws hws]

/-- The 32 bytes of a well-sized entry read back as the entry. -/
theorem ofBytes_toBytes {l : Fat32LDentryLayout} (hl : l.WellSized) : ofBytes l.toBytes = l := by
  obtain ⟨h1, h2, h3, hwords, hcluster⟩ := hl
  have hw1 : ∀ w ∈ l.name1, w < 2 ^ 16 := fun w hw => hwords w (by simp [hw])
  have hw2 : ∀ w ∈ l.name2, w < 2 ^ 16 := fun w hw => hwords w (by simp [hw])
  have hw3 : ∀ w ∈ l.name3, w < 2 ^ 16 := fun w hw => hwords w (by simp [hw])
  -- each field sits at its offset: one byte, ten, three, twelve, two and four
  have hhead : l.toBytes = ([l.order] ++ u16Bytes l.name1) ++
      ([l.attr, l.reserved, l.checksum] ++ u16Bytes l.name2 ++ List.ofFn (leBytes 2 l.startCluster) ++
        u16Bytes l.name3) := by
    simp [toBytes, List.append_assoc]
  have hlen1 : ([l.order] ++ u16Bytes l.name1).length = 11 := by simp [h1]
  have hname1 : u16s l.toBytes 1 5 = l.name1 :=
    u16s_eq (by rw [hhead, List.append_assoc]) hw1 rfl h1.symm
  have hname2 : u16s l.toBytes 14 6 = l.name2 :=
    @u16s_eq l.toBytes ([l.order] ++ u16Bytes l.name1 ++ [l.attr, l.reserved, l.checksum])
      (List.ofFn (leBytes 2 l.startCluster) ++ u16Bytes l.name3) l.name2
      (by simp [toBytes, List.append_assoc]) hw2 14 6 (by simp [h1]) h2.symm
  have hname3 : u16s l.toBytes 28 2 = l.name3 :=
    @u16s_eq l.toBytes ([l.order] ++ u16Bytes l.name1 ++ [l.attr, l.reserved, l.checksum] ++
        u16Bytes l.name2 ++ List.ofFn (leBytes 2 l.startCluster)) [] l.name3
      (by simp [toBytes, List.append_assoc]) hw3 28 2 (by simp [h1, h2]) h3.symm
  have hcluster' : leValue ((l.toBytes.drop 26).take 2) = l.startCluster := by
    have hsplit : l.toBytes = ([l.order] ++ u16Bytes l.name1 ++ [l.attr, l.reserved, l.checksum] ++
        u16Bytes l.name2) ++ (List.ofFn (leBytes 2 l.startCluster) ++ u16Bytes l.name3) := by
      simp [toBytes, List.append_assoc]
    rw [hsplit, List.drop_left' (by simp [h1, h2]), List.take_left' (List.length_ofFn),
      leValue_ofFn_leBytes]
    exact Nat.mod_eq_of_lt (lt_of_lt_of_eq hcluster (by norm_num))
  have hbyte : ∀ k, l.toBytes.getD (11 + k) 0 =
      ([l.attr, l.reserved, l.checksum] ++ u16Bytes l.name2 ++ List.ofFn (leBytes 2 l.startCluster) ++
        u16Bytes l.name3).getD k 0 := by
    intro k
    rw [hhead, List.getD_append_right _ _ _ _ (by omega), hlen1, Nat.add_sub_cancel_left]
  cases l
  simp only [ofBytes, hname1, hname2, hname3, hcluster']
  congr
  · simpa using hbyte 0
  · simpa using hbyte 1
  · simpa using hbyte 2

/-- `Fat32LDentryLayout::new` on a chunk of at most 13 characters. -/
theorem new_eq {cs : List Char} (hlen : cs.length ≤ 13) (order : UInt8) (isEnd : Bool) :
    new order cs isEnd =
      { order := if isEnd then order ||| 0x40 else order, name1 := (chunkArrays cs).1, attr := 0x0F,
        reserved := 0, checksum := 0, name2 := (chunkArrays cs).2.1, startCluster := 0,
        name3 := (chunkArrays cs).2.2 } := by
  have hfill := fillNames_chunkArrays cs [] (by simpa using hlen)
  rw [List.nil_append, List.length_nil] at hfill
  have hzero : chunkArrays [] = (List.replicate 5 0, List.replicate 6 0, List.replicate 2 0) := rfl
  rw [hzero] at hfill
  rw [new, hfill]

theorem length_padWords {ws : List ℕ} {n : ℕ} (hle : ws.length ≤ n) : (padWords ws n).length = n := by
  simp only [padWords, List.length_append, List.length_replicate]
  omega

theorem lt_of_mem_padWords {cs : List Char} {n w : ℕ} (hw : w ∈ padWords (u16sOfChars cs) n) :
    w < 2 ^ 16 := by
  simp only [padWords, u16sOfChars, List.mem_append, List.mem_map, List.mem_replicate] at hw
  rcases hw with ⟨c, -, rfl⟩ | ⟨-, rfl⟩
  · exact Nat.mod_lt _ (by norm_num)
  · norm_num

theorem wellSized_new {cs : List Char} (hlen : cs.length ≤ 13) (order : UInt8) (isEnd : Bool) :
    (new order cs isEnd).WellSized := by
  rw [new_eq hlen]
  refine ⟨length_padWords (by simp), length_padWords (by simp), length_padWords (by simp; omega), ?_,
    by norm_num⟩
  intro w hw
  simp only [chunkArrays, List.mem_append] at hw
  rcases hw with (hw | hw) | hw <;> exact lt_of_mem_padWords hw

/-- A chunk of at most 13 characters written into a long entry reads back. -/
theorem name_new {cs : List Char} (hcs : ∀ c ∈ cs, NameChar c) (hlen : cs.length ≤ 13)
    (order : UInt8) (isEnd : Bool) : (new order cs isEnd).name = .ok cs := by
  have htake : ∀ c ∈ cs.take 5, NameChar c := fun c hc => hcs c (List.mem_of_mem_take hc)
  have hmid : ∀ c ∈ (cs.drop 5).take 6, NameChar c :=
    fun c hc => hcs c (List.mem_of_mem_drop (List.mem_of_mem_take hc))
  have hlast : ∀ c ∈ cs.drop 11, NameChar c := fun c hc => hcs c (List.mem_of_mem_drop hc)
  rw [new_eq hlen, chunkArrays]
  dsimp only [name]
  rw [nameChars_padWords htake (by simp)]
  by_cases h5 : cs.length < 5
  · rw [ok_bind]
    simp only [List.length_take, show min 5 cs.length < 5 from by omega, decide_true, if_true]
    rw [List.take_of_length_le (by omega)]
    rfl
  · rw [ok_bind]
    simp only [List.length_take, show ¬ min 5 cs.length < 5 from by omega, decide_false,
      Bool.false_eq_true, if_false]
    rw [nameChars_padWords hmid (by simp), ok_bind]
    by_cases h11 : cs.length < 11
    · simp only [List.length_take, List.length_drop, show min 6 (cs.length - 5) < 6 from by omega,
        decide_true, if_true]
      rw [@List.take_of_length_le _ 6 (cs.drop 5) (by simp; omega), List.take_append_drop]
      rfl
    · simp only [List.length_take, List.length_drop, show ¬ min 6 (cs.length - 5) < 6 from by omega,
        decide_false, Bool.false_eq_true, if_false]
      rw [nameChars_padWords hlast (by simp; omega), ok_bind, List.append_assoc,
        show cs.drop 11 = (cs.drop 5).drop 6 by rw [List.drop_drop], List.take_append_drop,
        List.take_append_drop]
      rfl

end Fat32LDentryLayout

/-! ## The slots of a directory's cluster -/

section Slots

variable (vol : Volume) (first : ℕ)

theorem slotOf_fits (first q : ℕ) : (slotOf first q).2 + 32 ≤ blockSz := by
  simp only [slotOf, blockSz]
  omega

/-- The 32 bytes of slot `q` from sector `first` on, as the block cache shows
them. -/
def slotBytes (vol : Volume) (first q : ℕ) : List UInt8 :=
  List.ofFn (slice (vol (slotOf first q).1) (slotOf first q).2 32 (slotOf_fits first q))

theorem readSlot_slotOf (q : ℕ) :
    readSlot vol (slotOf first q).1 (slotOf first q).2 = .ok (slotBytes vol first q) := by
  rw [readSlot, readBlock, dif_pos (slotOf_fits first q)]
  rfl

/-- A slot reads back what was written into it. -/
theorem readSlot_writeSlot_self {sectorId offset : ℕ} (hfit : offset + 32 ≤ blockSz)
    {bytes : List UInt8} (hlen : bytes.length = 32) :
    readSlot (writeSlot vol sectorId offset bytes) sectorId offset = .ok bytes := by
  rw [readSlot, writeSlot, readBlock_modifyBlock_self vol hfit]
  show Except.ok (List.ofFn _) = _
  congr 1
  apply List.ext_getElem (by simp [hlen])
  intro j hj _
  simp only [List.getElem_ofFn]
  rw [List.getD_eq_getElem _ _ (by simp at hj; omega)]

/-- A write to a slot leaves the bytes of every other slot. -/
theorem readSlot_writeSlot_of_disjoint {sectorId offset sectorId' offset' : ℕ} (bytes : List UInt8)
    (hdisj : sectorId' ≠ sectorId ∨ offset' + 32 ≤ offset ∨ offset + 32 ≤ offset') :
    readSlot (writeSlot vol sectorId offset bytes) sectorId' offset' = readSlot vol sectorId' offset' := by
  rw [readSlot, readSlot, writeSlot, readBlock_modifyBlock_of_disjoint vol _ hdisj]

theorem slotOf_disjoint {first q q' : ℕ} (hne : q' ≠ q) :
    (slotOf first q').1 ≠ (slotOf first q).1 ∨ (slotOf first q').2 + 32 ≤ (slotOf first q).2 ∨
      (slotOf first q).2 + 32 ≤ (slotOf first q').2 := by
  simp only [slotOf]
  omega

theorem slotBytes_writeSlot_self {bytes : List UInt8} (hlen : bytes.length = 32) (q : ℕ) :
    slotBytes (writeSlot vol (slotOf first q).1 (slotOf first q).2 bytes) first q = bytes := by
  have hread := readSlot_slotOf (writeSlot vol (slotOf first q).1 (slotOf first q).2 bytes) first q
  rw [readSlot_writeSlot_self vol (slotOf_fits first q) hlen] at hread
  exact (Except.ok.inj hread).symm

/-- The slots from `q` on hold `slots`. -/
def SlotsAt (vol : Volume) (first : ℕ) : ℕ → List (List UInt8) → Prop
  | _, [] => True
  | q, slot :: slots => slotBytes vol first q = slot ∧ SlotsAt vol first (q + 1) slots

theorem slotsAt_append {vol : Volume} {first : ℕ} (xs ys : List (List UInt8)) :
    ∀ {q : ℕ}, SlotsAt vol first q (xs ++ ys) ↔ SlotsAt vol first q xs ∧ SlotsAt vol first (q + xs.length) ys := by
  induction xs with
  | nil => simp [SlotsAt]
  | cons x xs ih =>
    intro q
    rw [List.cons_append, SlotsAt, SlotsAt, ih, List.length_cons, and_assoc,
      show q + (xs.length + 1) = q + 1 + xs.length by omega]

/-- The slots `slots` written one after the other from slot `q` on. -/
def writeSlots (first : ℕ) : Volume → ℕ → List (List UInt8) → Volume
  | vol, _, [] => vol
  | vol, q, slot :: slots => writeSlots first (writeSlot vol (slotOf first q).1 (slotOf first q).2 slot) (q + 1) slots

theorem writeSlots_append (xs ys : List (List UInt8)) :
    ∀ (vol : Volume) (q : ℕ), writeSlots first vol q (xs ++ ys) = writeSlots first (writeSlots first vol q xs) (q + xs.length) ys := by
  induction xs with
  | nil => intro vol q; rfl
  | cons x xs ih =>
    intro vol q
    rw [List.cons_append, writeSlots, writeSlots, ih, List.length_cons, Nat.add_right_comm, Nat.add_assoc]

/-- Writes from slot `q` on leave the 32 bytes at `offset` of `sectorId` when no
written slot overlaps them. -/
theorem readSlot_writeSlots_of_disjoint {sectorId offset : ℕ} (slots : List (List UInt8)) :
    ∀ {vol : Volume} {q : ℕ}, (∀ k < slots.length, sectorId ≠ (slotOf first (q + k)).1 ∨
        offset + 32 ≤ (slotOf first (q + k)).2 ∨ (slotOf first (q + k)).2 + 32 ≤ offset) →
      readSlot (writeSlots first vol q slots) sectorId offset = readSlot vol sectorId offset := by
  induction slots with
  | nil => intro vol q _; rfl
  | cons slot slots ih =>
    intro vol q hdisj
    have hrest : ∀ k < slots.length, sectorId ≠ (slotOf first (q + 1 + k)).1 ∨
        offset + 32 ≤ (slotOf first (q + 1 + k)).2 ∨ (slotOf first (q + 1 + k)).2 + 32 ≤ offset := by
      intro k hk
      rw [Nat.add_assoc, Nat.add_comm 1]
      exact hdisj (k + 1) (by simp; omega)
    have hfirst := hdisj 0 (by simp)
    rw [Nat.add_zero] at hfirst
    rw [writeSlots, ih hrest, readSlot_writeSlot_of_disjoint vol slot hfirst]

theorem slotBytes_writeSlots_of_not_mem (slots : List (List UInt8)) {q i : ℕ}
    (hi : i < q ∨ q + slots.length ≤ i) :
    slotBytes (writeSlots first vol q slots) first i = slotBytes vol first i := by
  have hread := readSlot_slotOf (writeSlots first vol q slots) first i
  rw [readSlot_writeSlots_of_disjoint first slots (fun k hk => slotOf_disjoint (by omega)),
    readSlot_slotOf] at hread
  exact (Except.ok.inj hread).symm

/-- The slots written are there afterwards. -/
theorem slotsAt_writeSlots (slots : List (List UInt8)) (hlen : ∀ slot ∈ slots, slot.length = 32) :
    ∀ {vol : Volume} {q : ℕ}, SlotsAt (writeSlots first vol q slots) first q slots := by
  induction slots with
  | nil => intro vol q; trivial
  | cons slot slots ih =>
    intro vol q
    refine ⟨?_, ih (fun s hs => hlen s (List.mem_cons_of_mem slot hs))⟩
    rw [writeSlots, slotBytes_writeSlots_of_not_mem _ first slots (Or.inl (Nat.lt_succ_self q)),
      slotBytes_writeSlot_self _ first (hlen slot List.mem_cons_self)]

/-- Slots before the ones written keep what they held. -/
theorem slotsAt_writeSlots_of_le (slots : List (List UInt8)) {q : ℕ} :
    ∀ (old : List (List UInt8)) {q' : ℕ}, q' + old.length ≤ q → SlotsAt vol first q' old →
      SlotsAt (writeSlots first vol q slots) first q' old := by
  intro old
  induction old with
  | nil => intro q' _ _; trivial
  | cons slot old ih =>
    intro q' hle hold
    refine ⟨?_, ih (by simp at hle; omega) hold.2⟩
    rw [slotBytes_writeSlots_of_not_mem _ first slots (Or.inl (by simp at hle; omega))]
    exact hold.1

/-- The slots of a cluster that starts past sector `0` are apart from the
first slot of the boot sector. -/
theorem slotBytes_writeSlots_boot {first : ℕ} (hpos : 0 < first) (slots : List (List UInt8)) (q : ℕ) :
    slotBytes (writeSlots first vol q slots) 0 0 = slotBytes vol 0 0 := by
  have hread := readSlot_slotOf (writeSlots first vol q slots) 0 0
  rw [readSlot_writeSlots_of_disjoint first slots (fun k _ => Or.inl (by simp [slotOf]; omega)),
    readSlot_slotOf] at hread
  exact (Except.ok.inj hread).symm

end Slots

/-! ## A slot read as a short entry -/

namespace Fat32DentryLayout

theorem isEmpty_ofBytes (bytes : List UInt8) : (ofBytes bytes).isEmpty = (bytes.getD 0 0 == 0) := by
  cases bytes <;> rfl

theorem isDeleted_ofBytes (bytes : List UInt8) : (ofBytes bytes).isDeleted = (bytes.getD 0 0 == 0xE5) := by
  cases bytes <;> rfl

end Fat32DentryLayout

/-! ## Entries of a directory

The abstract view of a directory: the entries its slots hold, each given by
its slots, what `get_dentry` and `Fat32Dentry::name` need of them, and the name
`ls` lists for it. -/

/-- A long-name slot: its 32 bytes and the characters its name arrays hold. -/
abbrev LongSlot := List UInt8 × List Char

/-- A slot in use: `is_empty` and `is_deleted` are both false. -/
def InUse (slot : List UInt8) : Prop :=
  slot.getD 0 0 ≠ 0 ∧ slot.getD 0 0 ≠ 0xE5

/-- Long-name slots that read as their characters, the last of them, and no
other, marked as the end. -/
def LongRun : List LongSlot → Prop
  | [] => False
  | [part] => (Fat32LDentryLayout.ofBytes part.1).isEnd = true ∧
      (Fat32LDentryLayout.ofBytes part.1).name = .ok part.2
  | part :: next :: parts => (Fat32LDentryLayout.ofBytes part.1).isEnd = false ∧
      (Fat32LDentryLayout.ofBytes part.1).name = .ok part.2 ∧ LongRun (next :: parts)

/-- An entry of a directory as its slots hold it. -/
inductive DirEntry
  /-- A slot marked as deleted. -/
  | deleted (slot : List UInt8)
  /-- A short entry on its own. -/
  | short (slot : List UInt8)
  /-- Long-name slots, then the slot of the short entry. -/
  | long (parts : List LongSlot) (shortSlot : List UInt8)
  deriving DecidableEq, Repr

namespace DirEntry

/-- The slots the entry takes, in order. -/
def slots : DirEntry → List (List UInt8)
  | deleted slot => [slot]
  | short slot => [slot]
  | long parts shortSlot => parts.map Prod.fst ++ [shortSlot]

/-- What `get_dentry` and `Fat32Dentry::name` read of the slots.  The first slot
of a long entry is read as a short entry to find it long; the short entry's
slot after the long-name slots is skipped unread. -/
def Valid : DirEntry → Prop
  | deleted slot => slot.getD 0 0 = 0xE5
  | short slot => InUse slot ∧ (Fat32DentryLayout.ofBytes slot).isLong = false
  | long [] _ => False
  | long (part :: parts) _ => InUse part.1 ∧ (Fat32DentryLayout.ofBytes part.1).isLong = true ∧
      LongRun (part :: parts)

/-- The name `ls` lists for the entry.  `get_dentry` points a deleted entry at
the first slot of sector `0`, so it is listed under the name `boot` read there;
a long name is read back with its chunks in reverse order. -/
def listed (boot : List Char) : DirEntry → List Char
  | deleted _ => boot
  | short slot => (Fat32DentryLayout.ofBytes slot).nameString
  | long parts _ => (parts.map Prod.snd).reverse.flatten

/-- The `Fat32Dentry` that `get_dentry` returns for the entry at slot `q`. -/
def dentry (first q : ℕ) : DirEntry → Fat32Dentry
  | deleted _ => ⟨0, 0, true⟩
  | short _ => ⟨(slotOf first q).1, (slotOf first q).2, false⟩
  | long _ _ => ⟨(slotOf first q).1, (slotOf first q).2, false⟩

theorem length_slots_pos (entry : DirEntry) : 0 < entry.slots.length := by
  cases entry <;> simp [slots]

end DirEntry

/-- The slots of a directory's entries, in order. -/
def dirSlots (entries : List DirEntry) : List (List UInt8) :=
  entries.flatMap DirEntry.slots

@[simp]
theorem dirSlots_cons (entry : DirEntry) (entries : List DirEntry) :
    dirSlots (entry :: entries) = entry.slots ++ dirSlots entries := List.flatMap_cons

theorem dirSlots_concat (entries : List DirEntry) (entry : DirEntry) :
    dirSlots (entries ++ [entry]) = dirSlots entries ++ entry.slots := by
  simp [dirSlots]

theorem length_le_length_dirSlots (entries : List DirEntry) : entries.length ≤ (dirSlots entries).length := by
  induction entries with
  | nil => rfl
  | cons entry entries ih =>
    have hpos := entry.length_slots_pos
    simp only [dirSlots_cons, List.length_append, List.length_cons]
    omega

/-- The name of the first slot of the boot sector, read as a short entry. -/
def bootName (vol : Volume) : List Char :=
  (Fat32DentryLayout.ofBytes (slotBytes vol 0 0)).nameString

/-- Writes to the slots of a cluster past sector `0` leave the boot name. -/
theorem bootName_writeSlots {first : ℕ} (hpos : 0 < first) (vol : Volume) (slots : List (List UInt8))
    (q : ℕ) : bootName (writeSlots first vol q slots) = bootName vol := by
  rw [bootName, bootName, slotBytes_writeSlots_boot vol hpos]

theorem isLong_boot_writeSlots {first : ℕ} (hpos : 0 < first) {vol : Volume} (q : ℕ) (slots : List (List UInt8))
    (hboot : (Fat32DentryLayout.ofBytes (slotBytes vol 0 0)).isLong = false) :
    (Fat32DentryLayout.ofBytes (slotBytes (writeSlots first vol q slots) 0 0)).isLong = false := by
  rw [slotBytes_writeSlots_boot vol hpos]
  exact hboot

/-- The first cluster of a directory, from sector `first` on, holds `entries`
and then empty slots only. -/
structure Layout (sb : Fat32SB) (vol : Volume) (first : ℕ) (entries : List DirEntry) : Prop where
  valid : ∀ entry ∈ entries, entry.Valid
  slots : SlotsAt vol first 0 (dirSlots entries)
  free : ∀ q, (dirSlots entries).length ≤ q → q < 16 * sb.sectorsPerCluster →
    (slotBytes vol first q).getD 0 0 = 0

/-! ## `ls` over a directory laid out as entries -/

theorem slotOf_valid (first q : ℕ) : ¬ ((slotOf first q).2 ≥ 512 ∨ (slotOf first q).2 % 32 ≠ 0) := by
  simp only [slotOf]
  omega

theorem add_one_add_length {α : Type} (q : ℕ) (x : α) (xs : List α) :
    q + 1 + xs.length = q + (x :: xs).length := by
  simp only [List.length_cons]
  omega

theorem readDentry_slotOf (vol : Volume) (first q : ℕ) (deleted : Bool) :
    Fat32Dentry.readDentry vol ⟨(slotOf first q).1, (slotOf first q).2, deleted⟩ =
      .ok (Fat32DentryLayout.ofBytes (slotBytes vol first q)) := by
  rw [Fat32Dentry.readDentry, readSlot_slotOf]
  rfl

/-- `Fat32Dentry::name` of an entry whose slot is not long: the short name. -/
theorem name_of_not_long (sb : Fat32SB) (vol : Volume) (fuel : ℕ) {first q : ℕ} (deleted : Bool)
    (hshort : (Fat32DentryLayout.ofBytes (slotBytes vol first q)).isLong = false) :
    (Fat32Dentry.name sb vol fuel ⟨(slotOf first q).1, (slotOf first q).2, deleted⟩).run =
      some (.ok (Fat32DentryLayout.ofBytes (slotBytes vol first q)).nameString) := by
  have hlong : Fat32Dentry.isLong vol ⟨(slotOf first q).1, (slotOf first q).2, deleted⟩ = .ok false := by
    rw [Fat32Dentry.isLong, readDentry_slotOf, ← hshort]
    rfl
  rw [Fat32Dentry.name, run_bind_of_ok (by rw [run_liftExcept, hlong]), if_neg Bool.false_ne_true,
    run_bind_of_ok (by rw [run_liftExcept, readDentry_slotOf])]
  rfl

theorem slotOf_zero (first : ℕ) : slotOf first 0 = (first, 0) := by
  simp [slotOf]

/-- The loop of `Fat32Dentry::to_end` is the loop of `get_dentry`: both go past
the long-name slots up to the one marked as the end. -/
theorem toEndLoop_eq_skipLong (sb : Fat32SB) (vol : Volume) :
    Fat32Dentry.toEndLoop sb vol = Fat32FS.skipLong sb vol := by
  funext fuel sectorId offset
  induction fuel generalizing sectorId offset with
  | zero => rfl
  | succ fuel ih =>
    rw [Fat32Dentry.toEndLoop, Fat32FS.skipLong]
    simp only [ih]

theorem readDentry_dentry (vol : Volume) (entry : DirEntry) (first q : ℕ) :
    ∃ layout, Fat32Dentry.readDentry vol (entry.dentry first q) = .ok layout := by
  cases entry with
  | deleted slot => exact ⟨_, readDentry_slotOf vol 0 0 true⟩
  | short slot => exact ⟨_, readDentry_slotOf vol first q false⟩
  | long parts shortSlot => exact ⟨_, readDentry_slotOf vol first q false⟩

/-- `lookup` types an entry from the `attr` of its first slot.  For a long-name
slot that is `0x0F`, which is neither a directory nor a volume label nor a
system file: a file. -/
theorem inodeType_of_long_slot {slot : List UInt8} (hattr : slot.getD 11 0 = 0x0F) :
    inodeType (Fat32DentryLayout.ofBytes slot) = .file := by
  simp only [inodeType, Fat32DentryLayout.ofBytes, hattr]
  decide

section Cluster

variable {sb : Fat32SB} (vol : Volume) {first : ℕ} (hfirst : first % sb.sectorsPerCluster = 0)
include hfirst

theorem nextDentryIdUnwrap_slotOf {q : ℕ} (hq : q + 1 < 16 * sb.sectorsPerCluster) :
    nextDentryIdUnwrap sb vol (slotOf first q).1 (slotOf first q).2 =
      .ok ((slotOf first (q + 1)).1, (slotOf first (q + 1)).2) := by
  rw [nextDentryIdUnwrap, nextDentryId_slotOf sb vol hfirst hq, ok_bind]
  rfl

/-- `get_dentry` at an empty slot finds nothing, and still moves on. -/
theorem getDentry_empty {fuel q : ℕ} (hempty : (slotBytes vol first q).getD 0 0 = 0)
    (hq : q + 1 < 16 * sb.sectorsPerCluster) :
    (Fat32FS.getDentry sb vol fuel (slotOf first q).1 (slotOf first q).2).run =
      some (.ok (none, (slotOf first (q + 1)).1, (slotOf first (q + 1)).2)) := by
  rw [Fat32FS.getDentry, if_neg (slotOf_valid first q),
    run_bind_of_ok (by rw [run_liftExcept, readSlot_slotOf])]
  simp +decide only [Fat32DentryLayout.isEmpty_ofBytes, hempty, ↓reduceIte, pure_bind]
  rw [run_bind_of_ok (by rw [run_liftExcept, nextDentryIdUnwrap_slotOf vol hfirst hq])]
  rfl

/-- The loop of `get_dentry` over long-name slots stops past the one marked as
the end. -/
theorem skipLong_slotOf (parts : List LongSlot) (hrun : LongRun parts) :
    ∀ {fuel q : ℕ}, SlotsAt vol first q (parts.map Prod.fst) → q + parts.length < 16 * sb.sectorsPerCluster →
      parts.length ≤ fuel →
      (Fat32FS.skipLong sb vol fuel (slotOf first q).1 (slotOf first q).2).run =
        some (.ok (slotOf first (q + parts.length))) := by
  induction parts with
  | nil => simp [LongRun] at hrun
  | cons part parts ih =>
    intro fuel q hslots hroom hfuel
    obtain ⟨fuel, rfl⟩ := Nat.exists_eq_add_one_of_ne_zero
      (show fuel ≠ 0 by simp at hfuel; omega)
    rw [Fat32FS.skipLong, run_bind_of_ok (by rw [run_liftExcept, readSlot_slotOf]),
      run_bind_of_ok (by rw [run_liftExcept, nextDentryIdUnwrap_slotOf vol hfirst (by simp at hroom; omega)]),
      hslots.1]
    dsimp only
    cases parts with
    | nil =>
      rw [if_pos hrun.1]
      rfl
    | cons next parts =>
      -- not the end: on from the next slot
      rw [if_neg (Bool.eq_false_iff.1 hrun.1), ih hrun.2.2 hslots.2 (by simp at hroom ⊢; omega)
        (by simp at hfuel ⊢; omega), add_one_add_length]

/-- `Fat32Dentry::name` over long-name slots puts each chunk in front of the
ones before it. -/
theorem longName_slotOf (parts : List LongSlot) (hrun : LongRun parts) :
    ∀ {fuel q : ℕ} (acc : List Char), SlotsAt vol first q (parts.map Prod.fst) →
      q + parts.length < 16 * sb.sectorsPerCluster → parts.length ≤ fuel →
      (Fat32Dentry.longName sb vol fuel (slotOf first q).1 (slotOf first q).2 acc).run =
        some (.ok ((parts.map Prod.snd).reverse.flatten ++ acc)) := by
  induction parts with
  | nil => simp [LongRun] at hrun
  | cons part parts ih =>
    intro fuel q acc hslots hroom hfuel
    obtain ⟨fuel, rfl⟩ := Nat.exists_eq_add_one_of_ne_zero
      (show fuel ≠ 0 by simp at hfuel; omega)
    rw [Fat32Dentry.longName, run_bind_of_ok (by rw [run_liftExcept, readSlot_slotOf]), hslots.1]
    cases parts with
    | nil =>
      rw [run_bind_of_ok (by rw [run_liftExcept, hrun.2]), if_pos hrun.1]
      simp
    | cons next parts =>
      rw [run_bind_of_ok (by rw [run_liftExcept, hrun.2.1]), if_neg (Bool.eq_false_iff.1 hrun.1),
        run_bind_of_ok (by rw [run_liftExcept, nextDentryIdUnwrap_slotOf vol hfirst (by simp at hroom; omega)])]
      dsimp only
      rw [ih hrun.2.2 _ hslots.2 (by simp at hroom ⊢; omega) (by simp at hfuel ⊢; omega)]
      simp

/-- `get_dentry` at the first slot of an entry returns it and moves past the
entry's slots. -/
theorem getDentry_entry {entry : DirEntry} (hvalid : entry.Valid) {fuel q : ℕ}
    (hslots : SlotsAt vol first q entry.slots) (hroom : q + entry.slots.length < 16 * sb.sectorsPerCluster)
    (hfuel : entry.slots.length ≤ fuel) :
    (Fat32FS.getDentry sb vol fuel (slotOf first q).1 (slotOf first q).2).run =
      some (.ok (some (entry.dentry first q), (slotOf first (q + entry.slots.length)).1,
        (slotOf first (q + entry.slots.length)).2)) := by
  rw [Fat32FS.getDentry, if_neg (slotOf_valid first q),
    run_bind_of_ok (by rw [run_liftExcept, readSlot_slotOf])]
  cases entry with
  | deleted slot =>
    have hdeleted : slot.getD 0 0 = 0xE5 := hvalid
    simp +decide only [hslots.1, Fat32DentryLayout.isEmpty_ofBytes, Fat32DentryLayout.isDeleted_ofBytes,
      hdeleted, ↓reduceIte, pure_bind]
    rw [run_bind_of_ok (by rw [run_liftExcept, nextDentryIdUnwrap_slotOf vol hfirst hroom])]
    rfl
  | short slot =>
    obtain ⟨⟨hne, hne'⟩, hshort⟩ := hvalid
    simp only [hslots.1, Fat32DentryLayout.isEmpty_ofBytes, Fat32DentryLayout.isDeleted_ofBytes,
      beq_iff_eq, hne, hne', hshort, ↓reduceIte, Bool.false_eq_true, pure_bind]
    rw [run_bind_of_ok (by rw [run_liftExcept, nextDentryIdUnwrap_slotOf vol hfirst hroom])]
    rfl
  | long parts shortSlot =>
    cases parts with
    | nil => simp [DirEntry.Valid] at hvalid
    | cons part parts =>
      obtain ⟨⟨hne, hne'⟩, hlong, hrun⟩ := hvalid
      obtain ⟨hparts, -⟩ := (slotsAt_append _ _).1 hslots
      simp only [DirEntry.slots, List.length_append, List.length_map, List.length_singleton] at hroom hfuel ⊢
      simp only [hparts.1, Fat32DentryLayout.isEmpty_ofBytes, Fat32DentryLayout.isDeleted_ofBytes,
        beq_iff_eq, hne, hne', hlong, ↓reduceIte]
      -- the long-name slots are skipped; the short entry's slot is passed unread
      rw [run_bind_of_ok (skipLong_slotOf vol hfirst (part :: parts) hrun hparts (by omega) (by omega)),
        run_bind_of_ok (by rw [run_liftExcept, nextDentryIdUnwrap_slotOf vol hfirst (by omega)]), Nat.add_assoc]
      rfl

/-- `Fat32Dentry::name` of the entry `get_dentry` returns is the name `ls`
lists for it. -/
theorem name_entry (hboot : (Fat32DentryLayout.ofBytes (slotBytes vol 0 0)).isLong = false)
    {entry : DirEntry} (hvalid : entry.Valid) {fuel q : ℕ} (hslots : SlotsAt vol first q entry.slots)
    (hroom : q + entry.slots.length < 16 * sb.sectorsPerCluster) (hfuel : entry.slots.length ≤ fuel) :
    (Fat32Dentry.name sb vol fuel (entry.dentry first q)).run = some (.ok (entry.listed (bootName vol))) := by
  cases entry with
  | deleted slot => exact @name_of_not_long sb vol fuel 0 0 true hboot
  | short slot =>
    rw [DirEntry.dentry, name_of_not_long sb vol fuel false (by rw [hslots.1]; exact hvalid.2), hslots.1]
    rfl
  | long parts shortSlot =>
    cases parts with
    | nil => simp [DirEntry.Valid] at hvalid
    | cons part parts =>
      obtain ⟨-, hlong, hrun⟩ := hvalid
      obtain ⟨hparts, -⟩ := (slotsAt_append _ _).1 hslots
      simp only [DirEntry.slots, List.length_append, List.length_map, List.length_singleton] at hroom hfuel
      have hisLong : Fat32Dentry.isLong vol ⟨(slotOf first q).1, (slotOf first q).2, false⟩ = .ok true := by
        rw [Fat32Dentry.isLong, readDentry_slotOf, hparts.1, ← hlong]
        rfl
      rw [DirEntry.dentry, Fat32Dentry.name, run_bind_of_ok (by rw [run_liftExcept, hisLong]), if_pos rfl,
        longName_slotOf vol hfirst (part :: parts) hrun [] hparts (by omega) (by omega), List.append_nil]
      rfl

/-- The walk of `ls` lists the entries from slot `q` on, up to the empty slot
after them. -/
theorem walk_entries (hboot : (Fat32DentryLayout.ofBytes (slotBytes vol 0 0)).isLong = false) {fuel : ℕ}
    (entries : List DirEntry) :
    ∀ {n q : ℕ}, (∀ entry ∈ entries, entry.Valid) → SlotsAt vol first q (dirSlots entries) →
      (slotBytes vol first (q + (dirSlots entries).length)).getD 0 0 = 0 →
      q + (dirSlots entries).length + 1 < 16 * sb.sectorsPerCluster → (dirSlots entries).length ≤ fuel →
      entries.length < n →
      (Fat32FS.walk sb vol fuel n (slotOf first q).1 (slotOf first q).2).run =
        some (.ok (entries.map (DirEntry.listed (bootName vol)))) := by
  induction entries with
  | nil =>
    intro n q _ _ hempty hroom _ hn
    obtain ⟨n, rfl⟩ := Nat.exists_eq_add_one_of_ne_zero
      (show n ≠ 0 by simp at hn; omega)
    simp only [dirSlots, List.flatMap_nil, List.length_nil, Nat.add_zero] at hempty hroom
    rw [Fat32FS.walk, run_bind_of_ok (getDentry_empty vol hfirst hempty hroom)]
    rfl
  | cons entry entries ih =>
    intro n q hvalid hslots hempty hroom hfuel hn
    obtain ⟨n, rfl⟩ := Nat.exists_eq_add_one_of_ne_zero
      (show n ≠ 0 by simp at hn; omega)
    rw [dirSlots_cons, slotsAt_append] at hslots
    simp only [dirSlots_cons, List.length_append, ← Nat.add_assoc] at hempty hroom hfuel
    have hentry := hvalid entry List.mem_cons_self
    rw [Fat32FS.walk, run_bind_of_ok (getDentry_entry vol hfirst hentry hslots.1 (by omega) (by omega))]
    dsimp only
    rw [run_bind_of_ok (name_entry vol hfirst hboot hentry hslots.1 (by omega) (by omega)),
      run_bind_of_ok (ih (fun e he => hvalid e (List.mem_cons_of_mem entry he)) hslots.2 hempty hroom
        (by omega) (by simp at hn; omega))]
    rfl

/-- `ls` of a directory laid out as `entries` lists the name of each. -/
theorem ls_of_layout (hboot : (Fat32DentryLayout.ofBytes (slotBytes vol 0 0)).isLong = false)
    {cluster fuel : ℕ} {entries : List DirEntry} (hsector : FAT.clusterIdToSectorId sb cluster = some first)
    (hlayout : Layout sb vol first entries) (hroom : (dirSlots entries).length + 1 < 16 * sb.sectorsPerCluster)
    (hfuel : 16 * sb.sectorsPerCluster ≤ fuel) :
    (ls sb vol fuel cluster).run = some (.ok (entries.map (DirEntry.listed (bootName vol)))) := by
  have hentries := length_le_length_dirSlots entries
  have hwalk : (Fat32FS.walk sb vol fuel fuel (slotOf first 0).1 (slotOf first 0).2).run =
      some (.ok (entries.map (DirEntry.listed (bootName vol)))) :=
    walk_entries vol hfirst hboot entries hlayout.valid hlayout.slots
      (by rw [Nat.zero_add]; exact hlayout.free _ le_rfl (by omega)) (by omega) (by omega) (by omega)
  rw [slotOf_zero] at hwalk
  rw [ls, firstSlot, hsector, run_bind_of_ok (run_liftExcept _)]
  exact hwalk

/-- `Fat32Dentry::start_cluster_id` of an entry that starts with long-name
slots reads the short entry in the slot after them. -/
theorem startClusterId_long {parts : List LongSlot} (hrun : LongRun parts) {fuel q : ℕ}
    (hlong : (Fat32DentryLayout.ofBytes (slotBytes vol first q)).isLong = true)
    (hslots : SlotsAt vol first q (parts.map Prod.fst)) (hroom : q + parts.length < 16 * sb.sectorsPerCluster)
    (hfuel : parts.length ≤ fuel) :
    (Fat32Dentry.startClusterId sb vol fuel ⟨(slotOf first q).1, (slotOf first q).2, false⟩).run =
      some (.ok (Fat32DentryLayout.ofBytes (slotBytes vol first (q + parts.length))).startClusterId) := by
  have hisLong : Fat32Dentry.isLong vol ⟨(slotOf first q).1, (slotOf first q).2, false⟩ = .ok true := by
    rw [Fat32Dentry.isLong, readDentry_slotOf, ← hlong]
    rfl
  have hend : (Fat32Dentry.toEnd sb vol fuel ⟨(slotOf first q).1, (slotOf first q).2, false⟩).run =
      some (.ok ((slotOf first (q + parts.length)).1, (slotOf first (q + parts.length)).2)) := by
    rw [Fat32Dentry.toEnd, run_bind_of_ok (by rw [run_liftExcept, hisLong])]
    simp only [Bool.not_true, Bool.false_eq_true, ↓reduceIte, toEndLoop_eq_skipLong]
    exact skipLong_slotOf vol hfirst parts hrun hslots hroom hfuel
  rw [Fat32Dentry.startClusterId, run_bind_of_ok hend]
  dsimp only
  rw [run_bind_of_ok (by rw [run_liftExcept, readSlot_slotOf])]
  rfl

/-- `lookup` passes the entries of a directory laid out as `entries` when none
of them is listed as `name`. -/
theorem lookupLoop_entries (hboot : (Fat32DentryLayout.ofBytes (slotBytes vol 0 0)).isLong = false) {fuel : ℕ}
    (name : List Char) (entries : List DirEntry) (hother : ∀ entry ∈ entries, entry.listed (bootName vol) ≠ name) :
    ∀ {n q : ℕ}, (∀ entry ∈ entries, entry.Valid) → SlotsAt vol first q (dirSlots entries) →
      q + (dirSlots entries).length < 16 * sb.sectorsPerCluster → (dirSlots entries).length ≤ fuel →
      (lookupLoop sb vol fuel name (entries.length + n) (slotOf first q).1 (slotOf first q).2).run =
        (lookupLoop sb vol fuel name n (slotOf first (q + (dirSlots entries).length)).1
          (slotOf first (q + (dirSlots entries).length)).2).run := by
  induction entries with
  | nil => intro n q _ _ _ _; simp [dirSlots]
  | cons entry entries ih =>
    intro n q hvalid hslots hroom hfuel
    rw [dirSlots_cons, slotsAt_append] at hslots
    simp only [dirSlots_cons, List.length_append, ← Nat.add_assoc] at hroom hfuel ⊢
    have hentry := hvalid entry List.mem_cons_self
    obtain ⟨layout, hread⟩ := readDentry_dentry vol entry first q
    rw [show (entry :: entries).length + n = entries.length + n + 1 by simp; omega, lookupLoop,
      run_bind_of_ok (getDentry_entry vol hfirst hentry hslots.1 (by omega) (by omega))]
    dsimp only
    -- the entry is typed, named, and passed
    rw [run_bind_of_ok (by rw [run_liftExcept, hread]),
      run_bind_of_ok (name_entry vol hfirst hboot hentry hslots.1 (by omega) (by omega)),
      if_neg (by rw [beq_iff_eq]; exact hother entry List.mem_cons_self)]
    exact ih (fun e he => hother e (List.mem_cons_of_mem entry he))
      (fun e he => hvalid e (List.mem_cons_of_mem entry he)) hslots.2 hroom (by omega)

/-- `lookup` at an entry that starts with long-name slots and is listed as
`name` returns it, typed from its first slot, with the start cluster of its
short entry. -/
theorem lookupLoop_long (hboot : (Fat32DentryLayout.ofBytes (slotBytes vol 0 0)).isLong = false)
    {parts : List LongSlot} {shortSlot : List UInt8} (hvalid : (DirEntry.long parts shortSlot).Valid)
    {fuel n q : ℕ} (hslots : SlotsAt vol first q (DirEntry.long parts shortSlot).slots)
    (hroom : q + (DirEntry.long parts shortSlot).slots.length < 16 * sb.sectorsPerCluster)
    (hfuel : (DirEntry.long parts shortSlot).slots.length ≤ fuel) {name : List Char}
    (hname : (DirEntry.long parts shortSlot).listed (bootName vol) = name) :
    (lookupLoop sb vol fuel name (n + 1) (slotOf first q).1 (slotOf first q).2).run =
      some (.ok (some (⟨(slotOf first q).1, (slotOf first q).2, false⟩,
        inodeType (Fat32DentryLayout.ofBytes (slotBytes vol first q)),
        (Fat32DentryLayout.ofBytes (slotBytes vol first (q + parts.length))).startClusterId))) := by
  cases parts with
  | nil => simp [DirEntry.Valid] at hvalid
  | cons part parts =>
    obtain ⟨hparts, -⟩ := (slotsAt_append _ _).1 hslots
    have hlong : (Fat32DentryLayout.ofBytes (slotBytes vol first q)).isLong = true := by
      rw [hparts.1]
      exact hvalid.2.1
    have hread : Fat32Dentry.readDentry vol ((DirEntry.long (part :: parts) shortSlot).dentry first q) =
        .ok (Fat32DentryLayout.ofBytes (slotBytes vol first q)) :=
      readDentry_slotOf vol first q false
    have hlen : (DirEntry.long (part :: parts) shortSlot).slots.length = (part :: parts).length + 1 := by
      simp [DirEntry.slots]
    rw [lookupLoop, run_bind_of_ok (getDentry_entry vol hfirst hvalid hslots hroom hfuel)]
    dsimp only
    rw [run_bind_of_ok (by rw [run_liftExcept, hread]),
      run_bind_of_ok (name_entry vol hfirst hboot hvalid hslots hroom hfuel),
      if_pos (by rw [hname]; exact beq_self_eq_true name)]
    dsimp only [DirEntry.dentry]
    rw [run_bind_of_ok (startClusterId_long vol hfirst hvalid.2.2 hlong hparts (by rw [hlen] at hroom; omega)
      (by rw [hlen] at hfuel; omega))]
    rfl

end Cluster

/-! ## The entry `insert_dentry` writes -/

/-- A name cut into chunks of 13 characters, as the second loop of
`insert_dentry` cuts it. -/
def nameChunks (name : List Char) : List (List Char) :=
  if name = [] then [] else name.take 13 :: nameChunks (name.drop 13)
termination_by name.length
decreasing_by
  have hpos := List.length_pos_of_ne_nil ‹¬name = []›
  simp only [List.length_drop]
  omega

@[simp]
theorem nameChunks_nil : nameChunks [] = [] := by
  rw [nameChunks, if_pos rfl]

theorem nameChunks_of_ne_nil {name : List Char} (hne : name ≠ []) :
    nameChunks name = name.take 13 :: nameChunks (name.drop 13) := by
  rw [nameChunks, if_neg hne]

theorem nameChunks_eq_nil {name : List Char} : nameChunks name = [] ↔ name = [] := by
  constructor
  · intro h
    by_contra hne
    rw [nameChunks_of_ne_nil hne] at h
    cases h
  · rintro rfl
    exact nameChunks_nil

/-- A name of at most 13 characters is one chunk, and reads back. -/
theorem nameChunks_of_length_le {name : List Char} (hne : name ≠ []) (hlen : name.length ≤ 13) :
    nameChunks name = [name] := by
  rw [nameChunks_of_ne_nil hne, List.take_of_length_le hlen, List.drop_eq_nil_of_le hlen, nameChunks_nil]

theorem length_nameChunks (name : List Char) : (nameChunks name).length = (name.length + 12) / 13 := by
  fun_induction nameChunks name with
  | case1 => rfl
  | case2 name hne ih =>
    have hpos := List.length_pos_of_ne_nil hne
    rw [List.length_cons, ih, List.length_drop]
    omega

/-- Each chunk is at most 13 characters of the name. -/
theorem mem_nameChunks {name chunk : List Char} (hchunk : chunk ∈ nameChunks name) :
    chunk.length ≤ 13 ∧ ∀ c ∈ chunk, c ∈ name := by
  fun_induction nameChunks name with
  | case1 => simp at hchunk
  | case2 name hne ih =>
    rcases List.mem_cons.1 hchunk with rfl | hrest
    · exact ⟨by simp, fun c hc => List.mem_of_mem_take hc⟩
    · obtain ⟨hlen, hmem⟩ := ih hrest
      exact ⟨hlen, fun c hc => List.mem_of_mem_drop (hmem c hc)⟩

/-- The long-name slots `insert_dentry` writes for the chunks of a name from
order `order` on: each chunk with its order, and the end bit on the last. -/
def longSlots : List (List Char) → UInt8 → List LongSlot
  | [], _ => []
  | chunk :: chunks, order =>
      ((Fat32LDentryLayout.new order chunk chunks.isEmpty).toBytes, chunk) :: longSlots chunks (order + 1)

@[simp]
theorem map_snd_longSlots (chunks : List (List Char)) :
    ∀ order, (longSlots chunks order).map Prod.snd = chunks := by
  induction chunks with
  | nil => intro order; rfl
  | cons chunk chunks ih =>
    intro order
    rw [longSlots, List.map_cons, ih]

@[simp]
theorem length_longSlots (chunks : List (List Char)) :
    ∀ order, (longSlots chunks order).length = chunks.length := by
  induction chunks with
  | nil => intro order; rfl
  | cons chunk chunks ih =>
    intro order
    rw [longSlots, List.length_cons, ih, List.length_cons]

/-- An order of 1 to 63 has no end bit, with the end bit added it reads as the
end, and neither reads as an empty or a deleted slot. -/
theorem order_bits {order : UInt8} (hpos : 0 < order.toNat) (hlt : order.toNat < 64) :
    order &&& 0x40 = 0 ∧ (order ||| 0x40) &&& 0x40 ≠ 0 ∧ order ≠ 0 ∧ order ≠ 0xE5 ∧
      order ||| 0x40 ≠ 0 ∧ order ||| 0x40 ≠ 0xE5 := by
  have hbits : ∀ n < 64, 0 < n → UInt8.ofNat n &&& 0x40 = 0 ∧ (UInt8.ofNat n ||| 0x40) &&& 0x40 ≠ 0 ∧
      UInt8.ofNat n ≠ 0 ∧ UInt8.ofNat n ≠ 0xE5 ∧ UInt8.ofNat n ||| 0x40 ≠ 0 ∧
        UInt8.ofNat n ||| 0x40 ≠ 0xE5 := by
    decide
  simpa only [UInt8.ofNat_toNat] using hbits order.toNat hlt hpos

namespace Fat32LDentryLayout

theorem length_toBytes {l : Fat32LDentryLayout} (hl : l.WellSized) : l.toBytes.length = 32 := by
  obtain ⟨h1, h2, h3, -⟩ := hl
  simp [toBytes, h1, h2, h3]

/-- Read as a short entry, a long entry's byte 11 is its `attr`. -/
theorem getD_toBytes_attr {l : Fat32LDentryLayout} (hl : l.WellSized) : l.toBytes.getD 11 0 = l.attr :=
  congrArg attr (ofBytes_toBytes hl)

/-- With an order of 1 to 63, the end bit is set exactly where `new` is asked
to set it. -/
theorem isEnd_new {order : UInt8} (hpos : 0 < order.toNat) (hlt : order.toNat < 64) {cs : List Char}
    (hlen : cs.length ≤ 13) (isEnd : Bool) : (new order cs isEnd).isEnd = isEnd := by
  obtain ⟨hclear, hset, -⟩ := order_bits hpos hlt
  rw [new_eq hlen]
  cases isEnd
  · simp [Fat32LDentryLayout.isEnd, hclear]
  · simp [Fat32LDentryLayout.isEnd, hset]

end Fat32LDentryLayout

/-- The chunks of a name of `NameChar`s with an order for each below 64 are
written as a run of long-name slots that read back as the chunks. -/
theorem longRun_longSlots (chunks : List (List Char)) (hne : chunks ≠ [])
    (hchunks : ∀ chunk ∈ chunks, chunk.length ≤ 13 ∧ ∀ c ∈ chunk, NameChar c) :
    ∀ {order : UInt8}, 0 < order.toNat → order.toNat + chunks.length ≤ 64 → LongRun (longSlots chunks order) := by
  induction chunks with
  | nil => exact absurd rfl hne
  | cons chunk chunks ih =>
    intro order hpos horder
    obtain ⟨hlen, hchars⟩ := hchunks chunk List.mem_cons_self
    have hread := Fat32LDentryLayout.ofBytes_toBytes (Fat32LDentryLayout.wellSized_new hlen order chunks.isEmpty)
    have hend := Fat32LDentryLayout.isEnd_new hpos (by simp at horder; omega) hlen chunks.isEmpty
    have hname := Fat32LDentryLayout.name_new hchars hlen order chunks.isEmpty
    cases chunks with
    | nil => exact ⟨by rw [hread, hend]; rfl, by rw [hread, hname]⟩
    | cons next chunks =>
      -- the next order is one more, still below 64
      have hnext : (order + 1).toNat = order.toNat + 1 := by
        rw [UInt8.toNat_add]
        simp at horder ⊢
        omega
      refine ⟨by rw [hread, hend]; rfl, by rw [hread, hname], ?_⟩
      exact ih (by simp) (fun c hc => hchunks c (List.mem_cons_of_mem chunk hc)) (by omega)
        (by simp at horder ⊢; omega)

/-- Every long-name slot written for chunks of at most 13 characters has 32
bytes. -/
theorem length_of_mem_longSlots (chunks : List (List Char)) (hchunks : ∀ chunk ∈ chunks, chunk.length ≤ 13) :
    ∀ {order : UInt8}, ∀ slot ∈ (longSlots chunks order).map Prod.fst, slot.length = 32 := by
  induction chunks with
  | nil => intro order slot hslot; simp [longSlots] at hslot
  | cons chunk chunks ih =>
    intro order slot hslot
    rw [longSlots, List.map_cons, List.mem_cons] at hslot
    rcases hslot with rfl | hrest
    · exact Fat32LDentryLayout.length_toBytes
        (Fat32LDentryLayout.wellSized_new (hchunks chunk List.mem_cons_self) order chunks.isEmpty)
    · exact ih (fun c hc => hchunks c (List.mem_cons_of_mem chunk hc)) slot hrest

namespace Fat32DentryLayout

/-- The loop of `new` sets bytes of the name and the extension and keeps their
lengths. -/
theorem length_fillShortName (cs : List Char) :
    ∀ (i : ℕ) (acc : List UInt8 × List UInt8 × Bool × Bool),
      (fillShortName cs i acc).1.length = acc.1.length ∧ (fillShortName cs i acc).2.1.length = acc.2.1.length := by
  induction cs with
  | nil => intro i acc; exact ⟨rfl, rfl⟩
  | cons c cs ih =>
    intro i acc
    obtain ⟨name, ext, nameCapital, extCapital⟩ := acc
    rw [fillShortName]
    split_ifs <;> simp [ih]

theorem length_name_new (fileName : List Char) (attr : UInt8) (startCluster fileSize : ℕ) :
    (new fileName attr startCluster fileSize).name.length = 8 ∧
      (new fileName attr startCluster fileSize).ext.length = 3 := by
  obtain ⟨hname, hext⟩ :=
    length_fillShortName fileName 0 (List.replicate 8 0, List.replicate 3 0, false, false)
  unfold new
  generalize fillShortName fileName 0 (List.replicate 8 0, List.replicate 3 0, false, false) = filled at hname hext
  obtain ⟨name, ext, nameCapital, extCapital⟩ := filled
  exact ⟨hname, hext⟩

theorem length_toBytes_new (fileName : List Char) (attr : UInt8) (startCluster fileSize : ℕ) :
    (new fileName attr startCluster fileSize).toBytes.length = 32 := by
  obtain ⟨hname, hext⟩ := length_name_new fileName attr startCluster fileSize
  simp [toBytes, hname, hext]

/-- The start cluster read back from the 32 bytes of a short entry whose halves
fit in 16 bits. -/
theorem startClusterId_ofBytes_toBytes {l : Fat32DentryLayout} (hname : l.name.length = 8)
    (hext : l.ext.length = 3) (hhigh : l.startClusterHigh < 2 ^ 16) (hlow : l.startClusterLow < 2 ^ 16) :
    (ofBytes l.toBytes).startClusterId = l.startClusterId := by
  -- the seven `u16` fields start at byte 14; the halves are the fourth and the seventh
  have hpre : (l.name ++ l.ext ++ [l.attr, l.reserved, l.createTimeMs]).length = 14 := by
    simp [hname, hext]
  have hwords := @leValue_u16Bytes (l.name ++ l.ext ++ [l.attr, l.reserved, l.createTimeMs])
    (List.ofFn (leBytes 4 l.fileSize)) [l.createTime, l.createDate, l.lastAccessDate, l.startClusterHigh,
      l.lastModifyTime, l.lastModifyDate, l.startClusterLow]
  have hreadHigh : (ofBytes l.toBytes).startClusterHigh = l.startClusterHigh := by
    have h := hwords (k := 3) (by simp)
    rw [hpre] at h
    exact h.trans (Nat.mod_eq_of_lt hhigh)
  have hreadLow : (ofBytes l.toBytes).startClusterLow = l.startClusterLow := by
    have h := hwords (k := 6) (by simp)
    rw [hpre] at h
    exact h.trans (Nat.mod_eq_of_lt hlow)
  rw [startClusterId, startClusterId, hreadHigh, hreadLow]

/-- The start cluster `insert_dentry` writes into the short entry reads back
from its bytes below `2^32`. -/
theorem startClusterId_ofBytes_toBytes_new (fileName : List Char) (attr : UInt8) {startCluster : ℕ}
    (h : startCluster < 2 ^ 32) (fileSize : ℕ) :
    (ofBytes (new fileName attr startCluster fileSize).toBytes).startClusterId = startCluster := by
  obtain ⟨hname, hext⟩ := length_name_new fileName attr startCluster fileSize
  have hhigh : (new fileName attr startCluster fileSize).startClusterHigh < 2 ^ 16 := by
    simp only [new]
    exact Nat.mod_lt _ (by norm_num)
  have hlow : (new fileName attr startCluster fileSize).startClusterLow < 2 ^ 16 := by
    simp only [new]
    exact Nat.mod_lt _ (by norm_num)
  rw [startClusterId_ofBytes_toBytes hname hext hhigh hlow, startClusterId_new fileName attr h fileSize]

end Fat32DentryLayout

/-- The entry `insert_dentry` writes for `name`: the long-name slots of its
chunks from order `1` on, then the short entry. -/
def newEntry (name : List Char) (attr : UInt8) (fileSize startCluster : ℕ) : DirEntry :=
  .long (longSlots (nameChunks name) 1) (Fat32DentryLayout.new name attr startCluster fileSize).toBytes

/-- `ls` lists the new entry with the chunks of its name in reverse order. -/
theorem listed_newEntry (boot name : List Char) (attr : UInt8) (fileSize startCluster : ℕ) :
    (newEntry name attr fileSize startCluster).listed boot = (nameChunks name).reverse.flatten := by
  simp [newEntry, DirEntry.listed]

/-- A name of at most 13 characters takes one long-name slot, marked as the
end, before its short entry. -/
theorem newEntry_of_length_le {name : List Char} (hne : name ≠ []) (hshort : name.length ≤ 13) (attr : UInt8)
    (fileSize startCluster : ℕ) :
    newEntry name attr fileSize startCluster =
      .long [((Fat32LDentryLayout.new 1 name true).toBytes, name)]
        (Fat32DentryLayout.new name attr startCluster fileSize).toBytes := by
  rw [newEntry, nameChunks_of_length_le hne hshort]
  rfl

section NewEntry

variable {name : List Char} (hne : name ≠ []) (hchars : ∀ c ∈ name, NameChar c) (hlen : name.length ≤ 819)
  (attr : UInt8) (fileSize startCluster : ℕ)

theorem nameChunks_chars (hchars : ∀ c ∈ name, NameChar c) :
    ∀ chunk ∈ nameChunks name, chunk.length ≤ 13 ∧ ∀ c ∈ chunk, NameChar c := by
  intro chunk hchunk
  obtain ⟨hlen, hmem⟩ := mem_nameChunks hchunk
  exact ⟨hlen, fun c hc => hchars c (hmem c hc)⟩

include hne hchars hlen in
/-- The entry `insert_dentry` writes is read as it is meant: its first slot is
in use and long, and its long-name slots run to the one marked as the end. -/
theorem valid_newEntry : (newEntry name attr fileSize startCluster).Valid := by
  have hchunks := nameChunks_chars hchars
  have hcount : (nameChunks name).length ≤ 63 := by
    rw [length_nameChunks]
    omega
  have hrun := longRun_longSlots (nameChunks name) (mt nameChunks_eq_nil.1 hne) hchunks
    (by decide : 0 < (1 : UInt8).toNat) (by simp; omega)
  obtain ⟨chunk, chunks, hsplit⟩ : ∃ chunk chunks, nameChunks name = chunk :: chunks :=
    ⟨_, _, nameChunks_of_ne_nil hne⟩
  rw [hsplit] at hrun hchunks
  obtain ⟨hchunk, -⟩ := hchunks chunk List.mem_cons_self
  have hwell := Fat32LDentryLayout.wellSized_new hchunk 1 chunks.isEmpty
  rw [newEntry, hsplit]
  refine ⟨?_, ?_, hrun⟩
  · -- the first slot starts with its order, `1` or `0x41`
    show (Fat32LDentryLayout.new 1 chunk chunks.isEmpty).order ≠ 0 ∧
      (Fat32LDentryLayout.new 1 chunk chunks.isEmpty).order ≠ 0xE5
    rw [Fat32LDentryLayout.new_eq hchunk]
    cases chunks.isEmpty <;> dsimp only <;> decide
  · show ((Fat32LDentryLayout.new 1 chunk chunks.isEmpty).toBytes.getD 11 0 &&& 0x0F == 0x0F) = true
    rw [Fat32LDentryLayout.getD_toBytes_attr hwell, Fat32LDentryLayout.new_eq hchunk]
    dsimp only
    decide

include hchars in
theorem length_of_mem_newEntry_slots :
    ∀ slot ∈ (newEntry name attr fileSize startCluster).slots, slot.length = 32 := by
  intro slot hslot
  simp only [newEntry, DirEntry.slots, List.mem_append, List.mem_singleton] at hslot
  rcases hslot with hlong | rfl
  · exact length_of_mem_longSlots (nameChunks name) (fun c hc => (nameChunks_chars hchars c hc).1) slot hlong
  · exact Fat32DentryLayout.length_toBytes_new name attr startCluster fileSize

end NewEntry

/-! ## `insert_dentry` on a directory laid out as entries -/

section Insert

variable {sb : Fat32SB} (vol : Volume) {first : ℕ} (hfirst : first % sb.sectorsPerCluster = 0)
include hfirst

/-- The first loop of `insert_dentry` passes the slots in use and stops at the
first empty one. -/
theorem findEmpty_slotOf (slots : List (List UInt8)) (hused : ∀ slot ∈ slots, slot.getD 0 0 ≠ 0) :
    ∀ {fuel q : ℕ}, SlotsAt vol first q slots → (slotBytes vol first (q + slots.length)).getD 0 0 = 0 →
      q + slots.length < 16 * sb.sectorsPerCluster → slots.length < fuel →
      (Fat32FS.findEmpty sb vol fuel (slotOf first q).1 (slotOf first q).2).run =
        some (.ok ((slotOf first (q + slots.length)).1, (slotOf first (q + slots.length)).2)) := by
  induction slots with
  | nil =>
    intro fuel q _ hempty _ hfuel
    obtain ⟨fuel, rfl⟩ := Nat.exists_eq_add_one_of_ne_zero
      (show fuel ≠ 0 by simp at hfuel; omega)
    simp only [List.length_nil, Nat.add_zero] at hempty ⊢
    rw [Fat32FS.findEmpty, run_bind_of_ok (by rw [run_liftExcept, readSlot_slotOf])]
    simp +decide only [Fat32DentryLayout.isEmpty_ofBytes, hempty, ↓reduceIte]
    rfl
  | cons slot slots ih =>
    intro fuel q hslots hempty hroom hfuel
    obtain ⟨fuel, rfl⟩ := Nat.exists_eq_add_one_of_ne_zero
      (show fuel ≠ 0 by simp at hfuel; omega)
    have hne := hused slot List.mem_cons_self
    rw [Fat32FS.findEmpty, run_bind_of_ok (by rw [run_liftExcept, readSlot_slotOf]), hslots.1]
    simp only [Fat32DentryLayout.isEmpty_ofBytes, beq_iff_eq, hne, ↓reduceIte]
    rw [run_bind_of_ok (by rw [run_liftExcept, nextDentryIdUnwrap_slotOf vol hfirst (by simp at hroom; omega)])]
    dsimp only
    rw [ih (fun s hs => hused s (List.mem_cons_of_mem slot hs)) hslots.2 (by rwa [add_one_add_length])
      (by rwa [add_one_add_length]) (by simp at hfuel; omega), add_one_add_length]

/-- The second loop of `insert_dentry` writes the long-name slots of the rest of
the name from `pos` on, one slot after another, and stops at the slot after
them. -/
theorem writeLongEntries_slotOf (name : List Char) (turns : ℕ) :
    ∀ (vol : Volume) {q pos : ℕ} (order : UInt8), name.length - pos ≤ turns →
      q + (nameChunks (name.drop pos)).length < 16 * sb.sectorsPerCluster →
      Fat32FS.writeLongEntries sb name turns vol (slotOf first q).1 (slotOf first q).2 order pos =
        .ok (writeSlots first vol q ((longSlots (nameChunks (name.drop pos)) order).map Prod.fst),
          (slotOf first (q + (nameChunks (name.drop pos)).length)).1,
          (slotOf first (q + (nameChunks (name.drop pos)).length)).2) := by
  induction turns with
  | zero =>
    intro vol q pos order hturns _
    rw [List.drop_eq_nil_of_le (by omega), nameChunks_nil]
    rfl
  | succ turns ih =>
    intro vol q pos order hturns hroom
    by_cases hpos : pos < name.length
    · have hne : name.drop pos ≠ [] := by simp; omega
      -- the chunk the loop cuts at `pos`, its end flag and the position after it
      have hchunk : (name.drop pos).take (min 13 (name.length - pos)) = (name.drop pos).take 13 := by
        rw [@List.take_eq_take_min _ (name.drop pos) 13, List.length_drop]
      have hflag : (pos + min 13 (name.length - pos) == name.length) =
          (nameChunks ((name.drop pos).drop 13)).isEmpty := by
        rw [Bool.eq_iff_iff, beq_iff_eq, List.isEmpty_iff, nameChunks_eq_nil, List.drop_eq_nil_iff,
          List.length_drop]
        omega
      have hnext : name.drop (pos + min 13 (name.length - pos)) = (name.drop pos).drop 13 := by
        rw [List.drop_drop]
        by_cases h13 : 13 ≤ name.length - pos
        · rw [Nat.min_eq_left h13]
        · rw [List.drop_eq_nil_of_le (by omega), List.drop_eq_nil_of_le (by omega)]
      rw [nameChunks_of_ne_nil hne] at hroom ⊢
      simp only [List.length_cons] at hroom
      rw [Fat32FS.writeLongEntries, if_pos hpos]
      dsimp only
      rw [hchunk, hflag, nextDentryIdUnwrap_slotOf _ hfirst (by omega : q + 1 < 16 * sb.sectorsPerCluster),
        ok_bind]
      dsimp only
      rw [ih _ (order + 1) (by omega) (by rw [hnext]; omega), hnext, add_one_add_length]
      rfl
    · rw [Fat32FS.writeLongEntries, if_neg hpos, List.drop_eq_nil_of_le (by omega), nameChunks_nil]
      rfl

/-- What `insert_dentry` does on a directory laid out as `entries`: the new
entry written from the first empty slot, which is the slot after the entries. -/
theorem insertDentry_layout {cluster fuel : ℕ} {entries : List DirEntry} {name : List Char}
    (attr : UInt8) (fileSize startCluster : ℕ) (hsector : FAT.clusterIdToSectorId sb cluster = some first)
    (hlayout : Layout sb vol first entries) (hused : ∀ slot ∈ dirSlots entries, slot.getD 0 0 ≠ 0)
    (hroom : (dirSlots entries).length + (nameChunks name).length < 16 * sb.sectorsPerCluster)
    (hfuel : (dirSlots entries).length < fuel) :
    (Fat32FS.insertDentry sb vol fuel cluster name attr fileSize startCluster).run =
      some (.ok (writeSlots first vol (dirSlots entries).length (newEntry name attr fileSize startCluster).slots,
        ⟨(slotOf first ((dirSlots entries).length + (nameChunks name).length)).1,
          (slotOf first ((dirSlots entries).length + (nameChunks name).length)).2, false⟩)) := by
  have hfind := findEmpty_slotOf vol hfirst (dirSlots entries) hused hlayout.slots
    (by rw [Nat.zero_add]; exact hlayout.free _ le_rfl (by omega)) (by omega) hfuel
  rw [slotOf_zero, Nat.zero_add] at hfind
  have hwrite := writeLongEntries_slotOf hfirst name name.length vol 1 (by omega)
    (by rw [List.drop_zero]; exact hroom)
  rw [List.drop_zero] at hwrite
  rw [Fat32FS.insertDentry, hsector]
  simp only [pure_bind]
  rw [run_bind_of_ok hfind]
  dsimp only
  rw [run_bind_of_ok (by rw [run_liftExcept, hwrite])]
  -- the short entry goes in the slot after the long-name slots
  rw [newEntry, DirEntry.slots, writeSlots_append, List.length_map, length_longSlots]
  rfl

/-- `lookup` at the entry `insert_dentry` writes for a name of at most 13
characters finds it at its long-name slot, typed as a file from the `0x0F`
there, with the start cluster of its short entry. -/
theorem lookupLoop_newEntry (hboot : (Fat32DentryLayout.ofBytes (slotBytes vol 0 0)).isLong = false)
    {name : List Char} (hne : name ≠ []) (hchars : ∀ c ∈ name, NameChar c) (hshort : name.length ≤ 13)
    (attr : UInt8) (fileSize : ℕ) {startCluster : ℕ} (hcluster : startCluster < 2 ^ 32) {fuel n q : ℕ}
    (hslots : SlotsAt vol first q (newEntry name attr fileSize startCluster).slots)
    (hroom : q + 2 < 16 * sb.sectorsPerCluster) (hfuel : 2 ≤ fuel) :
    (lookupLoop sb vol fuel name (n + 1) (slotOf first q).1 (slotOf first q).2).run =
      some (.ok (some (⟨(slotOf first q).1, (slotOf first q).2, false⟩, .file, startCluster))) := by
  have hvalid := valid_newEntry hne hchars (by omega) attr fileSize startCluster
  rw [newEntry_of_length_le hne hshort] at hslots hvalid
  have hfound := lookupLoop_long vol hfirst hboot hvalid hslots (by simp [DirEntry.slots]; omega)
    (by simp [DirEntry.slots]; omega) (show _ = name by simp [DirEntry.listed]) (n := n)
  have hattr : (slotBytes vol first q).getD 11 0 = 0x0F := by
    rw [hslots.1, Fat32LDentryLayout.getD_toBytes_attr (Fat32LDentryLayout.wellSized_new hshort 1 true),
      Fat32LDentryLayout.new_eq hshort]
  rw [List.length_singleton, hslots.2.1, inodeType_of_long_slot hattr,
    Fat32DentryLayout.startClusterId_ofBytes_toBytes_new name attr hcluster fileSize] at hfound
  exact hfound

end Insert

/-- Writing an entry's slots after those of a directory laid out as `entries`
lays it out as `entries` and then the entry. -/
theorem Layout.append {sb : Fat32SB} {vol : Volume} {first : ℕ} {entries : List DirEntry}
    (hlayout : Layout sb vol first entries) {entry : DirEntry} (hvalid : entry.Valid)
    (hlen : ∀ slot ∈ entry.slots, slot.length = 32) :
    Layout sb (writeSlots first vol (dirSlots entries).length entry.slots) first (entries ++ [entry]) := by
  refine ⟨?_, ?_, ?_⟩
  · intro e he
    rcases List.mem_append.1 he with hold | hnew
    · exact hlayout.valid e hold
    · rw [List.mem_singleton.1 hnew]
      exact hvalid
  · rw [dirSlots_concat, slotsAt_append]
    refine ⟨slotsAt_writeSlots_of_le vol first entry.slots _ (by omega) hlayout.slots, ?_⟩
    rw [Nat.zero_add]
    exact slotsAt_writeSlots first entry.slots hlen
  · intro q hq hlt
    rw [dirSlots_concat, List.length_append] at hq
    rw [slotBytes_writeSlots_of_not_mem vol first _ (Or.inr hq)]
    exact hlayout.free q (by omega) hlt

/-- The directory after the writes of `insert_dentry`: `entries`, then the new
entry. -/
theorem Layout.insert {sb : Fat32SB} {vol : Volume} {first : ℕ} {entries : List DirEntry}
    (hlayout : Layout sb vol first entries) {name : List Char} (hne : name ≠ [])
    (hchars : ∀ c ∈ name, NameChar c) (hlen : name.length ≤ 819) (attr : UInt8) (fileSize startCluster : ℕ) :
    Layout sb (writeSlots first vol (dirSlots entries).length (newEntry name attr fileSize startCluster).slots)
      first (entries ++ [newEntry name attr fileSize startCluster]) :=
  hlayout.append (valid_newEntry hne hchars hlen attr fileSize startCluster)
    (length_of_mem_newEntry_slots hchars attr fileSize startCluster)

/-- On a directory laid out as `entries` in its first cluster, whose slots are
all in use, `insert_dentry` of a name of at most 819 `NameChar`s returns when
the cluster has room for the new entry and an empty slot after it; and `ls`,
which listed the names of `entries` before, lists them afterwards followed by
the new name read back with its chunks of 13 characters in reverse order. -/
theorem ls_insertDentry {sb : Fat32SB} (vol : Volume) {first : ℕ} (hfirst : first % sb.sectorsPerCluster = 0)
    (hpos : 0 < first) (hboot : (Fat32DentryLayout.ofBytes (slotBytes vol 0 0)).isLong = false)
    {cluster fuel : ℕ} {entries : List DirEntry} {name : List Char} (attr : UInt8) (fileSize startCluster : ℕ)
    (hsector : FAT.clusterIdToSectorId sb cluster = some first) (hlayout : Layout sb vol first entries)
    (hused : ∀ slot ∈ dirSlots entries, slot.getD 0 0 ≠ 0)
    (hne : name ≠ []) (hchars : ∀ c ∈ name, NameChar c) (hlen : name.length ≤ 819)
    (hroom : (dirSlots entries).length + (nameChunks name).length + 2 < 16 * sb.sectorsPerCluster)
    (hfuel : 16 * sb.sectorsPerCluster ≤ fuel) :
    (ls sb vol fuel cluster).run = some (.ok (entries.map (DirEntry.listed (bootName vol)))) ∧
      ∃ vol' dentry, (Fat32FS.insertDentry sb vol fuel cluster name attr fileSize startCluster).run =
          some (.ok (vol', dentry)) ∧
        (ls sb vol' fuel cluster).run =
          some (.ok (entries.map (DirEntry.listed (bootName vol)) ++ [(nameChunks name).reverse.flatten])) := by
  have hentries := length_le_length_dirSlots entries
  have hlen' : (dirSlots (entries ++ [newEntry name attr fileSize startCluster])).length + 1 <
      16 * sb.sectorsPerCluster := by
    simp only [dirSlots_concat, List.length_append, newEntry, DirEntry.slots, List.length_map,
      length_longSlots, List.length_singleton]
    omega
  refine ⟨ls_of_layout vol hfirst hboot hsector hlayout (by omega) hfuel, _, _,
    insertDentry_layout vol hfirst attr fileSize startCluster hsector hlayout hused (by omega) (by omega), ?_⟩
  -- the boot sector, where deleted entries are named from, is outside the cluster
  rw [ls_of_layout _ hfirst (isLong_boot_writeSlots hpos _ _ hboot) hsector
      (hlayout.insert hne hchars hlen attr fileSize startCluster) hlen' hfuel,
    bootName_writeSlots hpos, List.map_append, List.map_singleton, listed_newEntry]

theorem slotBytes_blankVolume (first q : ℕ) : slotBytes blankVolume first q = List.replicate 32 0 := by
  simp [slotBytes, blankVolume, slice]

/-- The empty root directory of `sampleSb`, laid out as no entries. -/
theorem layout_blankVolume : Layout sampleSb blankVolume 544 [] :=
  ⟨fun _ hentry => absurd hentry List.not_mem_nil, trivial,
    fun q _ _ => by rw [slotBytes_blankVolume]; rfl⟩

/-- In the empty root directory of `sampleSb`, `insert_dentry` of the
fourteen-character name `abcdefghijklmn` returns; `ls` lists nothing before and
the name read back afterwards. -/
theorem ls_insertDentry_on_blank_root :
    (ls sampleSb blankVolume 128 2).run = some (.ok []) ∧
      ∃ vol' dentry, (Fat32FS.insertDentry sampleSb blankVolume 128 2 "abcdefghijklmn".toList 0x20 0 5).run =
          some (.ok (vol', dentry)) ∧
        (ls sampleSb vol' 128 2).run = some (.ok [(nameChunks "abcdefghijklmn".toList).reverse.flatten]) :=
  ls_insertDentry blankVolume (by decide) (by decide) (by rw [slotBytes_blankVolume]; decide) 0x20 0 5 rfl
    layout_blankVolume (by simp [dirSlots]) (by decide)
    (fun c hc => of_decide_eq_true (List.all_eq_true.1
      (by decide : ("abcdefghijklmn".toList.all fun c => decide (NameChar c)) = true) c hc))
    (by decide) (by rw [length_nameChunks]; decide) (by decide)

/-- On a directory laid out as `entries` in its first cluster, whose slots are
all in use, `insert_dentry` of a name of at most 13 `NameChar`s under which no
entry is listed returns the entry at the slot of the short entry it writes;
`lookup` of the name afterwards finds the entry at the long-name slot before
that, typed as a file whatever `attr` was written, with the start cluster
written. -/
theorem lookup_insertDentry {sb : Fat32SB} (vol : Volume) {first : ℕ} (hfirst : first % sb.sectorsPerCluster = 0)
    (hpos : 0 < first) (hboot : (Fat32DentryLayout.ofBytes (slotBytes vol 0 0)).isLong = false)
    {cluster fuel : ℕ} {entries : List DirEntry} {name : List Char} (attr : UInt8) (fileSize : ℕ)
    {startCluster : ℕ} (hsector : FAT.clusterIdToSectorId sb cluster = some first)
    (hlayout : Layout sb vol first entries) (hused : ∀ slot ∈ dirSlots entries, slot.getD 0 0 ≠ 0)
    (hne : name ≠ []) (hchars : ∀ c ∈ name, NameChar c) (hshort : name.length ≤ 13)
    (hfresh : ∀ entry ∈ entries, entry.listed (bootName vol) ≠ name) (hcluster : startCluster < 2 ^ 32)
    (hroom : (dirSlots entries).length + 2 < 16 * sb.sectorsPerCluster)
    (hfuel : 16 * sb.sectorsPerCluster ≤ fuel) :
    ∃ vol', (Fat32FS.insertDentry sb vol fuel cluster name attr fileSize startCluster).run =
        some (.ok (vol', ⟨(slotOf first ((dirSlots entries).length + 1)).1,
          (slotOf first ((dirSlots entries).length + 1)).2, false⟩)) ∧
      (lookup sb vol' fuel cluster name).run =
        some (.ok (some (⟨(slotOf first (dirSlots entries).length).1, (slotOf first (dirSlots entries).length).2,
          false⟩, .file, startCluster))) := by
  have hentries := length_le_length_dirSlots entries
  have hchunks := nameChunks_of_length_le hne hshort
  have hinsert := insertDentry_layout vol hfirst attr fileSize startCluster hsector hlayout hused
    (show (dirSlots entries).length + (nameChunks name).length < 16 * sb.sectorsPerCluster by
      rw [hchunks, List.length_singleton]; omega)
    (show (dirSlots entries).length < fuel by omega)
  rw [hchunks, List.length_singleton] at hinsert
  refine ⟨_, hinsert, ?_⟩
  set vol' := writeSlots first vol (dirSlots entries).length (newEntry name attr fileSize startCluster).slots
  have hboot' : (Fat32DentryLayout.ofBytes (slotBytes vol' 0 0)).isLong = false :=
    isLong_boot_writeSlots hpos _ _ hboot
  -- the directory afterwards: the entries, then the new entry
  obtain ⟨hold, hnewSlots⟩ := (slotsAt_append _ _).1
    (dirSlots_concat entries _ ▸ (hlayout.insert hne hchars (by omega) attr fileSize startCluster).slots)
  rw [Nat.zero_add] at hnewSlots
  -- `lookup` passes the entries, none of which is listed as the name
  obtain ⟨n, hn⟩ : ∃ n, fuel = entries.length + (n + 1) := ⟨fuel - entries.length - 1, by omega⟩
  have hskip : (lookupLoop sb vol' fuel name (entries.length + (n + 1)) (slotOf first 0).1 (slotOf first 0).2).run =
      (lookupLoop sb vol' fuel name (n + 1) (slotOf first (0 + (dirSlots entries).length)).1
        (slotOf first (0 + (dirSlots entries).length)).2).run :=
    lookupLoop_entries vol' hfirst hboot' name entries (by rw [bootName_writeSlots hpos]; exact hfresh)
      (fun e he => hlayout.valid e he) hold (by omega) (by omega)
  rw [← hn, Nat.zero_add] at hskip
  rw [lookup, firstSlot, hsector, run_bind_of_ok (run_liftExcept _)]
  -- and stops at the new entry
  exact hskip.trans (lookupLoop_newEntry vol' hfirst hboot' hne hchars hshort attr fileSize hcluster hnewSlots
    (by omega) (by omega))

/-- A directory `readme` inserted into the empty root directory of `sampleSb`
with the `DIRECTORY` attribute and first cluster `5`: `insert_dentry` returns
the entry at the short entry's slot, and `lookup` finds it at the long-name
slot before, as a file. -/
theorem lookup_insertDentry_on_blank_root :
    ∃ vol', (Fat32FS.insertDentry sampleSb blankVolume 128 2 "readme".toList 0x10 0 5).run =
        some (.ok (vol', ⟨544, 32, false⟩)) ∧
      (lookup sampleSb vol' 128 2 "readme".toList).run = some (.ok (some (⟨544, 0, false⟩, .file, 5))) :=
  lookup_insertDentry blankVolume (by decide) (by decide) (by rw [slotBytes_blankVolume]; decide) 0x10 0 rfl
    layout_blankVolume (by simp [dirSlots]) (by decide)
    (fun c hc => of_decide_eq_true (List.all_eq_true.1
      (by decide : ("readme".toList.all fun c => decide (NameChar c)) = true) c hc))
    (by decide) (fun _ hentry => absurd hentry List.not_mem_nil) (by decide) (by decide) (by decide)

end ChaosKernel.Fat32
