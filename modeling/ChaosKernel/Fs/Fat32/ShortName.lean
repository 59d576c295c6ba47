import ChaosKernel.Fs.Fat32.Dentry

/-!
# Short names

What `Fat32DentryLayout::new` writes into the eleven name bytes of a short
entry, and what `Fat32DentryLayout::name` reads back from them.

`new` starts from eight and three zero bytes and copies the characters in, so
a base shorter than eight characters, or an extension shorter than three, is
padded with `0x00`.  `name` stops each field only at a `0x20` and puts a `.`
between the two in every case.  So the name of a short entry that `new` made
keeps its padding as NUL characters, and a name without an extension gets a
trailing `.`; only a full `8.3` name reads back as itself.  An entry padded
with `0x20`, as the FAT specification and other tools write it, reads back
with its padding dropped, but with the `.` even when the extension is blank.
-/

namespace ChaosKernel.Fat32

/-- The punctuation FAT allows in a short name, by code: `! # $ % & ' ( ) - @ ^ _`,
the grave accent, and the two braces and the tilde. -/
def shortNameMarks : List ℕ :=
  [0x21, 0x23, 0x24, 0x25, 0x26, 0x27, 0x28, 0x29, 0x2D, 0x40, 0x5E, 0x5F, 0x60, 0x7B, 0x7D, 0x7E]

/-- A character of the FAT short-name set: an upper-case letter, a digit, or
one of `shortNameMarks`. -/
def ShortNameChar (c : Char) : Prop :=
  (65 ≤ c.toNat ∧ c.toNat ≤ 90) ∨ (48 ≤ c.toNat ∧ c.toNat ≤ 57) ∨ c.toNat ∈ shortNameMarks

instance (c : Char) : Decidable (ShortNameChar c) :=
  inferInstanceAs (Decidable ((65 ≤ c.toNat ∧ c.toNat ≤ 90) ∨ (48 ≤ c.toNat ∧ c.toNat ≤ 57) ∨
    c.toNat ∈ shortNameMarks))

/-- A short-name character is printable ASCII other than the space and the dot. -/
theorem ShortNameChar.bounds {c : Char} (h : ShortNameChar c) :
    0x20 < c.toNat ∧ c.toNat < 0x80 ∧ c.toNat ≠ 0x2E := by
  rcases h with h | h | h
  · omega
  · omega
  · simp only [shortNameMarks, List.mem_cons, List.not_mem_nil, or_false] at h
    omega

theorem ShortNameChar.ne_dot {c : Char} (h : ShortNameChar c) : c ≠ '.' := by
  rintro rfl
  exact h.bounds.2.2 rfl

/-- The bytes `c as u8` of a name's characters. -/
def shortBytes (cs : List Char) : List UInt8 :=
  cs.map (fun c => UInt8.ofNat c.toNat)

@[simp]
theorem shortBytes_nil : shortBytes [] = [] := rfl

@[simp]
theorem shortBytes_cons (c : Char) (cs : List Char) :
    shortBytes (c :: cs) = UInt8.ofNat c.toNat :: shortBytes cs := rfl

@[simp]
theorem length_shortBytes (cs : List Char) : (shortBytes cs).length = cs.length :=
  List.length_map _

theorem toNat_byte_of_lt {c : Char} (h : c.toNat < 0x80) : (UInt8.ofNat c.toNat).toNat = c.toNat := by
  rw [UInt8.toNat_ofNat']
  omega

/-- `char::from_u32(b as u32)` undoes `c as u8` on ASCII. -/
theorem chars_shortBytes {cs : List Char} (h : ∀ c ∈ cs, ShortNameChar c) :
    (shortBytes cs).map (fun b => Char.ofNat b.toNat) = cs := by
  induction cs with
  | nil => rfl
  | cons c cs ih =>
    have hc : (UInt8.ofNat c.toNat).toNat = c.toNat :=
      toNat_byte_of_lt (h c List.mem_cons_self).bounds.2.1
    rw [shortBytes_cons, List.map_cons, hc, Char.ofNat_toNat,
      ih (fun x hx => h x (List.mem_cons_of_mem c hx))]

theorem shortBytes_ne_space {cs : List Char} (h : ∀ c ∈ cs, ShortNameChar c) :
    ∀ b ∈ shortBytes cs, (b != 0x20) = true := by
  intro b hb
  obtain ⟨c, hc, rfl⟩ := List.mem_map.mp hb
  have hbounds := (h c hc).bounds
  have hne : (UInt8.ofNat c.toNat).toNat ≠ (0x20 : UInt8).toNat := by
    rw [toNat_byte_of_lt hbounds.2.1]
    exact Nat.ne_of_gt hbounds.1
  simpa using fun heq => hne (congrArg UInt8.toNat heq)

namespace Fat32DentryLayout

/-! ## What `new` writes -/

section Fill

variable {cs : List Char} (hdot : '.' ∉ cs)
include hdot

/-- Characters other than `.` go into the name one by one while the index is
below eight. -/
theorem fillShortName_base (pre rest : List UInt8) (hlen : cs.length ≤ rest.length)
    (hroom : pre.length + cs.length ≤ 8) (tail : List Char) (ext : List UInt8) (nc ec : Bool) :
    fillShortName (cs ++ tail) pre.length (pre ++ rest, ext, nc, ec) =
      fillShortName tail (pre.length + cs.length)
        (pre ++ shortBytes cs ++ rest.drop cs.length, ext, nc || cs.any Char.isUpper, ec) := by
  induction cs generalizing pre rest nc with
  | nil => simp
  | cons c cs ih =>
    obtain ⟨r, rest, rfl⟩ : ∃ r rest', rest = r :: rest' :=
      List.exists_cons_of_length_pos (by simp at hlen; omega)
    have hc : c ≠ '.' := fun h => hdot (h ▸ List.mem_cons_self)
    have hlt : pre.length < 8 := by simp at hroom; omega
    have hset : (pre ++ r :: rest).set pre.length (UInt8.ofNat c.toNat) =
        (pre ++ [UInt8.ofNat c.toNat]) ++ rest := by
      rw [List.set_append_right _ _ le_rfl, Nat.sub_self, List.set_cons_zero, List.append_assoc,
        List.singleton_append]
    have ih' := ih (fun h => hdot (List.mem_cons_of_mem c h)) (pre ++ [UInt8.ofNat c.toNat]) rest
      (by simp at hlen; omega) (by simp at hroom ⊢; omega) (nc || c.isUpper)
    simp only [List.length_append, List.length_singleton] at ih'
    rw [List.cons_append, fillShortName, if_neg hc, if_pos hlt, hset, ih']
    simp [Nat.add_assoc, Nat.add_comm 1, Bool.or_assoc]

/-- After a `.`, characters go into the extension while the index is below
eleven. -/
theorem fillShortName_ext (pre rest : List UInt8) (hlen : cs.length ≤ rest.length)
    (hroom : pre.length + cs.length ≤ 3) (tail : List Char) (name : List UInt8) (nc ec : Bool) :
    fillShortName (cs ++ tail) (8 + pre.length) (name, pre ++ rest, nc, ec) =
      fillShortName tail (8 + pre.length + cs.length)
        (name, pre ++ shortBytes cs ++ rest.drop cs.length, nc, ec || cs.any Char.isUpper) := by
  induction cs generalizing pre rest ec with
  | nil => simp
  | cons c cs ih =>
    obtain ⟨r, rest, rfl⟩ : ∃ r rest', rest = r :: rest' :=
      List.exists_cons_of_length_pos (by simp at hlen; omega)
    have hc : c ≠ '.' := fun h => hdot (h ▸ List.mem_cons_self)
    have hge : ¬ 8 + pre.length < 8 := by omega
    have hlt : 8 + pre.length < 11 := by simp at hroom; omega
    have hset : (pre ++ r :: rest).set (8 + pre.length - 8) (UInt8.ofNat c.toNat) =
        (pre ++ [UInt8.ofNat c.toNat]) ++ rest := by
      rw [Nat.add_sub_cancel_left, List.set_append_right _ _ le_rfl, Nat.sub_self,
        List.set_cons_zero, List.append_assoc, List.singleton_append]
    have ih' := ih (fun h => hdot (List.mem_cons_of_mem c h)) (pre ++ [UInt8.ofNat c.toNat]) rest
      (by simp at hlen; omega) (by simp at hroom ⊢; omega) (ec || c.isUpper)
    simp only [List.length_append, List.length_singleton, ← Nat.add_assoc] at ih'
    rw [List.cons_append, fillShortName, if_neg hc, if_neg hge, if_pos hlt, hset, ih']
    simp [Nat.add_assoc, Nat.add_comm 1, Bool.or_assoc]

end Fill

/-! ## What `name` reads -/

/-- `name` keeps a field's bytes when none of them is a space. -/
theorem takeWhile_shortBytes_zeros {cs : List Char} (h : ∀ c ∈ cs, ShortNameChar c) (k : ℕ) :
    (shortBytes cs ++ List.replicate k 0).takeWhile (· != 0x20) = shortBytes cs ++ List.replicate k 0 := by
  rw [List.takeWhile_append_of_pos (shortBytes_ne_space h), List.takeWhile_replicate, if_pos (by decide)]

/-- `name` drops a field's padding of spaces. -/
theorem takeWhile_shortBytes_spaces {cs : List Char} (h : ∀ c ∈ cs, ShortNameChar c) (k : ℕ) :
    (shortBytes cs ++ List.replicate k 0x20).takeWhile (· != 0x20) = shortBytes cs := by
  rw [List.takeWhile_append_of_pos (shortBytes_ne_space h), List.takeWhile_replicate, if_neg (by decide),
    List.append_nil]

/-- The field a zero-padded name reads back as: the characters, then NULs. -/
theorem readField_zeros {cs : List Char} (h : ∀ c ∈ cs, ShortNameChar c) (k : ℕ) :
    ((shortBytes cs ++ List.replicate k 0).takeWhile (· != 0x20)).map (fun b : UInt8 => Char.ofNat b.toNat) =
      cs ++ List.replicate k (Char.ofNat 0) := by
  rw [takeWhile_shortBytes_zeros h, List.map_append, chars_shortBytes h, List.map_replicate]
  rfl

theorem dot_not_mem_of_shortName {cs : List Char} (h : ∀ c ∈ cs, ShortNameChar c) : '.' ∉ cs :=
  fun hmem => (h _ hmem).ne_dot rfl

/-- The start cluster `new` splits into two halves reads back whole below `2^32`. -/
theorem startClusterId_new (fileName : List Char) (attr : UInt8) {startCluster : ℕ}
    (h : startCluster < 2 ^ 32) (fileSize : ℕ) :
    (new fileName attr startCluster fileSize).startClusterId = startCluster := by
  have hlo : startCluster % 2 ^ 16 < 2 ^ 16 := Nat.mod_lt _ (by decide)
  simp only [new, startClusterId]
  rw [← Nat.shiftLeft_add_eq_or_of_lt hlo, Nat.shiftRight_eq_div_pow, Nat.shiftLeft_eq,
    Nat.mod_eq_of_lt (by omega)]
  omega

section Names

variable {base ext : List Char} (hbase : ∀ c ∈ base, ShortNameChar c) (hbl : base.length ≤ 8)
include hbase hbl

/-- The name bytes `new` writes for `base.ext`: each field zero-padded. -/
theorem fillShortName_dotted (hext : ∀ c ∈ ext, ShortNameChar c) (hel : ext.length ≤ 3) :
    fillShortName (base ++ '.' :: ext) 0 (List.replicate 8 0, List.replicate 3 0, false, false) =
      (shortBytes base ++ List.replicate (8 - base.length) 0,
        shortBytes ext ++ List.replicate (3 - ext.length) 0,
        base.any Char.isUpper, ext.any Char.isUpper) := by
  have hb := fillShortName_base (dot_not_mem_of_shortName hbase) [] (List.replicate 8 0)
    (by simpa using hbl) (by simpa using hbl) ('.' :: ext) (List.replicate 3 0) false false
  have he := fillShortName_ext (dot_not_mem_of_shortName hext) [] (List.replicate 3 0)
    (by simpa using hel) (by simpa using hel) [] (shortBytes base ++ List.replicate (8 - base.length) 0)
    (base.any Char.isUpper) false
  simp only [List.nil_append, List.length_nil, Nat.zero_add, Bool.false_or, List.drop_replicate,
    List.append_nil, Nat.add_zero] at hb he
  rw [hb, fillShortName, if_pos rfl, he, fillShortName]

/-- The name bytes `new` writes for a name without a dot: the extension stays zero. -/
theorem fillShortName_plain :
    fillShortName base 0 (List.replicate 8 0, List.replicate 3 0, false, false) =
      (shortBytes base ++ List.replicate (8 - base.length) 0, List.replicate 3 0,
        base.any Char.isUpper, false) := by
  have hb := fillShortName_base (dot_not_mem_of_shortName hbase) [] (List.replicate 8 0)
    (by simpa using hbl) (by simpa using hbl) [] (List.replicate 3 0) false false
  simp only [List.nil_append, List.length_nil, Nat.zero_add, Bool.false_or, List.drop_replicate,
    List.append_nil] at hb
  rw [hb, fillShortName]

/-- The name of the entry `new` makes for `base.ext`: each field keeps its
zero padding, as NULs, around the dot. -/
theorem nameString_new_dotted (hext : ∀ c ∈ ext, ShortNameChar c) (hel : ext.length ≤ 3)
    (attr : UInt8) (startCluster fileSize : ℕ) :
    (new (base ++ '.' :: ext) attr startCluster fileSize).nameString =
      base ++ List.replicate (8 - base.length) (Char.ofNat 0) ++
        '.' :: (ext ++ List.replicate (3 - ext.length) (Char.ofNat 0)) := by
  simp only [new, fillShortName_dotted hbase hbl hext hel, nameString]
  rw [readField_zeros hbase, readField_zeros hext, List.append_assoc, List.singleton_append]

/-- The name of the entry `new` makes for a name without a dot: the padded
base, the dot and three NULs. -/
theorem nameString_new_plain (attr : UInt8) (startCluster fileSize : ℕ) :
    (new base attr startCluster fileSize).nameString =
      base ++ List.replicate (8 - base.length) (Char.ofNat 0) ++ '.' :: List.replicate 3 (Char.ofNat 0) := by
  simp only [new, fillShortName_plain hbase hbl, nameString]
  -- the blank extension is the zero padding of no characters
  have hext : List.replicate 3 (0 : UInt8) = shortBytes [] ++ List.replicate 3 0 := rfl
  rw [readField_zeros hbase, hext, readField_zeros (fun _ h => absurd h List.not_mem_nil),
    List.nil_append, List.append_assoc, List.singleton_append]

/-- `new` then `name` gives the name back only for a full `8.3` name: any
shorter base or extension comes back with NULs in it, and a name without a dot
never comes back. -/
theorem new_name_round_trips_only_full_names (hext : ∀ c ∈ ext, ShortNameChar c)
    (hel : ext.length ≤ 3) (attr : UInt8) {startCluster : ℕ} (hcluster : startCluster < 2 ^ 32)
    (fileSize : ℕ) :
    ((new (base ++ '.' :: ext) attr startCluster fileSize).nameString = base ++ '.' :: ext ↔
        base.length = 8 ∧ ext.length = 3) ∧
      (new base attr startCluster fileSize).nameString ≠ base ∧
      (new (base ++ '.' :: ext) attr startCluster fileSize).startClusterId = startCluster := by
  refine ⟨?_, ?_, startClusterId_new _ attr hcluster fileSize⟩
  · rw [nameString_new_dotted hbase hbl hext hel, List.append_assoc, List.append_right_inj]
    constructor
    · intro h
      -- a NUL of the base's padding would stand where the dot is
      have h8 : 8 - base.length = 0 := by
        by_contra hne
        obtain ⟨n, hn⟩ := Nat.exists_eq_succ_of_ne_zero hne
        rw [hn, List.replicate_succ, List.cons_append, List.cons.injEq] at h
        exact absurd h.1 (by decide)
      rw [h8, List.replicate_zero, List.nil_append, List.cons.injEq, List.append_right_eq_self,
        List.replicate_eq_nil_iff] at h
      omega
    · rintro ⟨h8, h3⟩
      rw [h8, h3]
      simp
  · intro h
    have hlen := congrArg List.length (nameString_new_plain hbase hbl attr startCluster fileSize)
    rw [h] at hlen
    simp at hlen

end Names

theorem new_name_round_trips_only_full_names_of_one_letter :
    (∀ c ∈ ['A'], ShortNameChar c) ∧ ['A'].length ≤ 8 ∧ (∀ c ∈ ['B'], ShortNameChar c) ∧
      ['B'].length ≤ 3 ∧ 3 < 2 ^ 32 ∧
      (((new (['A'] ++ '.' :: ['B']) 0x20 3 0).nameString = ['A'] ++ '.' :: ['B'] ↔
          ['A'].length = 8 ∧ ['B'].length = 3) ∧
        (new ['A'] 0x20 3 0).nameString ≠ ['A'] ∧
        (new (['A'] ++ '.' :: ['B']) 0x20 3 0).startClusterId = 3) :=
  have hA : ∀ c ∈ ['A'], ShortNameChar c := by
    simp only [List.forall_mem_cons, List.not_mem_nil, IsEmpty.forall_iff, forall_const, and_true]
    decide
  have hB : ∀ c ∈ ['B'], ShortNameChar c := by
    simp only [List.forall_mem_cons, List.not_mem_nil, IsEmpty.forall_iff, forall_const, and_true]
    decide
  ⟨hA, by decide, hB, by decide, by decide,
    new_name_round_trips_only_full_names hA (by decide) hB (by decide) 0x20 (by decide) 0⟩

/-- An entry whose fields are padded with spaces reads back as its base, a dot
and its extension: the dot stays when the extension is blank. -/
theorem nameString_of_space_padded (l : Fat32DentryLayout) {base ext : List Char}
    (hbase : ∀ c ∈ base, ShortNameChar c) (hext : ∀ c ∈ ext, ShortNameChar c)
    (hname : l.name = shortBytes base ++ List.replicate (8 - base.length) 0x20)
    (hextBytes : l.ext = shortBytes ext ++ List.replicate (3 - ext.length) 0x20) :
    l.nameString = base ++ '.' :: ext := by
  rw [nameString, hname, hextBytes, takeWhile_shortBytes_spaces hbase, takeWhile_shortBytes_spaces hext,
    chars_shortBytes hbase, chars_shortBytes hext, List.append_assoc, List.singleton_append]

/-- A short entry as other FAT tools write `README` with a blank extension. -/
def readmeEntry : Fat32DentryLayout :=
  { new ['R', 'E', 'A', 'D', 'M', 'E'] 0x20 3 0 with
    name := [0x52, 0x45, 0x41, 0x44, 0x4D, 0x45, 0x20, 0x20], ext := [0x20, 0x20, 0x20] }

theorem nameString_of_space_padded_readme :
    (∀ c ∈ ['R', 'E', 'A', 'D', 'M', 'E'], ShortNameChar c) ∧ (∀ c ∈ ([] : List Char), ShortNameChar c) ∧
      readmeEntry.name = shortBytes ['R', 'E', 'A', 'D', 'M', 'E'] ++ List.replicate (8 - 6) 0x20 ∧
      readmeEntry.ext = shortBytes [] ++ List.replicate (3 - 0) 0x20 ∧
      readmeEntry.nameString = ['R', 'E', 'A', 'D', 'M', 'E', '.'] :=
  have hreadme : ∀ c ∈ ['R', 'E', 'A', 'D', 'M', 'E'], ShortNameChar c := by
    simp only [List.forall_mem_cons, List.not_mem_nil, IsEmpty.forall_iff, forall_const, and_true]
    decide
  have hblank : ∀ c ∈ ([] : List Char), ShortNameChar c := fun _ h => absurd h List.not_mem_nil
  ⟨hreadme, hblank, rfl, rfl, nameString_of_space_padded readmeEntry hreadme hblank rfl rfl⟩

/-- `A.B` comes back from `new` and `name` as `A`, seven NULs, `.`, `B` and two
NULs; `README` with a blank extension comes back as `README.`. -/
theorem shortName_reads_back_padded :
    (new ['A', '.', 'B'] 0x20 3 0).nameString =
        ['A'] ++ List.replicate 7 (Char.ofNat 0) ++ ['.', 'B'] ++ List.replicate 2 (Char.ofNat 0) ∧
      (new ['A', '.', 'B'] 0x20 3 0).nameString ≠ ['A', '.', 'B'] ∧
      readmeEntry.nameString = ['R', 'E', 'A', 'D', 'M', 'E', '.'] := by
  decide

end Fat32DentryLayout

end ChaosKernel.Fat32
