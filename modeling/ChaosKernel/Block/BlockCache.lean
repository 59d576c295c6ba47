import ChaosKernel.Config
import ChaosKernel.Lib.List
import ChaosKernel.Lib.Run

/-!
# The block cache

`os/src/block/block_cache.rs`.  A `BlockCache` holds one 512-byte block of the
device and a `modified` flag, and writes the block back in `sync` and when it
is dropped.  `BlockCacheManager` keeps the caches in a queue of at most
`BLOCK_CACHE_SIZE` entries; on a miss with a full queue it drains the first
entry that no caller holds (`Arc::strong_count == 1`), and panics if there is
none.

Each `Arc<Mutex<BlockCache>>` is an address into a heap of caches.  An address
in `handles` is one `Arc` a caller holds, so the strong count of an address is
its entries in the queue plus its handles, and dropping the last reference runs
`BlockCache::drop`.  There is one device, a map from block ids to blocks, on
which `read_block` and `write_block` are taken to be faithful.

What the cache is for is the block memory `latest`: every block as if each
`modify` had been made on the device directly.  The theorems say the cache
refines it: reads through any handle see `latest`, blocks without a cache entry
are up to date on the device, and `block_cache_sync_all` makes the whole device
equal to `latest`.
-/

namespace ChaosKernel.Block

open ChaosKernel.Lib

/-- `BLOCK_SZ`. -/
def blockSz : ℕ := 512

/-- `BLOCK_CACHE_SIZE`. -/
def blockCacheSize : ℕ := 16

/-- The bytes of one block. -/
abbrev BlockBytes := Fin blockSz → UInt8

/-- The `size` bytes at `offset` that `get_ref` and `get_mut` view as a `T`. -/
def slice (block : BlockBytes) (offset size : ℕ) (hfit : offset + size ≤ blockSz) :
    Fin size → UInt8 :=
  fun i => block ⟨offset + i, by omega⟩

/-- The block after a closure handed `&mut T` at `offset` has turned the `size`
bytes there into `f` of them. -/
def splice (block : BlockBytes) (offset size : ℕ) (hfit : offset + size ≤ blockSz)
    (f : (Fin size → UInt8) → Fin size → UInt8) : BlockBytes :=
  fun j =>
    if hj : offset ≤ j.val ∧ j.val < offset + size then
      f (slice block offset size hfit) ⟨j.val - offset, by omega⟩
    else block j

/-! ## The block memory the cache stands for -/

/-- A read of `size` bytes at `offset` of a block of the memory. -/
def readBlock (mem : ℕ → BlockBytes) (blockId offset size : ℕ) : Except Panic (Fin size → UInt8) :=
  if hfit : offset + size ≤ blockSz then .ok (slice (mem blockId) offset size hfit)
  else .error (.valueOutsideBlock offset size)

/-- A modification of a block of the memory; one that does not fit in the block
is refused by the code before it happens, and changes nothing. -/
def modifyBlock (mem : ℕ → BlockBytes) (blockId offset size : ℕ)
    (f : (Fin size → UInt8) → Fin size → UInt8) : ℕ → BlockBytes :=
  if hfit : offset + size ≤ blockSz then
    Function.update mem blockId (splice (mem blockId) offset size hfit f)
  else mem

/-- A read of bytes that a modification left alone sees them as they were. -/
theorem readBlock_modifyBlock_of_disjoint (mem : ℕ → BlockBytes) {blockId offset size : ℕ}
    (f : (Fin size → UInt8) → Fin size → UInt8) {blockId' offset' size' : ℕ}
    (hdisj : blockId' ≠ blockId ∨ offset' + size' ≤ offset ∨ offset + size ≤ offset') :
    readBlock (modifyBlock mem blockId offset size f) blockId' offset' size' =
      readBlock mem blockId' offset' size' := by
  unfold modifyBlock
  split_ifs with hfit
  · by_cases hblock : blockId' = blockId
    · subst hblock
      have hoff : offset' + size' ≤ offset ∨ offset + size ≤ offset' := by simpa using hdisj
      unfold readBlock
      split_ifs with hfit'
      · congr 1
        funext i
        simp only [slice, splice, Function.update_self]
        rw [dif_neg (by omega)]
      · rfl
    · unfold readBlock
      rw [Function.update_of_ne hblock]
  · rfl

/-- A read of exactly the modified bytes sees what the closure made of them. -/
theorem readBlock_modifyBlock_self (mem : ℕ → BlockBytes) {blockId offset size : ℕ}
    (hfit : offset + size ≤ blockSz) (f : (Fin size → UInt8) → Fin size → UInt8) :
    readBlock (modifyBlock mem blockId offset size f) blockId offset size =
      .ok (f (slice (mem blockId) offset size hfit)) := by
  unfold readBlock modifyBlock
  rw [dif_pos hfit, dif_pos hfit]
  congr 1
  funext i
  simp only [slice, splice, Function.update_self]
  rw [dif_pos (by omega)]
  congr
  simp

/-! ## `BlockCache` -/

/-- `BlockCache`, without its `block_device`: there is one device. -/
structure BlockCache where
  cache : BlockBytes
  blockId : ℕ
  modified : Bool

namespace BlockCache

/-- `BlockCache::new`: `read_block` fills the cache from the device. -/
def new (blockId : ℕ) (device : ℕ → BlockBytes) : BlockCache :=
  { cache := device blockId, blockId := blockId, modified := false }

/-- `BlockCache::read`, through `get_ref`: the bytes the closure is handed. -/
def read (self : BlockCache) (offset size : ℕ) : Except Panic (Fin size → UInt8) :=
  if hfit : offset + size ≤ blockSz then .ok (slice self.cache offset size hfit)
  else .error (.valueOutsideBlock offset size)

/-- `BlockCache::modify`, through `get_mut`, which marks the cache modified. -/
def modify (self : BlockCache) (offset size : ℕ) (f : (Fin size → UInt8) → Fin size → UInt8) :
    Except Panic BlockCache :=
  if hfit : offset + size ≤ blockSz then
    .ok { self with cache := splice self.cache offset size hfit f, modified := true }
  else .error (.valueOutsideBlock offset size)

/-- `BlockCache::sync`: a modified cache is written back with `write_block`. -/
def sync (self : BlockCache) (device : ℕ → BlockBytes) : BlockCache × (ℕ → BlockBytes) :=
  if self.modified then
    ({ self with modified := false }, Function.update device self.blockId self.cache)
  else (self, device)

theorem read_eq_readBlock {self : BlockCache} {mem : ℕ → BlockBytes}
    (hcache : self.cache = mem self.blockId) (offset size : ℕ) :
    self.read offset size = readBlock mem self.blockId offset size := by
  simp only [read, readBlock, hcache]

theorem modify_eq_ok {self next : BlockCache} {offset size : ℕ}
    {f : (Fin size → UInt8) → Fin size → UInt8} (hmodify : self.modify offset size f = .ok next) :
    ∃ hfit : offset + size ≤ blockSz,
      next = { self with cache := splice self.cache offset size hfit f, modified := true } := by
  unfold modify at hmodify
  split_ifs at hmodify with hfit
  cases hmodify
  exact ⟨hfit, rfl⟩

@[simp]
theorem sync_fst_blockId (self : BlockCache) (device : ℕ → BlockBytes) :
    (self.sync device).1.blockId = self.blockId := by
  unfold sync
  split_ifs <;> rfl

@[simp]
theorem sync_fst_cache (self : BlockCache) (device : ℕ → BlockBytes) :
    (self.sync device).1.cache = self.cache := by
  unfold sync
  split_ifs <;> rfl

@[simp]
theorem sync_fst_modified (self : BlockCache) (device : ℕ → BlockBytes) :
    (self.sync device).1.modified = false := by
  unfold sync
  split_ifs with hmod
  · rfl
  · simpa using hmod

/-- `sync` writes no block but its own. -/
theorem sync_snd_of_ne (self : BlockCache) (device : ℕ → BlockBytes) {blockId : ℕ}
    (hne : blockId ≠ self.blockId) : (self.sync device).2 blockId = device blockId := by
  unfold sync
  split_ifs
  · exact Function.update_of_ne hne _ _
  · rfl

/-- After `sync`, the device holds the cache's block: written back if it was
modified, and already there if not. -/
theorem sync_snd_self (self : BlockCache) {device : ℕ → BlockBytes} {blockId : ℕ} {content : BlockBytes}
    (hid : self.blockId = blockId) (hcache : self.cache = content)
    (hclean : self.modified = false → device blockId = content) :
    (self.sync device).2 blockId = content := by
  unfold sync
  split_ifs with hmod
  · dsimp only
    rw [← hid, Function.update_self, hcache]
  · exact hclean (by simpa using hmod)

end BlockCache

/-! ## The manager, the caches and the device -/

/-- The block cache layer: the device, the queue of `BLOCK_CACHE_MANAGER` as
`(block_id, address)` pairs, the heap of live caches, the next fresh address,
the addresses of the `Arc`s callers hold, and the ghost block memory `latest`. -/
structure CacheSystem where
  device : ℕ → BlockBytes
  queue : List (ℕ × ℕ)
  heap : ℕ → Option BlockCache
  nextAddr : ℕ
  handles : List ℕ
  latest : ℕ → BlockBytes

namespace CacheSystem

/-- The system at boot: an empty queue over the device. -/
def start (device : ℕ → BlockBytes) : CacheSystem :=
  { device := device, queue := [], heap := fun _ => none, nextAddr := 0, handles := [],
    latest := device }

/-- `Arc::strong_count`: the queue's references to `addr` and the callers'. -/
def strongCount (sys : CacheSystem) (addr : ℕ) : ℕ :=
  (sys.queue.map Prod.snd).count addr + sys.handles.count addr

/-- The test of the eviction scan: only the queue refers to the entry's cache. -/
def unheld (sys : CacheSystem) (pair : ℕ × ℕ) : Bool :=
  sys.strongCount pair.2 == 1

/-- One reference to `addr` has gone: if it was the last, `BlockCache::drop`
syncs the cache and it is freed. -/
def release (sys : CacheSystem) (addr : ℕ) : CacheSystem :=
  if sys.strongCount addr = 0 then
    match sys.heap addr with
    | some cache =>
        { sys with device := (cache.sync sys.device).2, heap := Function.update sys.heap addr none }
    | none => sys
  else sys

/-- The `substitute` branch of `get_block_cache` on a miss: a full queue drains
the first entry no caller holds, and panics when every entry is held. -/
def substitute (sys : CacheSystem) : Except Panic CacheSystem :=
  if sys.queue.length = blockCacheSize then
    match sys.queue.find? sys.unheld with
    | some pair => .ok (release { sys with queue := sys.queue.eraseP sys.unheld } pair.2)
    | none => .error .runOutOfBlockCache
  else .ok sys

/-- `BlockCacheManager::get_block_cache`: the caller gets a new `Arc` to the
cache of `blockId`, which a miss loads from the device and pushes at the back. -/
def getBlockCache (sys : CacheSystem) (blockId : ℕ) : Except Panic (ℕ × CacheSystem) :=
  match sys.queue.find? (fun pair => pair.1 == blockId) with
  | some pair => .ok (pair.2, { sys with handles := pair.2 :: sys.handles })
  | none => do
      let sys ← sys.substitute
      let addr := sys.nextAddr
      pure (addr,
        { sys with
          queue := sys.queue ++ [(blockId, addr)]
          heap := Function.update sys.heap addr (some (BlockCache.new blockId sys.device))
          nextAddr := addr + 1
          handles := addr :: sys.handles })

/-- `cache.lock().sync()` on the cache at `addr`. -/
def syncAt (sys : CacheSystem) (addr : ℕ) : CacheSystem :=
  match sys.heap addr with
  | some cache =>
      { sys with
        heap := Function.update sys.heap addr (some (cache.sync sys.device).1)
        device := (cache.sync sys.device).2 }
  | none => sys

/-- `block_cache_sync_all`: sync every cache in the queue, front to back. -/
def blockCacheSyncAll (sys : CacheSystem) : CacheSystem :=
  sys.queue.foldl (fun sys pair => sys.syncAt pair.2) sys

end CacheSystem

/-- What callers do with the layer: get a cache, `modify` or `sync` through a
handle they hold, drop a handle, or sync everything.  Reads change nothing, and
are the subject of the theorems rather than steps. -/
inductive CacheOp
  | getBlockCache (blockId : ℕ)
  | modify (addr offset size : ℕ) (f : (Fin size → UInt8) → Fin size → UInt8)
  | sync (addr : ℕ)
  | drop (addr : ℕ)
  | syncAll

namespace CacheSystem

/-- One step; `none` for a panic or for a handle the caller does not hold.  A
`modify` also applies the closure to the ghost memory. -/
def step (sys : CacheSystem) : CacheOp → Option CacheSystem
  | .getBlockCache blockId =>
      match sys.getBlockCache blockId with
      | .ok (_, next) => some next
      | .error _ => none
  | .modify addr offset size f =>
      if addr ∈ sys.handles then
        match sys.heap addr with
        | some cache =>
            match cache.modify offset size f with
            | .ok next =>
                some { sys with
                  heap := Function.update sys.heap addr (some next)
                  latest := modifyBlock sys.latest cache.blockId offset size f }
            | .error _ => none
        | none => none
      else none
  | .sync addr => if addr ∈ sys.handles then some (sys.syncAt addr) else none
  | .drop addr =>
      if addr ∈ sys.handles then some ({ sys with handles := sys.handles.erase addr }.release addr)
      else none
  | .syncAll => some sys.blockCacheSyncAll

/-! ## The coherence invariant -/

/-- The queue entry `pair` is coherent: its cache is of its block, holds that
block's latest content, and when unmodified agrees with the device. -/
def Coherent (sys : CacheSystem) (pair : ℕ × ℕ) : Prop :=
  ∃ cache, sys.heap pair.2 = some cache ∧ cache.blockId = pair.1 ∧
    cache.cache = sys.latest pair.1 ∧
    (cache.modified = false → sys.device pair.1 = sys.latest pair.1)

/-- An entry stays coherent when its heap cell, its block on the device and its
latest content are unchanged. -/
theorem Coherent.congr {sys sys' : CacheSystem} {pair : ℕ × ℕ} (hcoh : Coherent sys pair)
    (hheap : sys'.heap pair.2 = sys.heap pair.2) (hdevice : sys'.device pair.1 = sys.device pair.1)
    (hlatest : sys'.latest pair.1 = sys.latest pair.1) : Coherent sys' pair := by
  obtain ⟨cache, hcache, hid, hcontent, hclean⟩ := hcoh
  refine ⟨cache, by rw [hheap, hcache], hid, by rw [hlatest, hcontent], ?_⟩
  intro hmod
  rw [hdevice, hlatest, hclean hmod]

structure Inv (sys : CacheSystem) : Prop where
  blockIds_nodup : (sys.queue.map Prod.fst).Nodup
  addrs_nodup : (sys.queue.map Prod.snd).Nodup
  coherent : ∀ pair ∈ sys.queue, Coherent sys pair
  uncached : ∀ blockId, blockId ∉ sys.queue.map Prod.fst → sys.device blockId = sys.latest blockId
  handle_queued : ∀ addr ∈ sys.handles, addr ∈ sys.queue.map Prod.snd
  addr_lt : ∀ addr ∈ sys.queue.map Prod.snd, addr < sys.nextAddr
  length_le : sys.queue.length ≤ blockCacheSize

theorem inv_start (device : ℕ → BlockBytes) : Inv (start device) where
  blockIds_nodup := List.nodup_nil
  addrs_nodup := List.nodup_nil
  coherent := by simp [start]
  uncached := fun _ _ => rfl
  handle_queued := by simp [start]
  addr_lt := by simp [start]
  length_le := Nat.zero_le _

variable {sys : CacheSystem}

/-- Two entries of the queue with the same address, or the same block, are the
same entry. -/
theorem eq_of_mem_queue (hinv : Inv sys) {pair pair' : ℕ × ℕ} (hpair : pair ∈ sys.queue)
    (hpair' : pair' ∈ sys.queue) (hsame : pair.1 = pair'.1 ∨ pair.2 = pair'.2) : pair = pair' := by
  rcases hsame with hblock | haddr
  · exact List.inj_on_of_nodup_map hinv.blockIds_nodup hpair hpair' hblock
  · exact List.inj_on_of_nodup_map hinv.addrs_nodup hpair hpair' haddr

/-- A handle points to the cache of some entry of the queue. -/
theorem exists_entry_of_handle (hinv : Inv sys) {addr : ℕ} (haddr : addr ∈ sys.handles) :
    ∃ blockId, (blockId, addr) ∈ sys.queue := by
  obtain ⟨pair, hpair, rfl⟩ := List.mem_map.1 (hinv.handle_queued addr haddr)
  exact ⟨pair.1, hpair⟩

/-- The eviction test holds of an entry exactly when no caller holds its cache. -/
theorem unheld_iff (hinv : Inv sys) {pair : ℕ × ℕ} (hpair : pair ∈ sys.queue) :
    sys.unheld pair = true ↔ pair.2 ∉ sys.handles := by
  have hqueued : (sys.queue.map Prod.snd).count pair.2 = 1 :=
    List.count_eq_one_of_mem hinv.addrs_nodup (List.mem_map_of_mem hpair)
  simp only [unheld, strongCount, hqueued, beq_iff_eq, Nat.add_eq_left, List.count_eq_zero]

@[simp]
theorem release_queue (sys : CacheSystem) (addr : ℕ) : (sys.release addr).queue = sys.queue := by
  unfold release
  split_ifs <;> (try split) <;> rfl

@[simp]
theorem release_handles (sys : CacheSystem) (addr : ℕ) :
    (sys.release addr).handles = sys.handles := by
  unfold release
  split_ifs <;> (try split) <;> rfl

@[simp]
theorem release_latest (sys : CacheSystem) (addr : ℕ) : (sys.release addr).latest = sys.latest := by
  unfold release
  split_ifs <;> (try split) <;> rfl

@[simp]
theorem release_nextAddr (sys : CacheSystem) (addr : ℕ) :
    (sys.release addr).nextAddr = sys.nextAddr := by
  unfold release
  split_ifs <;> (try split) <;> rfl

theorem release_of_queued {addr : ℕ} (haddr : addr ∈ sys.queue.map Prod.snd) :
    sys.release addr = sys := by
  have hpos : 0 < (sys.queue.map Prod.snd).count addr := List.count_pos_iff.2 haddr
  have hne : sys.strongCount addr ≠ 0 := by
    unfold strongCount
    omega
  rw [release, if_neg hne]

/-! ### Eviction -/

/-- Draining an entry no caller holds, and dropping its cache, keeps the
invariant: the cache's write-back brings its block on the device up to date. -/
theorem inv_evict (hinv : Inv sys) {front back : List (ℕ × ℕ)} {pair : ℕ × ℕ}
    (hqueue : sys.queue = front ++ pair :: back) (hfree : pair.2 ∉ sys.handles) :
    Inv (release { sys with queue := front ++ back } pair.2) := by
  have hmem : pair ∈ sys.queue := by simp [hqueue]
  obtain ⟨cache, hcache, hid, hcontent, hclean⟩ := hinv.coherent pair hmem
  obtain ⟨hblock, hblocks⟩ := nodup_map_middle Prod.fst (hqueue ▸ hinv.blockIds_nodup)
  obtain ⟨haddr, haddrs⟩ := nodup_map_middle Prod.snd (hqueue ▸ hinv.addrs_nodup)
  have hrest : ∀ other ∈ front ++ back, other ∈ sys.queue := by
    intro other hother
    rw [hqueue]
    simpa using (List.mem_append.1 hother).imp id (List.mem_cons_of_mem _)
  -- no reference is left, so the drop runs and writes the block back
  have hzero : strongCount { sys with queue := front ++ back } pair.2 = 0 := by
    simp only [strongCount, List.count_eq_zero_of_not_mem haddr,
      List.count_eq_zero_of_not_mem hfree]
  have hrelease : release { sys with queue := front ++ back } pair.2 =
      { sys with
        queue := front ++ back
        device := (cache.sync sys.device).2
        heap := Function.update sys.heap pair.2 none } := by
    rw [release, if_pos hzero]
    simp only [hcache]
  rw [hrelease]
  refine ⟨hblocks, haddrs, ?_, ?_, ?_, ?_, ?_⟩
  · intro other hother
    have hne_addr : other.2 ≠ pair.2 := fun h => haddr (h ▸ List.mem_map_of_mem hother)
    have hne_block : other.1 ≠ cache.blockId := fun h => hblock (hid ▸ h ▸ List.mem_map_of_mem hother)
    exact (hinv.coherent other (hrest other hother)).congr
      (Function.update_of_ne hne_addr _ _) (cache.sync_snd_of_ne _ hne_block) rfl
  · intro blockId hblockId
    dsimp only
    by_cases hsame : blockId = cache.blockId
    · rw [hsame, hid]
      exact cache.sync_snd_self hid hcontent hclean
    · rw [cache.sync_snd_of_ne _ hsame]
      apply hinv.uncached
      rw [hqueue]
      simp only [List.map_append, List.map_cons, List.mem_append, List.mem_cons, not_or]
      simp only [List.map_append, List.mem_append, not_or] at hblockId
      exact ⟨hblockId.1, fun h => hsame (h.trans hid.symm), hblockId.2⟩
  · intro addr haddr'
    have hqueued := hinv.handle_queued addr haddr'
    have hne : addr ≠ pair.2 := fun h => hfree (h ▸ haddr')
    rw [hqueue] at hqueued
    simp only [List.map_append, List.map_cons, List.mem_append, List.mem_cons] at hqueued ⊢
    tauto
  · intro addr haddr'
    exact hinv.addr_lt addr (List.map_subset _ (fun other hother => hrest other hother) haddr')
  · have hlen := hinv.length_le
    rw [hqueue] at hlen
    simp only [List.length_append, List.length_cons] at hlen ⊢
    omega

/-- A successful `substitute` keeps the invariant and leaves room in the queue,
whose entries it only removes. -/
theorem substitute_spec (hinv : Inv sys) {next : CacheSystem} (hsub : sys.substitute = .ok next) :
    Inv next ∧ next.queue.length < blockCacheSize ∧ next.queue.Sublist sys.queue ∧
      next.handles = sys.handles ∧ next.latest = sys.latest ∧ next.nextAddr = sys.nextAddr := by
  unfold substitute at hsub
  split_ifs at hsub with hfull
  · cases hfind : sys.queue.find? sys.unheld with
    | none => simp [hfind] at hsub
    | some pair =>
        simp only [hfind, Except.ok.injEq] at hsub
        subst hsub
        obtain ⟨front, back, hqueue, herase⟩ := eraseP_of_find? hfind
        have hmem : pair ∈ sys.queue := by simp [hqueue]
        have hfree := (unheld_iff hinv hmem).1 (List.find?_some hfind)
        rw [herase]
        refine ⟨inv_evict hinv hqueue hfree, ?_, ?_, release_handles _ _, release_latest _ _,
          release_nextAddr _ _⟩
        · rw [release_queue]
          rw [hqueue] at hfull
          simp only [List.length_append, List.length_cons] at hfull ⊢
          omega
        · rw [release_queue, hqueue]
          exact (List.sublist_cons_self pair back).append_left front
  · cases hsub
    exact ⟨hinv, lt_of_le_of_ne hinv.length_le hfull, List.Sublist.refl _, rfl, rfl, rfl⟩

/-! ### `get_block_cache` -/

/-- A miss loads the block from the device, which is up to date for a block
with no entry, into a cache at a fresh address that only the caller holds
besides the queue. -/
theorem inv_load (hinv : Inv sys) {blockId : ℕ} (hmiss : blockId ∉ sys.queue.map Prod.fst)
    (hroom : sys.queue.length < blockCacheSize) :
    Inv { sys with
      queue := sys.queue ++ [(blockId, sys.nextAddr)]
      heap := Function.update sys.heap sys.nextAddr (some (BlockCache.new blockId sys.device))
      nextAddr := sys.nextAddr + 1
      handles := sys.nextAddr :: sys.handles } := by
  have hfresh : sys.nextAddr ∉ sys.queue.map Prod.snd := fun h => (hinv.addr_lt _ h).false
  refine ⟨?_, ?_, ?_, ?_, ?_, ?_, ?_⟩
  · rw [List.map_append, List.map_singleton, nodup_append_singleton]
    exact ⟨hmiss, hinv.blockIds_nodup⟩
  · rw [List.map_append, List.map_singleton, nodup_append_singleton]
    exact ⟨hfresh, hinv.addrs_nodup⟩
  · intro pair hpair
    rcases List.mem_append.1 hpair with hold | hnew
    · have hne : pair.2 ≠ sys.nextAddr := (hinv.addr_lt _ (List.mem_map_of_mem hold)).ne
      exact (hinv.coherent pair hold).congr (Function.update_of_ne hne _ _) rfl rfl
    · rw [List.mem_singleton] at hnew
      subst hnew
      have hdevice := hinv.uncached blockId hmiss
      exact ⟨_, Function.update_self _ _ _, rfl, hdevice, fun _ => hdevice⟩
  · intro other hother
    apply hinv.uncached
    simp only [List.map_append, List.map_singleton, List.mem_append, not_or] at hother
    exact hother.1
  · intro addr haddr
    simp only [List.map_append, List.map_singleton, List.mem_append, List.mem_singleton]
    rcases List.mem_cons.1 haddr with rfl | hheld
    · exact .inr rfl
    · exact .inl (hinv.handle_queued addr hheld)
  · intro addr haddr
    simp only [List.map_append, List.map_singleton, List.mem_append, List.mem_singleton] at haddr
    rcases haddr with hold | rfl
    · exact Nat.lt_succ_of_lt (hinv.addr_lt addr hold)
    · exact Nat.lt_succ_self _
  · simp only [List.length_append, List.length_singleton]
    omega

/-- `get_block_cache` keeps the invariant, leaves the block memory as it is, and
hands the caller a handle on the entry of the block it asked for. -/
theorem getBlockCache_spec (hinv : Inv sys) {blockId addr : ℕ} {next : CacheSystem}
    (hget : sys.getBlockCache blockId = .ok (addr, next)) :
    Inv next ∧ next.latest = sys.latest ∧ addr ∈ next.handles ∧ (blockId, addr) ∈ next.queue := by
  unfold getBlockCache at hget
  cases hfind : sys.queue.find? (fun pair => pair.1 == blockId) with
  | some pair =>
      -- a hit: one more handle on the entry found
      simp only [hfind, Except.ok.injEq, Prod.mk.injEq] at hget
      obtain ⟨rfl, rfl⟩ := hget
      have hpair := List.mem_of_find?_eq_some hfind
      have hblock : pair.1 = blockId := by simpa using List.find?_some hfind
      refine ⟨{ hinv with handle_queued := ?_ }, rfl, List.mem_cons_self, ?_⟩
      · intro addr haddr
        rcases List.mem_cons.1 haddr with rfl | hheld
        · exact List.mem_map_of_mem hpair
        · exact hinv.handle_queued addr hheld
      · rw [← hblock]
        exact hpair
  | none =>
      -- a miss: make room, then load the block
      cases hsub : sys.substitute with
      | error err => simp [hfind, hsub, bind, Except.bind] at hget
      | ok mid =>
          simp only [hfind, hsub, bind, Except.bind, pure, Except.pure, Except.ok.injEq,
            Prod.mk.injEq] at hget
          obtain ⟨rfl, rfl⟩ := hget
          obtain ⟨hmid, hroom, hsublist, -, hlatest, -⟩ := substitute_spec hinv hsub
          have hmiss : blockId ∉ mid.queue.map Prod.fst := by
            intro hmem
            obtain ⟨pair, hpair, rfl⟩ := List.mem_map.1 hmem
            have := List.find?_eq_none.1 hfind pair (hsublist.subset hpair)
            simp at this
          exact ⟨inv_load hmid hmiss hroom, hlatest, List.mem_cons_self, by simp⟩

/-- With fewer handles held than the queue has entries, `get_block_cache` never
runs out of caches: some entry of a full queue is held by no caller. -/
theorem substitute_ok (hinv : Inv sys) (hheld : sys.handles.length < blockCacheSize) :
    ∃ next, sys.substitute = .ok next := by
  unfold substitute
  split_ifs with hfull
  · have hlen : sys.handles.length < (sys.queue.map Prod.snd).length := by
      rw [List.length_map, hfull]
      exact hheld
    obtain ⟨addr, haddr, hfree⟩ := exists_mem_not_mem_of_length_lt hinv.addrs_nodup hlen
    obtain ⟨pair, hpair, rfl⟩ := List.mem_map.1 haddr
    cases hfind : sys.queue.find? sys.unheld with
    | some found => exact ⟨_, rfl⟩
    | none =>
        have := List.find?_eq_none.1 hfind pair hpair
        exact absurd ((unheld_iff hinv hpair).2 hfree) this
  · exact ⟨sys, rfl⟩

theorem getBlockCache_ok (hinv : Inv sys) (hheld : sys.handles.length < blockCacheSize)
    (blockId : ℕ) : ∃ addr next, sys.getBlockCache blockId = .ok (addr, next) := by
  unfold getBlockCache
  cases hfind : sys.queue.find? (fun pair => pair.1 == blockId) with
  | some pair => exact ⟨_, _, rfl⟩
  | none =>
      obtain ⟨mid, hsub⟩ := substitute_ok hinv hheld
      simp only [hsub, bind, Except.bind, pure, Except.pure]
      exact ⟨_, _, rfl⟩

/-! ### `modify`, `sync` and dropping a handle -/

/-- A `modify` through a handle applies the closure to the cache of its block
and, in the ghost memory, to that block. -/
theorem inv_modify (hinv : Inv sys) {addr : ℕ} (haddr : addr ∈ sys.handles)
    {cache next : BlockCache} (hcache : sys.heap addr = some cache) {offset size : ℕ}
    {f : (Fin size → UInt8) → Fin size → UInt8} (hmodify : cache.modify offset size f = .ok next) :
    Inv { sys with
      heap := Function.update sys.heap addr (some next)
      latest := modifyBlock sys.latest cache.blockId offset size f } := by
  obtain ⟨blockId, hentry⟩ := exists_entry_of_handle hinv haddr
  obtain ⟨cache', hcache', hid, hcontent, -⟩ := hinv.coherent _ hentry
  rw [hcache, Option.some.injEq] at hcache'
  subst hcache'
  obtain ⟨hfit, rfl⟩ := BlockCache.modify_eq_ok hmodify
  have hlatest : modifyBlock sys.latest cache.blockId offset size f =
      Function.update sys.latest blockId (splice (sys.latest blockId) offset size hfit f) := by
    rw [modifyBlock, dif_pos hfit, hid]
  rw [hlatest]
  refine ⟨hinv.blockIds_nodup, hinv.addrs_nodup, ?_, ?_, hinv.handle_queued, hinv.addr_lt,
    hinv.length_le⟩
  · intro pair hpair
    by_cases hsame : pair = (blockId, addr)
    · subst hsame
      refine ⟨_, Function.update_self _ _ _, hid, ?_, fun hclean => absurd hclean (by simp)⟩
      simp only [Function.update_self, hcontent]
    · have hne_addr : pair.2 ≠ addr := fun h => hsame (eq_of_mem_queue hinv hpair hentry (.inr h))
      have hne_block : pair.1 ≠ blockId :=
        fun h => hsame (eq_of_mem_queue hinv hpair hentry (.inl h))
      exact (hinv.coherent pair hpair).congr (Function.update_of_ne hne_addr _ _) rfl
        (Function.update_of_ne hne_block _ _)
  · intro other hother
    have hne : other ≠ blockId := by
      rintro rfl
      exact hother (List.mem_map_of_mem (f := Prod.fst) hentry)
    dsimp only
    rw [Function.update_of_ne hne]
    exact hinv.uncached other hother

@[simp]
theorem syncAt_queue (sys : CacheSystem) (addr : ℕ) : (sys.syncAt addr).queue = sys.queue := by
  unfold syncAt
  split <;> rfl

@[simp]
theorem syncAt_handles (sys : CacheSystem) (addr : ℕ) :
    (sys.syncAt addr).handles = sys.handles := by
  unfold syncAt
  split <;> rfl

@[simp]
theorem syncAt_latest (sys : CacheSystem) (addr : ℕ) : (sys.syncAt addr).latest = sys.latest := by
  unfold syncAt
  split <;> rfl

@[simp]
theorem syncAt_nextAddr (sys : CacheSystem) (addr : ℕ) :
    (sys.syncAt addr).nextAddr = sys.nextAddr := by
  unfold syncAt
  split <;> rfl

theorem syncAt_heap_of_ne (sys : CacheSystem) {addr other : ℕ} (hne : other ≠ addr) :
    (sys.syncAt addr).heap other = sys.heap other := by
  unfold syncAt
  split
  · exact Function.update_of_ne hne _ _
  · rfl

/-- Syncing the cache of an entry writes its block back and keeps the invariant. -/
theorem inv_syncAt (hinv : Inv sys) {pair : ℕ × ℕ} (hpair : pair ∈ sys.queue) :
    Inv (sys.syncAt pair.2) := by
  obtain ⟨cache, hcache, hid, hcontent, hclean⟩ := hinv.coherent pair hpair
  have hsync : sys.syncAt pair.2 =
      { sys with
        heap := Function.update sys.heap pair.2 (some (cache.sync sys.device).1)
        device := (cache.sync sys.device).2 } := by
    simp only [syncAt, hcache]
  rw [hsync]
  refine ⟨hinv.blockIds_nodup, hinv.addrs_nodup, ?_, ?_, hinv.handle_queued, hinv.addr_lt,
    hinv.length_le⟩
  · intro other hother
    by_cases hsame : other = pair
    · subst hsame
      refine ⟨_, Function.update_self _ _ _, ?_, ?_, fun _ => cache.sync_snd_self hid hcontent hclean⟩
      · rw [BlockCache.sync_fst_blockId, hid]
      · rw [BlockCache.sync_fst_cache]
        exact hcontent
    · have hne_addr : other.2 ≠ pair.2 := fun h => hsame (eq_of_mem_queue hinv hother hpair (.inr h))
      have hne_block : other.1 ≠ cache.blockId :=
        fun h => hsame (eq_of_mem_queue hinv hother hpair (.inl (h.trans hid)))
      exact (hinv.coherent other hother).congr (Function.update_of_ne hne_addr _ _)
        (cache.sync_snd_of_ne _ hne_block) rfl
  · intro other hother
    have hne : other ≠ cache.blockId := by
      rintro rfl
      exact hother (hid ▸ List.mem_map_of_mem (f := Prod.fst) hpair)
    dsimp only
    rw [cache.sync_snd_of_ne _ hne]
    exact hinv.uncached other hother

/-- Dropping a handle never drops a cache: the queue still refers to it. -/
theorem inv_drop (hinv : Inv sys) {addr : ℕ} (haddr : addr ∈ sys.handles) :
    Inv ({ sys with handles := sys.handles.erase addr }.release addr) := by
  have hrelease : ({ sys with handles := sys.handles.erase addr }.release addr) =
      { sys with handles := sys.handles.erase addr } :=
    release_of_queued (hinv.handle_queued addr haddr)
  rw [hrelease]
  exact { hinv with
    handle_queued := fun other hother => hinv.handle_queued other (List.mem_of_mem_erase hother) }

/-! ### `block_cache_sync_all` -/

/-- The cache at `addr`, if any, has no unwritten modification. -/
def Synced (sys : CacheSystem) (addr : ℕ) : Prop :=
  ∀ cache, sys.heap addr = some cache → cache.modified = false

theorem synced_syncAt_self (sys : CacheSystem) (addr : ℕ) : Synced (sys.syncAt addr) addr := by
  intro cache hcache
  unfold syncAt at hcache
  split at hcache
  · simp only [Function.update_self, Option.some.injEq] at hcache
    rw [← hcache, BlockCache.sync_fst_modified]
  · rename_i hnone
    rw [hnone] at hcache
    cases hcache

theorem Synced.syncAt {addr : ℕ} (hsynced : Synced sys addr) (other : ℕ) :
    Synced (sys.syncAt other) addr := by
  by_cases hsame : addr = other
  · subst hsame
    exact synced_syncAt_self sys addr
  · intro cache hcache
    rw [syncAt_heap_of_ne sys hsame] at hcache
    exact hsynced cache hcache

/-- Syncing the caches of entries one after another keeps the invariant and the
queue, keeps every synced cache synced, and syncs each of them. -/
theorem foldl_syncAt_spec (pairs : List (ℕ × ℕ)) (hinv : Inv sys)
    (hpairs : ∀ pair ∈ pairs, pair ∈ sys.queue) :
    let last := pairs.foldl (fun sys pair => sys.syncAt pair.2) sys
    Inv last ∧ last.queue = sys.queue ∧ last.latest = sys.latest ∧
      (∀ addr, Synced sys addr → Synced last addr) ∧ ∀ pair ∈ pairs, Synced last pair.2 := by
  induction pairs generalizing sys with
  | nil => exact ⟨hinv, rfl, rfl, fun _ h => h, by simp⟩
  | cons pair pairs ih =>
      have hfirst := inv_syncAt hinv (hpairs pair List.mem_cons_self)
      have hrest : ∀ other ∈ pairs, other ∈ (sys.syncAt pair.2).queue := by
        intro other hother
        rw [syncAt_queue]
        exact hpairs other (List.mem_cons_of_mem _ hother)
      obtain ⟨hinv', hqueue, hlatest, hkeep, hsynced⟩ := ih hfirst hrest
      simp only [List.foldl_cons]
      refine ⟨hinv', by rw [hqueue, syncAt_queue], by rw [hlatest, syncAt_latest], ?_, ?_⟩
      · intro addr haddr
        exact hkeep addr (haddr.syncAt pair.2)
      · intro other hother
        rcases List.mem_cons.1 hother with rfl | hlater
        · exact hkeep _ (synced_syncAt_self sys other.2)
        · exact hsynced other hlater

theorem inv_blockCacheSyncAll (hinv : Inv sys) : Inv sys.blockCacheSyncAll :=
  (foldl_syncAt_spec sys.queue hinv fun _ h => h).1

/-- After `block_cache_sync_all` the device holds the latest content of every
block: cached blocks were written back, and the others were up to date. -/
theorem blockCacheSyncAll_device (hinv : Inv sys) : sys.blockCacheSyncAll.device = sys.latest := by
  obtain ⟨hinv', hqueue, hlatest, -, hsynced⟩ := foldl_syncAt_spec sys.queue hinv fun _ h => h
  unfold blockCacheSyncAll
  rw [← hlatest]
  funext blockId
  by_cases hcached : blockId ∈ sys.queue.map Prod.fst
  · obtain ⟨pair, hpair, rfl⟩ := List.mem_map.1 hcached
    obtain ⟨cache, hcache, -, -, hclean⟩ := hinv'.coherent pair (by rw [hqueue]; exact hpair)
    exact hclean (hsynced pair hpair cache hcache)
  · exact hinv'.uncached blockId (by rw [hqueue]; exact hcached)

/-! ### Runs -/

theorem inv_step (hinv : Inv sys) : ∀ op next, sys.step op = some next → Inv next := by
  intro op next hstep
  cases op with
  | getBlockCache blockId =>
      simp only [step] at hstep
      split at hstep
      · rename_i addr mid hget
        cases hstep
        exact (getBlockCache_spec hinv hget).1
      · cases hstep
  | modify addr offset size f =>
      simp only [step] at hstep
      split_ifs at hstep with haddr
      split at hstep
      · rename_i cache hcache
        split at hstep
        · rename_i next' hmodify
          cases hstep
          exact inv_modify hinv haddr hcache hmodify
        · cases hstep
      · cases hstep
  | sync addr =>
      simp only [step] at hstep
      split_ifs at hstep with haddr
      cases hstep
      obtain ⟨blockId, hentry⟩ := exists_entry_of_handle hinv haddr
      exact inv_syncAt hinv hentry
  | drop addr =>
      simp only [step] at hstep
      split_ifs at hstep with haddr
      cases hstep
      exact inv_drop hinv haddr
  | syncAll =>
      simp only [step, Option.some.injEq] at hstep
      subst hstep
      exact inv_blockCacheSyncAll hinv

theorem inv_of_reachable {device : ℕ → BlockBytes} (hreach : Reachable step (start device) sys) :
    Inv sys :=
  hreach.invariant (inv_start device) fun _ op _ hinv hstep => inv_step hinv op _ hstep

end CacheSystem

open CacheSystem in
/-- The block cache over one device, for every history of calls: the queue holds
at most one entry per block; a read through any handle sees the latest content
of its block; a block without an entry is up to date on the device, and after
`block_cache_sync_all` every block is; `get_block_cache` hands out a handle on
the block asked for, and does not run out of caches while callers hold fewer
than `BLOCK_CACHE_SIZE` handles. -/
theorem blockCache_coherent {device : ℕ → BlockBytes} {sys : CacheSystem}
    (hreach : Reachable step (start device) sys) :
    (sys.queue.map Prod.fst).Nodup ∧
      (∀ addr ∈ sys.handles, ∃ cache, sys.heap addr = some cache ∧
        ∀ offset size, cache.read offset size = readBlock sys.latest cache.blockId offset size) ∧
      (∀ blockId, blockId ∉ sys.queue.map Prod.fst → sys.device blockId = sys.latest blockId) ∧
      sys.blockCacheSyncAll.device = sys.latest ∧
      (∀ blockId addr next, sys.getBlockCache blockId = .ok (addr, next) →
        ∃ cache, next.heap addr = some cache ∧ cache.blockId = blockId ∧
          next.latest = sys.latest) ∧
      (sys.handles.length < blockCacheSize →
        ∀ blockId, ∃ addr next, sys.getBlockCache blockId = .ok (addr, next)) := by
  have hinv := inv_of_reachable hreach
  refine ⟨hinv.blockIds_nodup, ?_, hinv.uncached, blockCacheSyncAll_device hinv, ?_,
    fun hheld => getBlockCache_ok hinv hheld⟩
  · intro addr haddr
    obtain ⟨blockId, hentry⟩ := exists_entry_of_handle hinv haddr
    obtain ⟨cache, hcache, hid, hcontent, -⟩ := hinv.coherent _ hentry
    refine ⟨cache, hcache, fun offset size => BlockCache.read_eq_readBlock ?_ offset size⟩
    rw [hcontent, hid]
  · intro blockId addr next hget
    obtain ⟨hnext, hlatest, -, hentry⟩ := getBlockCache_spec hinv hget
    obtain ⟨cache, hcache, hid, -, -⟩ := hnext.coherent _ hentry
    exact ⟨cache, hcache, hid, hlatest⟩

/-- After loading block 3 of a zeroed device and storing 7 in its first byte,
`block_cache_sync_all` leaves the device holding the modified block. -/
theorem blockCache_coherent_after_modify :
    (CacheSystem.blockCacheSyncAll
      { device := fun _ _ => 0
        queue := [(3, 0)]
        heap := Function.update
          (Function.update (fun _ => none) 0 (some (BlockCache.new 3 fun _ _ => 0))) 0
          (some { cache := splice (fun _ => 0) 0 1 (by decide) fun _ _ => 7, blockId := 3,
                  modified := true })
        nextAddr := 1
        handles := [0]
        latest := modifyBlock (fun _ _ => 0) 3 0 1 fun _ _ => 7 }).device =
      modifyBlock (fun _ _ => 0) 3 0 1 fun _ _ => 7 := by
  have hrun : runSteps CacheSystem.step (CacheSystem.start fun _ _ => 0)
      [.getBlockCache 3, .modify 0 0 1 fun _ _ => 7] =
      some
        { device := fun _ _ => 0
          queue := [(3, 0)]
          heap := Function.update
            (Function.update (fun _ => none) 0 (some (BlockCache.new 3 fun _ _ => 0))) 0
            (some { cache := splice (fun _ => 0) 0 1 (by decide) fun _ _ => 7, blockId := 3,
                    modified := true })
          nextAddr := 1
          handles := [0]
          latest := modifyBlock (fun _ _ => 0) 3 0 1 fun _ _ => 7 } := by
    rfl
  exact (blockCache_coherent (reachable_of_runSteps hrun)).2.2.2.1

end ChaosKernel.Block
