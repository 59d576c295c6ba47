import ChaosKernel.Lib.Ring
import ChaosKernel.Lib.Run

/-!
# Pipes

`PipeRingBuffer` of `os/src/fs/pipe.rs`: a 3200-byte circular array with a
`head`, a `tail` and a `status` that tells a full buffer from an empty one when
`head = tail`; and the loops of `Pipe::read` and `Pipe::write`, which take the
buffer, move as many bytes as it allows, and yield to the scheduler when it
allows none.

The buffer is shown to represent a byte queue (`Represents`), and every byte
operation to act on that queue as a FIFO.  `PipeSystem` then interleaves the
passes of one `Pipe::write` call after another with the passes of one
`Pipe::read` call after another, the points where the two calls can yield.
-/

namespace ChaosKernel.Pipe

open ChaosKernel.Lib

/-- `RING_BUFFER_SIZE`. -/
def ringBufferSize : ℕ := 3200

instance : NeZero ringBufferSize := ⟨by decide⟩

/-- `RingBufferStatus`. -/
inductive RingBufferStatus
  | full
  | empty
  | normal
  deriving DecidableEq, Repr

/-- `PipeRingBuffer`, without the weak pointers to its ends: whether every write
end is closed is kept by `PipeSystem`.  Indices are `Fin ringBufferSize`, whose
`+ 1` is the source's `(i + 1) % RING_BUFFER_SIZE`. -/
structure PipeRingBuffer where
  arr : Fin ringBufferSize → UInt8
  head : Fin ringBufferSize
  tail : Fin ringBufferSize
  status : RingBufferStatus

namespace PipeRingBuffer

/-- `PipeRingBuffer::new`. -/
def new : PipeRingBuffer :=
  { arr := fun _ => 0, head := 0, tail := 0, status := .empty }

/-- `PipeRingBuffer::write_byte`. -/
def writeByte (self : PipeRingBuffer) (byte : UInt8) : PipeRingBuffer :=
  let tail := self.tail + 1
  { arr := Function.update self.arr self.tail byte, head := self.head, tail,
    status := if tail = self.head then .full else .normal }

/-- `PipeRingBuffer::read_byte`. -/
def readByte (self : PipeRingBuffer) : UInt8 × PipeRingBuffer :=
  let head := self.head + 1
  (self.arr self.head,
    { self with head, status := if head = self.tail then .empty else .normal })

/-- `PipeRingBuffer::available_read`. -/
def availableRead (self : PipeRingBuffer) : ℕ :=
  if self.status = .empty then 0
  else if self.tail.val > self.head.val then self.tail.val - self.head.val
  else self.tail.val + ringBufferSize - self.head.val

/-- `PipeRingBuffer::available_write`. -/
def availableWrite (self : PipeRingBuffer) : ℕ :=
  if self.status = .full then 0 else ringBufferSize - self.availableRead

/-! ## The buffer as a queue -/

/-- The buffer holds the byte queue `queue`: it is the circular view from
`head`, `tail` is just past it, and `status` says whether it is empty or full. -/
structure Represents (rb : PipeRingBuffer) (queue : List UInt8) : Prop where
  length_le : queue.length ≤ ringBufferSize
  tail_eq : rb.tail = rb.head + Fin.ofNat ringBufferSize queue.length
  status_eq : rb.status =
    if queue.length = 0 then .empty else if queue.length = ringBufferSize then .full else .normal
  view_eq : ringView rb.arr rb.head queue.length = queue

theorem represents_new : Represents new [] where
  length_le := Nat.zero_le _
  tail_eq := by ext; simp [new]
  status_eq := rfl
  view_eq := rfl

/-- The offset of `tail` from `head` is the queue length, modulo the size. -/
theorem tail_val_eq {rb : PipeRingBuffer} {queue : List UInt8} (hrep : Represents rb queue) :
    rb.tail.val = (rb.head.val + queue.length) % ringBufferSize := by
  rw [hrep.tail_eq, Fin.val_add, Fin.val_ofNat, Nat.add_mod_mod]

theorem availableRead_eq {rb : PipeRingBuffer} {queue : List UInt8}
    (hrep : Represents rb queue) : rb.availableRead = queue.length := by
  have htail := tail_val_eq hrep
  have hhead := rb.head.isLt
  have hle := hrep.length_le
  unfold availableRead
  rw [hrep.status_eq]
  by_cases hzero : queue.length = 0
  · simp [hzero]
  · have hne : (if queue.length = 0 then RingBufferStatus.empty
        else if queue.length = ringBufferSize then .full else .normal) ≠ .empty := by
      split_ifs <;> simp
    rw [if_neg hne]
    unfold ringBufferSize at *
    split_ifs <;> omega

theorem availableWrite_eq {rb : PipeRingBuffer} {queue : List UInt8}
    (hrep : Represents rb queue) : rb.availableWrite = ringBufferSize - queue.length := by
  unfold availableWrite
  rw [availableRead_eq hrep, hrep.status_eq]
  split_ifs <;> simp_all

theorem status_eq_empty_iff {rb : PipeRingBuffer} {queue : List UInt8}
    (hrep : Represents rb queue) : rb.status = .empty ↔ queue.length = 0 := by
  rw [hrep.status_eq]
  split_ifs <;> simp_all

theorem status_eq_full_iff {rb : PipeRingBuffer} {queue : List UInt8}
    (hrep : Represents rb queue) : rb.status = .full ↔ queue.length = ringBufferSize := by
  rw [hrep.status_eq]
  split_ifs with hzero
  · simp [hzero, ringBufferSize]
  · simp_all
  · simp_all

/-- `write_byte` on a buffer that is not full appends the byte to the queue. -/
theorem represents_writeByte {rb : PipeRingBuffer} {queue : List UInt8}
    (hrep : Represents rb queue) (hroom : queue.length < ringBufferSize) (byte : UInt8) :
    Represents (rb.writeByte byte) (queue ++ [byte]) := by
  have htail : rb.tail + 1 = rb.head + Fin.ofNat ringBufferSize (queue.length + 1) := by
    rw [hrep.tail_eq, ofNat_succ, add_assoc]
  have hfull : rb.tail + 1 = rb.head ↔ queue.length + 1 = ringBufferSize := by
    rw [htail]
    constructor
    · intro heq
      have hzero : Fin.ofNat ringBufferSize (queue.length + 1) = 0 := by
        simpa using heq
      have hval := congrArg Fin.val hzero
      simp only [Fin.val_ofNat, Fin.val_zero] at hval
      unfold ringBufferSize at *
      omega
    · intro heq
      rw [heq, Fin.ofNat_self, add_zero]
  refine ⟨by simp only [List.length_append, List.length_singleton]; omega, ?_, ?_, ?_⟩
  · simpa [writeByte] using htail
  · simp only [writeByte, List.length_append, List.length_singleton, Nat.add_one_ne_zero,
      if_false]
    by_cases hend : queue.length + 1 = ringBufferSize
    · rw [if_pos (hfull.2 hend), if_pos hend]
    · rw [if_neg (fun h => hend (hfull.1 h)), if_neg hend]
  · simp only [writeByte, List.length_append, List.length_singleton]
    rw [hrep.tail_eq, ringView_update_push _ _ hroom, hrep.view_eq]

/-- `read_byte` on a non-empty buffer returns the front of the queue and drops it. -/
theorem represents_readByte {rb : PipeRingBuffer} {byte : UInt8} {queue : List UInt8}
    (hrep : Represents rb (byte :: queue)) :
    rb.readByte.1 = byte ∧ Represents rb.readByte.2 queue := by
  have hview := hrep.view_eq
  simp only [List.length_cons] at hview
  rw [ringView_succ_head] at hview
  obtain ⟨hfront, hrest⟩ := List.cons.inj hview
  have hlen : queue.length < ringBufferSize := by
    have := hrep.length_le
    simp only [List.length_cons] at this
    omega
  have htail : rb.tail = rb.head + 1 + Fin.ofNat ringBufferSize queue.length := by
    rw [hrep.tail_eq, List.length_cons, ofNat_succ, add_comm (Fin.ofNat _ _) 1, add_assoc]
  have hempty : rb.head + 1 = rb.tail ↔ queue.length = 0 := by
    rw [htail]
    constructor
    · intro heq
      have hzero : Fin.ofNat ringBufferSize queue.length = 0 := by
        simpa using heq.symm
      have hval := congrArg Fin.val hzero
      simp only [Fin.val_ofNat, Fin.val_zero] at hval
      unfold ringBufferSize at *
      omega
    · intro heq
      rw [heq]
      ext
      simp
  refine ⟨hfront, hlen.le, ?_, ?_, hrest⟩
  · simpa [readByte] using htail
  · simp only [readByte]
    by_cases hzero : queue.length = 0
    · rw [if_pos (hempty.2 hzero), if_pos hzero]
    · rw [if_neg (fun h => hzero (hempty.1 h)), if_neg hzero, if_neg (by omega)]

/-! ## The loops of `Pipe::write` and `Pipe::read` -/

/-- The `for _ in 0..loop_write` loop of `Pipe::write` with `count` passes left;
`rest` is what `buf_iter` has not yet yielded.  Returns the buffer, the rest,
`already_write`, and whether the call returns. -/
def writeLoop : ℕ → PipeRingBuffer → List UInt8 → ℕ → ℕ →
    PipeRingBuffer × List UInt8 × ℕ × Bool
  | 0, rb, rest, alreadyWrite, _ => (rb, rest, alreadyWrite, false)
  | _ + 1, rb, [], alreadyWrite, _ => (rb, [], alreadyWrite, true)
  | count + 1, rb, byte :: rest, alreadyWrite, wantToWrite =>
      if alreadyWrite + 1 = wantToWrite then (rb.writeByte byte, rest, alreadyWrite + 1, true)
      else writeLoop count (rb.writeByte byte) rest (alreadyWrite + 1) wantToWrite

/-- The `for _ in 0..loop_read` loop of `Pipe::read` with `count` passes left;
`space` is how much of the user buffer `buf_iter` has not yet yielded.  Returns
the buffer, the bytes stored into the user buffer, the space left,
`already_read`, and whether the call returns. -/
def readLoop : ℕ → PipeRingBuffer → ℕ → ℕ → ℕ →
    PipeRingBuffer × List UInt8 × ℕ × ℕ × Bool
  | 0, rb, space, alreadyRead, _ => (rb, [], space, alreadyRead, false)
  | _ + 1, rb, 0, alreadyRead, _ => (rb, [], 0, alreadyRead, true)
  | count + 1, rb, space + 1, alreadyRead, wantToRead =>
      let byte := rb.readByte.1
      if alreadyRead + 1 = wantToRead then
        (rb.readByte.2, [byte], space, alreadyRead + 1, true)
      else
        match readLoop count rb.readByte.2 space (alreadyRead + 1) wantToRead with
        | (next, bytes, space, alreadyRead, done) => (next, byte :: bytes, space, alreadyRead, done)

/-- The write loop appends a prefix of `rest` to the queue, and a returning call
has used up its buffer or written all it wanted. -/
theorem writeLoop_spec {count : ℕ} {rb rb' : PipeRingBuffer} {queue rest rest' : List UInt8}
    {alreadyWrite alreadyWrite' wantToWrite : ℕ} {done : Bool}
    (hrep : Represents rb queue) (hroom : queue.length + count ≤ ringBufferSize)
    (hloop : writeLoop count rb rest alreadyWrite wantToWrite =
      (rb', rest', alreadyWrite', done)) :
    ∃ k ≤ rest.length, alreadyWrite' = alreadyWrite + k ∧ rest' = rest.drop k ∧
      Represents rb' (queue ++ rest.take k) ∧
      (done = true → rest' = [] ∨ alreadyWrite' = wantToWrite) := by
  induction count generalizing rb queue rest alreadyWrite with
  | zero =>
      simp only [writeLoop, Prod.mk.injEq] at hloop
      obtain ⟨rfl, rfl, rfl, rfl⟩ := hloop
      exact ⟨0, Nat.zero_le _, rfl, rfl, by simpa using hrep, by simp⟩
  | succ count ih =>
      cases rest with
      | nil =>
          simp only [writeLoop, Prod.mk.injEq] at hloop
          obtain ⟨rfl, rfl, rfl, rfl⟩ := hloop
          exact ⟨0, le_rfl, rfl, rfl, by simpa using hrep, fun _ => .inl rfl⟩
      | cons byte rest =>
          have hwrite := represents_writeByte hrep (by omega) byte
          simp only [writeLoop] at hloop
          split at hloop
          · rename_i hlast
            simp only [Prod.mk.injEq] at hloop
            obtain ⟨rfl, rfl, rfl, rfl⟩ := hloop
            exact ⟨1, by simp, rfl, rfl, by simpa using hwrite, fun _ => .inr hlast⟩
          · obtain ⟨k, hk, halready, hrest, hrep', hdone⟩ :=
              ih hwrite (by simp only [List.length_append, List.length_singleton]; omega) hloop
            refine ⟨k + 1, by simpa using hk, by omega, by simpa using hrest, ?_, hdone⟩
            simpa using hrep'

/-- The read loop takes a prefix of the queue into the user buffer. -/
theorem readLoop_spec {count : ℕ} {rb rb' : PipeRingBuffer} {queue bytes : List UInt8}
    {space space' alreadyRead alreadyRead' wantToRead : ℕ} {done : Bool}
    (hrep : Represents rb queue) (hcount : count ≤ queue.length)
    (hloop : readLoop count rb space alreadyRead wantToRead =
      (rb', bytes, space', alreadyRead', done)) :
    ∃ k ≤ count, bytes = queue.take k ∧ Represents rb' (queue.drop k) ∧
      alreadyRead' = alreadyRead + k := by
  induction count generalizing rb queue space alreadyRead bytes space' alreadyRead' done with
  | zero =>
      simp only [readLoop, Prod.mk.injEq] at hloop
      obtain ⟨rfl, rfl, -, rfl, -⟩ := hloop
      exact ⟨0, le_rfl, rfl, hrep, rfl⟩
  | succ count ih =>
      cases queue with
      | nil => simp at hcount
      | cons byte queue =>
          obtain ⟨hfront, hread⟩ := represents_readByte hrep
          cases space with
          | zero =>
              simp only [readLoop, Prod.mk.injEq] at hloop
              obtain ⟨rfl, rfl, -, rfl, -⟩ := hloop
              exact ⟨0, Nat.zero_le _, rfl, hrep, rfl⟩
          | succ space =>
              simp only [readLoop] at hloop
              split at hloop
              · simp only [Prod.mk.injEq] at hloop
                obtain ⟨rfl, rfl, -, rfl, -⟩ := hloop
                exact ⟨1, by omega, by simp [hfront], by simpa using hread, rfl⟩
              · cases hrest : readLoop count rb.readByte.2 space (alreadyRead + 1) wantToRead with
                | mk rb'' tail =>
                    obtain ⟨bytes'', space'', alreadyRead'', done''⟩ := tail
                    rw [hrest] at hloop
                    simp only [Prod.mk.injEq] at hloop
                    obtain ⟨rfl, rfl, rfl, rfl, rfl⟩ := hloop
                    obtain ⟨k, hk, hbytes, hrep', halready⟩ :=
                      ih hread (by simp only [List.length_cons] at hcount; omega) hrest
                    exact ⟨k + 1, by omega, by simp [hbytes, hfront], by simpa using hrep', by omega⟩

end PipeRingBuffer

/-! ## One pipe under interleaved calls -/

/-- A `Pipe::write` call in progress: the bytes `buf_iter` has not yet yielded,
`already_write` and `want_to_write`. -/
structure WriteCall where
  rest : List UInt8
  alreadyWrite : ℕ
  wantToWrite : ℕ
  deriving DecidableEq, Repr

/-- A `Pipe::read` call in progress: the room left in the user buffer,
`already_read` and `want_to_read`. -/
structure ReadCall where
  space : ℕ
  alreadyRead : ℕ
  wantToRead : ℕ
  deriving DecidableEq, Repr

/-- One pipe, the call in progress on each end, and ghost logs: the bytes passed
to all write calls, the bytes `write_byte` stored, and the bytes `read_byte`
returned, each in order. -/
structure PipeSystem where
  buffer : PipeRingBuffer
  writeEndsClosed : Bool
  writer : Option WriteCall
  reader : Option ReadCall
  passed : List UInt8
  written : List UInt8
  returned : List UInt8

/-- What can happen next: a call starts on one end, a call in progress runs one
pass of its loop (a pass that finds no room or no data yields and changes
nothing), or the last write end is dropped. -/
inductive PipeOp
  | write (buf : List UInt8)
  | writePass
  | read (len : ℕ)
  | readPass
  | closeWriteEnd

namespace PipeSystem

/-- The pipe `make_pipe` creates. -/
def start : PipeSystem :=
  { buffer := .new, writeEndsClosed := false, writer := none, reader := none,
    passed := [], written := [], returned := [] }

/-- One pass of the `loop` of `Pipe::write` for the call in progress. -/
def writePass (sys : PipeSystem) (call : WriteCall) : PipeSystem :=
  if sys.buffer.availableWrite = 0 then sys
  else
    match PipeRingBuffer.writeLoop sys.buffer.availableWrite sys.buffer call.rest call.alreadyWrite call.wantToWrite with
    | (buffer, rest, alreadyWrite, done) =>
        { sys with
          buffer := buffer
          writer := if done then none else some { call with rest := rest, alreadyWrite := alreadyWrite }
          written := sys.written ++ call.rest.take (alreadyWrite - call.alreadyWrite) }

/-- One pass of the `loop` of `Pipe::read` for the call in progress. -/
def readPass (sys : PipeSystem) (call : ReadCall) : PipeSystem :=
  if sys.buffer.availableRead = 0 then
    if sys.writeEndsClosed then { sys with reader := none } else sys
  else
    match PipeRingBuffer.readLoop sys.buffer.availableRead sys.buffer call.space call.alreadyRead call.wantToRead with
    | (buffer, bytes, space, alreadyRead, done) =>
        { sys with
          buffer := buffer
          reader := if done then none else some { call with space := space, alreadyRead := alreadyRead }
          returned := sys.returned ++ bytes }

def step (sys : PipeSystem) : PipeOp → Option PipeSystem
  | .write buf =>
      if sys.writer.isNone ∧ sys.writeEndsClosed = false then
        some { sys with writer := some ⟨buf, 0, buf.length⟩, passed := sys.passed ++ buf }
      else none
  | .writePass => sys.writer.map sys.writePass
  | .read len =>
      if sys.reader.isNone then some { sys with reader := some ⟨len, 0, len⟩ } else none
  | .readPass => sys.reader.map sys.readPass
  | .closeWriteEnd =>
      if sys.writer.isNone then some { sys with writeEndsClosed := true } else none

/-- The bytes of the write call in progress that it has not stored yet. -/
def pending : Option WriteCall → List UInt8
  | some call => call.rest
  | none => []

/-- The pipe invariant: the buffer holds exactly the bytes stored and not yet
returned, the returned bytes are a prefix of the stored ones, and the stored
bytes followed by those still pending are the bytes passed to the writes. -/
structure Inv (sys : PipeSystem) : Prop where
  represents : sys.buffer.Represents (sys.written.drop sys.returned.length)
  returned_prefix : sys.returned <+: sys.written
  written_pending : sys.written ++ pending sys.writer = sys.passed
  writer_count : ∀ call, sys.writer = some call →
    call.alreadyWrite + call.rest.length = call.wantToWrite

theorem inv_start : Inv start where
  represents := PipeRingBuffer.represents_new
  returned_prefix := List.prefix_refl _
  written_pending := rfl
  writer_count := by simp [start]

theorem inv_writePass {sys : PipeSystem} (hinv : Inv sys) {call : WriteCall}
    (hcall : sys.writer = some call) : Inv (sys.writePass call) := by
  unfold writePass
  split_ifs with hroom
  · exact hinv
  rcases hloop : PipeRingBuffer.writeLoop sys.buffer.availableWrite sys.buffer call.rest
    call.alreadyWrite call.wantToWrite with ⟨buffer, rest, alreadyWrite, done⟩
  dsimp only
  have hrep := hinv.represents
  have hfits : (sys.written.drop sys.returned.length).length + sys.buffer.availableWrite ≤
      ringBufferSize := by
    rw [PipeRingBuffer.availableWrite_eq hrep]
    have := hrep.length_le
    omega
  obtain ⟨k, hkle, halready, hrest, hrep', hdone⟩ :=
    PipeRingBuffer.writeLoop_spec hrep hfits hloop
  have hcount := hinv.writer_count call hcall
  have hk : alreadyWrite - call.alreadyWrite = k := by omega
  -- a call that returns has taken all its bytes; one that yields keeps the rest
  have hpending : pending (if done then none
      else some { call with rest := rest, alreadyWrite := alreadyWrite }) = call.rest.drop k := by
    cases done with
    | false => simp [pending, hrest]
    | true =>
        rcases hdone rfl with hempty | hwant
        · simp [pending, ← hrest, hempty]
        · have hall : call.rest.length ≤ k := by omega
          simp [pending, List.drop_eq_nil_of_le hall]
  refine ⟨?_, ?_, ?_, ?_⟩
  · rw [hk, List.drop_append_of_le_length hinv.returned_prefix.length_le]
    exact hrep'
  · exact hinv.returned_prefix.trans (List.prefix_append _ _)
  · have hpassed := hinv.written_pending
    rw [hcall, pending] at hpassed
    rw [hpending, hk, List.append_assoc, List.take_append_drop, hpassed]
  · intro call' hcall'
    cases done with
    | true => simp at hcall'
    | false =>
        simp only [Bool.false_eq_true, if_false, Option.some.injEq] at hcall'
        subst hcall'
        simp only [hrest, List.length_drop]
        omega

theorem inv_readPass {sys : PipeSystem} (hinv : Inv sys) (call : ReadCall) :
    Inv (sys.readPass call) := by
  unfold readPass
  split_ifs with hdata hclosed
  · exact { hinv with }
  · exact hinv
  rcases hloop : PipeRingBuffer.readLoop sys.buffer.availableRead sys.buffer call.space
    call.alreadyRead call.wantToRead with ⟨buffer, bytes, space, alreadyRead, done⟩
  dsimp only
  -- the buffer holds `extra`, the stored bytes not yet returned
  obtain ⟨extra, hextra⟩ := hinv.returned_prefix
  have hrep := hinv.represents
  rw [← hextra, List.drop_left] at hrep
  have havail := PipeRingBuffer.availableRead_eq hrep
  obtain ⟨k, hk, hbytes, hrep', -⟩ := PipeRingBuffer.readLoop_spec hrep havail.le hloop
  have hlen : (sys.returned ++ bytes).length = sys.returned.length + k := by
    rw [List.length_append, hbytes, List.length_take_of_le (by omega)]
  refine ⟨?_, ?_, hinv.written_pending, hinv.writer_count⟩
  · rw [hlen, ← hextra, ← List.drop_drop, List.drop_left]
    exact hrep'
  · rw [← hextra, hbytes]
    exact List.prefix_append_right_inj _ |>.2 (List.take_prefix k extra)

/-- A new write call on an idle write end queues its whole buffer as pending. -/
theorem inv_write {sys : PipeSystem} (hinv : Inv sys) (hidle : sys.writer = none)
    (buf : List UInt8) :
    Inv { sys with writer := some ⟨buf, 0, buf.length⟩, passed := sys.passed ++ buf } where
  represents := hinv.represents
  returned_prefix := hinv.returned_prefix
  written_pending := by
    have hpassed := hinv.written_pending
    rw [hidle, pending, List.append_nil] at hpassed
    rw [pending, hpassed]
  writer_count := by simp

theorem inv_step {sys : PipeSystem} (hinv : Inv sys) :
    ∀ op next, sys.step op = some next → Inv next := by
  intro op next hstep
  cases op with
  | write buf =>
      simp only [step] at hstep
      split_ifs at hstep with hidle
      cases hstep
      exact inv_write hinv (Option.isNone_iff_eq_none.1 hidle.1) buf
  | writePass =>
      cases hcall : sys.writer with
      | none => simp [step, hcall] at hstep
      | some call =>
          simp only [step, hcall, Option.map_some, Option.some.injEq] at hstep
          subst hstep
          exact inv_writePass hinv hcall
  | read len =>
      simp only [step] at hstep
      split_ifs at hstep
      cases hstep
      exact { hinv with }
  | readPass =>
      cases hcall : sys.reader with
      | none => simp [step, hcall] at hstep
      | some call =>
          simp only [step, hcall, Option.map_some, Option.some.injEq] at hstep
          subst hstep
          exact inv_readPass hinv call
  | closeWriteEnd =>
      simp only [step] at hstep
      split_ifs at hstep
      cases hstep
      exact { hinv with }

theorem inv_of_reachable {sys : PipeSystem} (hreach : Reachable step start sys) : Inv sys :=
  hreach.invariant inv_start fun _ op _ hinv hstep => inv_step hinv op _ hstep

/-- No byte is lost or made up: the bytes returned, then those in the buffer,
then those the write in progress still holds, are the bytes passed. -/
theorem Inv.conserves {sys : PipeSystem} (hinv : Inv sys) :
    sys.returned ++ sys.written.drop sys.returned.length ++ pending sys.writer = sys.passed := by
  rw [← List.prefix_append_drop hinv.returned_prefix]
  exact hinv.written_pending

/-- Once no write is in progress, every byte passed has been stored. -/
theorem Inv.written_eq_passed {sys : PipeSystem} (hinv : Inv sys) (hidle : sys.writer = none) :
    sys.written = sys.passed := by
  have hpending := hinv.written_pending
  rw [hidle, pending, List.append_nil] at hpending
  exact hpending

end PipeSystem

open PipeSystem in
/-- For every interleaving of write and read calls on one pipe: the bytes read
so far are a prefix of the bytes stored; the bytes stored followed by those the
write in progress has not stored yet are the bytes passed to the writes, so the
bytes returned, then those in the buffer, then those pending are exactly the
bytes passed, and with no write in progress every byte passed is stored; the
buffer holds exactly the stored bytes not yet read, in order; and its counters
and status agree with that count. -/
theorem pipe_reads_prefix_of_writes {sys : PipeSystem} (hreach : Reachable step start sys) :
    sys.returned <+: sys.written ∧ sys.written ++ pending sys.writer = sys.passed ∧
      sys.returned ++ sys.written.drop sys.returned.length ++ pending sys.writer = sys.passed ∧
      (sys.writer = none → sys.written = sys.passed) ∧
      sys.buffer.Represents (sys.written.drop sys.returned.length) ∧
      sys.buffer.availableRead + sys.buffer.availableWrite = ringBufferSize ∧
      sys.buffer.availableRead = sys.written.length - sys.returned.length ∧
      (sys.buffer.status = .empty ↔ sys.written.length - sys.returned.length = 0) ∧
      (sys.buffer.status = .full ↔
        sys.written.length - sys.returned.length = ringBufferSize) := by
  have hinv := inv_of_reachable hreach
  have hrep := hinv.represents
  have hcount := List.length_drop (l := sys.written) (i := sys.returned.length)
  refine ⟨hinv.returned_prefix, hinv.written_pending, hinv.conserves, hinv.written_eq_passed, hrep,
    ?_, ?_, ?_, ?_⟩
  · rw [PipeRingBuffer.availableRead_eq hrep, PipeRingBuffer.availableWrite_eq hrep]
    have := hrep.length_le
    omega
  · rw [PipeRingBuffer.availableRead_eq hrep, hcount]
  · rw [PipeRingBuffer.status_eq_empty_iff hrep, hcount]
  · rw [PipeRingBuffer.status_eq_full_iff hrep, hcount]

/-- After a two-byte write and a one-byte read: the byte read, the byte left in
the buffer and nothing pending make up the two bytes written, and one byte is
left to read. -/
theorem pipe_reads_prefix_of_writes_after_partial_read :
    [7] ++ ([7, 8] : List UInt8).drop 1 ++ [] = [7, 8] ∧
      ((PipeRingBuffer.new.writeByte 7).writeByte 8).readByte.2.availableRead = 2 - 1 := by
  have hrun : runSteps PipeSystem.step PipeSystem.start
      [.write [7, 8], .writePass, .read 1, .readPass] =
      some
        { buffer := ((PipeRingBuffer.new.writeByte 7).writeByte 8).readByte.2
          writeEndsClosed := false
          writer := none
          reader := none
          passed := [7, 8]
          written := [7, 8]
          returned := [7] } := by
    rfl
  have h := pipe_reads_prefix_of_writes (reachable_of_runSteps hrun)
  exact ⟨h.2.2.1, h.2.2.2.2.2.2.1⟩

end ChaosKernel.Pipe
