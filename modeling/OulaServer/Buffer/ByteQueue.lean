import OulaServer.Buffer.Basic
import OulaServer.Lib.Run

/-!
# `Buffer` is a byte queue

What a buffer is for, in its own terms: a queue of bytes. `ByteQueue.step` is that specification:
what is appended or received goes to the end, what is retrieved leaves from the front, and making
room changes nothing. `Buffer.step` runs the operations of `Buffer` under the same inputs.

`Refines` relates a buffer to its queue: the representation invariant holds and the readable bytes
are the queue. `step_refines` is one operation, and `buffer_refines_byteQueue` every sequence of
operations whose asserted preconditions (`Pre`) hold.
-/

namespace OulaServer

/-- One operation on a buffer, with the answer of `readv` for `readFd`. `write` is a caller that
stores bytes from `beginWrite()` on and calls `hasWritten`. -/
inductive BufferOp where
  | append (data : List UInt8)
  | readFd (received : Option (List UInt8))
  | ensureWritableBytes (len : Nat)
  | write (data : List UInt8)
  | retrieve (len : Nat)
  | retrieveAll
  | retrieveAsString (len : Nat)
  | retrieveAllAsString

/-- What an operation returns. -/
inductive BufferResult where
  | void
  | size (n : Int)
  | string (bytes : List UInt8)
  deriving DecidableEq, Repr

namespace ByteQueue

/-- The queue after one operation, and what the operation returns. -/
def step (q : List UInt8) : BufferOp → List UInt8 × BufferResult
  | .append data => (q ++ data, .void)
  | .readFd none => (q, .size (-1))
  | .readFd (some bytes) => (q ++ bytes, .size bytes.length)
  | .ensureWritableBytes _ => (q, .void)
  | .write data => (q ++ data, .void)
  | .retrieve len => (q.drop len, .void)
  | .retrieveAll => ([], .void)
  | .retrieveAsString len => (q.drop len, .string (q.take len))
  | .retrieveAllAsString => ([], .string q)

end ByteQueue

namespace Buffer

/-- The buffer after one operation, and what the operation returns. -/
def step (b : Buffer) : BufferOp → Except Abort (Buffer × BufferResult)
  | .append data => do
      let b ← b.append data
      return (b, .void)
  | .readFd received => do
      let (b, n) ← b.readFd received
      return (b, .size n)
  | .ensureWritableBytes len => do
      let b ← b.ensureWritableBytes len
      return (b, .void)
  | .write data => do
      b.begin
      let b ← (b.store data).hasWritten data.length
      return (b, .void)
  | .retrieve len => do
      let b ← b.retrieve len
      return (b, .void)
  | .retrieveAll => .ok (b.retrieveAll, .void)
  | .retrieveAsString len => do
      let (b, str) ← b.retrieveAsString len
      return (b, .string str)
  | .retrieveAllAsString => do
      let (b, str) ← b.retrieveAllAsString
      return (b, .string str)

/-- The asserted precondition of each operation, and for `readFd` that `readv` respects the lengths
of the iovecs. -/
def Pre (b : Buffer) : BufferOp → Prop
  | .readFd (some bytes) => bytes.length ≤ b.readvRoom
  | .write data => data.length ≤ b.writableBytes
  | .retrieve len => len ≤ b.readableBytes
  | .retrieveAsString len => len ≤ b.readableBytes
  | _ => True

instance (b : Buffer) : (op : BufferOp) → Decidable (b.Pre op)
  | .readFd (some bytes) => inferInstanceAs (Decidable (bytes.length ≤ b.readvRoom))
  | .write data => inferInstanceAs (Decidable (data.length ≤ b.writableBytes))
  | .retrieve len | .retrieveAsString len => inferInstanceAs (Decidable (len ≤ b.readableBytes))
  | .append _ | .readFd none | .ensureWritableBytes _ | .retrieveAll | .retrieveAllAsString =>
      .isTrue trivial

/-- The buffer represents the queue. -/
structure Refines (b : Buffer) (q : List UInt8) : Prop where
  valid : b.Valid
  content : b.readable = q

theorem step_refines (b : Buffer) (q : List UInt8) (op : BufferOp) (h : b.Refines q) (hpre : b.Pre op) :
    ∃ b', b.step op = .ok (b', (ByteQueue.step q op).2) ∧ b'.Refines (ByteQueue.step q op).1 := by
  obtain ⟨hvalid, rfl⟩ := h
  cases op with
  | append data =>
      obtain ⟨b', hb', hvalid', hread⟩ := append_spec hvalid data
      exact ⟨b', by simp only [step, hb']; rfl, hvalid', hread⟩
  | readFd received =>
      cases received with
      | none => exact ⟨b, by simp only [step, readFd_none hvalid]; rfl, hvalid, rfl⟩
      | some bytes =>
          obtain ⟨b', hb', hvalid', hread⟩ := readFd_some hvalid bytes
          exact ⟨b', by simp only [step, hb']; rfl, hvalid', hread⟩
  | ensureWritableBytes len =>
      obtain ⟨b', hb', hvalid', hread, _⟩ := ensureWritableBytes_spec hvalid len
      exact ⟨b', by simp only [step, hb']; rfl, hvalid', hread⟩
  | write data =>
      obtain ⟨hvalid', hread⟩ := store_valid hvalid hpre
      have hroom : data.length ≤ (b.store data).writableBytes := by
        rw [writableBytes_store hvalid hpre]
        exact hpre
      refine ⟨_, ?_, hvalid', hread⟩
      simp only [step, begin_ok hvalid, hasWritten_ok hroom]
      rfl
  | retrieve len =>
      obtain ⟨b', hb', hvalid', hread⟩ := retrieve_spec hvalid hpre
      exact ⟨b', by simp only [step, hb']; rfl, hvalid', hread⟩
  | retrieveAll =>
      obtain ⟨hvalid', hread⟩ := retrieveAll_valid hvalid
      exact ⟨b.retrieveAll, rfl, hvalid', hread⟩
  | retrieveAsString len =>
      obtain ⟨b', hb', hvalid', hread⟩ := retrieveAsString_spec hvalid hpre
      exact ⟨b', by simp only [step, hb']; rfl, hvalid', hread⟩
  | retrieveAllAsString =>
      obtain ⟨b', hb', hvalid', hread⟩ := retrieveAsString_spec hvalid (Nat.le_refl b.readableBytes)
      rw [← length_readable hvalid, List.take_length] at hb'
      rw [← length_readable hvalid, List.drop_length] at hread
      refine ⟨b', ?_, hvalid', hread⟩
      simp only [step, retrieveAllAsString, ← length_readable hvalid, hb']
      rfl

open Run

/-- **A buffer is a byte queue.** Every sequence of operations whose asserted preconditions hold runs
without a failed assertion, returns what the queue returns, and ends in a buffer that represents the
queue; from there `ensureWritableBytes` makes the room asked for without touching the content, and a
failed `readFd` changes nothing. -/
theorem buffer_refines_byteQueue (initSize : Nat) (hsize : 1 ≤ initSize) (ops : List BufferOp)
    (hpre : Along (stateStep step) Pre (new initSize) ops) :
    ∃ b, exec step (new initSize) ops = .ok (b, (specExec ByteQueue.step [] ops).2) ∧
      (b.readerIdx ≤ b.writerIdx ∧ b.writerIdx ≤ b.buffer.length) ∧
      b.readable = (specExec ByteQueue.step [] ops).1 ∧
      (∀ len, ∃ b', b.ensureWritableBytes len = .ok b' ∧ len ≤ b'.writableBytes ∧
        b'.readable = b.readable) ∧
      b.readFd none = .ok (b, -1) := by
  have hnew : (new initSize).Refines [] := ⟨new_valid hsize, readable_new initSize⟩
  obtain ⟨b, hexec, hvalid, hread⟩ := exec_refines step_refines hnew hpre
  refine ⟨b, hexec, ⟨hvalid.reader_le, hvalid.writer_le⟩, hread, fun len => ?_, readFd_none hvalid⟩
  obtain ⟨b', hb', _, hread', hwrite⟩ := ensureWritableBytes_spec hvalid len
  exact ⟨b', hb', hwrite, hread'⟩

/-- A run that slides the content to the front, drains the buffer and reads past the vector's end. -/
theorem buffer_refines_byteQueue_run :
    ∃ b, exec step (new 4) [.append [1, 2, 3], .retrieve 2, .append [4, 5, 6], .retrieveAsString 4,
        .readFd (some [7, 8, 9, 10, 11]), .readFd none] =
        .ok (b, [.void, .void, .void, .string [3, 4, 5, 6], .size 5, .size (-1)]) ∧
      b.readable = [7, 8, 9, 10, 11] := by
  obtain ⟨b, hexec, _, hread, _⟩ := buffer_refines_byteQueue 4 (by decide)
    [.append [1, 2, 3], .retrieve 2, .append [4, 5, 6], .retrieveAsString 4,
      .readFd (some [7, 8, 9, 10, 11]), .readFd none] (by decide)
  exact ⟨b, hexec, hread⟩

end Buffer

end OulaServer
