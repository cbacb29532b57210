import OulaServer.Abort
import OulaServer.Lib.Region

/-!
# `Buffer`

The byte buffer of `net/Buffer.h` and `net/Buffer.cpp`: a vector with a reader and a writer index,
the readable bytes standing between them. Sizes are natural numbers; the source's `size_t` does not
wrap as long as `writerIdx_ + len` does not.

Each operation has one specification (`append_spec`, `retrieve_spec`, `readFd_spec`, ...): from a
`Valid` buffer and under the operation's own assertion it fails no assertion, its result is `Valid`,
and the readable bytes change as the operation's name says.
-/

namespace OulaServer

open Region

structure Buffer where
  buffer : List UInt8
  readerIdx : Nat
  writerIdx : Nat
  deriving DecidableEq, Repr

namespace Buffer

def kCheapPrepend : Nat := 0

def kInitSize : Nat := 1024

/-- `ExtraBufSize` of `Buffer.cpp`. -/
def extraBufSize : Nat := 65535

def new (initSize : Nat) : Buffer := ⟨List.replicate initSize 0, kCheapPrepend, kCheapPrepend⟩

def readableBytes (b : Buffer) : Nat := b.writerIdx - b.readerIdx

def writableBytes (b : Buffer) : Nat := b.buffer.length - b.writerIdx

def prependableBytes (b : Buffer) : Nat := b.readerIdx

/-- `&(*(buffer_.begin()))` needs a vector that is not empty. -/
def begin (b : Buffer) : Except Abort Unit := check (0 < b.buffer.length) .bufferBegin

/-- The content, `readableBytes()` bytes from `peek()` on. -/
def readable (b : Buffer) : List UInt8 := slice b.buffer b.readerIdx b.readableBytes

def hasWritten (b : Buffer) (len : Nat) : Except Abort Buffer := do
  check (len ≤ b.writableBytes) .hasWritten
  return { b with writerIdx := b.writerIdx + len }

/-- The copy to the front of the vector (`std::copy` to a lower address) in `makeSpace`. -/
def slide (b : Buffer) : Buffer :=
  { buffer := overwrite b.buffer kCheapPrepend b.readable
    readerIdx := kCheapPrepend
    writerIdx := kCheapPrepend + b.readableBytes }

def makeSpace (b : Buffer) (len : Nat) : Except Abort Buffer := do
  let remainLen := b.writableBytes + b.prependableBytes
  if remainLen < len + kCheapPrepend then
    return { b with buffer := resize b.buffer (b.writerIdx + len) 0 }
  else
    check (kCheapPrepend < b.readerIdx) .makeSpaceReader
    b.begin
    check (b.readableBytes = b.slide.readableBytes) .makeSpaceReadable
    return b.slide

def ensureWritableBytes (b : Buffer) (len : Nat) : Except Abort Buffer := do
  let b ← if b.writableBytes < len then b.makeSpace len else .ok b
  check (len ≤ b.writableBytes) .ensureWritableBytes
  return b

/-- Bytes stored from `beginWrite()` on. -/
def store (b : Buffer) (data : List UInt8) : Buffer :=
  { b with buffer := overwrite b.buffer b.writerIdx data }

def append (b : Buffer) (data : List UInt8) : Except Abort Buffer := do
  let b ← b.ensureWritableBytes data.length
  b.begin
  (b.store data).hasWritten data.length

def retrieveAll (b : Buffer) : Buffer := { b with readerIdx := kCheapPrepend, writerIdx := kCheapPrepend }

def retrieve (b : Buffer) (len : Nat) : Except Abort Buffer := do
  check (len ≤ b.readableBytes) .retrieve
  if len < b.readableBytes then
    return { b with readerIdx := b.readerIdx + len }
  else if len = b.readableBytes then
    return b.retrieveAll
  else
    return b

def retrieveAsString (b : Buffer) (len : Nat) : Except Abort (Buffer × List UInt8) := do
  check (len ≤ b.readableBytes) .retrieveAsString
  b.begin
  let str := slice b.buffer b.readerIdx len
  let b ← b.retrieve len
  return (b, str)

def retrieveAllAsString (b : Buffer) : Except Abort (Buffer × List UInt8) :=
  b.retrieveAsString b.readableBytes

/-- The number of iovecs passed to `readv`. -/
def iocnt (b : Buffer) : Nat := if b.writableBytes < extraBufSize then 2 else 1

/-- The bytes that the iovecs can take. -/
def readvRoom (b : Buffer) : Nat := b.writableBytes + if b.iocnt = 2 then extraBufSize else 0

/-- `readFd` with the answer of `readv`: `none` for `-1`, else the bytes it received, which fill the
tail of the vector first and `extraBuf` after it. The result is the source's `ssize_t`. -/
def readFd (b : Buffer) : Option (List UInt8) → Except Abort (Buffer × Int)
  | none => do
      b.begin
      return (b, -1)
  | some bytes => do
      b.begin
      let writableSz := b.writableBytes
      let extraBuf := bytes.drop writableSz
      let b := b.store (bytes.take writableSz)
      if bytes.length ≤ writableSz then
        return ({ b with writerIdx := b.writerIdx + bytes.length }, bytes.length)
      else
        let b := { b with writerIdx := b.buffer.length }
        let b ← b.append (extraBuf.take (bytes.length - writableSz))
        return (b, bytes.length)

/-! ### The representation invariant -/

/-- `0 <= readerIdx_ <= writerIdx_ <= buffer_.size()`, over a vector with a first element. -/
structure Valid (b : Buffer) : Prop where
  pos : 0 < b.buffer.length
  reader_le : b.readerIdx ≤ b.writerIdx
  writer_le : b.writerIdx ≤ b.buffer.length

variable {b : Buffer} {len : Nat} {data : List UInt8}

theorem new_valid {initSize : Nat} (h : 1 ≤ initSize) : (new initSize).Valid :=
  ⟨by simp only [new, List.length_replicate]; omega, Nat.le_refl _, Nat.zero_le _⟩

@[simp] theorem readable_new (initSize : Nat) : (new initSize).readable = [] := by
  simp [readable, readableBytes, new]

theorem begin_ok (h : b.Valid) : b.begin = .ok () := check_pos h.pos

theorem length_readable (h : b.Valid) : b.readable.length = b.readableBytes := by
  refine length_slice ?_
  have := h.reader_le
  have := h.writer_le
  simp only [readableBytes]
  omega

theorem readable_eq_nil (h : b.Valid) : b.readable = [] ↔ b.readableBytes = 0 := by
  rw [← length_readable h, List.length_eq_zero_iff]

/-! ### Writing -/

theorem hasWritten_ok (hlen : len ≤ b.writableBytes) :
    b.hasWritten len = .ok { b with writerIdx := b.writerIdx + len } := by
  simp only [hasWritten, check_pos hlen, ok_bind]
  rfl

theorem writableBytes_store (h : b.Valid) (hlen : data.length ≤ b.writableBytes) :
    (b.store data).writableBytes = b.writableBytes := by
  have hw := h.writer_le
  simp only [writableBytes] at hlen
  simp only [writableBytes, store]
  rw [length_overwrite (by omega)]

theorem store_valid (h : b.Valid) (hlen : data.length ≤ b.writableBytes) :
    Valid { b.store data with writerIdx := b.writerIdx + data.length } ∧
      readable { b.store data with writerIdx := b.writerIdx + data.length } = b.readable ++ data := by
  have hr := h.reader_le
  have hw := h.writer_le
  simp only [writableBytes] at hlen
  have hstore : (overwrite b.buffer b.writerIdx data).length = b.buffer.length :=
    length_overwrite (by omega)
  refine ⟨⟨?_, ?_, ?_⟩, ?_⟩
  · simpa only [store, hstore] using h.pos
  · show b.readerIdx ≤ b.writerIdx + data.length
    omega
  · show b.writerIdx + data.length ≤ (overwrite b.buffer b.writerIdx data).length
    omega
  · have hsplit : b.writerIdx + data.length - b.readerIdx = b.readableBytes + data.length := by
      simp only [readableBytes]
      omega
    have hend : b.readerIdx + b.readableBytes = b.writerIdx := by
      simp only [readableBytes]
      omega
    show slice (overwrite b.buffer b.writerIdx data) b.readerIdx
      (b.writerIdx + data.length - b.readerIdx) = b.readable ++ data
    rw [hsplit, slice_add, hend, slice_overwrite_same hw, slice_overwrite_before (by omega) hw, readable]

theorem slide_valid (h : b.Valid) :
    b.slide.Valid ∧ b.slide.readable = b.readable ∧ b.slide.readableBytes = b.readableBytes ∧
      b.slide.writableBytes = b.writableBytes + b.prependableBytes := by
  have hr := h.reader_le
  have hw := h.writer_le
  have hlen := length_readable h
  have hsize : b.slide.buffer.length = b.buffer.length := by
    refine length_overwrite ?_
    rw [hlen]
    simp only [kCheapPrepend, readableBytes]
    omega
  have hbytes : b.slide.readableBytes = b.readableBytes := by
    simp only [readableBytes, slide]
    omega
  refine ⟨⟨?_, ?_, ?_⟩, ?_, hbytes, ?_⟩
  · rw [hsize]
    exact h.pos
  · simp only [slide]
    omega
  · rw [hsize]
    simp only [slide, kCheapPrepend, readableBytes]
    omega
  · rw [readable, hbytes, ← hlen]
    exact slice_overwrite_same (by simp [kCheapPrepend])
  · simp only [writableBytes, hsize, prependableBytes]
    simp only [slide, kCheapPrepend, readableBytes]
    omega

/-- `makeSpace`, called when the room behind the writer index is too small. -/
theorem makeSpace_spec (h : b.Valid) (hlt : b.writableBytes < len) :
    ∃ b', b.makeSpace len = .ok b' ∧ b'.Valid ∧ b'.readable = b.readable ∧ len ≤ b'.writableBytes := by
  have hr := h.reader_le
  have hw := h.writer_le
  unfold makeSpace
  by_cases hroom : b.writableBytes + b.prependableBytes < len + kCheapPrepend
  · rw [if_pos hroom]
    simp only [writableBytes] at hlt
    refine ⟨_, rfl, ⟨?_, hr, ?_⟩, ?_, ?_⟩
    · simp only [length_resize]
      omega
    · simp only [length_resize]
      omega
    · exact slice_resize (by simp only [readableBytes]; omega) (by omega)
    · simp only [writableBytes, length_resize]
      omega
  · rw [if_neg hroom]
    obtain ⟨hvalid, hread, hbytes, hwrite⟩ := slide_valid h
    have hreader : kCheapPrepend < b.readerIdx := by
      simp only [prependableBytes, kCheapPrepend] at hroom ⊢
      omega
    refine ⟨b.slide, ?_, hvalid, hread, ?_⟩
    · rw [check_pos hreader, begin_ok h, check_pos hbytes.symm]
      rfl
    · simp only [kCheapPrepend] at hroom
      omega

theorem ensureWritableBytes_spec (h : b.Valid) (len : Nat) :
    ∃ b', b.ensureWritableBytes len = .ok b' ∧ b'.Valid ∧ b'.readable = b.readable ∧
      len ≤ b'.writableBytes := by
  unfold ensureWritableBytes
  by_cases hlt : b.writableBytes < len
  · obtain ⟨b', hb', hvalid, hread, hwrite⟩ := makeSpace_spec h hlt
    refine ⟨b', ?_, hvalid, hread, hwrite⟩
    simp only [if_pos hlt, hb', ok_bind, check_pos hwrite]
    rfl
  · have hwrite : len ≤ b.writableBytes := by omega
    refine ⟨b, ?_, h, rfl, hwrite⟩
    simp only [if_neg hlt, ok_bind, check_pos hwrite]
    rfl

theorem append_spec (h : b.Valid) (data : List UInt8) :
    ∃ b', b.append data = .ok b' ∧ b'.Valid ∧ b'.readable = b.readable ++ data := by
  obtain ⟨b₁, hb₁, hvalid, hread, hwrite⟩ := ensureWritableBytes_spec h data.length
  obtain ⟨hvalid', hread'⟩ := store_valid hvalid hwrite
  refine ⟨_, ?_, hvalid', by rw [hread', hread]⟩
  have hroom : data.length ≤ (b₁.store data).writableBytes := by
    rw [writableBytes_store hvalid hwrite]
    exact hwrite
  rw [append, hb₁, ok_bind, begin_ok hvalid, ok_bind, hasWritten_ok hroom]
  rfl

/-! ### Reading -/

theorem retrieveAll_valid (h : b.Valid) : b.retrieveAll.Valid ∧ b.retrieveAll.readable = [] := by
  refine ⟨⟨h.pos, Nat.le_refl _, Nat.zero_le _⟩, ?_⟩
  simp [readable, readableBytes, retrieveAll]

theorem retrieve_spec (h : b.Valid) (hlen : len ≤ b.readableBytes) :
    ∃ b', b.retrieve len = .ok b' ∧ b'.Valid ∧ b'.readable = b.readable.drop len := by
  have hr := h.reader_le
  have hw := h.writer_le
  rw [retrieve, check_pos hlen, ok_bind]
  by_cases hlt : len < b.readableBytes
  · rw [if_pos hlt]
    simp only [readableBytes] at hlt
    refine ⟨_, rfl, ⟨h.pos, ?_, hw⟩, ?_⟩
    · show b.readerIdx + len ≤ b.writerIdx
      omega
    · have hsplit : b.readableBytes = len + (b.writerIdx - (b.readerIdx + len)) := by
        simp only [readableBytes]
        omega
      rw [readable, readable, hsplit, slice_drop]
      rfl
  · have heq : len = b.readableBytes := by omega
    rw [if_neg hlt, if_pos heq]
    obtain ⟨hvalid, hread⟩ := retrieveAll_valid h
    refine ⟨_, rfl, hvalid, ?_⟩
    rw [hread, List.drop_of_length_le (by rw [length_readable h]; omega)]

theorem retrieveAsString_spec (h : b.Valid) (hlen : len ≤ b.readableBytes) :
    ∃ b', b.retrieveAsString len = .ok (b', b.readable.take len) ∧ b'.Valid ∧
      b'.readable = b.readable.drop len := by
  obtain ⟨b', hb', hvalid, hread⟩ := retrieve_spec h hlen
  refine ⟨b', ?_, hvalid, hread⟩
  have htake : slice b.buffer b.readerIdx len = b.readable.take len := by
    have hsplit : b.readableBytes = len + (b.readableBytes - len) := by omega
    rw [readable, hsplit, slice_take]
  rw [retrieveAsString, check_pos hlen, ok_bind, begin_ok h, ok_bind, htake, hb']
  rfl

/-! ### Reading from a descriptor -/

theorem readFd_none (h : b.Valid) : b.readFd none = .ok (b, -1) := by
  rw [readFd, begin_ok h]
  rfl

/-- What `readv` received is appended in order, also when it spills into `extraBuf`. -/
theorem readFd_some (h : b.Valid) (bytes : List UInt8) :
    ∃ b', b.readFd (some bytes) = .ok (b', bytes.length) ∧ b'.Valid ∧
      b'.readable = b.readable ++ bytes := by
  have hr := h.reader_le
  have hw := h.writer_le
  rw [readFd, begin_ok h, ok_bind]
  by_cases hfit : bytes.length ≤ b.writableBytes
  · have htake : bytes.take b.writableBytes = bytes := List.take_of_length_le hfit
    obtain ⟨hvalid, hread⟩ := store_valid h hfit
    refine ⟨_, ?_, hvalid, hread⟩
    simp only [if_pos hfit, htake]
    rfl
  · -- the tail of the vector is full: the rest is appended from `extraBuf`
    have hlen : (bytes.take b.writableBytes).length = b.writableBytes :=
      List.length_take_of_le (by omega)
    obtain ⟨hvalid, hread⟩ := store_valid h (le_of_eq hlen)
    have hfull : b.writerIdx + (bytes.take b.writableBytes).length =
        (b.store (bytes.take b.writableBytes)).buffer.length := by
      simp only [writableBytes] at hlen
      simp only [store, writableBytes]
      rw [length_overwrite (by omega)]
      omega
    rw [hfull] at hvalid hread
    obtain ⟨b', hb', hvalid', hread'⟩ := append_spec hvalid
      ((bytes.drop b.writableBytes).take (bytes.length - b.writableBytes))
    refine ⟨b', ?_, hvalid', ?_⟩
    · simp only [if_neg hfit, hb', ok_bind]
      rfl
    · have hrest : (bytes.drop b.writableBytes).take (bytes.length - b.writableBytes) =
          bytes.drop b.writableBytes := List.take_of_length_le (by rw [List.length_drop])
      rw [hread', hread, List.append_assoc, hrest, List.take_append_drop]

end Buffer

end OulaServer
