import OulaServer.Buffer.ByteQueue

/-!
# How large a buffer gets

`makeSpace` slides the content to the front or makes the vector larger, and nothing makes it smaller. `Metered` is a
buffer with the most bytes that it ever had to have room for at once (`BufferOp.demand`). The vector is made larger only
when the room in front of the content is smaller than what is asked for, so a new size is at most twice the demand of
that operation (`makeSpace_size`), and the vector never gets larger than that of the highest demand
(`size_le_of_along`), however many bytes go through it.
-/

namespace OulaServer

open Region

/-- The bytes that the buffer is to have room for in an operation. -/
def BufferOp.demand (b : Buffer) : BufferOp → Nat
  | .append data | .write data => b.readableBytes + data.length
  | .readFd (some bytes) => b.readableBytes + bytes.length
  | .ensureWritableBytes len => b.readableBytes + len
  | .readFd none | .retrieve _ | .retrieveAll | .retrieveAsString _ | .retrieveAllAsString => b.readableBytes

/-- A buffer with the highest demand so far. -/
structure Metered where
  buffer : Buffer
  peak : Nat

namespace Buffer

variable {b b' : Buffer} {len : Nat} {data : List UInt8}

theorem makeSpace_size (h : b.Valid) (hok : b.makeSpace len = .ok b') :
    b'.buffer.length ≤ max b.buffer.length (2 * (b.readableBytes + len)) := by
  have hr := h.reader_le
  have hw := h.writer_le
  unfold makeSpace at hok
  dsimp only at hok
  split at hok
  · next hroom =>
    cases hok
    simp only [prependableBytes, kCheapPrepend, writableBytes] at hroom
    simp only [length_resize, readableBytes]
    omega
  · obtain ⟨_, _, hok⟩ := bind_eq_ok.mp hok
    obtain ⟨_, _, hok⟩ := bind_eq_ok.mp hok
    obtain ⟨_, _, hok⟩ := bind_eq_ok.mp hok
    cases hok
    have hsize : b.slide.buffer.length = b.buffer.length := by
      refine length_overwrite ?_
      rw [length_readable h]
      simp only [kCheapPrepend, readableBytes]
      omega
    omega

theorem ensureWritableBytes_size (h : b.Valid) (hok : b.ensureWritableBytes len = .ok b') :
    b'.buffer.length ≤ max b.buffer.length (2 * (b.readableBytes + len)) := by
  unfold ensureWritableBytes at hok
  split at hok
  · obtain ⟨b₁, hspace, hok⟩ := bind_eq_ok.mp hok
    obtain ⟨_, _, hok⟩ := bind_eq_ok.mp hok
    cases hok
    exact makeSpace_size h hspace
  · rw [ok_bind] at hok
    obtain ⟨_, _, hok⟩ := bind_eq_ok.mp hok
    cases hok
    exact Nat.le_max_left _ _

theorem hasWritten_size (hok : b.hasWritten len = .ok b') : b'.buffer.length = b.buffer.length := by
  obtain ⟨_, _, hok⟩ := bind_eq_ok.mp hok
  cases hok
  rfl

theorem store_size (h : b.Valid) (hlen : data.length ≤ b.writableBytes) :
    (b.store data).buffer.length = b.buffer.length := by
  have hw := h.writer_le
  simp only [writableBytes] at hlen
  exact length_overwrite (by omega)

theorem append_size (h : b.Valid) (hok : b.append data = .ok b') :
    b'.buffer.length ≤ max b.buffer.length (2 * (b.readableBytes + data.length)) := by
  obtain ⟨b₁, hspace, hok⟩ := bind_eq_ok.mp hok
  obtain ⟨_, _, hok⟩ := bind_eq_ok.mp hok
  obtain ⟨b₁', hspace', hvalid, _, hwrite⟩ := ensureWritableBytes_spec h data.length
  cases hspace'.symm.trans hspace
  rw [hasWritten_size hok, store_size hvalid hwrite]
  exact ensureWritableBytes_size h hspace

theorem retrieve_size (hok : b.retrieve len = .ok b') : b'.buffer.length = b.buffer.length := by
  obtain ⟨_, _, hok⟩ := bind_eq_ok.mp hok
  split at hok
  · cases hok
    rfl
  · split at hok
    · cases hok
      rfl
    · cases hok
      rfl

theorem retrieveAsString_size {str : List UInt8} (hok : b.retrieveAsString len = .ok (b', str)) :
    b'.buffer.length = b.buffer.length := by
  obtain ⟨_, _, hok⟩ := bind_eq_ok.mp hok
  obtain ⟨_, _, hok⟩ := bind_eq_ok.mp hok
  obtain ⟨b₁, hretrieve, hok⟩ := bind_eq_ok.mp hok
  cases hok
  exact retrieve_size hretrieve

theorem readFd_size (h : b.Valid) {bytes : List UInt8} {n : Int} (hok : b.readFd (some bytes) = .ok (b', n)) :
    b'.buffer.length ≤ max b.buffer.length (2 * (b.readableBytes + bytes.length)) := by
  have hr := h.reader_le
  have hw := h.writer_le
  obtain ⟨_, _, hok⟩ := bind_eq_ok.mp hok
  dsimp only at hok
  have hstored : (bytes.take b.writableBytes).length ≤ b.writableBytes := List.length_take_le ..
  split at hok
  · cases hok
    show (b.store (bytes.take b.writableBytes)).buffer.length ≤ _
    rw [store_size h hstored]
    omega
  · next hspill =>
    obtain ⟨b₁, happend, hok⟩ := bind_eq_ok.mp hok
    cases hok
    have hlen : (bytes.take b.writableBytes).length = b.writableBytes := List.length_take_of_le (by omega)
    have hfull : (b.store (bytes.take b.writableBytes)).buffer.length = b.buffer.length := store_size h hstored
    obtain ⟨hvalid, _⟩ := store_valid h hstored
    have hend : b.writerIdx + (bytes.take b.writableBytes).length = b.buffer.length := by
      rw [hlen, writableBytes]
      omega
    rw [hend, ← hfull] at hvalid
    have hsize := append_size hvalid happend
    have hextra : ((bytes.drop b.writableBytes).take (bytes.length - b.writableBytes)).length =
        bytes.length - b.writableBytes := by
      rw [List.length_take, List.length_drop, Nat.min_self]
    have hreadable : readableBytes { b.store (bytes.take b.writableBytes) with
        writerIdx := (b.store (bytes.take b.writableBytes)).buffer.length } = b.buffer.length - b.readerIdx := by
      show (b.store (bytes.take b.writableBytes)).buffer.length - b.readerIdx = _
      rw [hfull]
    rw [hextra, hreadable] at hsize
    change _ ≤ max (b.store (bytes.take b.writableBytes)).buffer.length _ at hsize
    rw [hfull] at hsize
    simp only [writableBytes] at hsize hspill
    simp only [readableBytes]
    omega

/-- An operation makes the vector at most twice as large as its demand. -/
theorem step_size (h : b.Valid) {op : BufferOp} (hpre : b.Pre op) {r : BufferResult}
    (hok : b.step op = .ok (b', r)) : b'.buffer.length ≤ max b.buffer.length (2 * op.demand b) := by
  cases op with
  | append data =>
      obtain ⟨b₁, happend, hok⟩ := bind_eq_ok.mp hok
      cases hok
      exact append_size h happend
  | readFd received =>
      obtain ⟨⟨b₁, n⟩, hread, hok⟩ := bind_eq_ok.mp hok
      cases hok
      cases received with
      | none =>
          cases (readFd_none h).symm.trans hread
          exact Nat.le_max_left _ _
      | some bytes => exact readFd_size h hread
  | ensureWritableBytes len =>
      obtain ⟨b₁, hspace, hok⟩ := bind_eq_ok.mp hok
      cases hok
      exact ensureWritableBytes_size h hspace
  | write data =>
      obtain ⟨_, _, hok⟩ := bind_eq_ok.mp hok
      obtain ⟨b₁, hwritten, hok⟩ := bind_eq_ok.mp hok
      cases hok
      rw [hasWritten_size hwritten, store_size h hpre]
      exact Nat.le_max_left _ _
  | retrieve len =>
      obtain ⟨b₁, hretrieve, hok⟩ := bind_eq_ok.mp hok
      cases hok
      rw [retrieve_size hretrieve]
      exact Nat.le_max_left _ _
  | retrieveAll =>
      cases hok
      exact Nat.le_max_left _ _
  | retrieveAsString len =>
      obtain ⟨⟨b₁, str⟩, hretrieve, hok⟩ := bind_eq_ok.mp hok
      cases hok
      rw [retrieveAsString_size hretrieve]
      exact Nat.le_max_left _ _
  | retrieveAllAsString =>
      obtain ⟨⟨b₁, str⟩, hretrieve, hok⟩ := bind_eq_ok.mp hok
      cases hok
      rw [retrieveAsString_size hretrieve]
      exact Nat.le_max_left _ _

end Buffer

namespace Metered

open Run

def new (initSize : Nat) : Metered := ⟨Buffer.new initSize, 0⟩

def step (m : Metered) (op : BufferOp) : Except Abort Metered := do
  let (buffer, _) ← m.buffer.step op
  return ⟨buffer, max m.peak (op.demand m.buffer)⟩

/-- The vector is as large as it was made first, or at most twice the highest demand. -/
def Fits (initSize : Nat) (m : Metered) : Prop := m.buffer.buffer.length ≤ max initSize (2 * m.peak)

instance (initSize : Nat) (m : Metered) : Decidable (Fits initSize m) := inferInstanceAs (Decidable (_ ≤ _))

theorem step_fits {initSize : Nat} {m : Metered} (h : m.buffer.Valid) (hfits : Fits initSize m) {op : BufferOp}
    (hpre : m.buffer.Pre op) : ∃ m', step m op = .ok m' ∧ Fits initSize m' ∧ m'.buffer.Valid := by
  obtain ⟨b', hstep, hvalid, _⟩ := Buffer.step_refines m.buffer m.buffer.readable op ⟨h, rfl⟩ hpre
  refine ⟨⟨b', max m.peak (op.demand m.buffer)⟩, ?_, ?_, hvalid⟩
  · simp only [step, hstep, ok_bind]
    rfl
  · have hsize := Buffer.step_size h hpre hstep
    unfold Fits at hfits ⊢
    dsimp only
    omega

/-- **The memory of a buffer is bounded.** For every initial size of at least 1 and every sequence of operations whose
asserted preconditions hold: no assertion fails, and after every operation the vector is no larger than at first or than
twice the most bytes that it had to have room for at once. -/
theorem size_le_of_along (initSize : Nat) (hsize : 1 ≤ initSize) (ops : List BufferOp)
    (hops : Along step (fun m op => m.buffer.Pre op) (new initSize) ops) :
    Holds step noError (fun _ _ m => Fits initSize m) (new initSize) ops := by
  refine holds_of_along (I := fun m => m.buffer.Valid ∧ Fits initSize m) (fun m op h hpre => ?_)
    ⟨Buffer.new_valid hsize, ?_⟩ hops
  · obtain ⟨m', hstep, hfits, hvalid⟩ := step_fits h.1 h.2 hpre
    exact .of_ok hstep ⟨hfits, hvalid, hfits⟩
  · show (List.replicate initSize 0).length ≤ _
    rw [List.length_replicate]
    exact Nat.le_max_left _ _

/-- Ten bytes go through a vector that grows once, to six. -/
theorem size_le_of_along_run : Holds step noError (fun _ _ m => Fits 2 m) (new 2)
    [.append [1, 2, 3], .retrieve 2, .readFd (some [4, 5, 6]), .retrieve 3, .append [7, 8, 9, 10],
      .retrieveAsString 4] :=
  size_le_of_along 2 (by decide)
    [.append [1, 2, 3], .retrieve 2, .readFd (some [4, 5, 6]), .retrieve 3, .append [7, 8, 9, 10], .retrieveAsString 4]
    (by decide)

end Metered

end OulaServer
