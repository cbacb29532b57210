import OulaServer.TcpConnection.Spec
import OulaServer.Lib.Run

/-!
# The output stream

Messages reach the socket along two paths: the direct `::write` of `sendInLoop`, and `outputBuffer_`
with the `::write` of `handleWirte`. `Intact` says that the paths are spliced well: what the kernel took,
followed by what is buffered, is the concatenation of the messages.

`handleWirte` always keeps it. So does `sendInLoop`, except that it buffers from `data + nWrote` on also
where the direct `::write` returned `-1` with an `errno` that is not fatal: then it buffers the byte
before the message and leaves out the last one (`passed`).
-/

namespace OulaServer

namespace OutputStream

open Run TcpConnection

/-- A connection, the messages passed to `sendInLoop`, and the bytes that the kernel took. -/
structure State where
  conn : TcpConnection
  sent : List UInt8
  accepted : List UInt8

inductive Event where
  | sendInLoop (mem : Memory) (data : Int) (len : Nat) (w : WriteResult)
  | handleWirte (w : WriteResult)
  -- another function moves `state_` on
  | setState (state : StateE)

def init (c : TcpConnection) : State := ⟨c, [], []⟩

def step (s : State) : Event → Except Abort State
  | .sendInLoop mem data len w => do
      let o ← s.conn.sendInLoop true mem data len w
      return ⟨o.conn, s.sent ++ bytesAt mem data len, s.accepted ++ written o.effects⟩
  | .handleWirte w => do
      let o ← s.conn.handleWirte true w
      return { s with conn := o.conn, accepted := s.accepted ++ written o.effects }
  | .setState state => .ok { s with conn := { s.conn with state } }

/-- The connection is not disconnected and no `::write` fails with `EPIPE` or `ECONNRESET`. -/
def Enabled (_ : State) : Event → Prop
  | .sendInLoop _ _ _ w => w.peerClosed = false
  | .handleWirte w => w.peerClosed = false
  | .setState state => state ≠ .kDisconnected

/-- A direct `::write` returns `-1` only for a message that reads the same one byte earlier. -/
def NoFailedDirectWrite (s : State) : Event → Prop
  | .sendInLoop mem data len w => s.conn.writesDirect = true → w.count len < 0 →
      bytesAt mem (data - 1) len = bytesAt mem data len
  | _ => True

instance (s : State) : (e : Event) → Decidable (Enabled s e)
  | .sendInLoop _ _ _ w => inferInstanceAs (Decidable (w.peerClosed = false))
  | .handleWirte w => inferInstanceAs (Decidable (w.peerClosed = false))
  | .setState state => inferInstanceAs (Decidable (state ≠ .kDisconnected))

instance (s : State) : (e : Event) → Decidable (NoFailedDirectWrite s e)
  | .sendInLoop _ _ _ _ => inferInstanceAs (Decidable (_ → _ → _))
  | .handleWirte _ | .setState _ => .isTrue trivial

/-- What the kernel took, followed by what is buffered, is the concatenation of the messages. -/
def Intact (_ : State) (_ : Event) (s : State) : Prop :=
  s.accepted ++ s.conn.outputBuffer.readable = s.sent

instance (s : State) (e : Event) (t : State) : Decidable (Intact s e t) :=
  inferInstanceAs (Decidable (_ = t.sent))

structure Inv (s : State) : Prop where
  valid : s.conn.outputBuffer.Valid
  alive : s.conn.state ≠ .kDisconnected
  intact : s.accepted ++ s.conn.outputBuffer.readable = s.sent

variable {c : TcpConnection} {mem : Memory} {data : Int} {len : Nat} {w : WriteResult}

theorem init_inv (hvalid : c.outputBuffer.Valid) (hempty : c.outputBuffer.readable = [])
    (hstate : c.state ≠ .kDisconnected) : Inv (init c) :=
  ⟨hvalid, hstate, hempty⟩

/-- What `sendInLoop` makes of a message. -/
def passed (c : TcpConnection) (mem : Memory) (data : Int) (len : Nat) (w : WriteResult) : List UInt8 :=
  if c.writesDirect = true ∧ w.count len < 0 then bytesAt mem (data - 1) len else bytesAt mem data len

theorem readable_of_direct (hvalid : c.outputBuffer.Valid) (hdirect : c.writesDirect = true) :
    c.outputBuffer.readable = [] := by
  simp only [writesDirect, Bool.and_eq_true, beq_iff_eq] at hdirect
  exact (Buffer.readable_eq_nil hvalid).mpr hdirect.2

theorem errorOccurs_of_peer (c : TcpConnection) (hpeer : w.peerClosed = false) : c.errorOccurs w = false := by
  simp [errorOccurs, hpeer]

/-- The written part of a message and the part that is buffered make up `passed`. -/
theorem split_passed (c : TcpConnection) (mem : Memory) (data : Int) (len : Nat) (w : WriteResult) :
    bytesAt mem data (c.nWrote len w).toNat ++ bytesAt mem (data + c.nWrote len w) (c.remaining len w) =
      passed c mem data len w := by
  by_cases hdirect : c.writesDirect = true
  · have hnWrote : c.nWrote len w = w.count len := if_pos hdirect
    by_cases hneg : w.count len < 0
    · cases w with
      | ok n => simp only [WriteResult.count] at hneg; omega
      | error errno =>
          have hminus : data + (-1) = data - 1 := by ring
          simp [passed, hdirect, hnWrote, remaining, WriteResult.count, hminus]
    · -- the buffered bytes start where the written ones end
      have hsplit : len = (c.nWrote len w).toNat + c.remaining len w := by
        have := nWrote_toNat_le c len w
        unfold remaining
        omega
      have hcast : data + c.nWrote len w = data + ((c.nWrote len w).toNat : Int) := by
        rw [Int.toNat_of_nonneg (by omega)]
      rw [passed, if_neg (fun h => hneg h.2), hcast, ← bytesAt_add, ← hsplit]
  · have hnWrote : c.nWrote len w = 0 := if_neg hdirect
    simp [passed, hdirect, hnWrote, remaining]

/-- What is buffered already comes between the two parts only where the first one is empty. -/
theorem written_append_readable (hvalid : c.outputBuffer.Valid) (bytes : List UInt8) :
    bytesAt mem data (c.nWrote len w).toNat ++ (c.outputBuffer.readable ++ bytes) =
      c.outputBuffer.readable ++ (bytesAt mem data (c.nWrote len w).toNat ++ bytes) := by
  by_cases hdirect : c.writesDirect = true
  · rw [readable_of_direct hvalid hdirect, List.nil_append, List.nil_append]
  · have hnWrote : c.nWrote len w = 0 := if_neg hdirect
    rw [hnWrote, Int.toNat_zero, bytesAt_zero, List.nil_append, List.nil_append]

/-- A message that is not given up: the bytes of `passed` are written or appended to `outputBuffer_`. -/
theorem sendInLoop_passed (mem : Memory) (data : Int) (len : Nat) (hvalid : c.outputBuffer.Valid)
    (hstate : c.state ≠ .kDisconnected) (herr : c.errorOccurs w = false) :
    ∃ o appended, c.sendInLoop true mem data len w = .ok o ∧ o.conn.outputBuffer.Valid ∧
      o.conn.state = c.state ∧ o.conn.outputBuffer.readable = c.outputBuffer.readable ++ appended ∧
      written o.effects = bytesAt mem data (c.nWrote len w).toNat ∧
      written o.effects ++ appended = passed c mem data len w := by
  have hsplit := split_passed c mem data len w
  rcases Nat.eq_zero_or_pos (c.remaining len w) with hrem | hrem
  · refine ⟨_, [], sendInLoop_keep hstate (Or.inr hrem), hvalid, rfl, (List.append_nil _).symm, written_directWrite, ?_⟩
    rwa [hrem, bytesAt_zero, ← written_directWrite] at hsplit
  · obtain ⟨b, hvalid', hread, hsend⟩ := sendInLoop_append mem data hvalid hstate herr hrem
    have hupdate : written (if c.channel.isEnableWriteEvent then [] else [.update]) = [] := by
      split_ifs <;> rfl
    have hwritten : written (c.directWrite mem data len w ++
        c.highWater c.outputBuffer.readableBytes (c.remaining len w) ++
        if c.channel.isEnableWriteEvent then [] else [.update]) = bytesAt mem data (c.nWrote len w).toNat := by
      rw [written_append, written_append, written_highWater, hupdate, List.append_nil, List.append_nil,
        written_directWrite]
    exact ⟨_, _, hsend, hvalid', rfl, hread, hwritten, hwritten ▸ hsplit⟩

theorem sendInLoop_stream (mem : Memory) (data : Int) (len : Nat) (hvalid : c.outputBuffer.Valid)
    (hstate : c.state ≠ .kDisconnected) (herr : c.errorOccurs w = false) :
    ∃ o, c.sendInLoop true mem data len w = .ok o ∧ o.conn.outputBuffer.Valid ∧
      o.conn.state = c.state ∧ written o.effects ++ o.conn.outputBuffer.readable =
        c.outputBuffer.readable ++ passed c mem data len w := by
  obtain ⟨o, appended, ho, hvalid', hstate', hread, hwritten, hpassed⟩ :=
    sendInLoop_passed mem data len hvalid hstate herr
  refine ⟨o, ho, hvalid', hstate', ?_⟩
  rw [hread, ← hpassed, hwritten, written_append_readable hvalid]

theorem handleWirte_stream (hvalid : c.outputBuffer.Valid) :
    ∃ o, c.handleWirte true w = .ok o ∧ o.conn.outputBuffer.Valid ∧ o.conn.state = c.state ∧
      written o.effects ++ o.conn.outputBuffer.readable = c.outputBuffer.readable := by
  by_cases hkeep : c.channel.isEnableWriteEvent = false ∨ w.count c.outputBuffer.readableBytes ≤ 0
  · refine ⟨_, handleWirte_keep hvalid hkeep, hvalid, rfl, ?_⟩
    split_ifs <;> simp [Effect.bytes]
  · rw [not_or, not_le, Bool.not_eq_false] at hkeep
    obtain ⟨hw, hpos⟩ := hkeep
    rcases lt_or_eq_of_le (count_toNat_le w c.outputBuffer.readableBytes) with hlt | hall
    · obtain ⟨b, hvalid', hread, hstep⟩ := handleWirte_short hvalid hw hpos hlt
      refine ⟨_, hstep, hvalid', rfl, ?_⟩
      simp [Effect.bytes, hread, List.take_append_drop]
    · obtain ⟨b, hvalid', hread, hstep⟩ := handleWirte_drained hvalid hw hpos hall
      refine ⟨_, hstep, hvalid', rfl, ?_⟩
      rw [written_drainEffects, hread, List.append_nil]

theorem step_sendInLoop (mem : Memory) (data : Int) (len : Nat) (s : State) (h : Inv s) (hpeer : w.peerClosed = false) :
    ∃ t, step s (.sendInLoop mem data len w) = .ok t ∧ t.conn.outputBuffer.Valid ∧
      t.conn.state ≠ .kDisconnected ∧ t.sent = s.sent ++ bytesAt mem data len ∧
      t.accepted ++ t.conn.outputBuffer.readable = s.sent ++ passed s.conn mem data len w := by
  obtain ⟨o, ho, hvalid, hstate, hstream⟩ :=
    sendInLoop_stream mem data len h.valid h.alive (errorOccurs_of_peer _ hpeer)
  refine ⟨⟨o.conn, s.sent ++ bytesAt mem data len, s.accepted ++ written o.effects⟩, ?_, hvalid, ?_,
    rfl, ?_⟩
  · simp only [step, ho, ok_bind]
    rfl
  · rw [hstate]
    exact h.alive
  · rw [List.append_assoc, hstream, ← List.append_assoc, h.intact]

theorem step_good (s : State) (e : Event) (h : Inv s) (hen : Enabled s e)
    (hgood : NoFailedDirectWrite s e) :
    StepHolds step noError (fun s e t => Intact s e t ∧ Inv t) s e := by
  cases e with
  | sendInLoop mem data len w =>
      obtain ⟨t, ht, hvalid, hstate, hsent, hstream⟩ :=
        step_sendInLoop mem data len s h hen
      have hpassed : passed s.conn mem data len w = bytesAt mem data len := by
        unfold passed
        split_ifs with hfail
        · exact hgood hfail.1 hfail.2
        · rfl
      have hintact : t.accepted ++ t.conn.outputBuffer.readable = t.sent := by rw [hstream, hpassed, hsent]
      exact StepHolds.of_ok ht ⟨hintact, hvalid, hstate, hintact⟩
  | handleWirte w =>
      obtain ⟨o, ho, hvalid, hstate, hstream⟩ := handleWirte_stream (w := w) h.valid
      have hstep : step s (.handleWirte w) =
          .ok { s with conn := o.conn, accepted := s.accepted ++ written o.effects } := by
        simp only [step, ho, ok_bind]
        rfl
      have hintact : s.accepted ++ written o.effects ++ o.conn.outputBuffer.readable = s.sent := by
        rw [List.append_assoc, hstream, h.intact]
      exact StepHolds.of_ok hstep ⟨hintact, hvalid, hstate ▸ h.alive, hintact⟩
  | setState state => exact StepHolds.of_ok rfl ⟨h.intact, h.valid, hen, h.intact⟩

theorem step_bad (s : State) (e : Event) (h : Inv s) (hen : Enabled s e)
    (hbad : ¬ NoFailedDirectWrite s e) : ¬ StepHolds step noError Intact s e := by
  intro hold
  cases e with
  | sendInLoop mem data len w =>
      simp only [NoFailedDirectWrite, Classical.not_imp] at hbad
      obtain ⟨hdirect, hneg, hne⟩ := hbad
      obtain ⟨t, ht, _, _, hsent, hstream⟩ :=
        step_sendInLoop mem data len s h hen
      have hintact : t.accepted ++ t.conn.outputBuffer.readable = t.sent := hold.2 t ht
      rw [hstream, hsent, passed, if_pos ⟨hdirect, hneg⟩] at hintact
      exact hne (List.append_cancel_left hintact)
  | handleWirte w => exact hbad trivial
  | setState state => exact hbad trivial

/-- **When the output stream is intact.** For every connection that has nothing buffered, every sequence
of calls of `sendInLoop` and `handleWirte` and all answers of `::write`, as long as none is `EPIPE` or
`ECONNRESET` and the connection is not disconnected: no assertion fails and the bytes that the kernel took,
followed by the buffered ones, are the concatenation of the messages, if and only if no direct `::write`
of a message returned `-1` (unless the message reads the same one byte earlier). -/
theorem intact_iff (c : TcpConnection) (hvalid : c.outputBuffer.Valid) (hempty : c.outputBuffer.readable = [])
    (hstate : c.state ≠ .kDisconnected) (es : List Event) (hes : Along step Enabled (init c) es) :
    Holds step noError Intact (init c) es ↔ Along step NoFailedDirectWrite (init c) es :=
  holds_iff_along step_good step_bad (init_inv hvalid hempty hstate) hes

/-- A connected connection with a small output buffer. -/
def connected : TcpConnection where
  state := .kConnected
  channel := (Channel.new 7).declare .enableReadEvent
  inputBuffer := Buffer.new 4
  outputBuffer := Buffer.new 4
  highWaterMark := 64
  writeCompleteCallback := true
  highWaterMarkCallback := true

/-- A message written whole, a short write, a message behind it, and the writable events that follow. -/
theorem intact_iff_run : Holds step noError Intact (init connected)
    [.sendInLoop (fun _ => 1) 0 2 (.ok 2), .sendInLoop (fun p => .ofNat p.toNat) 10 6 (.ok 2),
      .sendInLoop (fun _ => 9) 0 3 (.ok 3), .handleWirte (.error EWOULDBLOCK), .handleWirte (.ok 5),
      .setState .kDisconnecting, .handleWirte (.ok 9)] :=
  (intact_iff connected (Buffer.new_valid (by decide)) (Buffer.readable_new 4) (by decide)
    [.sendInLoop (fun _ => 1) 0 2 (.ok 2), .sendInLoop (fun p => .ofNat p.toNat) 10 6 (.ok 2),
      .sendInLoop (fun _ => 9) 0 3 (.ok 3), .handleWirte (.error EWOULDBLOCK), .handleWirte (.ok 5),
      .setState .kDisconnecting, .handleWirte (.ok 9)] (by decide)).mpr (by decide)

/-- The first `::write` would block: the byte before the message is buffered and its last one is not. -/
theorem wouldBlock_shifts :
    Along step Enabled (init connected) [.sendInLoop (fun p => .ofNat p.toNat) 10 3 (.error EWOULDBLOCK)] ∧
      ¬ Holds step noError Intact (init connected)
        [.sendInLoop (fun p => .ofNat p.toNat) 10 3 (.error EWOULDBLOCK)] := by
  decide

end OutputStream

end OulaServer
