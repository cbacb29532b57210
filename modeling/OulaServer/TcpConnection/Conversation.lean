import OulaServer.TcpConnection.Echo

/-!
# A client and the echo server

Two connections that are the two ends of one TCP connection, each on its own loop: that of a client, whose user code and
other threads may do anything, and that of a server with the default callbacks. The kernels carry the bytes: what
`readv` returns at one end are the next of the bytes that `::write` took at the other.

`Conserved` follows each byte on its way round. It composes the accounts of the two ends: the bytes that the client
handed to `sendInLoop` are, from the oldest to the newest, those that came back, those on the way back, those that the
server holds, those on the way there, and those that the client has buffered.
-/

namespace OulaServer

namespace Conversation

open Run TcpConnection ConnLoop

structure State where
  client : Endpoint.State
  server : Echo.State

inductive Event where
  | client (e : ConnLoop.Event)
  | server (e : Echo.Event)

def init (c c' : TcpConnection) : State := ⟨Endpoint.init c, Echo.init c'⟩

def step (s : State) : Event → Except Abort State
  | .client e => do
      let client ← Endpoint.step s.client e
      return { s with client }
  | .server e => do
      let server ← Echo.step s.server e
      return { s with server }

/-- The bytes that a step of the server receives. -/
def receives (s : Echo.State) : Echo.Event → List UInt8
  | .loop e => Endpoint.receives s.endpoint.sys e
  | .userCode | .send _ _ _ => []

/-- `readv` returns the next bytes that the other end wrote. -/
def Enabled (s : State) : Event → Prop
  | .client e => ConnLoop.Enabled s.client.sys e ∧
      s.client.received ++ Endpoint.receives s.client.sys e <+: s.server.endpoint.written
  | .server e => Echo.Enabled s.server e ∧ s.server.endpoint.received ++ receives s.server e <+: s.client.written

/-- No event reaches a closed connection. -/
def NoEventAfterClose (s : State) : Event → Prop
  | .client e => ConnLoop.NoEventAfterClose s.client.sys e
  | .server e => Echo.NoEventAfterClose s.server e

/-- No direct `::write` of a message that is not empty returns `-1`. -/
def NoFailedSend (s : State) : Event → Prop
  | .client e => Endpoint.NoFailedSend s.client e
  | .server e => Echo.NoFailedSend s.server e

instance (s : State) : (e : Event) → Decidable (Enabled s e)
  | .client _ | .server _ => inferInstanceAs (Decidable (_ ∧ _))

instance (s : State) : (e : Event) → Decidable (NoEventAfterClose s e)
  | .client e => inferInstanceAs (Decidable (ConnLoop.NoEventAfterClose s.client.sys e))
  | .server e => inferInstanceAs (Decidable (Echo.NoEventAfterClose s.server e))

instance (s : State) : (e : Event) → Decidable (NoFailedSend s e)
  | .client e => inferInstanceAs (Decidable (Endpoint.NoFailedSend s.client e))
  | .server e => inferInstanceAs (Decidable (Echo.NoFailedSend s.server e))

/-- The bytes on the way to the server. -/
def State.there (s : State) : List UInt8 := s.client.written.drop s.server.endpoint.received.length

/-- The bytes on the way back. -/
def State.back (s : State) : List UInt8 := s.server.endpoint.written.drop s.client.received.length

/-- What the server holds: buffered, turned down by `send`, held by the callback, or not read yet. -/
def State.held (s : State) : List UInt8 :=
  s.server.endpoint.sys.conn.outputBuffer.readable ++ s.server.dropped ++ s.server.str.getD [] ++
    s.server.endpoint.sys.conn.inputBuffer.readable

/-- Every byte that the client sent is in one place, and none overtakes another; what came back is a part of it. -/
structure Conserved (s : State) : Prop where
  bytes : s.client.received ++ s.back ++ s.held ++ s.there ++ s.client.sys.conn.outputBuffer.readable =
    s.client.passed
  answer : s.client.received <+: s.client.passed

structure Inv (s : State) : Prop where
  loop : ConnLoop.Inv s.client.sys
  client : Endpoint.Balanced s.client
  server : Echo.Inv s.server
  there : s.server.endpoint.received <+: s.client.written
  back : s.client.received <+: s.server.endpoint.written

theorem append_drop_of_prefix {l m : List UInt8} (h : l <+: m) : l ++ m.drop l.length = m := by
  obtain ⟨r, rfl⟩ := h
  rw [List.drop_left]

theorem Inv.conserved {s : State} (h : Inv s) : Conserved s := by
  have hserver : s.server.endpoint.written ++ s.held = s.server.endpoint.received := by
    rw [State.held, ← List.append_assoc, ← List.append_assoc, ← List.append_assoc]
    exact h.server.echoes.bytes
  have hbytes : s.client.received ++ s.back ++ s.held ++ s.there ++ s.client.sys.conn.outputBuffer.readable =
      s.client.passed := by
    calc
      _ = s.server.endpoint.written ++ s.held ++ s.there ++ s.client.sys.conn.outputBuffer.readable := by
        rw [State.back, append_drop_of_prefix h.back]
      _ = s.client.written ++ s.client.sys.conn.outputBuffer.readable := by
        rw [hserver, State.there, append_drop_of_prefix h.there]
      _ = s.client.passed := h.client.output
  refine ⟨hbytes, ?_⟩
  rw [← hbytes]
  simp only [List.append_assoc]
  exact List.prefix_append _ _

/-! ### Steps -/

variable {s : State}

theorem endpoint_step {s t : Endpoint.State} {e : ConnLoop.Event} (ht : Endpoint.step s e = .ok t) :
    s.written <+: t.written ∧ t.received = s.received ++ Endpoint.receives s.sys e := by
  obtain ⟨sys, hsys, rfl⟩ := Endpoint.step_eq_ok.mp ht
  refine ⟨?_, rfl⟩
  show writtenLog s.sys.log <+: writtenLog sys.log
  cases hk : task s.sys e with
  | none =>
      rw [(step_noTask hk hsys).written]
  | some k =>
      obtain ⟨o, _, hran⟩ := step_task hk hsys
      rw [hran.written]
      exact List.prefix_append _ _

theorem echo_step {s t : Echo.State} {e : Echo.Event} (ht : Echo.step s e = .ok t) :
    s.endpoint.written <+: t.endpoint.written ∧ t.endpoint.received = s.endpoint.received ++ receives s e := by
  cases e with
  | loop e =>
      obtain ⟨endpoint, hstep, ht⟩ := bind_eq_ok.mp ht
      cases ht
      exact endpoint_step hstep
  | userCode =>
      simp only [Echo.step] at ht
      split at ht
      · obtain ⟨⟨b, str⟩, _, ht⟩ := bind_eq_ok.mp ht
        obtain ⟨endpoint₁, hstep₁, ht⟩ := bind_eq_ok.mp ht
        obtain ⟨endpoint₂, hstep₂, ht⟩ := bind_eq_ok.mp ht
        cases ht
        obtain ⟨hpre₁, hreceived₁⟩ := endpoint_step hstep₁
        obtain ⟨hpre₂, hreceived₂⟩ := endpoint_step hstep₂
        refine ⟨hpre₁.trans hpre₂, ?_⟩
        rw [hreceived₂, hreceived₁]
        show s.endpoint.received ++ [] ++ [] = s.endpoint.received ++ []
        rw [List.append_nil]
      · obtain ⟨endpoint, hstep, ht⟩ := bind_eq_ok.mp ht
        cases ht
        exact endpoint_step hstep
  | send mem data w =>
      simp only [Echo.step] at ht
      split at ht
      · obtain ⟨endpoint, hstep, ht⟩ := bind_eq_ok.mp ht
        cases ht
        obtain ⟨hpre, hreceived⟩ := endpoint_step hstep
        refine ⟨hpre, hreceived.trans (congrArg (s.endpoint.received ++ ·) ?_)⟩
        show (task _ (.call _ mem w)).elim [] Task.received = []
        simp only [task]
        split <;> rfl
      · cases ht
        exact ⟨List.prefix_refl _, (List.append_nil _).symm⟩

theorem init_inv {c c' : TcpConnection} (hin : c.inputBuffer.Valid) (hout : c.outputBuffer.Valid)
    (hinEmpty : c.inputBuffer.readable = []) (houtEmpty : c.outputBuffer.readable = [])
    (hstate : c.state = .kConnecting) (hnone : c.channel.events = kNoneEvent) (hserver : Echo.Inv (Echo.init c')) :
    Inv (init c c') where
  loop := ConnLoop.init_inv hin hout hstate hnone
  client := Endpoint.init_balanced hin hout hinEmpty houtEmpty hstate
  server := hserver
  there := List.prefix_refl _
  back := List.prefix_refl _

theorem Inv.clientStep (h : Inv s) {e : ConnLoop.Event} (hen : Enabled s (.client e))
    (hclose : NoEventAfterClose s (.client e)) (hsend : NoFailedSend s (.client e)) :
    ∃ t, step s (.client e) = .ok t ∧ Inv t := by
  obtain ⟨sys, hsys, _, hinv⟩ := step_keeps s.client.sys e h.loop hen.1 hclose
  have hstep : Endpoint.step s.client e = .ok (s.client.after e sys) := Endpoint.step_eq_ok.mpr ⟨sys, hsys, rfl⟩
  obtain ⟨hpre, hreceived⟩ := endpoint_step hstep
  refine ⟨{ s with client := s.client.after e sys }, ?_, hinv, Endpoint.step_balanced h.client hsend hstep, h.server,
    h.there.trans hpre, ?_⟩
  · simp only [step, hstep, ok_bind]
    rfl
  · show (s.client.after e sys).received <+: s.server.endpoint.written
    rw [hreceived]
    exact hen.2

theorem Inv.serverStep (h : Inv s) {e : Echo.Event} (hen : Enabled s (.server e))
    (hclose : NoEventAfterClose s (.server e)) (hsend : NoFailedSend s (.server e)) :
    ∃ t, step s (.server e) = .ok t ∧ Inv t := by
  obtain ⟨server, hstep, hinv⟩ := Echo.step_inv s.server e h.server hen.1 hclose hsend
  obtain ⟨hpre, hreceived⟩ := echo_step hstep
  refine ⟨{ s with server }, ?_, h.loop, h.client, hinv, ?_, h.back.trans hpre⟩
  · simp only [step, hstep, ok_bind]
    rfl
  · show server.endpoint.received <+: s.client.written
    rw [hreceived]
    exact hen.2

/-! ### Runs -/

/-- **Bytes come back in order, and none is lost on the way.** For every client connection with any user code and any
calls of other threads, and every server connection with the default callbacks, joined by TCP: in every interleaving of
the two loops in which no direct `::write` fails and no event reaches a closed connection, no assertion fails, and after
each step the bytes that the client passed on are those that came back, those on the way back, those that the server
holds, those on the way there and those that the client has buffered, in this order. -/
theorem returned_of_along (c c' : TcpConnection) (hin : c.inputBuffer.Valid) (hout : c.outputBuffer.Valid)
    (hinEmpty : c.inputBuffer.readable = []) (houtEmpty : c.outputBuffer.readable = [])
    (hstate : c.state = .kConnecting) (hnone : c.channel.events = kNoneEvent)
    (hin' : c'.inputBuffer.Valid) (hout' : c'.outputBuffer.Valid) (hinEmpty' : c'.inputBuffer.readable = [])
    (houtEmpty' : c'.outputBuffer.readable = []) (hstate' : c'.state = .kConnecting)
    (hnone' : c'.channel.events = kNoneEvent) (es : List Event) (hes : Along step Enabled (init c c') es)
    (hclose : Along step NoEventAfterClose (init c c') es) (hsend : Along step NoFailedSend (init c c') es) :
    Holds step noError (fun _ _ t => Conserved t) (init c c') es := by
  have hinit := init_inv hin hout hinEmpty houtEmpty hstate hnone
    (Echo.init_inv hin' hout' hinEmpty' houtEmpty' hstate' hnone')
  refine holds_of_along (I := Inv) (fun s e h hG => ?_) hinit (along_and.mpr ⟨hes, along_and.mpr ⟨hclose, hsend⟩⟩)
  obtain ⟨t, ht, hinv⟩ : ∃ t, step s e = .ok t ∧ Inv t := by
    cases e with
    | client e => exact h.clientStep hG.1 hG.2.1 hG.2.2
    | server e => exact h.serverStep hG.1 hG.2.1 hG.2.2
  exact StepHolds.of_ok ht ⟨hinv.conserved, hinv⟩

/-- Both ends come up; the client sends three bytes, of which the kernel takes two at first; the server reads one,
echoes it, and the client reads it. -/
def roundTrip : List Event :=
  [.client .establish, .client .userCode, .server (.loop .establish), .server .userCode,
    .client (.call (.send 1 3) (fun p => .ofNat p.toNat) (.ok 2)),
    .server (.loop .enterLoop), .server (.loop (.poll [.channel pollIn])), .server (.loop .handleEvent),
    .server (.loop (.handleCallback (some [1]) (.ok 0))), .server .userCode,
    .server (.send (fun p => .ofNat p.toNat) 1 (.ok 1)),
    .client .enterLoop, .client (.poll [.channel (pollIn ||| pollOut)]), .client .handleEvent,
    .client (.handleCallback (some [1]) (.ok 0)), .client .userCode, .client (.retrieve 1),
    .client (.handleCallback none (.ok 1))]

theorem returned_of_along_run :
    Holds step noError (fun _ _ t => Conserved t) (init ConnLoop.fresh ConnLoop.fresh) roundTrip :=
  returned_of_along ConnLoop.fresh ConnLoop.fresh (Buffer.new_valid (by decide)) (Buffer.new_valid (by decide))
    (Buffer.readable_new 4) (Buffer.readable_new 4) rfl rfl (Buffer.new_valid (by decide))
    (Buffer.new_valid (by decide)) (Buffer.readable_new 4) (Buffer.readable_new 4) rfl rfl roundTrip
    (by decide +kernel) (by decide +kernel) (by decide +kernel)

end Conversation

end OulaServer
