import OulaServer.TcpConnection.Interest
import OulaServer.TcpConnection.Read

/-!
# The byte streams of a connection

A connection on its loop with the bytes that pass through it: those handed to `sendInLoop` while the connection was not
closed, those that `readv` returned, and those that user code took out of `inputBuffer_`.

`Balanced` accounts for each of them, over every run of the loop. On the way out a byte that was handed to
`sendInLoop` is written or buffered, and what is buffered when the connection closes stays there; on the way in a byte
that was received is taken or waits in `inputBuffer_`. The order is kept on both ways. Only a direct `::write` that
fails is excluded (`NoFailedSend`), as it shifts or drops the message.
-/

namespace OulaServer

namespace ConnLoop

open Run TcpConnection

/-! ### What one function moves -/

/-- The message that `sendInLoop` is called with, unless the connection is closed. -/
def Task.passed (c : TcpConnection) : Task → List UInt8
  | .functor mem _ (.sendInLoop data len) => if c.state = .kDisconnected then [] else bytesAt mem data len
  | _ => []

/-- The bytes that the function receives. -/
def Task.received : Task → List UInt8
  | .callback (some bytes) _ .read => bytes
  | _ => []

/-- A direct `::write` of a message that is not empty does not return `-1`. -/
def Task.WritesWell (c : TcpConnection) : Task → Prop
  | .functor _ w (.sendInLoop _ len) => c.writesDirect = true → 0 < len → w.isOk = true
  | _ => True

instance (c : TcpConnection) : (k : Task) → Decidable (k.WritesWell c)
  | .functor _ _ (.sendInLoop _ _) => inferInstanceAs (Decidable (_ → _ → _))
  | .functor _ _ .connectEstablished | .functor _ _ .connectDestoryed | .functor _ _ .shutdownInLoop
  | .functor _ _ .forceCloseInLoop | .functor _ _ .addTimerInLoop | .functor _ _ .writeCompleteCallback
  | .functor _ _ (.highWaterMarkCallback _) | .callback _ _ _ => .isTrue trivial

/-- A closed connection does not wait for the socket. -/
def Mute (c : TcpConnection) : Prop := c.state = .kDisconnected → c.channel.isEnableWriteEvent = false

/-- The bytes that an outcome moves: on the way out, none is lost and none comes from elsewhere. -/
structure Moves (c : TcpConnection) (o : Outcome) (passed received : List UInt8) : Prop where
  output : written o.effects ++ o.conn.outputBuffer.readable = c.outputBuffer.readable ++ passed
  mute : Mute o.conn
  input : o.conn.inputBuffer.readable = c.inputBuffer.readable ++ received

section

variable {c : TcpConnection} {o : Outcome} {mem : Memory} {data : Int} {len : Nat} {w : WriteResult}

theorem isEnableWriteEvent_disableAll (ch : Channel) :
    (ch.declare .disableAllEvent).isEnableWriteEvent = false := by
  have hzero : kNoneEvent &&& kWriteEvent = 0#32 := by decide
  simp [Channel.isEnableWriteEvent, Channel.declare, ChannelOp.apply, hzero]

theorem moves_of_same (hmute : Mute c) (hwritten : written o.effects = []) (hconn : o.conn = c) : Moves c o [] [] where
  output := by rw [hwritten, hconn, List.nil_append, List.append_nil]
  mute := by rwa [hconn]
  input := by rw [hconn, List.append_nil]

theorem moves_of_closed (hwritten : written o.effects = []) (hconn : o.conn = c.closed) : Moves c o [] [] where
  output := by rw [hwritten, hconn, List.nil_append, List.append_nil]; rfl
  mute _ := by rw [hconn]; exact isEnableWriteEvent_disableAll _
  input := by rw [hconn, List.append_nil]; rfl

theorem quiet_of_sendInLoop (hvalid : c.outputBuffer.Valid) (ho : c.sendInLoop true mem data len w = .ok o) :
    Quiet c o := by
  obtain ⟨o', ho', hquiet⟩ : ∃ o', c.sendInLoop true mem data len w = .ok o' ∧ Quiet c o' :=
    sendInLoop_quiet mem data hvalid
  cases ho.symm.trans ho'
  exact hquiet

theorem moves_sendInLoop (hmute : Mute c) (hvalid : c.outputBuffer.Valid)
    (hwell : c.writesDirect = true → 0 < len → w.isOk = true) (ho : c.sendInLoop true mem data len w = .ok o) :
    Moves c o (if c.state = .kDisconnected then [] else bytesAt mem data len) [] := by
  by_cases hc : c.state = .kDisconnected
  · rw [sendInLoop_disconnected hc] at ho
    cases ho
    rw [if_pos hc]
    exact moves_of_same hmute rfl rfl
  have hquiet := quiet_of_sendInLoop hvalid ho
  rw [if_neg hc]
  refine ⟨?_, fun h => absurd (hquiet.state.symm.trans h) hc, by rw [hquiet.inputBuffer, List.append_nil]⟩
  rcases Nat.eq_zero_or_pos len with rfl | hlen
  · -- an empty message
    have hrem : c.remaining 0 w = 0 := Nat.zero_sub _
    rw [sendInLoop_keep hc (Or.inr hrem)] at ho
    cases ho
    have hnone : (c.nWrote 0 w).toNat = 0 := Nat.le_zero.mp (nWrote_toNat_le c 0 w)
    rw [written_directWrite, hnone, bytesAt_zero, List.nil_append, List.append_nil]
  have hfine : c.errorOccurs w = false ∧ OutputStream.passed c mem data len w = bytesAt mem data len := by
    by_cases hdirect : c.writesDirect = true
    · cases w with
      | error errno => cases hwell hdirect hlen
      | ok n =>
          refine ⟨OutputStream.errorOccurs_of_peer c rfl, if_neg ?_⟩
          rintro ⟨_, hneg⟩
          simp only [WriteResult.count] at hneg
          omega
    · -- the answer of `::write` is not used
      exact ⟨by simp [errorOccurs, hdirect], if_neg fun hneg => hdirect hneg.1⟩
  obtain ⟨o', ho', _, _, hstream⟩ := OutputStream.sendInLoop_stream mem data len hvalid hc hfine.1
  cases ho.symm.trans ho'
  rw [hstream, hfine.2]

theorem moves_handleWirte (hmute : Mute c) (hvalid : c.outputBuffer.Valid) (ho : c.handleWirte true w = .ok o) :
    Moves c o [] [] := by
  by_cases hc : c.state = .kDisconnected
  · have hoff := hmute hc
    rw [handleWirte_keep hvalid (Or.inl hoff), if_neg (by simp [hoff])] at ho
    cases ho
    exact moves_of_same hmute rfl rfl
  obtain ⟨o', ho', hquiet⟩ := handleWirte_quiet (w := w) hvalid
  cases ho.symm.trans ho'
  obtain ⟨o', ho', _, _, hstream⟩ := OutputStream.handleWirte_stream (w := w) hvalid
  cases ho.symm.trans ho'
  exact ⟨by rw [hstream, List.append_nil], fun h => absurd (hquiet.state.symm.trans h) hc,
    by rw [hquiet.inputBuffer, List.append_nil]⟩

theorem moves_handleClose (ho : c.handleClose true = .ok o) : Moves c o [] [] := by
  obtain ⟨_, _, ho⟩ := bind_eq_ok.mp ho
  obtain ⟨_, _, ho⟩ := bind_eq_ok.mp ho
  cases ho
  exact moves_of_closed rfl rfl

theorem moves_handleRead (hmute : Mute c) (hvalid : c.inputBuffer.Valid) {r : Option (List UInt8)}
    (ho : c.handleRead true r = .ok o) : Moves c o [] (r.getD []) := by
  obtain ⟨b, n, hread, hbytes⟩ : ∃ b n, c.inputBuffer.readFd r = .ok (b, n) ∧
      b.readable = c.inputBuffer.readable ++ r.getD [] := by
    cases r with
    | none => exact ⟨_, _, Buffer.readFd_none hvalid, (List.append_nil _).symm⟩
    | some bytes =>
        obtain ⟨b, hb, _, hbytes⟩ := Buffer.readFd_some hvalid bytes
        exact ⟨b, _, hb, hbytes⟩
  have hsame (rest : List Rest) : Moves c { conn := { c with inputBuffer := b }, rest } [] (r.getD []) :=
    ⟨by simp, hmute, hbytes⟩
  simp only [handleRead, hread, ok_bind] at ho
  split at ho
  · cases ho
    exact hsame _
  · split at ho
    · have hmoves := moves_handleClose ho
      exact ⟨hmoves.output, hmoves.mute, by rw [hmoves.input, List.append_nil]; exact hbytes⟩
    · cases ho
      exact hsame _

theorem moves_runFunctor (hmute : Mute c) (hvalid : c.outputBuffer.Valid) {f : ConnFunctor}
    (hwell : (Task.functor mem w f).WritesWell c) (ho : c.runFunctor true mem w f = .ok o) :
    Moves c o ((Task.functor mem w f).passed c) [] := by
  cases f with
  | sendInLoop data len => exact moves_sendInLoop hmute hvalid hwell ho
  | connectEstablished =>
      obtain ⟨_, _, ho⟩ := bind_eq_ok.mp ho
      obtain ⟨_, _, ho⟩ := bind_eq_ok.mp ho
      cases ho
      exact ⟨by simp [Effect.bytes, Task.passed], nofun, (List.append_nil _).symm⟩
  | connectDestoryed =>
      obtain ⟨_, _, ho⟩ := bind_eq_ok.mp ho
      split at ho
      · cases ho
        exact moves_of_closed rfl rfl
      · cases ho
        exact moves_of_same hmute rfl rfl
  | shutdownInLoop =>
      obtain ⟨_, _, ho⟩ := bind_eq_ok.mp ho
      cases ho
      exact moves_of_same hmute (by split_ifs <;> rfl) rfl
  | forceCloseInLoop =>
      obtain ⟨_, _, ho⟩ := bind_eq_ok.mp ho
      split at ho
      · exact moves_handleClose ho
      · cases ho
        exact moves_of_same hmute rfl rfl
  | addTimerInLoop => cases ho; exact moves_of_same hmute rfl rfl
  | writeCompleteCallback => cases ho; exact moves_of_same hmute rfl rfl
  | highWaterMarkCallback len => cases ho; exact moves_of_same hmute rfl rfl

theorem moves_task {k : Task} (hmute : Mute c) (hin : c.inputBuffer.Valid) (hout : c.outputBuffer.Valid)
    (hwell : k.WritesWell c) (ho : k.run c = .ok o) : Moves c o (k.passed c) k.received := by
  cases k with
  | functor mem w f => exact moves_runFunctor hmute hout hwell ho
  | callback r w cb =>
      cases cb with
      | close => cases r <;> exact moves_handleClose ho
      | read => cases r <;> exact moves_handleRead hmute hin ho
      | write => cases r <;> exact moves_handleWirte hmute hout ho

end

/-! ### The state that a step leaves -/

variable {s t : State} {e : Event}

theorem retrieve_ok {len : Nat} (hin : s.conn.inputBuffer.Valid) (ht : step s (.retrieve len) = .ok t) :
    ∃ b, b.Valid ∧ b.readable = s.conn.inputBuffer.readable.drop len ∧
      t = { s with conn := { s.conn with inputBuffer := b } } := by
  obtain ⟨b, hb, ht⟩ := bind_eq_ok.mp ht
  cases ht
  obtain ⟨_, hcheck, _⟩ := bind_eq_ok.mp hb
  obtain ⟨b', hb', hvalid, hread⟩ := Buffer.retrieve_spec hin (check_eq_ok.mp hcheck)
  cases hb.symm.trans hb'
  exact ⟨b, hvalid, hread, rfl⟩

end ConnLoop

namespace Endpoint

open Run TcpConnection ConnLoop

/-- A connection on its loop and the bytes that passed through it so far. -/
structure State where
  sys : ConnLoop.State
  /-- Handed to `sendInLoop` of the connection before it was closed. -/
  passed : List UInt8
  /-- Returned by `readv`. -/
  received : List UInt8
  /-- Taken out of `inputBuffer_` by user code. -/
  taken : List UInt8

def init (c : TcpConnection) : State := ⟨ConnLoop.init c, [], [], []⟩

def passes (s : ConnLoop.State) (e : ConnLoop.Event) : List UInt8 := (task s e).elim [] (Task.passed (caller s e))

def receives (s : ConnLoop.State) (e : ConnLoop.Event) : List UInt8 := (task s e).elim [] Task.received

def takes (s : ConnLoop.State) : ConnLoop.Event → List UInt8
  | .retrieve len => s.conn.inputBuffer.readable.take len
  | _ => []

def step (s : State) (e : ConnLoop.Event) : Except Abort State := do
  let sys ← ConnLoop.step s.sys e
  return {
    sys
    passed := s.passed ++ passes s.sys e
    received := s.received ++ receives s.sys e
    taken := s.taken ++ takes s.sys e }

/-- The bytes that the kernel took. -/
def State.written (s : State) : List UInt8 := writtenLog s.sys.log

/-- No direct `::write` of a message that is not empty returns `-1`. -/
def NoFailedSend (s : State) (e : ConnLoop.Event) : Prop :=
  ∀ k ∈ task s.sys e, k.WritesWell (caller s.sys e)

instance (s : State) (e : ConnLoop.Event) : Decidable (NoFailedSend s e) :=
  inferInstanceAs (Decidable (∀ k ∈ task s.sys e, _))

/-- Every byte is accounted for: what was passed on is written or buffered, what was received is taken or waits. -/
structure Balanced (s : State) : Prop where
  buffers : Buffers s.sys
  mute : Mute s.sys.conn
  output : s.written ++ s.sys.conn.outputBuffer.readable = s.passed
  input : s.taken ++ s.sys.conn.inputBuffer.readable = s.received

theorem init_balanced {c : TcpConnection} (hin : c.inputBuffer.Valid) (hout : c.outputBuffer.Valid)
    (hinEmpty : c.inputBuffer.readable = []) (houtEmpty : c.outputBuffer.readable = [])
    (hstate : c.state = .kConnecting) : Balanced (init c) where
  buffers := ⟨hin, hout⟩
  mute hc := by simp [init, ConnLoop.init, hstate] at hc
  output := houtEmpty
  input := hinEmpty

variable {s t : State} {e : ConnLoop.Event}

/-- The state after a step of the loop. -/
def State.after (s : State) (e : ConnLoop.Event) (sys : ConnLoop.State) : State :=
  ⟨sys, s.passed ++ passes s.sys e, s.received ++ receives s.sys e, s.taken ++ takes s.sys e⟩

theorem step_eq_ok : step s e = .ok t ↔ ∃ sys, ConnLoop.step s.sys e = .ok sys ∧ t = s.after e sys := by
  constructor
  · intro h
    obtain ⟨sys, hsys, ht⟩ := bind_eq_ok.mp h
    cases ht
    exact ⟨sys, hsys, rfl⟩
  · rintro ⟨sys, hsys, rfl⟩
    simp only [step, hsys, ok_bind]
    rfl

theorem takes_of_task {k : Task} (hk : task s.sys e = some k) : takes s.sys e = [] := by
  cases e with
  | retrieve len => cases hk
  | _ => rfl

theorem Balanced.caller (h : Balanced s) (e : ConnLoop.Event) : Mute (ConnLoop.caller s.sys e) := by
  obtain ⟨state, hcaller, rfl | ⟨_, rfl⟩⟩ := caller_state s.sys e
  · rw [hcaller]
    exact h.mute
  · rw [hcaller]
    exact nofun

theorem Balanced.ran (h : Balanced s) {k : Task} {o : Outcome} {sys : ConnLoop.State} (hk : task s.sys e = some k)
    (hmoves : Moves (ConnLoop.caller s.sys e) o (k.passed (ConnLoop.caller s.sys e)) k.received)
    (hran : Ran s.sys sys o) (hbuffers : Buffers sys) : Balanced (s.after e sys) := by
  obtain ⟨state, hcaller, _⟩ := caller_state s.sys e
  have hpassed : passes s.sys e = k.passed (ConnLoop.caller s.sys e) := by rw [passes, hk]; rfl
  have hreceived : receives s.sys e = k.received := by rw [receives, hk]; rfl
  have hwritten : (s.after e sys).written = s.written ++ OulaServer.written o.effects := hran.written
  have houtput : (ConnLoop.caller s.sys e).outputBuffer = s.sys.conn.outputBuffer := by rw [hcaller]
  have hinput : (ConnLoop.caller s.sys e).inputBuffer = s.sys.conn.inputBuffer := by rw [hcaller]
  refine ⟨hbuffers, ?_, ?_, ?_⟩
  · show Mute sys.conn
    rw [hran.conn]
    exact hmoves.mute
  · show (s.after e sys).written ++ sys.conn.outputBuffer.readable = s.passed ++ passes s.sys e
    rw [hwritten, hran.conn, List.append_assoc, hmoves.output, ← List.append_assoc, houtput, h.output, hpassed]
  · show s.taken ++ takes s.sys e ++ sys.conn.inputBuffer.readable = s.received ++ receives s.sys e
    rw [takes_of_task hk, List.append_nil, hran.conn, hmoves.input, ← List.append_assoc, hinput, h.input, hreceived]

theorem Balanced.idle (h : Balanced s) {sys : ConnLoop.State} (hk : task s.sys e = none)
    (ht : ConnLoop.step s.sys e = .ok sys) : Balanced (s.after e sys) := by
  have hpassed : passes s.sys e = [] := by rw [passes, hk]; rfl
  have hreceived : receives s.sys e = [] := by rw [receives, hk]; rfl
  have hwritten : (s.after e sys).written = s.written := (step_noTask hk ht).written
  obtain ⟨hchannel, houtput, hdown, hinput⟩ : sys.conn.channel = s.sys.conn.channel ∧
      sys.conn.outputBuffer = s.sys.conn.outputBuffer ∧
      (sys.conn.state = .kDisconnected ↔ s.sys.conn.state = .kDisconnected) ∧
      takes s.sys e ++ sys.conn.inputBuffer.readable = s.sys.conn.inputBuffer.readable := by
    by_cases hretrieve : ∃ len, e = .retrieve len
    · obtain ⟨len, rfl⟩ := hretrieve
      obtain ⟨b, _, hread, rfl⟩ := retrieve_ok h.buffers.input ht
      refine ⟨rfl, rfl, Iff.rfl, ?_⟩
      show s.sys.conn.inputBuffer.readable.take len ++ b.readable = _
      rw [hread, List.take_append_drop]
    · have hnone : takes s.sys e = [] := by
        cases e with
        | retrieve len => exact absurd ⟨len, rfl⟩ hretrieve
        | _ => rfl
      obtain ⟨state, hconn, hstate⟩ := (step_noTask hk ht).only_called fun len he => hretrieve ⟨len, he⟩
      rw [hconn, hnone]
      refine ⟨rfl, rfl, ?_, rfl⟩
      rcases hstate with rfl | ⟨hopen, rfl⟩
      · exact Iff.rfl
      · exact iff_of_false nofun (ne_kDisconnected_of_open hopen)
  refine ⟨h.buffers.step ht, ?_, ?_, ?_⟩
  · show Mute sys.conn
    intro hc
    rw [hchannel]
    exact h.mute (hdown.mp hc)
  · show (s.after e sys).written ++ sys.conn.outputBuffer.readable = s.passed ++ passes s.sys e
    rw [houtput, hwritten, hpassed, List.append_nil]
    exact h.output
  · show s.taken ++ takes s.sys e ++ sys.conn.inputBuffer.readable = s.received ++ receives s.sys e
    rw [hreceived, List.append_nil, List.append_assoc, hinput, h.input]

theorem step_balanced (h : Balanced s) (hsend : NoFailedSend s e) (ht : step s e = .ok t) : Balanced t := by
  obtain ⟨sys, hsys, rfl⟩ := step_eq_ok.mp ht
  cases hk : task s.sys e with
  | none => exact h.idle hk hsys
  | some k =>
      obtain ⟨o, ho, hran⟩ := step_task hk hsys
      obtain ⟨hin, hout⟩ := h.buffers.caller e
      exact h.ran hk (moves_task (h.caller e) hin hout (hsend k hk) ho) hran (h.buffers.step hsys)

end Endpoint

end OulaServer
