import OulaServer.TcpConnection.Basic

/-!
# What the functions of a connection do

One statement for each case of `sendInLoop` and `handleWirte`: the connection stays as it is
(`sendInLoop_keep`, `handleWirte_keep`), something is buffered (`sendInLoop_append`), or bytes were taken
from the buffer (`handleWirte_short`, `handleWirte_drained`). What runs of connections need follows from
them: the functions that leave the state alone (`Quiet`) and the write interest (`Watches`).
-/

namespace OulaServer

namespace TcpConnection

/-! ### Sending and writing -/

@[simp] theorem written_completes (c : TcpConnection) : written c.completes = [] := by
  unfold completes
  split_ifs <;> rfl

@[simp] theorem written_highWater (c : TcpConnection) (oldLen remaining : Nat) :
    written (c.highWater oldLen remaining) = [] := by
  unfold highWater
  split_ifs <;> rfl

variable {c : TcpConnection} {mem : Memory} {data : Int} {len : Nat} {w : WriteResult}

theorem bytesAt_add (mem : Memory) (p : Int) (m n : Nat) :
    bytesAt mem p (m + n) = bytesAt mem p m ++ bytesAt mem (p + m) n := by
  simp only [bytesAt, List.range_add, List.map_append, List.map_map]
  congr 1
  refine List.map_congr_left fun i _ => ?_
  simp only [Function.comp_apply, Nat.cast_add, add_assoc]

@[simp] theorem length_bytesAt : (bytesAt mem data len).length = len := by simp [bytesAt]

@[simp] theorem bytesAt_zero : bytesAt mem data 0 = [] := rfl

theorem count_toNat_le (w : WriteResult) (len : Nat) : (w.count len).toNat ≤ len := by
  cases w with
  | ok n => exact Nat.min_le_right _ _
  | error _ => exact Nat.zero_le _

theorem nWrote_toNat_le (c : TcpConnection) (len : Nat) (w : WriteResult) : (c.nWrote len w).toNat ≤ len := by
  unfold nWrote
  split_ifs
  · exact count_toNat_le w len
  · exact Nat.zero_le _

theorem written_directWrite :
    written (c.directWrite mem data len w) = bytesAt mem data (c.nWrote len w).toNat := by
  by_cases hdirect : c.writesDirect = true
  · simp only [directWrite, if_pos hdirect, written_cons]
    split_ifs <;> simp [Effect.bytes]
  · simp [directWrite, nWrote, hdirect]

theorem remaining_le : c.remaining len w ≤ len := Nat.sub_le _ _

/-- The channel after `if(!IsEnableWriteEvent()) EnableWriteEvent()`. -/
def waitWritable (c : TcpConnection) : Channel :=
  if c.channel.isEnableWriteEvent then c.channel else c.channel.declare .enableWriteEvent

theorem sendInLoop_disconnected (h : c.state = .kDisconnected) :
    c.sendInLoop true mem data len w = .ok { conn := c } := by
  simp only [sendInLoop, check_pos, ok_bind, if_pos h]
  rfl

/-- Nothing remains to be sent, or the peer is gone: the connection stays as it is. -/
theorem sendInLoop_keep (hstate : c.state ≠ .kDisconnected)
    (h : c.errorOccurs w = true ∨ c.remaining len w = 0) :
    c.sendInLoop true mem data len w = .ok { conn := c, effects := c.directWrite mem data len w } := by
  have hcond : ¬ ((!c.errorOccurs w && decide (0 < c.remaining len w)) = true) := by
    rcases h with h | h <;> simp [h]
  simp only [sendInLoop, check_pos, ok_bind, if_neg hstate, check_pos remaining_le, if_neg hcond]
  rfl

/-- Something remains: it is buffered and the channel waits for the socket. -/
theorem sendInLoop_append (mem : Memory) (data : Int) (hvalid : c.outputBuffer.Valid) (hstate : c.state ≠ .kDisconnected)
    (herr : c.errorOccurs w = false) (hrem : 0 < c.remaining len w) :
    ∃ b, b.Valid ∧ b.readable =
        c.outputBuffer.readable ++ bytesAt mem (data + c.nWrote len w) (c.remaining len w) ∧
      c.sendInLoop true mem data len w = .ok {
        conn := { c with outputBuffer := b, channel := c.waitWritable }
        effects := c.directWrite mem data len w ++
          c.highWater c.outputBuffer.readableBytes (c.remaining len w) ++
          if c.channel.isEnableWriteEvent then [] else [.update] } := by
  obtain ⟨b, hb, hvalid', hread⟩ :=
    Buffer.append_spec hvalid (bytesAt mem (data + c.nWrote len w) (c.remaining len w))
  refine ⟨b, hvalid', hread, ?_⟩
  have hcond : (!c.errorOccurs w && decide (0 < c.remaining len w)) = true := by simp [herr, hrem]
  simp only [sendInLoop, check_pos, ok_bind, if_neg hstate, check_pos remaining_le, if_pos hcond, hb,
    waitWritable]
  by_cases hw : c.channel.isEnableWriteEvent = true
  · simp only [if_pos hw, List.append_nil]
    rfl
  · simp only [if_neg hw]
    rfl

theorem handleWirte_keep (hvalid : c.outputBuffer.Valid)
    (h : c.channel.isEnableWriteEvent = false ∨ w.count c.outputBuffer.readableBytes ≤ 0) :
    c.handleWirte true w = .ok {
      conn := c
      effects := if c.channel.isEnableWriteEvent then [.write []] else [] } := by
  simp only [handleWirte, check_pos, ok_bind]
  by_cases hw : c.channel.isEnableWriteEvent = true
  · have hn : w.count c.outputBuffer.readableBytes ≤ 0 := h.resolve_left (by simp [hw])
    have htoNat : (w.count c.outputBuffer.readableBytes).toNat = 0 := Int.toNat_of_nonpos hn
    simp only [if_pos hw, Buffer.begin_ok hvalid, ok_bind, if_neg (not_lt.mpr hn), htoNat, List.take_zero]
    rfl
  · simp only [if_neg hw]
    rfl

theorem handleWirte_short (hvalid : c.outputBuffer.Valid) (hw : c.channel.isEnableWriteEvent = true)
    (hpos : 0 < w.count c.outputBuffer.readableBytes)
    (hlt : (w.count c.outputBuffer.readableBytes).toNat < c.outputBuffer.readableBytes) :
    ∃ b, b.Valid ∧ b.readable =
        c.outputBuffer.readable.drop (w.count c.outputBuffer.readableBytes).toNat ∧
      c.handleWirte true w = .ok {
        conn := { c with outputBuffer := b }
        effects := [.write (c.outputBuffer.readable.take (w.count c.outputBuffer.readableBytes).toNat)] } := by
  obtain ⟨b, hb, hvalid', hread⟩ := Buffer.retrieve_spec hvalid hlt.le
  have hne : b.readableBytes ≠ 0 := by
    rw [← Buffer.length_readable hvalid', hread, List.length_drop, Buffer.length_readable hvalid]
    omega
  refine ⟨b, hvalid', hread, ?_⟩
  simp only [handleWirte, check_pos, ok_bind, if_pos hw, Buffer.begin_ok hvalid, if_pos hpos, hb, if_neg hne]
  rfl

/-- The effects of `handleWirte` when the last buffered byte was taken, before it may shut down. -/
def drainWrites (c : TcpConnection) : List Effect := [.write c.outputBuffer.readable, .update] ++ c.completes

def drainEffects (c : TcpConnection) : List Effect :=
  c.drainWrites ++ if c.state = .kDisconnecting then [.shutdownWrite] else []

@[simp] theorem written_drainWrites (c : TcpConnection) : written c.drainWrites = c.outputBuffer.readable := by
  simp [drainWrites, Effect.bytes]

@[simp] theorem written_drainEffects (c : TcpConnection) :
    written c.drainEffects = c.outputBuffer.readable := by
  unfold drainEffects
  split_ifs <;> simp [Effect.bytes]

theorem shutdownWrite_drainWrites (c : TcpConnection) : .shutdownWrite ∉ c.drainWrites := by
  unfold drainWrites completes
  split_ifs <;> simp

theorem isEnableWriteEvent_disable (ch : Channel) :
    (ch.declare .disableWriteEvent).isEnableWriteEvent = false := by
  simp [Channel.isEnableWriteEvent, Channel.declare, ChannelOp.apply, BitVec.and_assoc]

theorem handleWirte_drained (hvalid : c.outputBuffer.Valid) (hw : c.channel.isEnableWriteEvent = true)
    (hpos : 0 < w.count c.outputBuffer.readableBytes)
    (hall : (w.count c.outputBuffer.readableBytes).toNat = c.outputBuffer.readableBytes) :
    ∃ b, b.Valid ∧ b.readable = [] ∧ c.handleWirte true w = .ok {
      conn := { c with outputBuffer := b, channel := c.channel.declare .disableWriteEvent }
      effects := c.drainEffects } := by
  obtain ⟨b, hb, hvalid', hread⟩ := Buffer.retrieve_spec hvalid hall.le
  have hnil : b.readable = [] := by
    rw [hread, List.drop_of_length_le (by rw [Buffer.length_readable hvalid, hall])]
  have hzero : b.readableBytes = 0 := (Buffer.readable_eq_nil hvalid').mp hnil
  have htake : c.outputBuffer.readable.take (w.count c.outputBuffer.readableBytes).toNat =
      c.outputBuffer.readable :=
    List.take_of_length_le (by rw [Buffer.length_readable hvalid, hall])
  refine ⟨b, hvalid', hnil, ?_⟩
  simp only [handleWirte, check_pos, ok_bind, if_pos hw, Buffer.begin_ok hvalid, if_pos hpos, hb,
    if_pos hzero, htake, drainEffects, drainWrites, shutdownInLoop, isEnableWriteEvent_disable]
  by_cases hstate : c.state = .kDisconnecting
  · simp only [if_pos hstate]
    rfl
  · simp only [if_neg hstate]
    rfl

/-! ### The write interest -/

/-- The channel waits for the socket exactly when something is buffered. -/
def Watches (c : TcpConnection) : Prop := c.channel.isEnableWriteEvent = true ↔ c.outputBuffer.readable ≠ []

theorem isEnableWriteEvent_enable (ch : Channel) :
    (ch.declare .enableWriteEvent).isEnableWriteEvent = true := by
  have hand : (ch.events ||| kWriteEvent) &&& kWriteEvent = kWriteEvent := by
    rw [BitVec.and_or_distrib_right, BitVec.and_self]
    ext i
    simp only [BitVec.getElem_or, BitVec.getElem_and]
    cases ch.events[i] <;> simp
  simp only [Channel.isEnableWriteEvent, Channel.declare, ChannelOp.apply, hand]
  decide

theorem waitWritable_enabled (c : TcpConnection) : c.waitWritable.isEnableWriteEvent = true := by
  unfold waitWritable
  split_ifs with h
  · exact h
  · exact isEnableWriteEvent_enable _

theorem Watches.sendInLoop {o : Outcome} (h : c.Watches) (hvalid : c.outputBuffer.Valid)
    (ho : c.sendInLoop true mem data len w = .ok o) : o.conn.Watches := by
  by_cases hstate : c.state = .kDisconnected
  · rw [sendInLoop_disconnected hstate] at ho
    cases ho
    exact h
  by_cases hkeep : c.errorOccurs w = true ∨ c.remaining len w = 0
  · rw [sendInLoop_keep hstate hkeep] at ho
    cases ho
    exact h
  · rw [not_or, Bool.not_eq_true] at hkeep
    obtain ⟨b, hvalid', hread, hsend⟩ := sendInLoop_append mem data hvalid hstate hkeep.1
      (Nat.pos_of_ne_zero hkeep.2)
    rw [hsend] at ho
    cases ho
    refine iff_of_true c.waitWritable_enabled ?_
    rw [hread]
    refine List.append_ne_nil_of_right_ne_nil _ fun hnil => hkeep.2 ?_
    have hlen : (bytesAt mem (data + c.nWrote len w) (c.remaining len w)).length = c.remaining len w :=
      length_bytesAt
    rw [← hlen, hnil, List.length_nil]

/-- The answer of `::write` takes all that is buffered. -/
def Drains (c : TcpConnection) (w : WriteResult) : Prop :=
  c.channel.isEnableWriteEvent = true ∧ 0 < w.count c.outputBuffer.readableBytes ∧
    (w.count c.outputBuffer.readableBytes).toNat = c.outputBuffer.readableBytes

instance (c : TcpConnection) (w : WriteResult) : Decidable (c.Drains w) :=
  inferInstanceAs (Decidable (_ ∧ _ ∧ _))

theorem handleWirte_undrained (hvalid : c.outputBuffer.Valid) (h : ¬ c.Drains w) :
    ∃ b effects, b.Valid ∧ (b.readable ≠ [] ↔ c.outputBuffer.readable ≠ []) ∧
      (∀ e ∈ effects, ∃ bytes, e = .write bytes) ∧ written effects ++ b.readable = c.outputBuffer.readable ∧
      c.handleWirte true w = .ok { conn := { c with outputBuffer := b }, effects } := by
  by_cases hkeep : c.channel.isEnableWriteEvent = false ∨ w.count c.outputBuffer.readableBytes ≤ 0
  · refine ⟨c.outputBuffer, _, hvalid, Iff.rfl, fun e he => ?_, ?_, handleWirte_keep hvalid hkeep⟩
    · split_ifs at he <;> simp_all
    · split_ifs <;> simp [Effect.bytes]
  · rw [not_or, not_le, Bool.not_eq_false] at hkeep
    obtain ⟨hw, hpos⟩ := hkeep
    have hlt := lt_of_le_of_ne (count_toNat_le w c.outputBuffer.readableBytes) fun hall => h ⟨hw, hpos, hall⟩
    obtain ⟨b, hvalid', hread, hstep⟩ := handleWirte_short hvalid hw hpos hlt
    refine ⟨b, _, hvalid', iff_of_true ?_ ?_, by simp, ?_, hstep⟩
    · rw [hread]
      intro hnil
      rw [List.drop_eq_nil_iff, Buffer.length_readable hvalid] at hnil
      omega
    · intro hnil
      rw [Buffer.readable_eq_nil hvalid] at hnil
      omega
    · simp [Effect.bytes, hread, List.take_append_drop]

/-! ### Opening and closing -/

/-- The connection that `handleClose` leaves. -/
def closed (c : TcpConnection) : TcpConnection :=
  { c with state := .kDisconnected, channel := c.channel.declare .disableAllEvent }

theorem connectEstablished_ok (h : c.state = .kConnecting) :
    c.connectEstablished true = .ok {
      conn := { c with state := .kConnected, channel := c.channel.declare .enableReadEvent }
      effects := [.update]
      rest := [.connectionUp] } := by
  simp only [connectEstablished, check_pos, ok_bind, check_pos h]
  rfl

theorem handleClose_ok (h : c.Open) : c.handleClose true = .ok {
    conn := c.closed
    effects := [.update]
    rest := [.connectionDown, .closeCallback] } := by
  simp only [handleClose, check_pos, ok_bind, check_pos h]
  rfl

theorem forceCloseInLoop_open (h : c.Open) : c.forceCloseInLoop true = c.handleClose true := by
  simp only [forceCloseInLoop, check_pos, ok_bind, if_pos h]

theorem forceCloseInLoop_keep (h : ¬ c.Open) : c.forceCloseInLoop true = .ok { conn := c } := by
  simp only [forceCloseInLoop, check_pos, ok_bind, if_neg h]
  rfl

theorem connectDestoryed_connected (h : c.state = .kConnected) : c.connectDestoryed true = .ok {
    conn := c.closed
    effects := [.update]
    rest := [.connectionDown, .remove] } := by
  simp only [connectDestoryed, check_pos, ok_bind, if_pos h]
  rfl

theorem connectDestoryed_keep (h : c.state ≠ .kConnected) :
    c.connectDestoryed true = .ok { conn := c, rest := [.remove] } := by
  simp only [connectDestoryed, check_pos, ok_bind, if_neg h]
  rfl

/-- `handleRead` calls the user's callback with a valid buffer, or closes the connection. -/
theorem handleRead_cases (hvalid : c.inputBuffer.Valid) (r : Option (List UInt8)) :
    ∃ b, b.Valid ∧ (c.handleRead true r = .ok { conn := { c with inputBuffer := b }, rest := [.messageCallback] } ∨
      c.handleRead true r = { c with inputBuffer := b }.handleClose true) := by
  obtain ⟨b, n, hread, hvalid'⟩ : ∃ b n, c.inputBuffer.readFd r = .ok (b, n) ∧ b.Valid := by
    cases r with
    | none => exact ⟨_, _, Buffer.readFd_none hvalid, hvalid⟩
    | some bytes =>
        obtain ⟨b, hb, hvalid', _⟩ := Buffer.readFd_some hvalid bytes
        exact ⟨b, _, hb, hvalid'⟩
  refine ⟨b, hvalid', ?_⟩
  simp only [handleRead, hread, ok_bind]
  rcases Nat.eq_zero_or_pos (sizeT n) with hn | hn
  · exact Or.inr (by simp only [hn, lt_irrefl, if_false, if_true])
  · exact Or.inl (by simp only [if_pos hn]; rfl)

/-! ### Functions that leave the state -/

theorem completes_plain : ∀ e ∈ c.completes, e.Plain := by
  unfold completes
  split_ifs
  · rintro e (_ | ⟨_, ⟨⟩⟩)
    exact Or.inl rfl
  · exact nofun

theorem highWater_plain {oldLen remaining : Nat} : ∀ e ∈ c.highWater oldLen remaining, e.Plain := by
  unfold highWater
  split_ifs
  · rintro e (_ | ⟨_, ⟨⟩⟩)
    exact Or.inr ⟨_, rfl⟩
  · exact nofun

theorem directWrite_plain : ∀ e ∈ c.directWrite mem data len w, e.Plain := by
  unfold directWrite
  split_ifs
  · rintro e (_ | ⟨_, he⟩)
    · trivial
    · exact completes_plain e he
  · rintro e (_ | ⟨_, ⟨⟩⟩)
    trivial
  · exact nofun

theorem functors_plain {effects : List Effect} (h : ∀ e ∈ effects, e.Plain) :
    ∀ f ∈ functors effects, f.IsUser := by
  intro f hf
  obtain ⟨e, he, hfun⟩ := List.mem_filterMap.mp hf
  have hplain := h e he
  cases e <;> cases hfun
  exact hplain

/-- One update of the interest, between effects that are none: `EnableWriteEvent` of a connection that is
not disconnected, or `DisableWriteEvent` of one that waits for the socket. -/
structure Declares (c : TcpConnection) (o : Outcome) (op : ChannelOp) (before after : List Effect) : Prop where
  channel : o.conn.channel = c.channel.declare op
  effects : o.effects = before ++ .update :: after
  before : .update ∉ before
  after : .update ∉ after
  op : op = .enableWriteEvent ∧ c.state ≠ .kDisconnected ∨
    op = .disableWriteEvent ∧ c.channel.isEnableWriteEvent = true

/-- The outcome of a function that only moves bytes: it leaves the state and what was read, calls no user
code, queues none but the user's functors, and updates the interest at most once. -/
structure Quiet (c : TcpConnection) (o : Outcome) : Prop where
  state : o.conn.state = c.state
  inputBuffer : o.conn.inputBuffer = c.inputBuffer
  valid : o.conn.outputBuffer.Valid
  rest : o.rest = []
  functors : ∀ f ∈ functors o.effects, f.IsUser
  update : o.conn.channel = c.channel ∧ .update ∉ o.effects ∨ ∃ op before after, Declares c o op before after

theorem Quiet.of_buffer {b : Buffer} (hvalid : b.Valid) {effects : List Effect}
    (huser : ∀ f ∈ OulaServer.functors effects, f.IsUser) (hupdate : .update ∉ effects) :
    Quiet c { conn := { c with outputBuffer := b }, effects } :=
  ⟨rfl, rfl, hvalid, rfl, huser, Or.inl ⟨rfl, hupdate⟩⟩

theorem not_update_of_plain {effects : List Effect} (h : ∀ e ∈ effects, e.Plain) : .update ∉ effects :=
  fun hmem => h _ hmem

theorem drainEffects_user : ∀ f ∈ functors c.drainEffects, f.IsUser := by
  intro f hf
  simp only [drainEffects, drainWrites, functors_append, List.mem_append] at hf
  rcases hf with (hf | hf) | hf
  · cases hf
  · exact functors_plain completes_plain f hf
  · split_ifs at hf <;> cases hf

theorem sendInLoop_quiet (mem : Memory) (data : Int) (hvalid : c.outputBuffer.Valid) :
    ∃ o, c.sendInLoop true mem data len w = .ok o ∧ Quiet c o := by
  by_cases hstate : c.state = .kDisconnected
  · exact ⟨_, sendInLoop_disconnected hstate, Quiet.of_buffer hvalid nofun nofun⟩
  by_cases hkeep : c.errorOccurs w = true ∨ c.remaining len w = 0
  · exact ⟨_, sendInLoop_keep hstate hkeep, Quiet.of_buffer hvalid (functors_plain directWrite_plain)
      (not_update_of_plain directWrite_plain)⟩
  rw [not_or, Bool.not_eq_true] at hkeep
  obtain ⟨b, hvalid', _, hsend⟩ := sendInLoop_append mem data hvalid hstate hkeep.1
    (Nat.pos_of_ne_zero hkeep.2)
  have hplain : ∀ e ∈ c.directWrite mem data len w ++
      c.highWater c.outputBuffer.readableBytes (c.remaining len w), e.Plain := by
    intro e he
    rcases List.mem_append.mp he with he | he
    · exact directWrite_plain e he
    · exact highWater_plain e he
  refine ⟨_, hsend, ?_⟩
  by_cases hw : c.channel.isEnableWriteEvent = true
  · simp only [if_pos hw, List.append_nil, waitWritable]
    exact Quiet.of_buffer hvalid' (functors_plain hplain) (not_update_of_plain hplain)
  · simp only [if_neg hw, waitWritable]
    refine ⟨rfl, rfl, hvalid', rfl, ?_, Or.inr ⟨.enableWriteEvent, _, [], rfl, rfl,
      not_update_of_plain hplain, nofun, Or.inl ⟨rfl, hstate⟩⟩⟩
    rw [functors_append]
    simpa [functors_cons, Effect.functor] using functors_plain hplain

theorem handleWirte_quiet (hvalid : c.outputBuffer.Valid) :
    ∃ o, c.handleWirte true w = .ok o ∧ Quiet c o := by
  by_cases hkeep : c.channel.isEnableWriteEvent = false ∨ w.count c.outputBuffer.readableBytes ≤ 0
  · refine ⟨_, handleWirte_keep hvalid hkeep, ?_⟩
    split_ifs
    · exact Quiet.of_buffer hvalid nofun (by simp)
    · exact Quiet.of_buffer hvalid nofun nofun
  rw [not_or, not_le, Bool.not_eq_false] at hkeep
  obtain ⟨hw, hpos⟩ := hkeep
  rcases lt_or_eq_of_le (count_toNat_le w c.outputBuffer.readableBytes) with hlt | hall
  · obtain ⟨b, hvalid', _, hstep⟩ := handleWirte_short hvalid hw hpos hlt
    exact ⟨_, hstep, Quiet.of_buffer hvalid' nofun (by simp)⟩
  · obtain ⟨b, hvalid', _, hstep⟩ := handleWirte_drained hvalid hw hpos hall
    have hafter : .update ∉ c.completes ++ if c.state = .kDisconnecting then [.shutdownWrite] else [] := by
      have hcompletes := not_update_of_plain (completes_plain (c := c))
      split_ifs <;> simp [hcompletes]
    refine ⟨_, hstep, rfl, rfl, hvalid', rfl, drainEffects_user, Or.inr ⟨.disableWriteEvent,
      [.write c.outputBuffer.readable], _, rfl, ?_, by simp, hafter, Or.inr ⟨rfl, hw⟩⟩⟩
    simp [drainEffects, drainWrites]

theorem runFunctor_quiet (mem : Memory) (w : WriteResult) (hvalid : c.outputBuffer.Valid)
    {f : ConnFunctor} (hf : ¬ f.IsLifecycle) :
    ∃ o, c.runFunctor true mem w f = .ok o ∧ Quiet c o := by
  cases f with
  | connectEstablished => exact absurd trivial hf
  | connectDestoryed => exact absurd trivial hf
  | forceCloseInLoop => exact absurd trivial hf
  | sendInLoop data len => exact sendInLoop_quiet mem data hvalid
  | shutdownInLoop =>
      refine ⟨_, rfl, ?_⟩
      split_ifs
      · exact Quiet.of_buffer hvalid nofun nofun
      · exact Quiet.of_buffer hvalid nofun (by simp)
  | addTimerInLoop => exact ⟨_, rfl, Quiet.of_buffer hvalid nofun (by simp)⟩
  | writeCompleteCallback => exact ⟨_, rfl, Quiet.of_buffer hvalid nofun nofun⟩
  | highWaterMarkCallback len => exact ⟨_, rfl, Quiet.of_buffer hvalid nofun nofun⟩

/-- A call is turned down, or the connection is open and gets on to `kDisconnecting` at most. -/
theorem call_cases (c : TcpConnection) (k : Call) :
    c.call k = (c, none) ∨ c.Open ∧ ∃ state t, (state = c.state ∨ state = .kDisconnecting) ∧
      c.call k = ({ c with state }, some t) ∧
      (t = .queueInLoop .forceCloseInLoop ∨ ∃ f, t = .runInLoop f ∧ ¬ f.IsLifecycle) := by
  cases k with
  | send data len =>
      by_cases h : c.state = .kConnected
      · exact Or.inr ⟨Or.inl h, c.state, .runInLoop (.sendInLoop data len), Or.inl rfl, if_pos h,
          Or.inr ⟨_, rfl, id⟩⟩
      · exact Or.inl (if_neg h)
  | shutdown =>
      by_cases h : c.state = .kConnected
      · exact Or.inr ⟨Or.inl h, _, .runInLoop .shutdownInLoop, Or.inr rfl, if_pos h,
          Or.inr ⟨_, rfl, id⟩⟩
      · exact Or.inl (if_neg h)
  | forceClose =>
      by_cases h : c.Open
      · exact Or.inr ⟨h, _, .queueInLoop .forceCloseInLoop, Or.inr rfl, if_pos h, Or.inl rfl⟩
      · exact Or.inl (if_neg h)
  | forceCloseWithDelay =>
      by_cases h : c.Open
      · exact Or.inr ⟨h, _, .runInLoop .addTimerInLoop, Or.inr rfl, if_pos h, Or.inr ⟨_, rfl, id⟩⟩
      · exact Or.inl (if_neg h)

/-! ### What is left of a function -/

section

variable {b : Bool} {wr : WriteResult} {o : Outcome}

theorem handleClose_rest (ho : c.handleClose b = .ok o) : .remove ∉ o.rest := by
  obtain ⟨_, _, ho⟩ := bind_eq_ok.mp ho
  obtain ⟨_, _, ho⟩ := bind_eq_ok.mp ho
  cases ho
  simp

theorem sendInLoop_rest {data : Int} {len : Nat} (ho : c.sendInLoop b mem data len wr = .ok o) : o.rest = [] := by
  obtain ⟨_, _, ho⟩ := bind_eq_ok.mp ho
  split at ho
  · cases ho
    rfl
  · obtain ⟨_, _, ho⟩ := bind_eq_ok.mp ho
    split at ho
    · obtain ⟨_, _, ho⟩ := bind_eq_ok.mp ho
      split at ho
      · cases ho
        rfl
      · cases ho
        rfl
    · cases ho
      rfl

theorem handleWirte_rest (ho : c.handleWirte b wr = .ok o) : o.rest = [] := by
  obtain ⟨_, _, ho⟩ := bind_eq_ok.mp ho
  split at ho
  · obtain ⟨_, _, ho⟩ := bind_eq_ok.mp ho
    dsimp only at ho
    split at ho
    · obtain ⟨_, _, ho⟩ := bind_eq_ok.mp ho
      split at ho
      · split at ho
        · obtain ⟨_, _, ho⟩ := bind_eq_ok.mp ho
          cases ho
          rfl
        · cases ho
          rfl
      · cases ho
        rfl
    · cases ho
      rfl
  · cases ho
    rfl

theorem handleRead_rest {r : Option (List UInt8)} (ho : c.handleRead b r = .ok o) : .remove ∉ o.rest := by
  obtain ⟨⟨buffer, n⟩, _, ho⟩ := bind_eq_ok.mp ho
  dsimp only at ho
  split at ho
  · cases ho
    simp
  · split at ho
    · exact handleClose_rest ho
    · cases ho
      simp

theorem handleCallback_rest {r : Option (List UInt8)} {cb : EventCallback} (ho : c.handleCallback b r wr cb = .ok o) :
    .remove ∉ o.rest := by
  cases cb with
  | close => exact handleClose_rest ho
  | read => exact handleRead_rest ho
  | write =>
      rw [handleWirte_rest ho]
      exact List.not_mem_nil

theorem forceCloseInLoop_rest (ho : c.forceCloseInLoop b = .ok o) : .remove ∉ o.rest := by
  obtain ⟨_, _, ho⟩ := bind_eq_ok.mp ho
  split at ho
  · exact handleClose_rest ho
  · cases ho
    simp

theorem remove_of_runFunctor {f : ConnFunctor} (ho : c.runFunctor b mem wr f = .ok o) (hrest : .remove ∈ o.rest) :
    f = .connectDestoryed := by
  cases f with
  | connectDestoryed => rfl
  | connectEstablished =>
      obtain ⟨_, _, ho⟩ := bind_eq_ok.mp ho
      obtain ⟨_, _, ho⟩ := bind_eq_ok.mp ho
      cases ho
      simp at hrest
  | sendInLoop data len =>
      rw [sendInLoop_rest ho] at hrest
      cases hrest
  | shutdownInLoop =>
      obtain ⟨_, _, ho⟩ := bind_eq_ok.mp ho
      cases ho
      cases hrest
  | forceCloseInLoop => exact absurd hrest (forceCloseInLoop_rest ho)
  | addTimerInLoop =>
      cases ho
      cases hrest
  | writeCompleteCallback =>
      cases ho
      cases hrest
  | highWaterMarkCallback len =>
      cases ho
      cases hrest

end

end TcpConnection

end OulaServer
