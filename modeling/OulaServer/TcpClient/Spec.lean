import OulaServer.TcpClient.Basic
import OulaServer.TcpConnection.Spec

/-!
# What the functions of a client do

A function of a connection and one of the connector each change a part of the client and leave the rest:
`finish_ok` and `finishConnector_ok` say which part, for every outcome that does not fail. `Calm` is the outcome
of a connection's function that neither opens nor closes it, and `newConnection_ok` is the one that makes a
connection.
-/

namespace OulaServer

namespace TcpClient

open TcpConnection EpollPoller World

/-! ### Functions of a connection -/

/-- The outcome of a function that neither opens nor closes the connection; one that is down keeps its channel. -/
structure Calm (c : TcpConnection) (o : Outcome) : Prop where
  state : o.conn.state = c.state
  validIn : o.conn.inputBuffer.Valid
  validOut : o.conn.outputBuffer.Valid
  rest : ∀ r ∈ o.rest, r = .messageCallback
  functors : ∀ f ∈ functors o.effects, f.IsUser
  fd : o.conn.channel.fd = c.channel.fd
  status : o.conn.channel.inPollerStatus = c.channel.inPollerStatus
  down : c.state = .kDisconnected → c.channel.events = kNoneEvent → o.conn.channel = c.channel ∧ .update ∉ o.effects

variable {c : TcpConnection} {o : Outcome}

theorem Calm.of_quiet (hin : c.inputBuffer.Valid) (h : Quiet c o) : Calm c o := by
  have hrest : ∀ r ∈ o.rest, r = .messageCallback := by
    rw [h.rest]
    exact nofun
  have hvalid : o.conn.inputBuffer.Valid := by
    rw [h.inputBuffer]
    exact hin
  rcases h.update with hkeep | ⟨op, before, after, hdeclares⟩
  · exact ⟨h.state, hvalid, h.valid, hrest, h.functors, by rw [hkeep.1], by rw [hkeep.1], fun _ _ => hkeep⟩
  · refine ⟨h.state, hvalid, h.valid, hrest, h.functors, by rw [hdeclares.channel]; rfl,
      by rw [hdeclares.channel]; rfl, fun hdown hnone => ?_⟩
    rcases hdeclares.op with ⟨_, hne⟩ | ⟨_, hwrite⟩
    · exact absurd hdown hne
    · rw [Channel.isEnableWriteEvent, hnone] at hwrite
      exact absurd hwrite (by decide)

theorem Calm.same (hin : c.inputBuffer.Valid) (hout : c.outputBuffer.Valid) : Calm c { conn := c } :=
  ⟨rfl, hin, hout, nofun, nofun, rfl, rfl, fun _ _ => ⟨rfl, nofun⟩⟩

theorem Calm.deliver (hout : c.outputBuffer.Valid) {b : Buffer} (hb : b.Valid) :
    Calm c { conn := { c with inputBuffer := b }, rest := [.messageCallback] } :=
  ⟨rfl, hb, hout, by simp, nofun, rfl, rfl, fun _ _ => ⟨rfl, nofun⟩⟩

/-- The outcome of `handleClose`, maybe after `handleRead` had read nothing into `b`. -/
def closes (c : TcpConnection) (b : Buffer) : Outcome where
  conn := TcpConnection.closed { c with inputBuffer := b }
  effects := [.update]
  rest := [.connectionDown, .closeCallback]

theorem handleCallback_cases (hin : c.inputBuffer.Valid) (hout : c.outputBuffer.Valid) {r : Option (List UInt8)}
    {wr : WriteResult} {cb : EventCallback} (ho : c.handleCallback true r wr cb = .ok o) :
    Calm c o ∨ c.Open ∧ ∃ b, b.Valid ∧ o = closes c b := by
  have hclose : ∀ b : Buffer, b.Valid → { c with inputBuffer := b }.handleClose true = .ok o →
      c.Open ∧ ∃ b, b.Valid ∧ o = closes c b := by
    intro b hb ho
    by_cases hopen : { c with inputBuffer := b }.Open
    · cases (handleClose_ok hopen).symm.trans ho
      exact ⟨hopen, b, hb, rfl⟩
    · simp only [handleClose, check_pos, ok_bind, check_neg hopen] at ho
      cases ho
  cases cb with
  | close => exact Or.inr (hclose c.inputBuffer hin ho)
  | read =>
      obtain ⟨b, hb, hread | hread⟩ := handleRead_cases hin r
      · cases hread.symm.trans ho
        exact Or.inl (.deliver hout hb)
      · exact Or.inr (hclose b hb (hread.symm.trans ho))
  | write =>
      obtain ⟨o', ho', hquiet⟩ := handleWirte_quiet (w := wr) hout
      cases ho'.symm.trans ho
      exact Or.inl (.of_quiet hin hquiet)

theorem forceCloseInLoop_cases (hin : c.inputBuffer.Valid) (hout : c.outputBuffer.Valid)
    (ho : c.forceCloseInLoop true = .ok o) :
    ¬ c.Open ∧ Calm c o ∨ c.Open ∧ o = closes c c.inputBuffer := by
  by_cases hopen : c.Open
  · rw [forceCloseInLoop_open hopen, handleClose_ok hopen] at ho
    cases ho
    exact Or.inr ⟨hopen, rfl⟩
  · rw [forceCloseInLoop_keep hopen] at ho
    cases ho
    exact Or.inl ⟨hopen, .same hin hout⟩

/-- The world after a function of the connection `id`. -/
def World.acted (w : World) (id : Nat) (tcp : TcpConnection) (loop : EventLoop Active Functor)
    (poller : EpollPoller Owner) (timers : List Timer) (rest : List Rest) : World :=
  { w with
    conn := Function.update w.conn id { w.conn id with tcp }
    loop
    poller
    timers
    rest := rest.map (id, ·) ++ w.rest }

/-- The timers that the effects add. -/
def timersOf (id : Nat) (effects : List Effect) : List Timer :=
  effects.filterMap fun e => if e = .addTimer then some (.forceCloseInLoop id) else none

theorem mem_timersOf {id : Nat} {effects : List Effect} {t : Timer} (h : t ∈ timersOf id effects) :
    t = .forceCloseInLoop id := by
  obtain ⟨e, _, he⟩ := List.mem_filterMap.mp h
  split_ifs at he
  exact (Option.some.inj he).symm

/-- What effects of the connection `id` leave, where its channel is `before` and becomes `channel`. -/
structure Acts (w : World) (id : Nat) (before : Channel) (effects : List Effect) (channel : Channel)
    (loop : EventLoop Active Functor) (poller : EpollPoller Owner) (timers : List Timer) : Prop where
  phase : loop.phase = w.loop.phase
  queued : loop.queued = w.loop.queued ++ (functors effects).map (.conn id)
  timers : timers = w.timers ++ timersOf id effects
  fd : channel.fd = before.fd
  events : channel.events = before.events
  kept : .update ∉ effects → channel = before
  tracks : w.poller.Tracks (.conn id) (some before) → poller.Tracks (.conn id) (some channel)
  others : ∀ owner, owner ≠ .conn id → ∀ o, w.poller.Tracks owner o → poller.Tracks owner o

/-- The functors on their way, in the order in which the loop will call those that are queued. -/
def World.pending (w : World) : List Functor := w.loop.queued ++ w.inflight

variable {w w' : World} {id : Nat}

@[simp] theorem setTcp_conn_self (w : World) (id : Nat) (tcp : TcpConnection) :
    (w.setTcp id tcp).conn id = { w.conn id with tcp } := Function.update_self _ _ _

theorem setTcp_self (w : World) (id : Nat) : w.setTcp id (w.conn id).tcp = w := by
  simp only [setTcp, Function.update_eq_self]

theorem foldlM_perform {effects : List Effect} (hok : effects.foldlM (perform id) w = .ok w') :
    ∃ channel loop poller timers,
      w' = { w with loop, poller, timers }.setTcp id { (w.conn id).tcp with channel } ∧
      Acts w id (w.conn id).tcp.channel effects channel loop poller timers := by
  induction effects generalizing w with
  | nil =>
      cases hok
      refine ⟨_, _, _, _, (setTcp_self w' id).symm, rfl, by simp, by simp [timersOf], rfl, rfl, fun _ => rfl,
        fun h => h, fun _ _ _ h => h⟩
  | cons e effects ih =>
      rw [List.foldlM_cons] at hok
      obtain ⟨w₁, hone, hok⟩ := bind_eq_ok.mp hok
      obtain ⟨channel, loop, poller, timers, rfl, hacts⟩ := ih hok
      cases e with
      | update =>
          obtain ⟨⟨p, ch⟩, hupdate, hone⟩ := bind_eq_ok.mp hone
          cases hone
          have hup := updateChannel_updated hupdate
          obtain ⟨status, _, rfl⟩ := hup.channel
          simp only [setTcp_conn_self] at hacts ⊢
          refine ⟨channel, loop, poller, timers, ?_, hacts.phase, hacts.queued, ?_, hacts.fd, hacts.events,
            fun hno => absurd List.mem_cons_self hno, fun htracks => hacts.tracks (htracks.update rfl hup),
            fun owner hne o ho => hacts.others owner hne o (ho.update_of_ne hne hup)⟩
          · simp only [setTcp, Function.update_self, Function.update_idem]
          · rw [hacts.timers]
            rfl
      | write bytes =>
          cases hone
          exact ⟨channel, loop, poller, timers, rfl, { hacts with
            kept := fun hno => hacts.kept fun h => hno (List.mem_cons_of_mem _ h) }⟩
      | shutdownWrite =>
          cases hone
          exact ⟨channel, loop, poller, timers, rfl, { hacts with
            kept := fun hno => hacts.kept fun h => hno (List.mem_cons_of_mem _ h) }⟩
      | queueInLoop f =>
          cases hone
          refine ⟨channel, loop, poller, timers, rfl, ?_, ?_, hacts.timers, hacts.fd, hacts.events,
            fun hno => hacts.kept fun h => hno (List.mem_cons_of_mem _ h), hacts.tracks, hacts.others⟩
          · exact hacts.phase.trans EventLoop.queueInLoop_phase
          · rw [hacts.queued]
            simp [queueInLoop, functors_cons, Effect.functor]
      | addTimer =>
          cases hone
          refine ⟨channel, loop, poller, timers, rfl, hacts.phase, hacts.queued, ?_, hacts.fd, hacts.events,
            fun hno => hacts.kept fun h => hno (List.mem_cons_of_mem _ h), hacts.tracks, hacts.others⟩
          rw [hacts.timers]
          simp [timersOf]

theorem finish_ok (hok : w.finish id o = .ok w') : ∃ channel loop poller timers,
    w' = w.acted id { o.conn with channel } loop poller timers o.rest ∧
      Acts w id o.conn.channel o.effects channel loop poller timers := by
  obtain ⟨w₁, hfold, hok⟩ := bind_eq_ok.mp hok
  cases hok
  obtain ⟨channel, loop, poller, timers, rfl, hacts⟩ := foldlM_perform hfold
  simp only [setTcp_conn_self] at hacts ⊢
  refine ⟨channel, loop, poller, timers, ?_, { hacts with }⟩
  simp only [acted, setTcp, Function.update_self, Function.update_idem]

/-! ### Functions of the connector -/

/-- The functors that the effects queue. -/
def queuedBy (effects : List Connector.Effect) : List Functor :=
  effects.filterMap fun
    | .queueInLoop f => some (.connector f)
    | _ => none

/-- The timers that the effects add. -/
def timersBy (effects : List Connector.Effect) : List Timer :=
  effects.filterMap fun
    | .runAfter _ => some .startInLoop
    | _ => none

/-- What effects of the connector leave that do not make a connection. -/
structure Runs (w : World) (before : Option (Nat × Channel)) (effects : List Connector.Effect)
    (channel : Option (Nat × Channel)) (loop : EventLoop Active Functor) (poller : EpollPoller Owner)
    (timers : List Timer) : Prop where
  phase : loop.phase = w.loop.phase
  queued : loop.queued = w.loop.queued ++ queuedBy effects
  timers : timers = w.timers ++ timersBy effects
  channel : channel.map Prod.fst = before.map Prod.fst
  conns : ∀ id o, w.poller.Tracks (.conn id) o → poller.Tracks (.conn id) o

theorem onPoller_ok {f : EpollPoller Owner → Owner → Channel → Except Abort (EpollPoller Owner × Channel)}
    (hok : w.onPoller f = .ok w') : ∃ name ch p ch', w.connector.channel = some (name, ch) ∧
      f w.poller (.connector name) ch = .ok (p, ch') ∧
      w' = { w with poller := p, connector := { w.connector with channel := some (name, ch') } } := by
  unfold onPoller at hok
  cases hch : w.connector.channel with
  | none =>
      simp only [hch] at hok
      cases hok
  | some c =>
      obtain ⟨name, ch⟩ := c
      simp only [hch] at hok
      obtain ⟨⟨p, ch'⟩, hf, hok⟩ := bind_eq_ok.mp hok
      cases hok
      exact ⟨name, ch, p, ch', rfl, hf, rfl⟩

theorem foldlM_performConnector {effects : List Connector.Effect} (hnew : Connector.MakesNone effects)
    (hok : effects.foldlM performConnector w = .ok w') :
    ∃ channel loop poller timers sockets,
      w' = { w with connector := { w.connector with channel }, loop, poller, timers, sockets } ∧
      Runs w w.connector.channel effects channel loop poller timers := by
  induction effects generalizing w with
  | nil =>
      cases hok
      exact ⟨_, _, _, _, _, rfl, rfl, by simp [queuedBy], by simp [timersBy], rfl, fun _ _ h => h⟩
  | cons e effects ih =>
      have htail : Connector.MakesNone effects := fun fd hmem => hnew fd (List.mem_cons_of_mem _ hmem)
      rw [List.foldlM_cons] at hok
      obtain ⟨w₁, hone, hok⟩ := bind_eq_ok.mp hok
      obtain ⟨channel, loop, poller, timers, sockets, rfl, hruns⟩ := ih htail hok
      cases e with
      | socket name fd =>
          cases hone
          exact ⟨channel, loop, poller, timers, sockets, rfl, { hruns with }⟩
      | update =>
          obtain ⟨name, ch, p, ch', hch, hf, rfl⟩ := onPoller_ok hone
          refine ⟨channel, loop, poller, timers, sockets, rfl, { hruns with channel := ?_, conns := fun id o ho => ?_ }⟩
          · rw [hruns.channel, hch]
            rfl
          · exact hruns.conns id o (ho.update_of_ne (by nofun) (updateChannel_updated hf))
      | remove =>
          obtain ⟨name, ch, p, ch', hch, hf, rfl⟩ := onPoller_ok hone
          refine ⟨channel, loop, poller, timers, sockets, rfl, { hruns with channel := ?_, conns := fun id o ho => ?_ }⟩
          · rw [hruns.channel, hch]
            rfl
          · exact hruns.conns id o (ho.of_removed (removeChannel_removed hf))
      | close fd =>
          cases hone
          exact ⟨channel, loop, poller, timers, sockets, rfl, { hruns with }⟩
      | queueInLoop f =>
          cases hone
          refine ⟨channel, loop, poller, timers, sockets, rfl, { hruns with phase := ?_, queued := ?_ }⟩
          · exact hruns.phase.trans EventLoop.queueInLoop_phase
          · rw [hruns.queued]
            simp [queueInLoop, queuedBy]
      | runAfter delayMs =>
          cases hone
          refine ⟨channel, loop, poller, timers, sockets, rfl, { hruns with timers := ?_ }⟩
          rw [hruns.timers]
          simp [timersBy]
      | newConnectionCallback fd => exact absurd List.mem_cons_self (hnew fd)

theorem finishConnector_ok {o : Connector.Outcome} (hnew : Connector.MakesNone o.effects)
    (hok : w.finishConnector o = .ok w') :
    ∃ channel loop poller timers sockets,
      w' = { w with connector := { o.connector with channel }, loop, poller, timers, sockets } ∧
      Runs w o.connector.channel o.effects channel loop poller timers := by
  obtain ⟨channel, loop, poller, timers, sockets, rfl, hruns⟩ := foldlM_performConnector hnew hok
  exact ⟨channel, loop, poller, timers, sockets, rfl, { hruns with }⟩

theorem finishConnector_self (hok : w.finishConnector { connector := w.connector } = .ok w') : w' = w := by
  cases hok
  rfl

/-! ### A new connection -/

/-- The client when its next connection was made, before `ConnectEstablished`. -/
def World.made (w : World) (sockfd : Int) : World :=
  { w with
    nextConnId := w.nextConnId + 1
    conn := Function.update w.conn (w.nextConnId + 1)
      ⟨TcpConnection.new sockfd 0 w.writeCompleteCallback false, .client⟩
    connection := some (w.nextConnId + 1) }

/-- A connection that was established, before the poller knew its channel. -/
def established (sockfd : Int) (writeComplete : Bool) : TcpConnection :=
  { TcpConnection.new sockfd 0 writeComplete false with
    state := .kConnected
    channel := (Channel.new sockfd).declare .enableReadEvent }

theorem newConnection_ok {sockfd : Int} (hok : w.newConnection sockfd = .ok w') :
    w.destroyed = false ∧ ∃ channel loop poller timers,
      w' = (w.made sockfd).acted (w.nextConnId + 1) { established sockfd w.writeCompleteCallback with channel }
        loop poller timers [.connectionUp] ∧
      Acts (w.made sockfd) (w.nextConnId + 1) (established sockfd w.writeCompleteCallback).channel [.update] channel loop
        poller timers := by
  obtain ⟨_, halive, hok⟩ := bind_eq_ok.mp hok
  refine ⟨check_eq_ok.mp halive, ?_⟩
  obtain ⟨o, ho, hok⟩ := bind_eq_ok.mp hok
  cases (connectEstablished_ok rfl).symm.trans ho
  exact finish_ok (w := w.made sockfd) hok

end TcpClient

end OulaServer
