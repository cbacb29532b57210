import OulaServer.TcpConnection.Shutdown

/-!
# What a step of the loop runs

A step of `ConnLoop` runs at most one function of the connection: `task` says which one, and `caller` on which
connection, since a call sets the state first. `step_task` says what the step makes of the function's outcome, and
`step_noTask` what is left for a step without one (`Idle`): it leaves the bytes alone that wait to be sent and queues
nothing for the user.
Statements about runs follow from these two and one statement for each function.
-/

namespace OulaServer

namespace ConnLoop

open TcpConnection

/-- A function of the connection with the kernel's answers. -/
inductive Task where
  | callback (r : Option (List UInt8)) (w : WriteResult) (cb : EventCallback)
  | functor (mem : Memory) (w : WriteResult) (f : ConnFunctor)

def Task.run (c : TcpConnection) : Task → Except Abort Outcome
  | callback r w cb => c.handleCallback true r w cb
  | functor mem w f => c.runFunctor true mem w f

/-- The function that a step runs. The two that open and close the connection use no answers. -/
def task (s : State) : Event → Option Task
  | .handleCallback r w => s.callbacks.head?.map (.callback r w)
  | .timerCallback => some (.functor (fun _ => 0) (.ok 0) .forceCloseInLoop)
  | .callFunctor mem w => s.loop.phase.nextFunctor.map (.functor mem w)
  | .call c mem w =>
      match (s.conn.call c).2 with
      | some (.runInLoop f) => some (.functor mem w f)
      | some (.queueInLoop _) | none => none
  | .establish => some (.functor (fun _ => 0) (.ok 0) .connectEstablished)
  | .enterLoop | .poll _ | .handleEvent | .swapFunctors | .endFunctors | .userCode | .retrieve _ | .otherCall _
  | .otherPush _ => none

/-- The connection that the function finds. -/
def caller (s : State) : Event → TcpConnection
  | .call c _ _ => (s.conn.call c).1
  | _ => s.conn

/-- The functors that the connection's functions queued so far. -/
def queuedLog (log : List Entry) : List ConnFunctor :=
  log.flatMap fun
    | .effect e => e.functor.toList
    | .sent _ _ | .user _ => []

/-- How often user code was called, or is about to be. -/
def invoked (r : Rest) (s : State) : Nat := s.log.count (.user r) + s.rest.count r

/-! ### Functions that move no bytes -/

section

variable {c : TcpConnection} {o : Outcome} {b : Bool}

theorem isEnableWriteEvent_enableRead (ch : Channel) :
    (ch.declare .enableReadEvent).isEnableWriteEvent = ch.isEnableWriteEvent := by
  have hand : kReadEvent &&& kWriteEvent = 0#32 := by decide
  simp only [Channel.isEnableWriteEvent, Channel.declare, ChannelOp.apply, BitVec.and_or_distrib_right, hand,
    BitVec.or_zero]

/-- The outcome of a function that opens or closes the connection: one that it does not leave closed was not closed
before, and waits for the socket as before. -/
structure Still (c : TcpConnection) (o : Outcome) : Prop where
  conn : ∃ state channel, o.conn = { c with state, channel } ∧
    (state = .kDisconnected ∨
      c.state ≠ .kDisconnected ∧ channel.isEnableWriteEvent = c.channel.isEnableWriteEvent)
  functors : functors o.effects = []
  written : written o.effects = []
  silent : .messageCallback ∉ o.rest

theorem still_same (c : TcpConnection) {rest : List Rest} (hrest : .messageCallback ∉ rest) :
    Still c { conn := c, rest } := by
  refine ⟨⟨c.state, c.channel, rfl, ?_⟩, rfl, rfl, hrest⟩
  by_cases h : c.state = .kDisconnected
  · exact Or.inl h
  · exact Or.inr ⟨h, rfl⟩

theorem still_handleClose (ho : c.handleClose b = .ok o) : Still c o := by
  obtain ⟨_, _, ho⟩ := bind_eq_ok.mp ho
  obtain ⟨_, _, ho⟩ := bind_eq_ok.mp ho
  cases ho
  exact ⟨⟨_, _, rfl, Or.inl rfl⟩, rfl, rfl, by simp⟩

theorem still_forceCloseInLoop (ho : c.forceCloseInLoop b = .ok o) : Still c o := by
  obtain ⟨_, _, ho⟩ := bind_eq_ok.mp ho
  split at ho
  · exact still_handleClose ho
  · cases ho
    exact still_same c nofun

theorem still_connectEstablished (ho : c.connectEstablished b = .ok o) : Still c o := by
  obtain ⟨_, _, ho⟩ := bind_eq_ok.mp ho
  obtain ⟨_, hcheck, ho⟩ := bind_eq_ok.mp ho
  have hstate : c.state ≠ .kDisconnected := by
    rw [check_eq_ok.mp hcheck]
    nofun
  cases ho
  exact ⟨⟨_, _, rfl, Or.inr ⟨hstate, isEnableWriteEvent_enableRead _⟩⟩, rfl, rfl, by simp⟩

theorem still_connectDestoryed (ho : c.connectDestoryed b = .ok o) : Still c o := by
  obtain ⟨_, _, ho⟩ := bind_eq_ok.mp ho
  split at ho
  · cases ho
    exact ⟨⟨_, _, rfl, Or.inl rfl⟩, rfl, rfl, by simp⟩
  · cases ho
    exact still_same c (by simp)

theorem still_lifecycle {mem : Memory} {w : WriteResult} {f : ConnFunctor} (hf : f.IsLifecycle)
    (ho : c.runFunctor b mem w f = .ok o) : Still c o := by
  cases f with
  | connectEstablished => exact still_connectEstablished ho
  | connectDestoryed => exact still_connectDestoryed ho
  | forceCloseInLoop => exact still_forceCloseInLoop ho
  | sendInLoop data len => cases hf
  | shutdownInLoop => cases hf
  | addTimerInLoop => cases hf
  | writeCompleteCallback => cases hf
  | highWaterMarkCallback len => cases hf

/-- The functions of a connection queue none but the user's functors. -/
theorem functors_task {k : Task} (hin : c.inputBuffer.Valid) (hout : c.outputBuffer.Valid) (ho : k.run c = .ok o) :
    ∀ f ∈ functors o.effects, f.IsUser := by
  have hstill : Still c o → ∀ f ∈ functors o.effects, f.IsUser := by
    intro h
    rw [h.functors]
    exact nofun
  cases k with
  | callback r w cb =>
      cases cb with
      | close => exact hstill (still_handleClose ho)
      | read =>
          obtain ⟨b, _, hread | hclose⟩ := handleRead_cases hin r
          · cases ho.symm.trans hread
            exact nofun
          · exact fun f hf => by
              rw [(still_handleClose (hclose.symm.trans ho)).functors] at hf
              cases hf
      | write =>
          obtain ⟨o', ho', hquiet⟩ := handleWirte_quiet (w := w) hout
          cases ho.symm.trans ho'
          exact hquiet.functors
  | functor mem w f =>
      by_cases hf : f.IsLifecycle
      · exact hstill (still_lifecycle hf ho)
      · obtain ⟨o', ho', hquiet⟩ := runFunctor_quiet mem w hout hf
        cases ho.symm.trans ho'
        exact hquiet.functors

end

/-! ### The log -/

@[simp] theorem queuedLog_append (log log' : List Entry) : queuedLog (log ++ log') = queuedLog log ++ queuedLog log' :=
  List.flatMap_append

@[simp] theorem queuedLog_effects (effects : List Effect) : queuedLog (effects.map .effect) = functors effects := by
  induction effects with
  | nil => rfl
  | cons e effects ih =>
      rw [functors_cons, ← ih]
      rfl

@[simp] theorem queuedLog_user (r : Rest) : queuedLog [.user r] = [] := rfl

@[simp] theorem writtenLog_user (r : Rest) : writtenLog [.user r] = [] := rfl

@[simp] theorem count_effects (effects : List Effect) (r : Rest) : (effects.map Entry.effect).count (.user r) = 0 := by
  refine List.count_eq_zero.mpr fun hmem => ?_
  obtain ⟨e, _, he⟩ := List.mem_map.mp hmem
  cases he

/-- Entries that only tell which messages were accepted. -/
def Messages (l : List Entry) : Prop := ∀ e ∈ l, ∃ data len, e = .sent data len

theorem messages_accept (c : Call) : Messages (accept c) := by
  cases c with
  | send data len => simp [Messages, accept]
  | _ => simp [Messages, accept]

theorem Messages.queued {l : List Entry} (h : Messages l) : queuedLog l = [] := by
  refine List.flatMap_eq_nil_iff.mpr fun e he => ?_
  obtain ⟨data, len, rfl⟩ := h e he
  rfl

theorem Messages.written {l : List Entry} (h : Messages l) : writtenLog l = [] := by
  refine List.flatMap_eq_nil_iff.mpr fun e he => ?_
  obtain ⟨data, len, rfl⟩ := h e he
  rfl

theorem Messages.count {l : List Entry} (h : Messages l) (r : Rest) : l.count (.user r) = 0 := by
  refine List.count_eq_zero.mpr fun hmem => ?_
  obtain ⟨data, len, he⟩ := h _ hmem
  cases he

/-! ### Steps -/

variable {s t : State} {e : Event} {o : Outcome}

/-- A step that ran a function of the connection with this outcome. -/
structure Ran (s t : State) (o : Outcome) : Prop where
  conn : t.conn = o.conn
  queued : queuedLog t.log = queuedLog s.log ++ functors o.effects
  written : writtenLog t.log = writtenLog s.log ++ written o.effects
  invoked : ∀ r, invoked r t = invoked r s + o.rest.count r

/-- A step that ran none. A call may have moved an open connection to `kDisconnecting`, and the user may have taken
bytes out of `inputBuffer_`; the log tells of messages that were accepted, or of the next user code in `rest`. -/
structure Idle (s : State) (e : Event) (t : State) : Prop where
  conn : ∃ state inputBuffer, t.conn = { s.conn with state, inputBuffer } ∧
    (state = s.conn.state ∨ s.conn.Open ∧ state = .kDisconnecting) ∧ (s.conn.inputBuffer.Valid → inputBuffer.Valid)
  input : (∀ len, e ≠ .retrieve len) → t.conn.inputBuffer = s.conn.inputBuffer
  timers : t.timers = s.timers
  log : ∃ l, t.log = s.log ++ l ∧
    (t.rest = s.rest ∧ Messages l ∨ e = .userCode ∧ ∃ r, s.rest = r :: t.rest ∧ l = [.user r])

namespace Idle

theorem rest (h : Idle s e t) (huser : e ≠ .userCode) : t.rest = s.rest := by
  obtain ⟨l, _, ⟨hrest, _⟩ | ⟨hcode, _⟩⟩ := h.log
  · exact hrest
  · exact absurd hcode huser

theorem log_grows (h : Idle s e t) : s.log <+: t.log := by
  obtain ⟨l, hlog, _⟩ := h.log
  exact ⟨l, hlog.symm⟩

theorem queued (h : Idle s e t) : queuedLog t.log = queuedLog s.log := by
  obtain ⟨l, hlog, ⟨_, hl⟩ | ⟨_, r, _, rfl⟩⟩ := h.log
  · rw [hlog, queuedLog_append, hl.queued, List.append_nil]
  · rw [hlog, queuedLog_append, queuedLog_user, List.append_nil]

theorem written (h : Idle s e t) : writtenLog t.log = writtenLog s.log := by
  obtain ⟨l, hlog, ⟨_, hl⟩ | ⟨_, r, _, rfl⟩⟩ := h.log
  · rw [hlog, writtenLog_append, hl.written, List.append_nil]
  · rw [hlog, writtenLog_append, writtenLog_user, List.append_nil]

theorem invoked (h : Idle s e t) (r : Rest) : invoked r t = invoked r s := by
  obtain ⟨l, hlog, ⟨hrest, hl⟩ | ⟨_, r', hrest, rfl⟩⟩ := h.log
  · rw [ConnLoop.invoked, hlog, hrest, List.count_append, hl.count, Nat.add_zero]
    rfl
  · -- the user code that was about to be called was called
    simp only [ConnLoop.invoked, hlog, hrest, List.count_append, List.count_cons, List.count_nil]
    by_cases hr : r' = r
    · simp [hr]
      omega
    · simp [hr]

theorem only_called (h : Idle s e t) (hretrieve : ∀ len, e ≠ .retrieve len) :
    ∃ state, t.conn = { s.conn with state } ∧ (state = s.conn.state ∨ s.conn.Open ∧ state = .kDisconnecting) := by
  obtain ⟨state, b, hconn, hstate, _⟩ := h.conn
  have hinput : b = s.conn.inputBuffer := by rw [← h.input hretrieve, hconn]
  exact ⟨state, by rw [hconn, hinput], hstate⟩

end Idle

/-- `finish` in a state that differs from `s` in the loop, and in the log by an accepted message. -/
theorem ran_finish {s₀ : State} {l : List Entry} (hrest : s₀.rest = s.rest) (hlog : s₀.log = s.log ++ l)
    (hl : Messages l) : Ran s (finish s₀ o) o := by
  refine ⟨finish_conn, ?_, ?_, fun r => ?_⟩
  · rw [finish_log, hlog, queuedLog_append, queuedLog_append, queuedLog_effects, hl.queued, List.append_nil]
  · rw [finish_log, hlog, writtenLog_append, writtenLog_append, writtenLog_effects, hl.written, List.append_nil]
  · simp only [ConnLoop.invoked, finish_log, finish_rest, hlog, hrest, List.count_append, hl.count, count_effects]
    omega

theorem ran_finish_same {s₀ : State} (hrest : s₀.rest = s.rest) (hlog : s₀.log = s.log) : Ran s (finish s₀ o) o :=
  ran_finish hrest (hlog.trans (List.append_nil _).symm) nofun

theorem idle_of_same (hconn : t.conn = s.conn) (htimers : t.timers = s.timers) (hlog : t.log = s.log)
    (hrest : t.rest = s.rest) : Idle s e t where
  conn := ⟨s.conn.state, s.conn.inputBuffer, hconn, Or.inl rfl, fun h => h⟩
  input _ := by rw [hconn]
  timers := htimers
  log := ⟨[], by rw [hlog, List.append_nil], Or.inl ⟨hrest, nofun⟩⟩

theorem call_state (c : TcpConnection) (k : Call) :
    ∃ state, (c.call k).1 = { c with state } ∧ (state = c.state ∨ c.Open ∧ state = .kDisconnecting) := by
  rcases call_cases c k with hnone | ⟨hopen, state, t, hstate, hcall, _⟩
  · exact ⟨c.state, by rw [hnone], Or.inl rfl⟩
  · exact ⟨state, by rw [hcall], hstate.imp_right fun h => ⟨hopen, h⟩⟩

theorem caller_state (s : State) (e : Event) :
    ∃ state, caller s e = { s.conn with state } ∧ (state = s.conn.state ∨ s.conn.Open ∧ state = .kDisconnecting) := by
  cases e with
  | call k mem w => exact call_state s.conn k
  | _ => exact ⟨s.conn.state, rfl, Or.inl rfl⟩

theorem idle_call {k : Call} {l : List Entry} (hconn : t.conn = (s.conn.call k).1) (htimers : t.timers = s.timers)
    (hlog : t.log = s.log ++ l) (hrest : t.rest = s.rest) (hl : Messages l) : Idle s e t := by
  obtain ⟨state, hcall, hstate⟩ := call_state s.conn k
  rw [hcall] at hconn
  exact ⟨⟨state, s.conn.inputBuffer, hconn, hstate, fun h => h⟩, fun _ => by rw [hconn], htimers, l, hlog,
    Or.inl ⟨hrest, hl⟩⟩

theorem idle_userCode (ht : step s .userCode = .ok t) : Idle s .userCode t := by
  simp only [step] at ht
  split at ht
  next rest hrest =>
    cases ht
    exact ⟨⟨_, _, rfl, Or.inl rfl, fun h => h⟩, fun _ => rfl, rfl, _, rfl, Or.inr ⟨rfl, _, hrest, rfl⟩⟩
  next r rest _ hrest =>
    cases ht
    exact ⟨⟨_, _, rfl, Or.inl rfl, fun h => h⟩, fun _ => rfl, rfl, _, rfl, Or.inr ⟨rfl, _, hrest, rfl⟩⟩
  next => cases ht; exact idle_of_same rfl rfl rfl rfl

theorem idle_retrieve {len : Nat} (ht : step s (.retrieve len) = .ok t) : Idle s (.retrieve len) t := by
  obtain ⟨b, hb, ht⟩ := bind_eq_ok.mp ht
  cases ht
  refine ⟨⟨s.conn.state, b, rfl, Or.inl rfl, fun hvalid => ?_⟩, fun h => absurd rfl (h len), rfl, [],
    (List.append_nil _).symm, Or.inl ⟨rfl, nofun⟩⟩
  obtain ⟨_, hcheck, _⟩ := bind_eq_ok.mp hb
  obtain ⟨b', hb', hvalid', _⟩ := Buffer.retrieve_spec hvalid (check_eq_ok.mp hcheck)
  rw [hb] at hb'
  cases hb'
  exact hvalid'

theorem step_task {k : Task} (hk : task s e = some k) (ht : step s e = .ok t) :
    ∃ o, k.run (caller s e) = .ok o ∧ Ran s t o := by
  cases e with
  | handleCallback r w =>
      simp only [task, Option.map_eq_some_iff] at hk
      obtain ⟨cb, hhead, rfl⟩ := hk
      obtain ⟨callbacks, hcbs⟩ := List.head?_eq_some_iff.mp hhead
      simp only [step, hcbs] at ht
      obtain ⟨o, ho, ht⟩ := bind_eq_ok.mp ht
      cases ht
      exact ⟨o, ho, ran_finish_same rfl rfl⟩
  | timerCallback =>
      cases hk
      obtain ⟨o, ho, ht⟩ := bind_eq_ok.mp ht
      cases ht
      exact ⟨o, ho, ran_finish_same rfl rfl⟩
  | callFunctor mem w =>
      simp only [task, Option.map_eq_some_iff] at hk
      obtain ⟨f, hnext, rfl⟩ := hk
      obtain ⟨functors, hphase⟩ := Phase.nextFunctor_eq_some.mp hnext
      simp only [step, hphase] at ht
      obtain ⟨o, ho, ht⟩ := bind_eq_ok.mp ht
      cases ht
      exact ⟨o, ho, ran_finish_same rfl rfl⟩
  | call c mem w =>
      simp only [task] at hk
      simp only [step] at ht
      rcases hcall : s.conn.call c with ⟨conn, _ | f | f⟩
      · rw [hcall] at hk
        cases hk
      · rw [hcall] at hk ht
        cases hk
        obtain ⟨o, ho, ht⟩ := bind_eq_ok.mp ht
        cases ht
        refine ⟨o, ?_, ran_finish rfl rfl (messages_accept c)⟩
        show (s.conn.call c).1.runFunctor true mem w f = .ok o
        rw [hcall]
        exact ho
      · rw [hcall] at hk
        cases hk
  | establish =>
      cases hk
      obtain ⟨o, ho, ht⟩ := bind_eq_ok.mp ht
      cases ht
      exact ⟨o, ho, ran_finish_same rfl rfl⟩
  | enterLoop => cases hk
  | poll active => cases hk
  | handleEvent => cases hk
  | swapFunctors => cases hk
  | endFunctors => cases hk
  | userCode => cases hk
  | retrieve len => cases hk
  | otherCall c => cases hk
  | otherPush i => cases hk

theorem step_noTask (hk : task s e = none) (ht : step s e = .ok t) : Idle s e t := by
  cases e with
  | handleCallback r w =>
      simp only [task, Option.map_eq_none_iff, List.head?_eq_none_iff] at hk
      simp only [step, hk] at ht
      cases ht
      exact idle_of_same rfl rfl rfl rfl
  | timerCallback => cases hk
  | callFunctor mem w =>
      simp only [task, Option.map_eq_none_iff] at hk
      simp only [step] at ht
      split at ht
      next f functors hphase =>
        rw [hphase] at hk
        cases hk
      next =>
        cases ht
        exact idle_of_same rfl rfl rfl rfl
  | call c mem w =>
      simp only [task] at hk
      simp only [step] at ht
      rcases hcall : s.conn.call c with ⟨conn, _ | f | f⟩
      · rw [hcall] at ht
        cases ht
        exact idle_call (k := c) (by rw [hcall]) rfl (List.append_nil _).symm rfl (by simp [Messages])
      · rw [hcall] at hk
        cases hk
      · rw [hcall] at ht
        cases ht
        exact idle_call (k := c) (by rw [hcall]) rfl (List.append_nil _).symm rfl (by simp [Messages])
  | establish => cases hk
  | enterLoop => cases ht; exact idle_of_same rfl rfl rfl rfl
  | poll active => cases ht; exact idle_of_same rfl rfl rfl rfl
  | handleEvent =>
      simp only [step] at ht
      split at ht
      all_goals
        cases ht
        exact idle_of_same rfl rfl rfl rfl
  | swapFunctors => cases ht; exact idle_of_same rfl rfl rfl rfl
  | endFunctors => cases ht; exact idle_of_same rfl rfl rfl rfl
  | userCode => exact idle_userCode ht
  | retrieve len => exact idle_retrieve ht
  | otherCall c =>
      simp only [step] at ht
      rcases hcall : s.conn.call c with ⟨conn, _ | f | f⟩
      · rw [hcall] at ht
        cases ht
        exact idle_call (k := c) (by rw [hcall]) rfl (List.append_nil _).symm rfl (by simp [Messages])
      all_goals
        rw [hcall] at ht
        cases ht
        exact idle_call (k := c) (by rw [hcall]) rfl rfl rfl (messages_accept c)
  | otherPush i =>
      simp only [step] at ht
      split at ht
      all_goals
        cases ht
        exact idle_of_same rfl rfl rfl rfl

end ConnLoop

end OulaServer
