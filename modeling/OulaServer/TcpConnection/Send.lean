import OulaServer.TcpConnection.Read

/-!
# `send` from other threads

The system of `OulaServer.TcpConnection.Loop` with the memory that the messages stand in and the threads that
call `send`. The functor that `send` hands to the loop holds the pointer and the length of the message, not
its bytes: `sendInLoop` reads them when the functor is called, and until then the memory may have changed.

The history has, for each thread, the bytes of its messages when it called `send`, and what the calls of its
functors did: the bytes that the step wrote to the socket and those that it appended to `outputBuffer_`, as the
connection and the log show them. `Delivered` compares the two, call by call. It holds as long as no message is
changed in memory before its functor is called (`KeepsWaiting`), and no direct `::write` of a queued message fails
with an `errno` that is not fatal (`NoFailedDirectWrite`; `sendInLoop` then goes on from one byte before the
message). `Inv` carries it: what was done, followed by the bytes that the waiting messages have now, is what was
passed to `send`.
-/

namespace OulaServer

namespace SendSystem

open Run TcpConnection

/-- The argument of the two overloads of `send`: a pointer and a length, or a string, which is passed on by
its `data()` and `length()`. -/
inductive Message where
  | pointer (data : Int) (len : Nat)
  | string (data : Int) (length : Nat)
  deriving DecidableEq, Repr

def Message.call : Message → Call
  | pointer data len | string data len => .send data len

/-- The pointer and the length that the functor of a message holds. -/
def Message.bound : Message → Int × Nat
  | pointer data len | string data len => (data, len)

/-- What a functor of `send` holds. -/
def sent : ConnFunctor → Option (Int × Nat)
  | .sendInLoop data len => some (data, len)
  | _ => none

def sends (functors : List ConnFunctor) : List (Int × Nat) := functors.filterMap sent

def read (mem : Memory) (m : Int × Nat) : List UInt8 := bytesAt mem m.1 m.2

/-- What the call of a functor of `send` did. -/
structure Processed where
  /-- The connection was disconnected, or `::write` found that the peer had closed it. -/
  gaveUp : Bool
  /-- The bytes that were written to the socket and then those that were appended to `outputBuffer_`. -/
  bytes : List UInt8
  deriving DecidableEq, Repr

structure State (T : Type) where
  sys : ConnLoop.State
  mem : Memory
  /-- What a thread inside `send` has yet to push. -/
  sending : T → Option (Int × Nat)
  /-- The functors of `send` in the queue of the loop, with the thread that called it. -/
  queue : List (T × Int × Nat)
  /-- The messages of a thread, as they were when it called `send`. -/
  messages : T → List (List UInt8)
  /-- What its functors did, one call after the other. -/
  processed : T → List Processed

inductive Event (T : Type) where
  -- the loop, its user code, and calls of other functions from other threads
  | sys (e : ConnLoop.Event)
  | send (t : T) (m : Message)
  | push (t : T) (i : Nat)
  -- a thread overwrites or releases memory
  | setMemory (mem : Memory)

variable {T : Type} [DecidableEq T]

def init (c : TcpConnection) (mem : Memory) : State T :=
  ⟨ConnLoop.init c, mem, fun _ => none, [], fun _ => [], fun _ => []⟩

/-- The bytes that a step wrote to the socket, and those that it appended to `outputBuffer_`. -/
def passedOn (s s' : ConnLoop.State) : List UInt8 :=
  (ConnLoop.writtenLog s'.log).drop (ConnLoop.writtenLog s.log).length ++
    s'.conn.outputBuffer.readable.drop s.conn.outputBuffer.readable.length

/-- `sendInLoop` does nothing with a message, or drops it after its direct `::write`. -/
def givesUp (c : TcpConnection) (w : WriteResult) : Bool := c.state == .kDisconnected || c.errorOccurs w

/-- A functor of `send` was called, in the step to `sys`. -/
def recordCall (s : State T) (sys : ConnLoop.State) : ConnLoop.Event → State T
  | .callFunctor _ w =>
      match s.sys.loop.phase.nextFunctor.bind sent, s.queue with
      | some _, (t, _) :: queue =>
          let done : Processed := ⟨givesUp s.sys.conn w, passedOn s.sys sys⟩
          { s with queue, processed := Function.update s.processed t (s.processed t ++ [done]) }
      | _, _ => s
  | _ => s

/-- `send` is called, and not turned down. -/
def recordSend (s : State T) (t : T) (m : Message) : State T :=
  if s.sys.conn.state = .kConnected then
    { s with
      sending := Function.update s.sending t (some m.bound)
      messages := Function.update s.messages t (s.messages t ++ [read s.mem m.bound]) }
  else s

def recordPush (s : State T) (t : T) : State T :=
  { s with
    sending := Function.update s.sending t none
    queue := s.queue ++ (s.sending t).toList.map (t, ·) }

def step (s : State T) : Event T → Except Abort (State T)
  | .sys e => (ConnLoop.step s.sys e).map fun sys => { recordCall s sys e with sys }
  | .send t m => (ConnLoop.step s.sys (.otherCall m.call)).map fun sys => { recordSend s t m with sys }
  | .push t i => (ConnLoop.step s.sys (.otherPush i)).map fun sys => { recordPush s t with sys }
  | .setMemory mem => .ok { s with mem }

/-- The loop reads the memory as it is, and what other threads send is a step of its own. -/
def NoSend (s : State T) : ConnLoop.Event → Prop
  | .callFunctor mem _ | .call _ mem _ => mem = s.mem
  | .otherCall c => ∀ data len, c ≠ .send data len
  | .otherPush i => s.sys.inflight[i]?.bind sent = none
  | _ => True

/-- When each step can be taken. A thread makes one call of `send` at a time. -/
def Enabled (s : State T) : Event T → Prop
  | .sys e => ConnLoop.Enabled s.sys e ∧ NoSend s e
  | .send t _ => s.sending t = none
  | .push t i => ∃ m, s.sending t = some m ∧ s.sys.inflight[i]? = some (.sendInLoop m.1 m.2)
  | .setMemory _ => True

/-- The messages of a thread whose functor has not been called. -/
def waiting (s : State T) (t : T) : List (Int × Nat) :=
  (s.queue.filter (·.1 = t)).map Prod.snd ++ (s.sending t).toList

/-- Memory may change, but not under a message whose functor has not been called. -/
def KeepsWaiting (s : State T) : Event T → Prop
  | .setMemory mem => ∀ t, ∀ m ∈ waiting s t, read mem m = read s.mem m
  | _ => True

/-- The direct `::write` of a queued message returns `-1` only where the peer has closed the connection, or for a
message that reads the same one byte earlier. -/
def NoFailedDirectWrite (s : State T) : Event T → Prop
  | .sys (.callFunctor mem w) => ∀ m ∈ s.sys.loop.phase.nextFunctor.bind sent,
      s.sys.conn.state ≠ .kDisconnected → s.sys.conn.writesDirect = true → w.count m.2 < 0 →
        w.peerClosed = true ∨ bytesAt mem (m.1 - 1) m.2 = bytesAt mem m.1 m.2
  | _ => True

/-- No message is changed while it waits, and no queued one is hit by a `::write` that fails. -/
def Good (s : State T) (e : Event T) : Prop := KeepsWaiting s e ∧ NoFailedDirectWrite s e

/-- The `i`th functor of a thread gave up and did nothing, or processed exactly the thread's `i`th message. -/
def Delivered (_ : State T) (_ : Event T) (s : State T) : Prop :=
  ∀ (t : T) (i : Nat) (done : Processed), (s.processed t)[i]? = some done →
    if done.gaveUp then done.bytes = [] else (s.messages t)[i]? = some done.bytes

/-! ### The functions of a connection queue no functor of `send` -/

@[simp] theorem sends_append (fs gs : List ConnFunctor) : sends (fs ++ gs) = sends fs ++ sends gs :=
  List.filterMap_append

theorem sends_user {fs : List ConnFunctor} (h : ∀ f ∈ fs, f.IsUser) : sends fs = [] := by
  refine List.filterMap_eq_nil_iff.mpr fun f hf => ?_
  rcases h f hf with rfl | ⟨_, rfl⟩
  · rfl
  · rfl

variable {c : TcpConnection} {mem : Memory} {w : WriteResult} {o : Outcome}

theorem sends_task {k : ConnLoop.Task} (hin : c.inputBuffer.Valid) (hout : c.outputBuffer.Valid)
    (ho : k.run c = .ok o) : sends (functors o.effects) = [] :=
  sends_user (ConnLoop.functors_task hin hout ho)

/-- The functor of `send` that a step of the system takes from the queue. -/
def taken (s : ConnLoop.State) : ConnLoop.Event → Option (Int × Nat)
  | .callFunctor _ _ => s.loop.phase.nextFunctor.bind sent
  | _ => none

variable {s : State T}

omit [DecidableEq T] in
/-- Only the call of a functor of `send` takes one from the queue, and none is added. -/
theorem sends_step (hs : ConnLoop.Buffers s.sys) {e : ConnLoop.Event} (hen : ConnLoop.Enabled s.sys e)
    (hno : NoSend s e) {t : ConnLoop.State} (ht : ConnLoop.step s.sys e = .ok t) :
    sends s.sys.loop.queued = (taken s.sys e).toList ++ sends t.loop.queued := by
  cases e with
  | enterLoop =>
      cases ht
      exact congrArg sends (EventLoop.queued_beforeLoop hen)
  | poll active =>
      cases ht
      exact congrArg sends (EventLoop.queued_polling hen.1)
  | handleEvent =>
      obtain ⟨a, ha⟩ := Option.ne_none_iff_exists'.mp hen.2.2
      obtain ⟨active, hphase⟩ := Phase.nextChannel_eq_some.mp ha
      have hqueued := congrArg sends (EventLoop.queued_dispatching hphase)
      simp only [ConnLoop.step, hphase] at ht
      cases a with
      | channel revents =>
          cases ht
          exact hqueued
      | timerfd =>
          cases ht
          exact hqueued
      | other =>
          cases ht
          exact hqueued
  | handleCallback r w =>
      obtain ⟨cb, callbacks, hcb⟩ := List.exists_cons_of_ne_nil hen.2
      simp only [ConnLoop.step, hcb] at ht
      obtain ⟨o, ho, ht⟩ := bind_eq_ok.mp ht
      cases ht
      have hsends := sends_task (k := .callback r w cb) hs.input hs.output ho
      simp [taken, hsends]
  | timerCallback =>
      obtain ⟨o, ho, ht⟩ := bind_eq_ok.mp ht
      cases ht
      have hsends := sends_task (k := .functor (fun _ => 0) (.ok 0) .forceCloseInLoop) hs.input hs.output ho
      simp [taken, hsends]
  | swapFunctors =>
      cases ht
      simp [taken, EventLoop.queued_dispatching hen.2.2]
  | callFunctor mem w =>
      obtain ⟨f, hf⟩ := Option.ne_none_iff_exists'.mp hen.2
      obtain ⟨functors, hphase⟩ := Phase.nextFunctor_eq_some.mp hf
      simp only [ConnLoop.step, hphase] at ht
      obtain ⟨o, ho, ht⟩ := bind_eq_ok.mp ht
      cases ht
      rw [EventLoop.queued_calling hphase]
      have hsends := sends_task (k := .functor mem w f) hs.input hs.output ho
      simp only [taken, hf, Option.bind_some, ConnLoop.finish_queued, EventLoop.queued_callRest, sends_append,
        hsends, List.append_nil]
      cases hsent : sent f with
      | none => simp [sends, hsent]
      | some m => simp [sends, hsent]
  | endFunctors =>
      cases ht
      simp [taken, EventLoop.queued_calling hen.2]
  | userCode =>
      simp only [ConnLoop.step] at ht
      split at ht
      · cases ht
        rfl
      · cases ht
        rfl
      · cases ht
        rfl
  | call k mem w =>
      simp only [ConnLoop.step] at ht
      split at ht
      next conn f hcall =>
        obtain ⟨o, ho, ht⟩ := bind_eq_ok.mp ht
        cases ht
        obtain ⟨hin, hout⟩ := hs.caller (.call k mem w)
        have hsends := sends_task (k := .functor mem w f) hin hout (by rw [ConnLoop.caller, hcall]; exact ho)
        simp [taken, hsends]
      · rename_i conn f hcall
        cases ht
        have hsent : sends [f] = [] := by
          rcases call_cases s.sys.conn k with hrefused | ⟨_, state, u, _, hk, hu⟩
          · cases hrefused.symm.trans hcall
          · cases hk.symm.trans hcall
            rcases hu with hu | ⟨g, hg, _⟩
            · cases hu
              rfl
            · cases hg
        simp [taken, hsent]
      · cases ht
        rfl
  | retrieve len =>
      obtain ⟨b, _, ht⟩ := bind_eq_ok.mp ht
      cases ht
      rfl
  | establish =>
      obtain ⟨o, ho, ht⟩ := bind_eq_ok.mp ht
      cases ht
      have hsends := sends_task (k := .functor (fun _ => 0) (.ok 0) .connectEstablished) hs.input hs.output ho
      simp [taken, hsends]
  | otherCall k =>
      simp only [ConnLoop.step] at ht
      split at ht
      · cases ht
        rfl
      · cases ht
        rfl
      · cases ht
        rfl
  | otherPush i =>
      cases hi : s.sys.inflight[i]? with
      | none =>
          simp only [ConnLoop.step, hi] at ht
          cases ht
          rfl
      | some f =>
          simp only [ConnLoop.step, hi] at ht
          cases ht
          have hsent : sent f = none := by simpa [NoSend, hi] using hno
          simp [taken, sends, hsent]

/-! ### What the call of a functor does -/

omit [DecidableEq T] in
theorem sent_eq_some {f : ConnFunctor} {m : Int × Nat} : sent f = some m ↔ f = .sendInLoop m.1 m.2 := by
  cases f <;> simp [sent, Prod.ext_iff]

theorem written_of_errorOccurs {data : Int} {len : Nat} (herr : c.errorOccurs w = true) :
    written (c.directWrite mem data len w) = [] := by
  cases w with
  | ok n => simp [errorOccurs, WriteResult.peerClosed] at herr
  | error errno =>
      have hnone : (c.nWrote len (.error errno)).toNat = 0 := by
        unfold nWrote
        split_ifs <;> rfl
      rw [written_directWrite, hnone, bytesAt_zero]

/-- The message is passed on as `sendInLoop` takes it, or given up whole. -/
theorem passedOn_callFunctor {s t : ConnLoop.State} (hvalid : s.conn.outputBuffer.Valid) {m : Int × Nat}
    (hm : m ∈ s.loop.phase.nextFunctor.bind sent) (ht : ConnLoop.step s (.callFunctor mem w) = .ok t) :
    passedOn s t = if givesUp s.conn w then [] else OutputStream.passed s.conn mem m.1 m.2 w := by
  obtain ⟨f, hf, hsent⟩ := Option.bind_eq_some_iff.mp hm
  have htask : ConnLoop.task s (.callFunctor mem w) = some (.functor mem w (.sendInLoop m.1 m.2)) := by
    rw [ConnLoop.task, hf, sent_eq_some.mp hsent]
    rfl
  obtain ⟨o, ho, hran⟩ := ConnLoop.step_task htask ht
  have hsend : s.conn.sendInLoop true mem m.1 m.2 w = .ok o := ho
  rw [passedOn, hran.written, List.drop_left, hran.conn]
  by_cases hstate : s.conn.state = .kDisconnected
  · cases (sendInLoop_disconnected hstate).symm.trans hsend
    simp [givesUp, hstate]
  by_cases herr : s.conn.errorOccurs w = true
  · cases (sendInLoop_keep hstate (Or.inl herr)).symm.trans hsend
    simp [givesUp, herr, written_of_errorOccurs herr]
  · obtain ⟨o', appended, ho', _, _, hread, _, hpassed⟩ :=
      OutputStream.sendInLoop_passed mem m.1 m.2 hvalid hstate (Bool.not_eq_true _ ▸ herr)
    cases hsend.symm.trans ho'
    rw [hread, List.drop_left, hpassed, if_neg (by simp [givesUp, hstate, herr])]

/-! ### The invariant -/

/-- The functor of a message did nothing, or processed the message. -/
def Agrees (done : Processed) (message : List UInt8) : Prop :=
  if done.gaveUp then done.bytes = [] else done.bytes = message

structure Inv (s : State T) : Prop where
  buffers : ConnLoop.Buffers s.sys
  queue : s.queue.map Prod.snd = sends s.sys.loop.queued
  messages : ∀ t, ∃ done, List.Forall₂ Agrees (s.processed t) done ∧
    s.messages t = done ++ (waiting s t).map (read s.mem)

theorem init_inv (hin : c.inputBuffer.Valid) (hout : c.outputBuffer.Valid) (mem : Memory) :
    Inv (init c mem : State T) :=
  ⟨⟨hin, hout⟩, rfl, fun _ => ⟨[], .nil, rfl⟩⟩

theorem Inv.delivered (h : Inv s) {s₀ : State T} {e : Event T} : Delivered s₀ e s := by
  intro t i done hi
  obtain ⟨messages, hall, hmessages⟩ := h.messages t
  obtain ⟨hlt, hget⟩ := List.getElem?_eq_some_iff.mp hi
  have hlt' : i < messages.length := by rwa [← hall.length_eq]
  have hagrees : Agrees ((s.processed t)[i]) messages[i] := hall.get hlt hlt'
  rw [hget] at hagrees
  unfold Agrees at hagrees
  split_ifs at hagrees ⊢
  · exact hagrees
  · rw [hmessages, List.getElem?_append_left hlt', List.getElem?_eq_getElem hlt', hagrees]

theorem Inv.other (h : Inv s) {sys : ConnLoop.State} (hbuffers : ConnLoop.Buffers sys)
    (hsends : sends s.sys.loop.queued = sends sys.loop.queued) : Inv { s with sys } :=
  ⟨hbuffers, h.queue.trans hsends, h.messages⟩

theorem waiting_take {t u : T} {m : Int × Nat} {queue : List (T × Int × Nat)} (hqueue : s.queue = (u, m) :: queue) :
    waiting s t = (if u = t then [m] else []) ++ waiting { s with queue } t := by
  simp only [waiting, hqueue, List.filter_cons, decide_eq_true_eq]
  split_ifs <;> rfl

theorem Inv.take (h : Inv s) {u : T} {m : Int × Nat} {queue : List (T × Int × Nat)}
    (hqueue : s.queue = (u, m) :: queue) {sys : ConnLoop.State} (hbuffers : ConnLoop.Buffers sys)
    (hsends : sends s.sys.loop.queued = m :: sends sys.loop.queued) {done : Processed}
    (hdone : Agrees done (read s.mem m)) :
    Inv { s with sys, queue, processed := Function.update s.processed u (s.processed u ++ [done]) } := by
  refine ⟨hbuffers, ?_, fun t => ?_⟩
  · have hall := h.queue
    rw [hqueue, hsends] at hall
    exact (List.cons.inj hall).2
  · obtain ⟨messages, hall, hmessages⟩ := h.messages t
    rw [waiting_take hqueue] at hmessages
    by_cases hut : u = t
    · subst hut
      refine ⟨messages ++ [read s.mem m], ?_, ?_⟩
      · simp only [Function.update_self]
        exact List.rel_append hall (.cons hdone .nil)
      · rw [if_pos rfl] at hmessages
        refine hmessages.trans ?_
        rw [List.map_append, List.append_assoc]
        rfl
    · refine ⟨messages, ?_, ?_⟩
      · simpa only [Function.update_of_ne (Ne.symm hut)] using hall
      · rw [if_neg hut] at hmessages
        exact hmessages

theorem step_sys (h : Inv s) {e : ConnLoop.Event} (hen : ConnLoop.Enabled s.sys e) (hno : NoSend s e)
    (hwrite : NoFailedDirectWrite s (.sys e)) {sys : ConnLoop.State} (ht : ConnLoop.step s.sys e = .ok sys) :
    Inv { recordCall s sys e with sys } := by
  have hsends := sends_step h.buffers hen hno ht
  have hbuffers := h.buffers.step ht
  cases htaken : taken s.sys e with
  | none =>
      rw [htaken] at hsends
      have hrecord : recordCall s sys e = s := by
        unfold recordCall
        split
        · simp only [taken] at htaken
          rw [htaken]
        · rfl
      rw [hrecord]
      exact h.other hbuffers hsends
  | some m =>
      rw [htaken] at hsends
      obtain ⟨⟨u, m'⟩, queue, hqueue, rfl⟩ : ∃ p queue, s.queue = p :: queue ∧ p.2 = m := by
        have hall := h.queue.trans hsends
        cases hq : s.queue with
        | nil =>
            rw [hq] at hall
            cases hall
        | cons p queue =>
            rw [hq] at hall
            exact ⟨p, queue, rfl, (List.cons.inj hall).1⟩
      obtain ⟨mem, w, rfl⟩ : ∃ mem w, e = .callFunctor mem w := by
        cases e with
        | callFunctor mem w => exact ⟨mem, w, rfl⟩
        | _ => cases htaken
      have hnext : s.sys.loop.phase.nextFunctor.bind sent = some m' := htaken
      have hmem : mem = s.mem := hno
      simp only [recordCall, hnext, hqueue]
      refine h.take hqueue hbuffers hsends ?_
      have hpassed := passedOn_callFunctor h.buffers.output hnext ht
      unfold Agrees
      cases hup : givesUp s.sys.conn w with
      | true => rw [if_pos rfl, hpassed, if_pos hup]
      | false =>
          obtain ⟨hstate, herr⟩ : s.sys.conn.state ≠ .kDisconnected ∧ s.sys.conn.errorOccurs w = false := by
            simpa [givesUp] using hup
          rw [if_neg (by simp), hpassed, if_neg (by simp [hup]), OutputStream.passed, hmem]
          split_ifs with hfail
          · -- the `::write` failed, and not since the peer is gone
            rcases hwrite m' hnext hstate hfail.1 hfail.2 with hpeer | hsame
            · simp [errorOccurs, hfail.1, hpeer] at herr
            · rwa [hmem] at hsame
          · rfl

theorem Inv.send (h : Inv s) {t : T} (hfree : s.sending t = none) (m : Int × Nat) {sys : ConnLoop.State}
    (hbuffers : ConnLoop.Buffers sys) (hsends : sends s.sys.loop.queued = sends sys.loop.queued) :
    Inv { s with
      sys
      sending := Function.update s.sending t (some m)
      messages := Function.update s.messages t (s.messages t ++ [read s.mem m]) } := by
  refine ⟨hbuffers, h.queue.trans hsends, fun u => ?_⟩
  obtain ⟨done, hdone, hmessages⟩ := h.messages u
  refine ⟨done, hdone, ?_⟩
  by_cases hut : u = t
  · subst hut
    simp only [waiting, Function.update_self, hfree, Option.toList_none, List.append_nil] at hmessages ⊢
    rw [hmessages]
    simp
  · simpa only [waiting, Function.update_of_ne hut] using hmessages

theorem Inv.push (h : Inv s) {t : T} {m : Int × Nat} (hsending : s.sending t = some m) {sys : ConnLoop.State}
    (hbuffers : ConnLoop.Buffers sys) (hsends : sends sys.loop.queued = sends s.sys.loop.queued ++ [m]) :
    Inv { recordPush s t with sys } := by
  refine ⟨hbuffers, ?_, fun u => ?_⟩
  · simp only [recordPush, hsending, Option.toList_some, List.map_append, h.queue, hsends]
    rfl
  · obtain ⟨done, hdone, hmessages⟩ := h.messages u
    refine ⟨done, hdone, hmessages.trans ?_⟩
    by_cases hut : u = t
    · subst hut
      simp [waiting, recordPush, hsending]
    · simp [waiting, recordPush, hsending, Function.update_of_ne hut, List.filter_append, Ne.symm hut]

theorem Inv.setMemory (h : Inv s) {mem : Memory} (hkeeps : KeepsWaiting s (.setMemory mem)) :
    Inv { s with mem } := by
  refine ⟨h.buffers, h.queue, fun t => ?_⟩
  obtain ⟨done, hdone, hmessages⟩ := h.messages t
  refine ⟨done, hdone, hmessages.trans ?_⟩
  have hread : (waiting s t).map (read s.mem) = (waiting s t).map (read mem) :=
    List.map_congr_left fun m hm => (hkeeps t m hm).symm
  rw [hread]
  rfl

theorem step_inv (s : State T) (e : Event T) (h : Inv s) (hen : Enabled s e) (hgood : Good s e) {t : State T}
    (ht : step s e = .ok t) : Inv t := by
  cases e with
  | sys e =>
      obtain ⟨sys, hsys, rfl⟩ := map_eq_ok.mp ht
      exact step_sys h hen.1 hen.2 hgood.2 hsys
  | send u m =>
      obtain ⟨sys, hsys, rfl⟩ := map_eq_ok.mp ht
      have hbuffers := h.buffers.step hsys
      have hsends : sends s.sys.loop.queued = sends sys.loop.queued := by
        simp only [ConnLoop.step] at hsys
        split at hsys
        · cases hsys
          rfl
        · cases hsys
          rfl
        · cases hsys
          rfl
      unfold recordSend
      split_ifs with hstate
      · exact h.send hen m.bound hbuffers hsends
      · exact h.other hbuffers hsends
  | push u i =>
      obtain ⟨m, hsending, hi⟩ := hen
      obtain ⟨sys, hsys, rfl⟩ := map_eq_ok.mp ht
      have hbuffers := h.buffers.step hsys
      simp only [ConnLoop.step, hi] at hsys
      cases hsys
      refine h.push hsending hbuffers ?_
      rw [EventLoop.queued_queueInLoop, sends_append]
      rfl
  | setMemory mem =>
      cases ht
      exact h.setMemory hgood.1

/-- **When a send from another thread delivers its bytes.** In every interleaving of a connection and its
loop with threads that call `send`, one call after the other on each thread, and with changes of the memory:
as long as no message is changed before its functor is called, and no direct `::write` of a queued message fails
while the peer is there, the `i`th functor of a thread writes and appends exactly the bytes that its `i`th message
had at the call. It does nothing if the connection is disconnected or its peer gone. -/
theorem delivered_of_along (c : TcpConnection) (hin : c.inputBuffer.Valid) (hout : c.outputBuffer.Valid)
    (mem : Memory) (es : List (Event T)) (hes : Along step (fun s e => Enabled s e ∧ Good s e) (init c mem) es) :
    Holds step (fun _ => True) Delivered (init c mem) es := by
  refine holds_of_along (fun s e h hG => ?_) (init_inv hin hout mem) hes
  refine ⟨fun _ _ => trivial, fun t ht => ?_⟩
  have hinv := step_inv s e h hG.1 hG.2 ht
  exact ⟨hinv.delivered, hinv⟩

/-- A connection that is about to be established. -/
def fresh : TcpConnection := TcpConnection.new 7 64 false false

/-- The connection is established, and one thread sends the byte at `0`. -/
def sendOne : List (Event Unit) := [.sys .establish, .sys .userCode, .send () (.pointer 0 1), .push () 0]

/-- The loop calls the functor, with the memory as it is then. -/
def callOne (mem : Memory) : List (Event Unit) :=
  [.sys .enterLoop, .sys (.poll []), .sys .swapFunctors, .sys (.callFunctor mem (.ok 1))]

omit [DecidableEq T] in
theorem noFailedDirectWrite_ok (s : State T) (mem : Memory) (n : Nat) :
    NoFailedDirectWrite s (.sys (.callFunctor mem (.ok n))) := by
  intro m _ _ _ hneg
  simp only [WriteResult.count] at hneg
  omega

/-- The memory changes once the byte was sent. -/
theorem delivered_of_along_run : Holds step (fun _ => True) Delivered (init fresh fun _ => 5)
    (sendOne ++ callOne (fun _ => 5) ++ [.setMemory fun _ => 9]) := by
  refine delivered_of_along fresh (Buffer.new_valid (by decide)) (Buffer.new_valid (by decide)) (fun _ => 5) _ ?_
  refine ⟨⟨⟨by decide, trivial⟩, trivial, trivial⟩, fun _ h => ?_⟩; cases h
  refine ⟨⟨⟨by decide, trivial⟩, trivial, trivial⟩, fun _ h => ?_⟩; cases h
  refine ⟨⟨rfl, trivial, trivial⟩, fun _ h => ?_⟩; cases h
  refine ⟨⟨⟨_, rfl, rfl⟩, trivial, trivial⟩, fun _ h => ?_⟩; cases h
  refine ⟨⟨⟨rfl, trivial⟩, trivial, trivial⟩, fun _ h => ?_⟩; cases h
  refine ⟨⟨⟨by decide, trivial⟩, trivial, trivial⟩, fun _ h => ?_⟩; cases h
  refine ⟨⟨⟨by decide, trivial⟩, trivial, trivial⟩, fun _ h => ?_⟩; cases h
  refine ⟨⟨⟨by decide, rfl⟩, trivial, noFailedDirectWrite_ok _ _ _⟩, fun _ h => ?_⟩; cases h
  exact ⟨⟨trivial, nofun, trivial⟩, fun _ _ => trivial⟩

/-- The memory changes before the functor of the byte is called. -/
theorem changed_before_call :
    Along step Enabled (init fresh fun _ => 5) (sendOne ++ [.setMemory fun _ => 9] ++ callOne (fun _ => 9)) ∧
      ¬ Holds step (fun _ => True) Delivered (init fresh fun _ => 5)
        (sendOne ++ [.setMemory fun _ => 9] ++ callOne (fun _ => 9)) := by
  constructor
  · refine ⟨⟨by decide, trivial⟩, fun _ h => ?_⟩; cases h
    refine ⟨⟨by decide, trivial⟩, fun _ h => ?_⟩; cases h
    refine ⟨rfl, fun _ h => ?_⟩; cases h
    refine ⟨⟨_, rfl, rfl⟩, fun _ h => ?_⟩; cases h
    refine ⟨trivial, fun _ h => ?_⟩; cases h
    refine ⟨⟨rfl, trivial⟩, fun _ h => ?_⟩; cases h
    refine ⟨⟨by decide, trivial⟩, fun _ h => ?_⟩; cases h
    refine ⟨⟨by decide, trivial⟩, fun _ h => ?_⟩; cases h
    exact ⟨⟨by decide, rfl⟩, fun _ _ => trivial⟩
  · intro h
    have hlast := (((((((((h.2 _ rfl).2.2 _ rfl).2.2 _ rfl).2.2 _ rfl).2.2 _ rfl).2.2 _ rfl).2.2 _ rfl).2.2 _
      rfl).2.2 _ rfl).1
    have hdone := hlast () 0 ⟨false, [9]⟩ rfl
    cases hdone

end SendSystem

end OulaServer
