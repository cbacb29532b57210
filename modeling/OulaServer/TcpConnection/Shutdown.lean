import OulaServer.TcpConnection.Loop
import OulaServer.TcpConnection.Stream

/-!
# Graceful shutdown

Another thread sends messages on a connection and then calls `shutdown()`, while the connection's loop
handles writable events and functors. `Graceful` says of the log that whenever the writing side was shut
down, all messages accepted before had been written.

The stream invariant of `Inv` accounts for each accepted byte: it is written, buffered, or in a functor on
its way. `shutdownInLoop` comes behind the functors of the messages, so it finds them sent. The other place
that shuts down is `handleWirte`, when it takes the last buffered byte and the state is `kDisconnecting`:
`NoDrainBeforeSend` says that no message is on its way then.
-/

namespace OulaServer

namespace ConnLoop

open Run TcpConnection

/-- The bytes of the messages that were accepted. -/
def Entry.sentBytes (mem : Memory) : Entry → List UInt8
  | sent data len => bytesAt mem data len
  | _ => []

/-- The bytes that were written. -/
def Entry.writtenBytes : Entry → List UInt8
  | effect e => e.bytes
  | _ => []

def sentLog (mem : Memory) (log : List Entry) : List UInt8 := log.flatMap (Entry.sentBytes mem)

def writtenLog (log : List Entry) : List UInt8 := log.flatMap Entry.writtenBytes

/-- The bytes of the messages on their way. -/
def messageBytes (mem : Memory) : ConnFunctor → List UInt8
  | .sendInLoop data len => bytesAt mem data len
  | _ => []

def unsent (mem : Memory) (functors : List ConnFunctor) : List UInt8 := functors.flatMap (messageBytes mem)

/-- Whenever the writing side was shut down, every accepted byte had been written. -/
def Graceful (mem : Memory) (log : List Entry) : Prop :=
  ∀ before, before ++ [.effect .shutdownWrite] <+: log → writtenLog before = sentLog mem before

instance (mem : Memory) (log : List Entry) : Decidable (Graceful mem log) :=
  decidable_of_iff (∀ before ∈ log.inits, before ++ [.effect .shutdownWrite] <+: log →
      writtenLog before = sentLog mem before)
    ⟨fun h before hb => h before ((List.mem_inits _ _).mpr ((List.prefix_append _ _).trans hb)) hb,
      fun h before _ hb => h before hb⟩

def KeepsGraceful (mem : Memory) (_ : State) (_ : Event) (t : State) : Prop := Graceful mem t.log

/-- The message of the next functor is in the memory `mem'` what it is in `mem`. -/
def InPlace (mem mem' : Memory) : Option ConnFunctor → Prop
  | some f => messageBytes mem' f = messageBytes mem f
  | none => True

/-- One other thread calls `send` and `shutdown`, one after the other; the loop handles writable events and
functors, and `::write` takes all or some of the bytes. The messages stay in place until they are sent. -/
def OneSender (mem : Memory) (s : State) : Event → Prop
  | .enterLoop | .poll _ | .handleEvent | .swapFunctors | .endFunctors | .otherPush _ => True
  | .handleCallback _ w => s.callbacks.head? = some .write ∧ w.isOk = true
  | .callFunctor mem' w => InPlace mem mem' s.loop.phase.nextFunctor ∧ w.isOk = true
  | .otherCall (.send _ _) | .otherCall .shutdown => s.inflight = []
  | .otherCall .forceClose | .otherCall .forceCloseWithDelay => False
  | .timerCallback | .userCode | .call _ _ _ | .retrieve _ | .establish => False

/-- `handleWirte` does not take the last buffered byte of a connection in `kDisconnecting` while a message
is on its way. -/
def NoDrainBeforeSend (mem : Memory) (s : State) : Event → Prop
  | .handleCallback _ w => s.conn.state = .kDisconnecting → s.conn.Drains w → unsent mem (pending s) = []
  | _ => True

instance (mem : Memory) (s : State) (e : Event) (t : State) : Decidable (KeepsGraceful mem s e t) :=
  inferInstanceAs (Decidable (Graceful mem t.log))

instance (mem mem' : Memory) : (f : Option ConnFunctor) → Decidable (InPlace mem mem' f)
  | some _ => inferInstanceAs (Decidable (_ = _))
  | none => .isTrue trivial

instance (mem : Memory) (s : State) : (e : Event) → Decidable (OneSender mem s e)
  | .enterLoop | .poll _ | .handleEvent | .swapFunctors | .endFunctors | .otherPush _ => .isTrue trivial
  | .handleCallback _ _ => inferInstanceAs (Decidable (_ ∧ _))
  | .callFunctor mem' _ => inferInstanceAs (Decidable (InPlace mem mem' s.loop.phase.nextFunctor ∧ _))
  | .otherCall (.send _ _) | .otherCall .shutdown => inferInstanceAs (Decidable (_ = _))
  | .otherCall .forceClose | .otherCall .forceCloseWithDelay => .isFalse id
  | .timerCallback | .userCode | .call _ _ _ | .retrieve _ | .establish => .isFalse id

instance (mem : Memory) (s : State) : (e : Event) → Decidable (NoDrainBeforeSend mem s e)
  | .handleCallback _ _ => inferInstanceAs (Decidable (_ → _ → _))
  | .handleEvent | .enterLoop | .poll _ | .timerCallback | .swapFunctors | .callFunctor _ _
  | .endFunctors | .userCode | .call _ _ _ | .retrieve _ | .establish | .otherCall _ | .otherPush _ =>
      .isTrue trivial

/-! ### The log -/

section

variable (mem : Memory)

@[simp] theorem sentLog_append (log log' : List Entry) :
    sentLog mem (log ++ log') = sentLog mem log ++ sentLog mem log' := List.flatMap_append

@[simp] theorem writtenLog_append (log log' : List Entry) :
    writtenLog (log ++ log') = writtenLog log ++ writtenLog log' := List.flatMap_append

@[simp] theorem unsent_append (fs fs' : List ConnFunctor) :
    unsent mem (fs ++ fs') = unsent mem fs ++ unsent mem fs' := List.flatMap_append

@[simp] theorem sentLog_effects (effects : List Effect) : sentLog mem (effects.map .effect) = [] := by
  induction effects with
  | nil => rfl
  | cons e effects ih => exact ih

@[simp] theorem writtenLog_effects (effects : List Effect) :
    writtenLog (effects.map .effect) = written effects := by
  induction effects with
  | nil => rfl
  | cons e effects ih => exact congrArg (e.bytes ++ ·) ih

theorem unsent_user {fs : List ConnFunctor} (h : ∀ f ∈ fs, ConnFunctor.IsUser f) : unsent mem fs = [] := by
  refine List.flatMap_eq_nil_iff.mpr fun f hf => ?_
  rcases h f hf with rfl | ⟨_, rfl⟩ <;> rfl

theorem graceful_concat (log : List Entry) (e : Entry) : Graceful mem (log ++ [e]) ↔
    Graceful mem log ∧ (e = .effect .shutdownWrite → writtenLog log = sentLog mem log) := by
  constructor
  · intro h
    refine ⟨fun before hb => h before (hb.trans (List.prefix_append _ _)), ?_⟩
    rintro rfl
    exact h log (List.prefix_refl _)
  · rintro ⟨hlog, he⟩ before hb
    rcases List.prefix_concat_iff.mp hb with heq | hpre
    · obtain ⟨rfl, hsing⟩ := List.append_inj' heq rfl
      exact he (List.cons.inj hsing).1.symm
    · exact hlog before hpre

theorem graceful_append {log es : List Entry} (h : Graceful mem log)
    (hes : .effect .shutdownWrite ∉ es) : Graceful mem (log ++ es) := by
  induction es generalizing log with
  | nil => rwa [List.append_nil]
  | cons e es ih =>
      rw [List.append_cons]
      refine ih ((graceful_concat mem log e).mpr ⟨h, fun he => ?_⟩) (fun hmem => hes (.tail _ hmem))
      exact absurd (he ▸ List.mem_cons_self) hes

theorem graceful_effects {log : List Entry} {effects : List Effect} (h : Graceful mem log)
    (heffects : .shutdownWrite ∉ effects) : Graceful mem (log ++ effects.map .effect) := by
  refine graceful_append mem h fun hmem => ?_
  obtain ⟨e, he, hshut⟩ := List.mem_map.mp hmem
  cases hshut
  exact heffects he

end

/-! ### The invariant -/

/-- Every accepted byte is written, buffered or on its way, in this order, and `shutdownInLoop` comes behind
the messages. -/
structure Accounted (mem : Memory) (s : State) : Prop where
  isOpen : s.conn.Open
  valid : s.conn.outputBuffer.Valid
  watches : s.conn.Watches
  stream : writtenLog s.log ++ s.conn.outputBuffer.readable ++ unsent mem (pending s) = sentLog mem s.log
  kind : ∀ f ∈ pending s, f.IsUser ∨ f = .shutdownInLoop ∨ ∃ data len, f = .sendInLoop data len
  last : (pending s).Pairwise fun f g => f = .shutdownInLoop → messageBytes mem g = []
  connected : s.conn.state = .kConnected → .shutdownInLoop ∉ pending s
  one : s.inflight.length ≤ 1
  rest : s.rest = []
  graceful : Graceful mem s.log

/-- An established connection with nothing buffered and nothing on its way. -/
def idle (c : TcpConnection) : State := ⟨c, EventLoop.new, [], [], 0, [], []⟩

variable {mem : Memory} {s : State} {o : Outcome}

theorem idle_accounted {c : TcpConnection} (hstate : c.state = .kConnected) (hvalid : c.outputBuffer.Valid)
    (hempty : c.outputBuffer.readable = []) (hw : c.channel.isEnableWriteEvent = false) :
    Accounted mem (idle c) where
  isOpen := Or.inl hstate
  valid := hvalid
  watches := by simp [TcpConnection.Watches, idle, hempty, hw]
  stream := by simp [idle, pending, EventLoop.new, EventLoop.queued, hempty, writtenLog, sentLog, unsent]
  kind := nofun
  last := List.Pairwise.nil
  connected _ := nofun
  one := Nat.zero_le _
  rest := rfl
  graceful before hb := by simp [idle] at hb

theorem accounted_finish (hopen : o.conn.Open) (hvalid : o.conn.outputBuffer.Valid)
    (hwatches : o.conn.Watches) (hrest : o.rest ++ s.rest = [])
    (huser : ∀ f ∈ functors o.effects, ConnFunctor.IsUser f)
    (hstream : writtenLog s.log ++ (written o.effects ++ o.conn.outputBuffer.readable) ++
      unsent mem (pending s) = sentLog mem s.log)
    (hkind : ∀ f ∈ pending s, f.IsUser ∨ f = .shutdownInLoop ∨ ∃ data len, f = .sendInLoop data len)
    (hlast : (pending s).Pairwise fun f g => f = .shutdownInLoop → messageBytes mem g = [])
    (hconn : o.conn.state = .kConnected → .shutdownInLoop ∉ pending s) (hone : s.inflight.length ≤ 1)
    (hgraceful : Graceful mem (s.log ++ o.effects.map .effect)) : Accounted mem (finish s o) := by
  have hpending : pending (finish s o) = s.loop.queued ++ functors o.effects ++ s.inflight := by
    rw [pending, finish_queued, finish_inflight]
  have hmem : ∀ f, f ∈ pending (finish s o) → f ∈ pending s ∨ f.IsUser := by
    intro f hf
    rw [hpending, List.mem_append, List.mem_append] at hf
    rcases hf with (hq | hu) | hin
    · exact Or.inl (List.mem_append_left _ hq)
    · exact Or.inr (huser f hu)
    · exact Or.inl (List.mem_append_right _ hin)
  refine ⟨by rwa [finish_conn], by rwa [finish_conn], by rwa [finish_conn], ?_, ?_, ?_, ?_,
    by rwa [finish_inflight], by rwa [finish_rest], by rwa [finish_log]⟩
  · rw [finish_log, finish_conn, hpending, writtenLog_append, writtenLog_effects, sentLog_append,
      sentLog_effects, unsent_append, unsent_append, unsent_user mem huser, List.append_nil, List.append_nil,
      ← unsent_append, List.append_assoc (writtenLog s.log)]
    exact hstream
  · intro f hf
    rcases hmem f hf with hf | hf
    · exact hkind f hf
    · exact Or.inl hf
  · -- the user's functors neither shut down nor carry bytes
    rw [pending, List.pairwise_append] at hlast
    obtain ⟨hq, hin, hqin⟩ := hlast
    rw [hpending, List.append_assoc, List.pairwise_append, List.pairwise_append]
    refine ⟨hq, ⟨List.pairwise_of_forall_mem_list fun f hf _ _ he => ?_, hin, fun f hf _ _ he => ?_⟩,
      fun f hf g hg he => ?_⟩
    · rcases huser f hf with hf | ⟨_, hf⟩ <;> rw [hf] at he <;> cases he
    · rcases huser f hf with hf | ⟨_, hf⟩ <;> rw [hf] at he <;> cases he
    · rcases List.mem_append.mp hg with hu | hin'
      · rcases huser g hu with rfl | ⟨_, rfl⟩ <;> rfl
      · exact hqin f hf g hin' he
  · rw [finish_conn]
    intro hc hf
    rcases hmem _ hf with hf | hf | ⟨_, hf⟩
    · exact hconn hc hf
    · cases hf
    · cases hf

theorem Accounted.move (h : Accounted mem s) {l : EventLoop Active ConnFunctor} {inflight : List ConnFunctor}
    {callbacks : List EventCallback} (hpending : l.queued ++ inflight = pending s)
    (hone : inflight.length ≤ 1) : Accounted mem { s with loop := l, inflight, callbacks } where
  isOpen := h.isOpen
  valid := h.valid
  watches := h.watches
  stream := by
    show _ ++ unsent mem (l.queued ++ inflight) = _
    rw [hpending]
    exact h.stream
  kind := by
    show ∀ f ∈ l.queued ++ inflight, _
    rw [hpending]
    exact h.kind
  last := by
    show (l.queued ++ inflight).Pairwise _
    rw [hpending]
    exact h.last
  connected := by
    show _ → _ ∉ l.queued ++ inflight
    rw [hpending]
    exact h.connected
  one := hone
  rest := h.rest
  graceful := h.graceful

/-! ### The steps -/

/-- What `handleWirte` does when it takes the last byte of a connection in `kDisconnecting` is graceful
exactly when no message is on its way. -/
theorem graceful_drain (h : Accounted mem s) (hstate : s.conn.state = .kDisconnecting) :
    Graceful mem (s.log ++ s.conn.drainEffects.map .effect) ↔ unsent mem (pending s) = [] := by
  have hbefore := graceful_effects mem h.graceful (shutdownWrite_drainWrites s.conn)
  rw [drainEffects, if_pos hstate, List.map_append, ← List.append_assoc, List.map_singleton, graceful_concat,
    writtenLog_append, writtenLog_effects, sentLog_append, sentLog_effects, List.append_nil,
    written_drainWrites, ← h.stream]
  constructor
  · rintro ⟨_, heq⟩
    exact List.self_eq_append_right.mp (heq rfl)
  · intro hunsent
    exact ⟨hbefore, fun _ => by rw [hunsent, List.append_nil]⟩

theorem step_handleWirte (h : Accounted mem s) {w : WriteResult} {r : Option (List UInt8)}
    (hhead : s.callbacks.head? = some .write) : ∃ o, s.conn.handleWirte true w = .ok o ∧
      step s (.handleCallback r w) = .ok (finish { s with callbacks := s.callbacks.tail } o) := by
  obtain ⟨callbacks, hcbs⟩ : ∃ callbacks, s.callbacks = .write :: callbacks := by
    cases hc : s.callbacks with
    | nil => rw [hc] at hhead; cases hhead
    | cons cb callbacks =>
        rw [hc] at hhead
        cases hhead
        exact ⟨callbacks, rfl⟩
  obtain ⟨o, ho, _⟩ := handleWirte_quiet (w := w) h.valid
  refine ⟨o, ho, ?_⟩
  simp only [step, hcbs, handleCallback, ho, ok_bind, List.tail_cons]
  rfl

theorem accounted_handleWirte (h : Accounted mem s) {w : WriteResult} {callbacks : List EventCallback}
    (ho : s.conn.handleWirte true w = .ok o)
    (hgood : s.conn.state = .kDisconnecting → s.conn.Drains w → unsent mem (pending s) = []) :
    Accounted mem (finish { s with callbacks } o) := by
  by_cases hdrains : s.conn.Drains w
  · obtain ⟨hw, hpos, hall⟩ := hdrains
    obtain ⟨b, hvalid, hnil, hstep⟩ := handleWirte_drained h.valid hw hpos hall
    rw [hstep] at ho
    cases ho
    refine accounted_finish h.isOpen hvalid ?_ h.rest ?_ ?_ h.kind h.last h.connected h.one ?_
    · refine iff_of_false ?_ (by simp [hnil])
      rw [isEnableWriteEvent_disable]
      nofun
    · exact drainEffects_user
    · simp only [written_drainEffects, hnil, List.append_nil]
      exact h.stream
    · by_cases hstate : s.conn.state = .kDisconnecting
      · exact (graceful_drain h hstate).mpr (hgood hstate ⟨hw, hpos, hall⟩)
      · refine graceful_effects mem h.graceful ?_
        rw [drainEffects, if_neg hstate, List.append_nil]
        exact shutdownWrite_drainWrites _
  · obtain ⟨b, effects, hvalid, hne, hwrites, hstream, hstep⟩ := handleWirte_undrained h.valid hdrains
    rw [hstep] at ho
    cases ho
    refine accounted_finish h.isOpen hvalid ?_ h.rest ?_ ?_ h.kind h.last h.connected h.one ?_
    · exact h.watches.trans hne.symm
    · intro f hf
      obtain ⟨e, he, hfun⟩ := List.mem_filterMap.mp hf
      obtain ⟨_, rfl⟩ := hwrites e he
      cases hfun
    · simp only [hstream]
      exact h.stream
    · refine graceful_effects mem h.graceful fun he => ?_
      obtain ⟨_, hwrite⟩ := hwrites _ he
      cases hwrite

theorem shutdownWrite_sendInLoop {c : TcpConnection} {data : Int} {len : Nat} {w : WriteResult}
    (hvalid : c.outputBuffer.Valid) (ho : c.sendInLoop true mem data len w = .ok o) :
    .shutdownWrite ∉ o.effects := by
  by_cases hstate : c.state = .kDisconnected
  · rw [sendInLoop_disconnected hstate] at ho
    cases ho
    nofun
  by_cases hkeep : c.errorOccurs w = true ∨ c.remaining len w = 0
  · rw [sendInLoop_keep hstate hkeep] at ho
    cases ho
    exact fun he => directWrite_plain _ he
  · rw [not_or, Bool.not_eq_true] at hkeep
    obtain ⟨b, _, _, hsend⟩ := sendInLoop_append mem data hvalid hstate hkeep.1 (Nat.pos_of_ne_zero hkeep.2)
    rw [hsend] at ho
    cases ho
    intro he
    rcases List.mem_append.mp he with he | he
    · rcases List.mem_append.mp he with he | he
      · exact directWrite_plain _ he
      · exact highWater_plain _ he
    · split_ifs at he <;> simp at he

theorem accounted_callFunctor (h : Accounted mem s) {mem' : Memory} {w : WriteResult} (hw : w.isOk = true)
    {f : ConnFunctor} (hplace : messageBytes mem' f = messageBytes mem f) {functors : List ConnFunctor}
    (hphase : s.loop.phase = .calling (f :: functors)) :
    ∃ t, step s (.callFunctor mem' w) = .ok t ∧ Accounted mem t := by
  have hstep : ∀ o, s.conn.runFunctor true mem' w f = .ok o →
      step s (.callFunctor mem' w) = .ok (finish { s with loop := s.loop.callRest functors } o) := by
    intro o ho
    simp only [step, hphase, ho, ok_bind]
    rfl
  have hpending : pending s = f :: pending { s with loop := s.loop.callRest functors } := by
    rw [pending, EventLoop.queued_calling hphase]
    rfl
  have hlast := h.last
  have hstream := h.stream
  have hconn := h.connected
  have hkind := h.kind
  rw [hpending] at hlast hstream hconn hkind
  have hkind' := fun g hg => hkind g (List.mem_cons_of_mem _ hg)
  have hconn' := fun hc hg => hconn hc (List.mem_cons_of_mem _ hg)
  rcases hkind f List.mem_cons_self with huser | rfl | ⟨data, len, rfl⟩
  · -- user code that does not touch the connection
    have hrun : s.conn.runFunctor true mem' w f = .ok { conn := s.conn } := by
      rcases huser with rfl | ⟨_, rfl⟩ <;> rfl
    have hbytes : messageBytes mem f = [] := by rcases huser with rfl | ⟨_, rfl⟩ <;> rfl
    refine ⟨_, hstep _ hrun, accounted_finish h.isOpen h.valid h.watches h.rest nofun ?_ hkind'
      (List.pairwise_cons.mp hlast).2 hconn' h.one (by simpa using h.graceful)⟩
    rw [unsent, List.flatMap_cons, hbytes] at hstream
    exact hstream
  · -- behind the messages: with the write interest off, all of them were written
    have hnone : unsent mem (pending { s with loop := s.loop.callRest functors }) = [] :=
      List.flatMap_eq_nil_iff.mpr fun g hg => (List.pairwise_cons.mp hlast).1 g hg rfl
    refine ⟨_, hstep _ rfl, accounted_finish h.isOpen h.valid h.watches h.rest ?_ ?_ hkind'
      (List.pairwise_cons.mp hlast).2 hconn' h.one ?_⟩
    · intro g hg
      dsimp only at hg
      split_ifs at hg <;> cases hg
    · have hwritten : written (if s.conn.channel.isEnableWriteEvent then [] else [.shutdownWrite]) = [] := by
        split_ifs <;> rfl
      dsimp only
      rw [hwritten]
      exact hstream
    · dsimp only
      split_ifs with hw'
      · simpa using h.graceful
      · have hnil : s.conn.outputBuffer.readable = [] := by
          by_contra hne
          exact hw' (h.watches.mpr hne)
        refine (graceful_concat mem _ _).mpr ⟨h.graceful, fun _ => ?_⟩
        rw [← hstream, hnil, unsent, List.flatMap_cons]
        simpa [messageBytes, unsent] using hnone
  · have hne : s.conn.state ≠ .kDisconnected := by rcases h.isOpen with hc | hc <;> simp [hc]
    have hpeer : w.peerClosed = false := by
      cases w with
      | ok n => rfl
      | error errno => cases hw
    obtain ⟨o, ho, hvalid, hstate, hsent⟩ :=
      OutputStream.sendInLoop_stream mem' data len h.valid hne (OutputStream.errorOccurs_of_peer _ hpeer)
    obtain ⟨o', ho', hquiet⟩ := sendInLoop_quiet mem' data h.valid
    obtain rfl : o' = o := by
      rw [ho] at ho'
      exact (Except.ok.inj ho').symm
    have hpassed : OutputStream.passed s.conn mem' data len w = bytesAt mem data len := by
      refine (if_neg fun hfail => ?_).trans hplace
      have hneg := hfail.2
      cases w with
      | ok n => simp only [WriteResult.count] at hneg; omega
      | error errno => cases hw
    refine ⟨_, hstep o' ho, accounted_finish ?_ hvalid (h.watches.sendInLoop h.valid ho) ?_ hquiet.functors ?_
      hkind' (List.pairwise_cons.mp hlast).2 ?_ h.one
      (graceful_effects mem h.graceful (shutdownWrite_sendInLoop h.valid ho))⟩
    · unfold TcpConnection.Open
      rw [hstate]
      exact h.isOpen
    · rw [hquiet.rest]
      exact h.rest
    · rw [hsent, hpassed]
      rw [unsent, List.flatMap_cons, ← List.append_assoc, List.append_assoc (writtenLog s.log)] at hstream
      exact hstream
    · rw [hstate]
      exact hconn'

theorem accounted_send (h : Accounted mem s) (hin : s.inflight = []) (data : Int) (len : Nat) :
    ∃ t, step s (.otherCall (.send data len)) = .ok t ∧ Accounted mem t := by
  by_cases hstate : s.conn.state = .kConnected
  · have hcall : s.conn.call (.send data len) = (s.conn, some (.runInLoop (.sendInLoop data len))) :=
      if_pos hstate
    have hpending : pending s = s.loop.queued := by rw [pending, hin, List.append_nil]
    have hstep : step s (.otherCall (.send data len)) = .ok { s with
        inflight := s.inflight ++ [.sendInLoop data len]
        log := s.log ++ [.sent data len] } := by
      simp only [step, hcall, accept]
    have hpending' : pending { s with
        inflight := s.inflight ++ [.sendInLoop data len]
        log := s.log ++ [.sent data len] } = pending s ++ [.sendInLoop data len] := by
      rw [pending, pending, ← List.append_assoc]
    have hsent : sentLog mem [.sent data len] = bytesAt mem data len := List.append_nil _
    refine ⟨_, hstep, ⟨h.isOpen, h.valid, h.watches, ?_, ?_, ?_, ?_, by simp [hin], h.rest, ?_⟩⟩
    · rw [hpending', writtenLog_append, sentLog_append, unsent_append, hsent, ← h.stream]
      simp [writtenLog, Entry.writtenBytes, unsent, messageBytes]
    · rw [hpending']
      intro f hf
      rcases List.mem_append.mp hf with hf | hf
      · exact h.kind f hf
      · exact Or.inr (Or.inr ⟨data, len, List.mem_singleton.mp hf⟩)
    · -- no `shutdownInLoop` is on its way while the state is `kConnected`
      rw [hpending']
      refine List.pairwise_append.mpr ⟨h.last, List.pairwise_singleton _ _, fun f hf _ _ he => ?_⟩
      exact absurd (he ▸ hf) (h.connected hstate)
    · rw [hpending']
      intro hc hf
      rcases List.mem_append.mp hf with hf | hf
      · exact h.connected hc hf
      · cases List.mem_singleton.mp hf
    · exact (graceful_concat mem _ _).mpr ⟨h.graceful, nofun⟩
  · have hcall : s.conn.call (.send data len) = (s.conn, none) := if_neg hstate
    exact ⟨s, by simp only [step, hcall], h⟩

theorem accounted_shutdown (h : Accounted mem s) (hin : s.inflight = []) :
    ∃ t, step s (.otherCall .shutdown) = .ok t ∧ Accounted mem t := by
  by_cases hstate : s.conn.state = .kConnected
  · have hcall : s.conn.call .shutdown =
        ({ s.conn with state := .kDisconnecting }, some (.runInLoop .shutdownInLoop)) := if_pos hstate
    have hstep : step s (.otherCall .shutdown) = .ok { s with
        conn := { s.conn with state := .kDisconnecting }
        inflight := s.inflight ++ [.shutdownInLoop]
        log := s.log ++ [] } := by
      simp only [step, hcall, accept]
    have hpending' : pending { s with
        conn := { s.conn with state := .kDisconnecting }
        inflight := s.inflight ++ [.shutdownInLoop]
        log := s.log ++ [] } = pending s ++ [.shutdownInLoop] := by
      rw [pending, pending, ← List.append_assoc]
    refine ⟨_, hstep, ⟨Or.inr rfl, h.valid, h.watches, ?_, ?_, ?_, nofun, by simp [hin], h.rest, ?_⟩⟩
    · rw [hpending', unsent_append, List.append_nil, ← h.stream]
      simp [unsent, messageBytes]
    · rw [hpending']
      intro f hf
      rcases List.mem_append.mp hf with hf | hf
      · exact h.kind f hf
      · exact Or.inr (Or.inl (List.mem_singleton.mp hf))
    · rw [hpending']
      refine List.pairwise_append.mpr ⟨h.last, List.pairwise_singleton _ _, fun f _ g hg _ => ?_⟩
      rw [List.mem_singleton.mp hg]
      rfl
    · rw [List.append_nil]
      exact h.graceful
  · have hcall : s.conn.call .shutdown = (s.conn, none) := if_neg hstate
    exact ⟨s, by simp only [step, hcall], h⟩

theorem accounted_otherPush (h : Accounted mem s) {i : Nat} (hi : i < s.inflight.length) :
    ∃ t, step s (.otherPush i) = .ok t ∧ Accounted mem t := by
  obtain ⟨f, hin⟩ : ∃ f, s.inflight = [f] := by
    have hone := h.one
    exact List.length_eq_one_iff.mp (by omega)
  have hzero : i = 0 := by
    rw [hin, List.length_singleton] at hi
    omega
  subst hzero
  refine ⟨{ s with loop := s.loop.queueInLoop false f, inflight := [] }, ?_, h.move ?_ (Nat.zero_le _)⟩
  · simp only [step, hin, List.getElem?_cons_zero, List.eraseIdx_zero, List.tail_cons]
  · rw [EventLoop.queued_queueInLoop, List.append_nil, pending, hin]

theorem accounted_handleEvent (h : Accounted mem s) (hen : Enabled s .handleEvent) :
    ∃ t, step s .handleEvent = .ok t ∧ Accounted mem t := by
  obtain ⟨_, _, hnext⟩ := hen
  obtain ⟨a, ha⟩ := Option.ne_none_iff_exists'.mp hnext
  obtain ⟨active, hphase⟩ := Phase.nextChannel_eq_some.mp ha
  have hqueued : (s.loop.dispatch active).queued ++ s.inflight = pending s := by
    rw [pending, EventLoop.queued_dispatching hphase]
    rfl
  cases a with
  | channel revents =>
      refine ⟨{ s with loop := s.loop.dispatch active, callbacks := handleEvent revents }, ?_,
        h.move hqueued h.one⟩
      simp only [step, hphase]
  | timerfd =>
      refine ⟨{ s with loop := s.loop.dispatch active }, ?_, h.move hqueued h.one⟩
      simp only [step, hphase]
  | other =>
      refine ⟨{ s with loop := s.loop.dispatch active }, ?_, h.move hqueued h.one⟩
      simp only [step, hphase]

/-! ### Runs -/

theorem step_graceful (s : State) (e : Event) (h : Accounted mem s) (hP : Enabled s e ∧ OneSender mem s e)
    (hgood : NoDrainBeforeSend mem s e) :
    StepHolds step noError (fun s e t => KeepsGraceful mem s e t ∧ Accounted mem t) s e := by
  suffices hs : ∃ t, step s e = .ok t ∧ Accounted mem t by
    obtain ⟨t, ht, hacc⟩ := hs
    exact StepHolds.of_ok ht ⟨hacc.graceful, hacc⟩
  obtain ⟨hen, hsender⟩ := hP
  have hmove : ∀ l : EventLoop Active ConnFunctor, l.queued = s.loop.queued →
      Accounted mem { s with loop := l } := fun l hq => h.move (by rw [hq]; rfl) h.one
  cases e with
  | enterLoop => exact ⟨_, rfl, hmove s.loop.enterPoll (EventLoop.queued_beforeLoop hen).symm⟩
  | poll active => exact ⟨_, rfl, hmove (s.loop.dispatch active) (EventLoop.queued_polling hen.1).symm⟩
  | handleEvent => exact accounted_handleEvent h hen
  | handleCallback r w =>
      obtain ⟨o, ho, hstep⟩ := step_handleWirte h (w := w) (r := r) hsender.1
      exact ⟨_, hstep, accounted_handleWirte h ho hgood⟩
  | swapFunctors =>
      refine ⟨_, rfl, hmove s.loop.swapFunctors ?_⟩
      rw [EventLoop.queued_swapFunctors, EventLoop.queued_dispatching hen.2.2]
  | callFunctor mem' w =>
      obtain ⟨hplace, hw⟩ := hsender
      obtain ⟨f, hf⟩ := Option.ne_none_iff_exists'.mp hen.2
      rw [hf] at hplace
      obtain ⟨functors, hphase⟩ := Phase.nextFunctor_eq_some.mp hf
      exact accounted_callFunctor h hw hplace hphase
  | endFunctors => exact ⟨_, rfl, hmove s.loop.endFunctors (EventLoop.queued_calling hen.2).symm⟩
  | otherCall c =>
      cases c with
      | send data len => exact accounted_send h hsender data len
      | shutdown => exact accounted_shutdown h hsender
      | forceClose => exact hsender.elim
      | forceCloseWithDelay => exact hsender.elim
  | otherPush i => exact accounted_otherPush h hen
  | timerCallback => exact hsender.elim
  | userCode => exact hsender.elim
  | call c mem' w => exact hsender.elim
  | retrieve len => exact hsender.elim
  | establish => exact hsender.elim

theorem step_cuts (s : State) (e : Event) (h : Accounted mem s) (hP : Enabled s e ∧ OneSender mem s e)
    (hbad : ¬ NoDrainBeforeSend mem s e) : ¬ StepHolds step noError (KeepsGraceful mem) s e := by
  intro hold
  cases e with
  | handleCallback r w =>
      simp only [NoDrainBeforeSend, Classical.not_imp] at hbad
      obtain ⟨hstate, ⟨hw, hpos, hall⟩, hunsent⟩ := hbad
      obtain ⟨b, _, _, hdrained⟩ := handleWirte_drained h.valid hw hpos hall
      obtain ⟨o, ho, hstep⟩ := step_handleWirte h (w := w) (r := r) hP.2.1
      rw [hdrained] at ho
      cases ho
      have hgraceful : Graceful mem (finish { s with callbacks := s.callbacks.tail } _).log := hold.2 _ hstep
      rw [finish_log] at hgraceful
      exact hunsent ((graceful_drain h hstate).mp hgraceful)
  | _ => exact hbad trivial

/-- **When a shutdown is graceful.** For every connection with nothing buffered, every interleaving of
another thread's calls of `send` and `shutdown` with the loop's writable events and functors, and all full
and short answers of `::write`: no assertion fails and the writing side is shut down only when all messages
accepted before were written, if and only if `handleWirte` never takes the last buffered byte of a
connection in `kDisconnecting` while a message is still on its way to the loop. -/
theorem graceful_iff (mem : Memory) (c : TcpConnection) (hstate : c.state = .kConnected)
    (hvalid : c.outputBuffer.Valid) (hempty : c.outputBuffer.readable = [])
    (hw : c.channel.isEnableWriteEvent = false) (es : List Event)
    (hes : Along step (fun s e => Enabled s e ∧ OneSender mem s e) (idle c) es) :
    Holds step noError (KeepsGraceful mem) (idle c) es ↔ Along step (NoDrainBeforeSend mem) (idle c) es :=
  holds_iff_along step_graceful step_cuts (idle_accounted hstate hvalid hempty hw) hes

/-- A message sent in two parts, and the shutdown between them. -/
theorem graceful_iff_run : Holds step noError (KeepsGraceful fun p => .ofNat p.toNat)
    (idle OutputStream.connected)
    [.enterLoop, .otherCall (.send 0 6), .otherPush 0, .poll [.other], .handleEvent, .swapFunctors,
      .callFunctor (fun p => .ofNat p.toNat) (.ok 2), .endFunctors, .otherCall .shutdown, .otherPush 0,
      .poll [.channel pollOut], .handleEvent, .handleCallback none (.ok 9), .swapFunctors,
      .callFunctor (fun _ => 0) (.ok 0), .callFunctor (fun _ => 0) (.ok 0), .endFunctors] :=
  (graceful_iff (fun p => .ofNat p.toNat) OutputStream.connected rfl (Buffer.new_valid (by decide))
    (Buffer.readable_new 4) (by decide)
    [.enterLoop, .otherCall (.send 0 6), .otherPush 0, .poll [.other], .handleEvent, .swapFunctors,
      .callFunctor (fun p => .ofNat p.toNat) (.ok 2), .endFunctors, .otherCall .shutdown, .otherPush 0,
      .poll [.channel pollOut], .handleEvent, .handleCallback none (.ok 9), .swapFunctors,
      .callFunctor (fun _ => 0) (.ok 0), .callFunctor (fun _ => 0) (.ok 0), .endFunctors]
    (by decide)).mpr (by decide)

/-- The second message and the shutdown come while the loop polls: the writable event that takes the rest of
the first message shuts down, and the second is not written yet. -/
def cutSecond : List Event :=
  [.enterLoop, .otherCall (.send 0 4), .otherPush 0, .poll [.other], .handleEvent, .swapFunctors,
    .callFunctor (fun p => .ofNat p.toNat) (.ok 1), .endFunctors, .otherCall (.send 10 2), .otherPush 0,
    .otherCall .shutdown, .otherPush 0, .poll [.channel pollOut, .other], .handleEvent,
    .handleCallback none (.ok 3)]

theorem cut_second :
    Along step (fun s e => Enabled s e ∧ OneSender (fun p => .ofNat p.toNat) s e)
        (idle OutputStream.connected) cutSecond ∧
      ¬ Holds step noError (KeepsGraceful fun p => .ofNat p.toNat) (idle OutputStream.connected) cutSecond := by
  decide

end ConnLoop

end OulaServer
