import OulaServer.TcpServer.Bookkeeping

/-!
# The references to a server's connections

The loops of a server with what counts the references to its connections: `connections_`, the functors and
timers that are bound to a connection's pointer, and the copies of user code. A functor lives until the batch
that it was called in ends, and a timer until `handelRead` does. `~TcpServer` clears `connections_`; the loops
go on, and a call of the server's functions from then on is one on a destroyed object.

If the server is destroyed when `connections_` is empty, then a connection without references is at its last
stage: it is closed, and no poller knows its channel (`Inv.released`).
-/

namespace OulaServer

namespace ServerLifetime

open Run TcpServer EpollPoller

structure World where
  server : TcpServer.World
  /-- The functors of a loop's running batch that were called, and the timers of its running `handelRead`. -/
  called : Nat → List TcpServer.Functor
  expired : Nat → List Nat
  /-- The references that user code holds. -/
  copies : Nat → Nat
  /-- Whether the server was destroyed. -/
  destroyed : Bool

inductive Event where
  | server (e : TcpServer.Event)
  | copy (id : Nat)
  | drop (id : Nat)
  | destroy

/-- The functor holds a reference to the connection. -/
def holds (id : Nat) : TcpServer.Functor → Bool
  | .conn id' f => id' == id && f.isShared
  | .removeConnectionInLoop id' => id' == id

namespace World

/-- The references that are bound to what a loop has to call. -/
def onLoop (w : World) (id l : Nat) : Nat :=
  ((w.server.loops l).loop.queued ++ w.called l).countP (holds id) + ((w.server.loops l).timers ++ w.expired l).count id

/-- The references to a connection. -/
def refs (w : World) (id : Nat) : Nat :=
  (if w.server.connections (w.server.conn id).name = some id then 1 else 0) +
    ((List.range (w.server.ioLoops + 1)).map (w.onLoop id)).sum + (w.server.inflight.map Prod.snd).countP (holds id) +
    w.copies id

/-- The functors that were called after a step. -/
def calledBy (w : World) : TcpServer.Event → Nat → List TcpServer.Functor
  | .callFunctor l _ _ => Function.update w.called l (w.called l ++ (w.server.loops l).loop.phase.nextFunctor.toList)
  | .endFunctors l => Function.update w.called l []
  | _ => w.called

/-- The timers that expired after a step. -/
def expiredBy (w : World) : TcpServer.Event → Nat → List Nat
  | .timerCallback l i => Function.update w.expired l (w.expired l ++ (w.server.loops l).timers[i]?.toList)
  | .handleEvent l =>
      if (w.server.loops l).loop.phase.nextChannel = some .timerfd then Function.update w.expired l [] else w.expired
  | _ => w.expired

/-- The step calls a function of the server: the acceptor's callback, the close callback of a connection, or
`removeConnectionInLoop`. -/
def callsServer (w : World) : TcpServer.Event → Bool
  | .acceptor _ => true
  | .userCode l =>
      match (w.server.loops l).rest with
      | (_, .closeCallback) :: _ => true
      | _ => false
  | .callFunctor l _ _ =>
      match (w.server.loops l).loop.phase.nextFunctor with
      | some (.removeConnectionInLoop _) => true
      | _ => false
  | _ => false

end World

open World in
/-- `.destroy` is `~TcpServer`, which ends with `connections_`. With IO loops it gets there only if user code holds the
pool, through `threadPool()`: else `~EventLoopThread` waits in `join()` before, for threads whose `quit_` nothing
sets. -/
def step (w : World) : Event → Except Abort World
  | .server e => do
      check (w.destroyed = false ∨ w.callsServer e = false) .serverFreed
      let server ← TcpServer.step w.server e
      return { w with server, called := w.calledBy e, expired := w.expiredBy e }
  | .copy id => .ok { w with copies := Function.update w.copies id (w.copies id + 1) }
  | .drop id => .ok { w with copies := Function.update w.copies id (w.copies id - 1) }
  | .destroy => .ok { w with server := { w.server with connections := fun _ => none }, destroyed := true }

/-- Who calls a function of a connection holds a reference to it. -/
def Holder (w : World) : TcpServer.Event → Prop
  | .call _ id _ _ _ | .retrieve id _ => 0 < w.refs id
  | _ => True

instance (w : World) : (e : TcpServer.Event) → Decidable (Holder w e)
  | .call _ _ _ _ _ | .retrieve _ _ => inferInstanceAs (Decidable (_ < _))
  | .enterLoop _ | .poll _ _ | .handleEvent _ | .acceptor _ | .handleCallback _ _ _ | .timerCallback _ _
  | .swapFunctors _ | .callFunctor _ _ _ | .endFunctors _ | .userCode _ | .push _ => .isTrue trivial

/-- When each step can be taken; the server is destroyed on its loop's thread, between callbacks. -/
def Enabled (w : World) : Event → Prop
  | .server e => TcpServer.Enabled w.server e ∧ Holder w e
  | .copy id => w.server.Accepted id ∧ 0 < w.refs id
  | .drop id => 0 < w.copies id
  | .destroy => w.destroyed = false ∧ (w.server.loops 0).rest = [] ∧ (w.server.loops 0).callbacks = [] ∧
      (w.server.loops 0).loop.phase ≠ .polling

instance (w : World) : (e : Event) → Decidable (Enabled w e)
  | .server _ | .copy _ => inferInstanceAs (Decidable (_ ∧ _))
  | .drop _ => inferInstanceAs (Decidable (_ < _))
  | .destroy => inferInstanceAs (Decidable (_ ∧ _ ∧ _ ∧ _))

/-- A server that was started. -/
def init (ioLoops highWaterMark : Nat) (writeComplete highWater : Bool) : World where
  server := TcpServer.init ioLoops highWaterMark writeComplete highWater
  called _ := []
  expired _ := []
  copies _ := 0
  destroyed := false

/-- The connection was established. -/
def Established (w : World) (id : Nat) : Prop := ∃ e ∈ w.server.life id, ∃ l, e = .established l

/-- Every established connection whose last reference the step drops is closed, and no poller knows its channel. -/
def DiesClosed (w : World) (_ : Event) (w' : World) : Prop := ∀ id, Established w' id → 0 < w.refs id → w'.refs id = 0 →
  (w'.server.conn id).tcp.state = .kDisconnected ∧ ∀ l, (w'.server.loops l).poller.Unregistered id

/-- The server is destroyed when `connections_` is empty. -/
def ClosesOnDestroy (w : World) : Event → Prop
  | .destroy => ∀ id < w.server.nextConnId, w.server.connections (w.server.conn id).name = none
  | _ => True

instance (w : World) : (e : Event) → Decidable (ClosesOnDestroy w e)
  | .destroy => inferInstanceAs (Decidable (∀ id < w.server.nextConnId, _))
  | .server _ | .copy _ | .drop _ => .isTrue trivial

/-! ### What a step leaves -/

variable {s s' s'' : TcpServer.World} {R : Nat → Nat → Prop}

/-- The loops and the connections' loops stay, and what is left of functions gets a `Channel::remove` only as `R`
says. -/
structure Frame (R : Nat → Nat → Prop) (s s' : TcpServer.World) : Prop where
  ioLoops : s'.ioLoops = s.ioLoops
  nextLoopIdx : s'.nextLoopIdx = s.nextLoopIdx
  loop : ∀ id, (s'.conn id).loop = (s.conn id).loop
  removes : ∀ l id, (id, .remove) ∈ (s'.loops l).rest → (id, .remove) ∈ (s.loops l).rest ∨ R l id

theorem Frame.refl (R : Nat → Nat → Prop) (s : TcpServer.World) : Frame R s s :=
  ⟨rfl, rfl, fun _ => rfl, fun _ _ => Or.inl⟩

theorem Frame.trans (h : Frame R s s') (h' : Frame R s' s'') : Frame R s s'' where
  ioLoops := h'.ioLoops.trans h.ioLoops
  nextLoopIdx := h'.nextLoopIdx.trans h.nextLoopIdx
  loop id := (h'.loop id).trans (h.loop id)
  removes l id hmem := (h'.removes l id hmem).elim (h.removes l id) Or.inr

theorem Frame.onLoop {l : Nat} {f : LoopState → LoopState}
    (hrest : ∀ id, (id, .remove) ∈ (f (s.loops l)).rest → (id, .remove) ∈ (s.loops l).rest ∨ R l id) :
    Frame R s (s.onLoop l f) := by
  refine { Frame.refl R s with removes := fun l' id hmem => ?_ }
  rw [onLoop_loops] at hmem
  split_ifs at hmem with hl
  · subst hl
    exact hrest id hmem
  · exact Or.inl hmem

theorem Frame.setTcp {id : Nat} {tcp : TcpConnection} : Frame R s (s.setTcp id tcp) := by
  refine { Frame.refl R s with loop := fun id' => ?_ }
  simp only [TcpServer.World.setTcp, Function.update_apply]
  split_ifs with hid
  · rw [hid]
  · rfl

theorem Frame.record {id : Nat} {lives : List Life} : Frame R s (s.record id lives) := { Frame.refl R s with }

theorem Frame.fly {fs : List (Nat × TcpServer.Functor)} : Frame R s { s with inflight := fs } := { Frame.refl R s with }

theorem Frame.perform {l id : Nat} {e : Effect} (hok : s.perform l id e = .ok s') : Frame R s s' := by
  cases e with
  | update =>
      obtain ⟨_, _, hok⟩ := bind_eq_ok.mp hok
      obtain ⟨⟨p, c⟩, _, hok⟩ := bind_eq_ok.mp hok
      cases hok
      exact (Frame.onLoop fun _ => Or.inl).trans .setTcp
  | queueInLoop f =>
      cases hok
      exact Frame.onLoop fun _ => Or.inl
  | addTimer =>
      cases hok
      exact Frame.onLoop fun _ => Or.inl
  | write bytes =>
      cases hok
      exact .refl _ _
  | shutdownWrite =>
      cases hok
      exact .refl _ _

theorem Frame.finish {l id : Nat} {o : Outcome} (hR : .remove ∈ o.rest → R l id) (hok : s.finish l id o = .ok s') :
    Frame R s s' := by
  have hfold : ∀ (effects : List Effect) (s s' : TcpServer.World),
      effects.foldlM (TcpServer.World.perform l id) s = .ok s' → Frame R s s' := by
    intro effects
    induction effects with
    | nil =>
        intro s s' hok
        cases hok
        exact .refl _ _
    | cons e effects ih =>
        intro s s' hok
        obtain ⟨s₁, hone, hok⟩ := bind_eq_ok.mp ((List.foldlM_cons ..).symm.trans hok)
        exact (Frame.perform hone).trans (ih s₁ s' hok)
  obtain ⟨s₁, heffects, hok⟩ := bind_eq_ok.mp hok
  cases hok
  refine (Frame.setTcp.trans (hfold _ _ _ heffects)).trans
    (Frame.trans (Frame.onLoop (l := l) fun id' hmem => ?_) Frame.record)
  rcases List.mem_append.mp hmem with hmem | hmem
  · obtain ⟨r, hr, he⟩ := List.mem_map.mp hmem
    cases he
    exact Or.inr (hR hr)
  · exact Or.inl hmem

/-! ### Steps of the loops -/

theorem Frame.queueInLoop {l : Nat} {b : Bool} {f : TcpServer.Functor} : Frame R s (s.queueInLoop l b f) :=
  .onLoop fun _ => Or.inl

theorem Frame.removeConnectionInLoop {l id : Nat} (hok : s.removeConnectionInLoop l id = .ok s') : Frame R s s' := by
  obtain ⟨_, _, hok⟩ := bind_eq_ok.mp hok
  obtain ⟨_, _, hok⟩ := bind_eq_ok.mp hok
  cases hok
  let c := s.conn id
  let s₁ : TcpServer.World := { s with connections := Function.update s.connections c.name none }
  have hrecord : Frame R s (s₁.record id [.removed]) := { Frame.refl R s with }
  exact hrecord.trans .queueInLoop

theorem Frame.runFunctor {l : Nat} {mem : Memory} {wr : WriteResult} {f : TcpServer.Functor}
    (hR : ∀ id, f = .conn id .connectDestoryed → R l id) (hok : s.runFunctor l mem wr f = .ok s') : Frame R s s' := by
  cases f with
  | removeConnectionInLoop id => exact .removeConnectionInLoop hok
  | conn id f =>
      obtain ⟨o, ho, hok⟩ := bind_eq_ok.mp hok
      refine Frame.record.trans (.finish (fun hrest => hR id ?_) hok)
      rw [TcpConnection.remove_of_runFunctor ho hrest]

theorem Frame.runRest {l id : Nat} {r : Rest} (hok : s.runRest l id r = .ok s') : Frame R s s' := by
  cases r with
  | closeCallback =>
      change s.removeConnection l id = .ok s' at hok
      unfold TcpServer.World.removeConnection at hok
      split at hok
      · exact .removeConnectionInLoop hok
      · cases hok
        exact .queueInLoop
  | remove =>
      obtain ⟨_, _, hok⟩ := bind_eq_ok.mp hok
      obtain ⟨⟨p, c⟩, _, hok⟩ := bind_eq_ok.mp hok
      cases hok
      exact ((Frame.onLoop fun _ => Or.inl).trans .setTcp).trans .record
  | connectionUp =>
      cases hok
      exact .refl _ _
  | connectionDown =>
      cases hok
      exact .refl _ _
  | messageCallback =>
      cases hok
      exact .refl _ _

/-- The connections are on the server's loops. -/
structure Bounded (s : TcpServer.World) : Prop where
  nextLoopIdx : s.ioLoops = 0 ∨ s.nextLoopIdx < s.ioLoops
  loop : ∀ id, (s.conn id).loop ≤ s.ioLoops

theorem Frame.bounded (h : Frame R s s') (hbounded : Bounded s) : Bounded s' where
  nextLoopIdx := by
    rw [h.ioLoops, h.nextLoopIdx]
    exact hbounded.nextLoopIdx
  loop id := by
    rw [h.loop, h.ioLoops]
    exact hbounded.loop id

/-- The step runs `ConnectDestoryed` of the connection, on the thread of the loop `l`. -/
def Destroys (s : TcpServer.World) (e : TcpServer.Event) (l id : Nat) : Prop :=
  ∃ mem wr, e = .callFunctor l mem wr ∧ (s.loops l).loop.phase.nextFunctor = some (.conn id .connectDestoryed)

theorem newConnection_frame {sockfd : Int} (h : Bounded s) (hok : s.newConnection 0 sockfd = .ok s') :
    Bounded s' ∧ ∀ l id, (id, .remove) ∈ (s'.loops l).rest → (id, .remove) ∈ (s.loops l).rest := by
  obtain ⟨_, _, hok⟩ := bind_eq_ok.mp hok
  obtain ⟨⟨ioLoop, s₁⟩, hnext, hok⟩ := bind_eq_ok.mp hok
  obtain ⟨hle, hidx, hloops, hioLoops, hconn⟩ : ioLoop ≤ s.ioLoops ∧ (s₁.ioLoops = 0 ∨ s₁.nextLoopIdx < s₁.ioLoops) ∧
      s₁.loops = s.loops ∧ s₁.ioLoops = s.ioLoops ∧ s₁.conn = s.conn := by
    obtain ⟨_, _, hnext⟩ := bind_eq_ok.mp hnext
    split at hnext
    · next hzero =>
      cases hnext
      exact ⟨Nat.zero_le _, Or.inl hzero, rfl, rfl, rfl⟩
    · next hpos =>
      cases hnext
      have hlt := h.nextLoopIdx.resolve_left hpos
      exact ⟨hlt, Or.inr (Nat.mod_lt _ (Nat.pos_of_ne_zero hpos)), rfl, rfl, rfl⟩
  let s₂ := s₁.accept ioLoop sockfd
  have hbounded : Bounded s₂ := by
    refine ⟨hidx, fun id => ?_⟩
    change (Function.update s₁.conn s₁.nextConnId _ id).loop ≤ s₁.ioLoops
    rw [Function.update_apply, hioLoops]
    split_ifs
    · exact hle
    · rw [hconn]
      exact h.loop id
  have hframe : Frame (fun _ _ => False) s₂ s' := by
    dsimp only at hok
    split at hok
    · exact .runFunctor (fun _ he => by cases he) hok
    · cases hok
      exact .queueInLoop
  refine ⟨hframe.bounded hbounded, fun l id hmem => ?_⟩
  have hold := (hframe.removes l id hmem).resolve_right (fun h => h)
  rwa [show s₂.loops = s.loops from hloops] at hold

theorem step_frame {e : TcpServer.Event} (h : Bounded s) (hok : TcpServer.step s e = .ok s') :
    Bounded s' ∧ ∀ l id, (id, .remove) ∈ (s'.loops l).rest → (id, .remove) ∈ (s.loops l).rest ∨ Destroys s e l id := by
  have hframe : Frame (Destroys s e) s s' → Bounded s' ∧
      ∀ l id, (id, .remove) ∈ (s'.loops l).rest → (id, .remove) ∈ (s.loops l).rest ∨ Destroys s e l id :=
    fun hf => ⟨hf.bounded h, hf.removes⟩
  cases e with
  | enterLoop l =>
      cases hok
      exact hframe (.onLoop fun _ => Or.inl)
  | poll l active =>
      cases hok
      exact hframe (.onLoop fun _ => Or.inl)
  | handleEvent l =>
      simp only [TcpServer.step] at hok
      split at hok
      · cases hok
        exact hframe (.onLoop fun _ => Or.inl)
      · cases hok
        exact hframe (.onLoop fun _ => Or.inl)
      · cases hok
        exact hframe (.refl _ _)
  | acceptor sockfd =>
      simp only [TcpServer.step] at hok
      split at hok
      · obtain ⟨hbounded, hremoves⟩ := newConnection_frame (s := s.onLoop 0 _)
          ((Frame.onLoop (R := fun _ _ => False) fun _ => Or.inl).bounded h) hok
        refine ⟨hbounded, fun l id hmem => Or.inl ?_⟩
        exact ((Frame.onLoop (R := fun _ _ => False) fun _ => Or.inl).removes l id (hremoves l id hmem)).resolve_right
          (fun h => h)
      · cases hok
        exact hframe (.onLoop fun _ => Or.inl)
      · cases hok
        exact hframe (.refl _ _)
  | handleCallback l r wr =>
      simp only [TcpServer.step] at hok
      split at hok
      · obtain ⟨o, ho, hok⟩ := bind_eq_ok.mp hok
        exact hframe ((Frame.onLoop fun _ => Or.inl).trans
          (.finish (fun hrest => absurd hrest (TcpConnection.handleCallback_rest ho)) hok))
      · cases hok
        exact hframe (.refl _ _)
  | timerCallback l i =>
      simp only [TcpServer.step] at hok
      split at hok
      · obtain ⟨o, ho, hok⟩ := bind_eq_ok.mp hok
        exact hframe ((Frame.onLoop fun _ => Or.inl).trans
          (.finish (fun hrest => absurd hrest (TcpConnection.forceCloseInLoop_rest ho)) hok))
      · cases hok
        exact hframe (.refl _ _)
  | swapFunctors l =>
      cases hok
      exact hframe (.onLoop fun _ => Or.inl)
  | callFunctor l mem wr =>
      simp only [TcpServer.step] at hok
      split at hok
      · next f functors hphase =>
        refine hframe ((Frame.onLoop fun _ => Or.inl).trans (.runFunctor (fun id he => ⟨mem, wr, rfl, ?_⟩) hok))
        rw [hphase, he]
        rfl
      · cases hok
        exact hframe (.refl _ _)
  | endFunctors l =>
      cases hok
      exact hframe (.onLoop fun _ => Or.inl)
  | userCode l =>
      simp only [TcpServer.step] at hok
      split at hok
      · next id r rest hrest =>
        refine hframe (Frame.trans (.onLoop fun id' hmem => Or.inl ?_) (.runRest hok))
        rw [hrest]
        exact List.mem_cons_of_mem _ hmem
      · cases hok
        exact hframe (.refl _ _)
  | call thread id c mem wr =>
      rcases TcpConnection.call_cases (s.conn id).tcp c with hcall | ⟨_, state, t, _, hcall, ht⟩
      · simp only [TcpServer.step, hcall] at hok
        cases hok
        exact hframe .setTcp
      · simp only [TcpServer.step, hcall] at hok
        split at hok
        · rcases ht with rfl | ⟨f, rfl, hf⟩
          · cases hok
            exact hframe (Frame.setTcp.trans .queueInLoop)
          · refine hframe (Frame.setTcp.trans (.runFunctor (fun id' he => ?_) hok))
            cases he
            exact absurd trivial hf
        · cases hok
          exact hframe (Frame.setTcp.trans .fly)
  | retrieve id len =>
      obtain ⟨_, _, hok⟩ := bind_eq_ok.mp hok
      cases hok
      exact hframe .setTcp
  | push i =>
      simp only [TcpServer.step] at hok
      split at hok
      · cases hok
        exact hframe (Frame.queueInLoop.trans .fly)
      · cases hok
        exact hframe (.refl _ _)

/-! ### The invariant -/

variable {w w' : World} {stage : Nat → Stage}

/-- The server's invariant, and a running `ConnectDestoryed` is one of the functors that were called. -/
structure Inv (w : World) (stage : Nat → Stage) : Prop where
  server : TcpServer.Inv w.server stage
  bounded : Bounded w.server
  removes : ∀ l id, (id, .remove) ∈ (w.server.loops l).rest → .conn id .connectDestoryed ∈ w.called l

theorem Inv.init (ioLoops highWaterMark : Nat) (writeComplete highWater : Bool) :
    Inv (init ioLoops highWaterMark writeComplete highWater) fun _ => .absent where
  server := init_inv ioLoops highWaterMark writeComplete highWater
  bounded := ⟨(Nat.eq_zero_or_pos ioLoops).imp_right fun hpos => hpos, fun _ => Nat.zero_le _⟩
  removes := nofun

/-- An empty `connections_` is that of a destroyed server. -/
theorem Inv.cleared (h : Inv w stage) (hclear : ClosesOnDestroy w .destroy) :
    w.server.connections = fun _ => none := by
  funext name
  by_contra hne
  obtain ⟨id, hid⟩ := Option.ne_none_iff_exists'.mp hne
  obtain rfl := h.server.names name id hid
  have hlisted := (h.server.fits id).connections
  rw [hid] at hlisted
  have hpresent : stage id ≠ .absent := by
    intro habsent
    rw [habsent] at hlisted
    cases hlisted
  have hlt : id < w.server.nextConnId := by
    by_contra hge
    exact hpresent (h.server.fresh id (Nat.le_of_not_lt hge))
  have hnone := hclear id hlt
  rw [(h.server.fits id).name hpresent, hid] at hnone
  cases hnone

theorem Inv.step (h : Inv w stage) {e : Event} (hen : Enabled w e) (hclear : ClosesOnDestroy w e)
    (hok : step w e = .ok w') : ∃ stage', Inv w' stage' := by
  cases e with
  | server e =>
      obtain ⟨_, _, hok⟩ := bind_eq_ok.mp hok
      obtain ⟨s, hstep, hok⟩ := bind_eq_ok.mp hok
      cases hok
      obtain ⟨stage', hinv⟩ : ∃ stage', TcpServer.Inv s stage' := by
        rcases step_advances h.server hen.1 with herr | ⟨s', stage', hs', hinv⟩
        · cases herr.symm.trans hstep
        · cases hs'.symm.trans hstep
          exact ⟨stage', hinv⟩
      obtain ⟨hbounded, hremoves⟩ := step_frame h.bounded hstep
      refine ⟨stage', hinv, hbounded, fun l id hmem => ?_⟩
      change _ ∈ w.calledBy e l
      rcases hremoves l id hmem with hold | ⟨mem, wr, rfl, hnext⟩
      · have hcalled := h.removes l id hold
        cases e with
        | callFunctor l' mem wr =>
            simp only [World.calledBy, Function.update_apply]
            split_ifs with hl
            · subst hl
              exact List.mem_append_left _ hcalled
            · exact hcalled
        | endFunctors l' =>
            simp only [World.calledBy, Function.update_apply]
            split_ifs with hl
            · -- the batch ends when nothing is left of its functors
              subst hl
              rw [hen.1.1] at hold
              cases hold
            · exact hcalled
        | _ => exact hcalled
      · simp only [World.calledBy, Function.update_self, hnext]
        exact List.mem_append_right _ (List.mem_singleton.mpr rfl)
  | copy id =>
      cases hok
      exact ⟨stage, h.server, h.bounded, h.removes⟩
  | drop id =>
      cases hok
      exact ⟨stage, h.server, h.bounded, h.removes⟩
  | destroy =>
      cases hok
      rw [← h.cleared hclear]
      exact ⟨stage, h.server, h.bounded, h.removes⟩

/-! ### References -/

theorem onLoop_le_refs (h : Bounded w.server) {id l : Nat} (hl : l = (w.server.conn id).loop) :
    w.onLoop id l ≤ w.refs id := by
  have hmem : w.onLoop id l ∈ (List.range (w.server.ioLoops + 1)).map (w.onLoop id) := by
    refine List.mem_map.mpr ⟨l, List.mem_range.mpr ?_, rfl⟩
    rw [hl]
    exact Nat.lt_succ_of_le (h.loop id)
  have hle := List.single_le_sum (fun n _ => Nat.zero_le n) _ hmem
  unfold World.refs
  omega

theorem onLoop_pos {id l : Nat} {f : TcpServer.Functor} (hf : f ∈ (w.server.loops l).loop.queued ++ w.called l)
    (hholds : holds id f = true) : 0 < w.onLoop id l := by
  have hpos : 0 < ((w.server.loops l).loop.queued ++ w.called l).countP (holds id) :=
    List.countP_pos_iff.mpr ⟨f, hf, hholds⟩
  unfold World.onLoop
  omega

theorem token_destroy {f : TcpServer.Functor} {id : Nat} (h : f.token id = some .destroy) :
    f = .conn id .connectDestoryed := by
  cases f with
  | removeConnectionInLoop id' => simp [Functor.token] at h
  | conn id' g => cases g <;> simp_all [Functor.token]

theorem token_unregister (f : TcpServer.Functor) (id : Nat) : f.token id ≠ some .unregister := by
  cases f with
  | removeConnectionInLoop id' => simp [Functor.token]
  | conn id' g => cases g <;> simp [Functor.token]

theorem restToken_destroy (p : Nat × Rest) (id : Nat) : restToken id p ≠ some .destroy := by
  obtain ⟨id', r⟩ := p
  cases r <;> simp [restToken]

theorem restToken_unregister {p : Nat × Rest} {id : Nat} (h : restToken id p = some .unregister) : p = (id, .remove) := by
  obtain ⟨id', r⟩ := p
  cases r <;> simp_all [restToken]

theorem mem_of_destroy {s : LoopState} {id : Nat} (h : .destroy ∈ s.tokens id) :
    .conn id .connectDestoryed ∈ s.loop.queued := by
  rcases List.mem_append.mp h with h | h
  · obtain ⟨f, hf, htoken⟩ := List.mem_filterMap.mp h
    exact token_destroy htoken ▸ hf
  · obtain ⟨p, _, htoken⟩ := List.mem_filterMap.mp h
    exact absurd htoken (restToken_destroy p id)

theorem mem_of_unregister {s : LoopState} {id : Nat} (h : .unregister ∈ s.tokens id) : (id, .remove) ∈ s.rest := by
  rcases List.mem_append.mp h with h | h
  · obtain ⟨f, _, htoken⟩ := List.mem_filterMap.mp h
    exact absurd htoken (token_unregister f id)
  · obtain ⟨p, hp, htoken⟩ := List.mem_filterMap.mp h
    exact restToken_unregister htoken ▸ hp

/-- A connection that is at its last stage is unknown to the pollers. -/
theorem Inv.unregistered (h : Inv w stage) {id : Nat} (hgone : stage id = .gone) (l : Nat) :
    (w.server.loops l).poller.Unregistered id := by
  have hother : ∀ i, (stage i).Live → i ≠ id := by
    rintro i hlive rfl
    exact hlive.2 hgone
  refine ⟨fun fd hfd => ?_, fun fd event hevent hid => ?_⟩
  · by_cases hex : ∃ i, (stage i).Live ∧ (w.server.conn i).loop = l ∧ w.server.fd i = fd
    · obtain ⟨i, hlive, rfl, rfl⟩ := hex
      have hreg := (h.server.fits i).registered hlive
      by_cases hstatus : (w.server.conn i).tcp.channel.inPollerStatus = .kInit
      · unfold Registered at hreg
        rw [hstatus] at hreg
        cases hreg.2.1.symm.trans hfd
      · cases (hreg.found hstatus).symm.trans hfd
        exact hother id hlive rfl
    · have hnone := (h.server.others l fd fun i hlive hl hfd => hex ⟨i, hlive, hl, hfd⟩).1
      cases hnone.symm.trans hfd
  · by_cases hex : ∃ i, (stage i).Live ∧ (w.server.conn i).loop = l ∧ w.server.fd i = fd
    · obtain ⟨i, hlive, rfl, rfl⟩ := hex
      have hset := ((h.server.fits i).registered hlive).epollSet_eq
      change (w.server.loops _).poller.epollSet (w.server.fd i) = _ at hset
      rw [hevent] at hset
      split_ifs at hset
      cases hset
      exact hother i hlive hid
    · have hnone := (h.server.others l fd fun i hlive hl hfd => hex ⟨i, hlive, hl, hfd⟩).2
      cases hnone.symm.trans hevent

/-- A connection without references is closed, and no poller knows its channel. -/
theorem Inv.released (h : Inv w stage) {id : Nat} (hestablished : Established w id) (hrefs : w.refs id = 0) :
    (w.server.conn id).tcp.state = .kDisconnected ∧ ∀ l, (w.server.loops l).poller.Unregistered id := by
  have hfits := h.server.fits id
  have hlisted : (stage id).listed = true → 0 < w.refs id := by
    intro hl
    have hpresent : stage id ≠ .absent := by
      intro habsent
      rw [habsent] at hl
      cases hl
    have hentry := hfits.connections
    rw [if_pos hl, ← hfits.name hpresent] at hentry
    unfold World.refs
    rw [if_pos hentry]
    omega
  have hloop : ∀ f ∈ (w.server.loops (w.server.conn id).loop).loop.queued ++ w.called (w.server.conn id).loop,
      holds id f = true → 0 < w.refs id := fun f hf hholds =>
    Nat.lt_of_lt_of_le (onLoop_pos hf hholds) (onLoop_le_refs h.bounded rfl)
  have htokens := hfits.tokens (w.server.conn id).loop
  cases hst : stage id with
  | absent =>
      obtain ⟨e, he, _⟩ := hestablished
      rw [hfits.life, hst] at he
      cases he
  | created => exact absurd hrefs (Nat.ne_of_gt (hlisted (by rw [hst]; rfl)))
  | up => exact absurd hrefs (Nat.ne_of_gt (hlisted (by rw [hst]; rfl)))
  | closing => exact absurd hrefs (Nat.ne_of_gt (hlisted (by rw [hst]; rfl)))
  | removing => exact absurd hrefs (Nat.ne_of_gt (hlisted (by rw [hst]; rfl)))
  | destroying =>
      rw [hst, Stage.tokens, if_pos rfl] at htokens
      have hmem := mem_of_destroy (htokens ▸ List.mem_singleton.mpr rfl)
      exact absurd hrefs (Nat.ne_of_gt (hloop _ (List.mem_append_left _ hmem) (by simp [holds, ConnFunctor.isShared])))
  | unregistering =>
      rw [hst, Stage.tokens, if_pos rfl] at htokens
      have hmem := h.removes _ id (mem_of_unregister (htokens ▸ List.mem_singleton.mpr rfl))
      exact absurd hrefs (Nat.ne_of_gt (hloop _ (List.mem_append_right _ hmem) (by simp [holds, ConnFunctor.isShared])))
  | gone =>
      have hallows := hfits.allows
      rw [hst] at hallows
      exact ⟨hallows.1, h.unregistered hst⟩

end ServerLifetime

end OulaServer
