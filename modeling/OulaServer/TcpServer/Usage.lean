import OulaServer.TcpServer.Lifetime

/-!
# Which connections a step uses

A step of a server's loop uses a connection when it dereferences its channel or calls one of its functions. What the
thread of a loop is at, the batch of channels that it dispatches and the function that it runs, are raw pointers; that
they are good is not for the references alone to say. A batch is taken from the poller, which knows no channel of a
connection that is gone, and `ConnectDestoryed`, the last function of a connection, runs when the batch is done
(`Attends`). So a step that uses a freed connection calls a functor that is bound to `this` (`usesReferenced_of_along`):
the `sendInLoop` or the `shutdownInLoop` that another thread queued.
-/

namespace OulaServer

namespace TcpServer

open TcpConnection World

/-! ### What a step leaves of a loop's work -/

/-- What the thread of a loop is at. -/
def LoopState.work (s : LoopState) : Phase Active Functor × List (Nat × EventCallback) × List (Nat × Rest) :=
  (s.loop.phase, s.callbacks, s.rest)

/-- The connections that the thread of a loop is at. -/
def LoopState.batch (s : LoopState) : List Nat :=
  activeConns s.loop.phase ++ s.callbacks.map Prod.fst ++ s.rest.map Prod.fst

theorem work_eq_iff {s : LoopState} {phase : Phase Active Functor} {callbacks : List (Nat × EventCallback)}
    {rest : List (Nat × Rest)} :
    s.work = (phase, callbacks, rest) ↔ s.loop.phase = phase ∧ s.callbacks = callbacks ∧ s.rest = rest := by
  rw [LoopState.work, Prod.mk.injEq, Prod.mk.injEq]

variable {w w' : World}

theorem perform_work {l id : Nat} {e : Effect} (hok : w.perform l id e = .ok w') :
    (∀ l', (w'.loops l').work = (w.loops l').work) ∧ w'.log = w.log := by
  have honLoop : ∀ {v : World} {l : Nat} {f : LoopState → LoopState}, (∀ s, (f s).work = s.work) →
      ∀ l', ((v.onLoop l f).loops l').work = (v.loops l').work := by
    intro v l f hf l'
    rw [onLoop_loops]
    split_ifs with hl
    · rw [hf, hl]
    · rfl
  cases e with
  | update =>
      obtain ⟨_, _, hok⟩ := bind_eq_ok.mp hok
      obtain ⟨⟨p, c⟩, _, hok⟩ := bind_eq_ok.mp hok
      cases hok
      exact ⟨honLoop (f := fun s => { s with poller := p }) fun _ => rfl, rfl⟩
  | queueInLoop f =>
      cases hok
      refine ⟨honLoop fun s => ?_, rfl⟩
      show ((s.loop.queueInLoop _ _).phase, _, _) = _
      rw [EventLoop.queueInLoop_phase]
      rfl
  | addTimer =>
      cases hok
      exact ⟨honLoop fun _ => rfl, rfl⟩
  | write bytes =>
      cases hok
      exact ⟨fun _ => rfl, rfl⟩
  | shutdownWrite =>
      cases hok
      exact ⟨fun _ => rfl, rfl⟩

theorem finish_work {l id : Nat} {o : Outcome} (hok : w.finish l id o = .ok w') :
    (∀ l', (w'.loops l').work = if l' = l then
      ((w.loops l).loop.phase, (w.loops l).callbacks, o.rest.map (id, ·) ++ (w.loops l).rest)
      else (w.loops l').work) ∧ w'.log = w.log ++ (closedBy o).map (id, ·) := by
  have hfold : ∀ (effects : List Effect) (v v' : World), effects.foldlM (World.perform l id) v = .ok v' →
      (∀ l', (v'.loops l').work = (v.loops l').work) ∧ v'.log = v.log := by
    intro effects
    induction effects with
    | nil =>
        intro v v' hok
        cases hok
        exact ⟨fun _ => rfl, rfl⟩
    | cons e effects ih =>
        intro v v' hok
        obtain ⟨v₁, hone, hok⟩ := bind_eq_ok.mp ((List.foldlM_cons ..).symm.trans hok)
        obtain ⟨hwork, hlog⟩ := perform_work hone
        obtain ⟨hwork', hlog'⟩ := ih v₁ v' hok
        exact ⟨fun l' => (hwork' l').trans (hwork l'), hlog'.trans hlog⟩
  obtain ⟨w₁, heffects, hok⟩ := bind_eq_ok.mp hok
  cases hok
  obtain ⟨hwork, hlog⟩ := hfold _ _ _ heffects
  obtain ⟨hphase, hcallbacks, hrest⟩ := work_eq_iff.mp (hwork l)
  refine ⟨fun l' => ?_, congrArg (· ++ _) hlog⟩
  show ((w₁.onLoop l fun s => { s with rest := o.rest.map (id, ·) ++ s.rest }).loops l').work = _
  rw [onLoop_loops]
  split_ifs with hl
  · show ((w₁.loops l).loop.phase, (w₁.loops l).callbacks, _ ++ (w₁.loops l).rest) = _
    rw [hphase, hcallbacks, hrest]
    rfl
  · exact hwork l'

theorem queueInLoop_work (w : World) (l : Nat) (b : Bool) (f : Functor) (l' : Nat) :
    ((w.queueInLoop l b f).loops l').work = (w.loops l').work := by
  show ((w.onLoop l _).loops l').work = _
  rw [onLoop_loops]
  split_ifs with hl
  · subst hl
    show ((EventLoop.queueInLoop _ _ _).phase, _, _) = _
    rw [EventLoop.queueInLoop_phase]
    rfl
  · rfl

theorem removeConnectionInLoop_work {l id : Nat} (hok : w.removeConnectionInLoop l id = .ok w') :
    (∀ l', (w'.loops l').work = (w.loops l').work) ∧ w'.log = w.log ++ [(id, .removed)] := by
  obtain ⟨_, _, hok⟩ := bind_eq_ok.mp hok
  obtain ⟨_, _, hok⟩ := bind_eq_ok.mp hok
  cases hok
  exact ⟨fun l' => queueInLoop_work _ _ _ _ l', rfl⟩

/-- A functor that leaves something to call is the first or the last of its connection, or found it open. -/
theorem lifecycle_of_rest {c : TcpConnection} {b : Bool} {mem : Memory} {wr : WriteResult} {f : ConnFunctor}
    {o : Outcome} (ho : c.runFunctor b mem wr f = .ok o) (hne : o.rest ≠ []) :
    f = .connectEstablished ∨ f = .connectDestoryed ∨ f = .forceCloseInLoop ∧ c.Open := by
  cases f with
  | connectEstablished => exact Or.inl rfl
  | connectDestoryed => exact Or.inr (Or.inl rfl)
  | forceCloseInLoop =>
      obtain ⟨_, _, ho⟩ := bind_eq_ok.mp ho
      split at ho
      · next hopen => exact Or.inr (Or.inr ⟨rfl, hopen⟩)
      · cases ho
        exact absurd rfl hne
  | sendInLoop data len => exact absurd (sendInLoop_rest ho) hne
  | shutdownInLoop =>
      obtain ⟨_, _, ho⟩ := bind_eq_ok.mp ho
      split at ho
      · cases ho
        exact absurd rfl hne
      · cases ho
        exact absurd rfl hne
  | addTimerInLoop =>
      cases ho
      exact absurd rfl hne
  | writeCompleteCallback =>
      cases ho
      exact absurd rfl hne
  | highWaterMarkCallback len =>
      cases ho
      exact absurd rfl hne

theorem unregistered_log {log : List (Nat × Life)} {id : Nat} {lives : List Life} (hlives : .unregistered ∉ lives)
    {id' : Nat} (h : (id', .unregistered) ∈ log ++ lives.map (id, ·)) : (id', .unregistered) ∈ log := by
  rcases List.mem_append.mp h with h | h
  · exact h
  · obtain ⟨life, hlife, he⟩ := List.mem_map.mp h
    cases he
    exact absurd hlife hlives

theorem unregistered_closedBy (o : Outcome) : .unregistered ∉ closedBy o := by
  unfold closedBy
  split_ifs
  · simp
  · simp

theorem runFunctor_work {l : Nat} {mem : Memory} {wr : WriteResult} {f : Functor}
    (hok : w.runFunctor l mem wr f = .ok w') :
    ∃ left : List (Nat × Rest), (∀ l', (w'.loops l').work = if l' = l then
        ((w.loops l).loop.phase, (w.loops l).callbacks, left ++ (w.loops l).rest) else (w.loops l').work) ∧
      (∀ p ∈ left, ∃ g, f = .conn p.1 g ∧
        (g = .connectEstablished ∨ g = .connectDestoryed ∨ g = .forceCloseInLoop ∧ (w.conn p.1).tcp.Open)) ∧
      ∀ id, (id, .unregistered) ∈ w'.log → (id, .unregistered) ∈ w.log := by
  cases f with
  | removeConnectionInLoop id =>
      obtain ⟨hwork, hlog⟩ := removeConnectionInLoop_work hok
      refine ⟨[], fun l' => ?_, nofun, fun id' h => ?_⟩
      · rw [hwork l']
        split_ifs with hl
        · rw [hl]
          rfl
        · rfl
      · rw [hlog] at h
        simpa using h
  | conn id g =>
      obtain ⟨o, ho, hok⟩ := bind_eq_ok.mp hok
      obtain ⟨hwork, hlog⟩ := finish_work hok
      refine ⟨o.rest.map (id, ·), hwork, fun p hp => ?_, fun id' h => ?_⟩
      · obtain ⟨r, hr, rfl⟩ := List.mem_map.mp hp
        exact ⟨g, rfl, lifecycle_of_rest ho (List.ne_nil_of_mem hr)⟩
      · rw [hlog] at h
        refine unregistered_log ?_ (unregistered_log (unregistered_closedBy o) h)
        cases g <;> simp [ranLife]

theorem runRest_work {l id : Nat} {r : Rest} (hok : w.runRest l id r = .ok w') :
    (∀ l', (w'.loops l').work = (w.loops l').work) ∧
      ∀ id', (id', .unregistered) ∈ w'.log → (id', .unregistered) ∈ w.log ∨ r = .remove ∧ id' = id := by
  cases r with
  | closeCallback =>
      change w.removeConnection l id = .ok w' at hok
      unfold World.removeConnection at hok
      split at hok
      · obtain ⟨hwork, hlog⟩ := removeConnectionInLoop_work hok
        refine ⟨hwork, fun id' h => Or.inl ?_⟩
        rw [hlog] at h
        simpa using h
      · cases hok
        exact ⟨queueInLoop_work _ _ _ _, fun _ => Or.inl⟩
  | remove =>
      obtain ⟨_, _, hok⟩ := bind_eq_ok.mp hok
      obtain ⟨⟨p, c⟩, _, hok⟩ := bind_eq_ok.mp hok
      cases hok
      refine ⟨fun l' => ?_, fun id' h => ?_⟩
      · show ((w.onLoop (w.conn id).loop fun s => { s with poller := p }).loops l').work = _
        rw [onLoop_loops]
        split_ifs with hl
        · rw [hl]
          rfl
        · rfl
      · rcases List.mem_append.mp h with h | h
        · exact Or.inl h
        · cases List.mem_singleton.mp h
          exact Or.inr ⟨rfl, rfl⟩
  | connectionUp =>
      cases hok
      exact ⟨fun _ => rfl, fun _ => Or.inl⟩
  | connectionDown =>
      cases hok
      exact ⟨fun _ => rfl, fun _ => Or.inl⟩
  | messageCallback =>
      cases hok
      exact ⟨fun _ => rfl, fun _ => Or.inl⟩

theorem newConnection_work {sockfd : Int} (hok : w.newConnection 0 sockfd = .ok w') :
    ∃ left : List (Nat × Rest), (∀ l', (w'.loops l').work = if l' = 0 then
        ((w.loops 0).loop.phase, (w.loops 0).callbacks, left ++ (w.loops 0).rest) else (w.loops l').work) ∧
      (∀ p ∈ left, p.1 = w.nextConnId) ∧ ∀ id, (id, .unregistered) ∈ w'.log → (id, .unregistered) ∈ w.log := by
  obtain ⟨ioLoop, nextLoopIdx, heq⟩ := newConnection_eq w sockfd
  have hlog : ∀ id, (id, Life.unregistered) ∈ (World.accept { w with nextLoopIdx } ioLoop sockfd).log →
      (id, .unregistered) ∈ w.log := fun id h => unregistered_log (by simp) h
  rw [heq] at hok
  split_ifs at hok
  · obtain ⟨left, hall, hleft, hmono⟩ := runFunctor_work hok
    refine ⟨left, hall, fun p hp => ?_, fun id h => hlog id (hmono id h)⟩
    obtain ⟨g, he, _⟩ := hleft p hp
    exact (Functor.conn.inj he).1.symm
  · cases hok
    refine ⟨[], fun l' => (queueInLoop_work _ _ _ _ l').trans ?_, nofun, hlog⟩
    split_ifs with hl
    · rw [hl]
      rfl
    · rfl

theorem userCode_work {l : Nat} {p : Nat × Rest} {rest : List (Nat × Rest)} (hrest : (w.loops l).rest = p :: rest)
    (hok : step w (.userCode l) = .ok w') (l' : Nat) : (w'.loops l').work =
      if l' = l then ((w.loops l).loop.phase, (w.loops l).callbacks, rest) else (w.loops l').work := by
  simp only [step, hrest] at hok
  rw [(runRest_work hok).1 l', onLoop_loops]
  split_ifs with hl
  · rfl
  · rfl

/-- What brings a connection to where the thread of a loop is at. -/
def Joins (w : World) (l id : Nat) : Event → Prop
  | .poll _ active => id ∈ active.filterMap Active.channel?
  | .acceptor _ => id = w.nextConnId
  | .timerCallback _ i => (w.loops l).timers[i]? = some id ∧ (w.conn id).tcp.Open
  | .callFunctor _ _ _ => ∃ f, (w.loops l).loop.phase.nextFunctor = some (.conn id f) ∧
      (f = .connectEstablished ∨ f = .connectDestoryed ∨ f = .forceCloseInLoop ∧ (w.conn id).tcp.Open)
  | _ => False

/-- The callbacks that are left belong to the batch that is dispatched. -/
def Dispatches (s : LoopState) : Prop := s.callbacks = [] ∨ ∃ active, s.loop.phase = .dispatching active

/-- What a step does to the work of the loop `l`: nothing; it calls the next of the rest; or it is a step between two
functions. -/
inductive Shift (w w' : World) (e : Event) (l : Nat) : Prop where
  | same (hwork : (w'.loops l).work = (w.loops l).work)
  | pop (p : Nat × Rest) (he : e = .userCode l)
      (hwork : (w.loops l).work = ((w'.loops l).loop.phase, (w'.loops l).callbacks, p :: (w'.loops l).rest))
  | turn (hidle : (w.loops l).rest = [] ∨ ∀ functors, (w.loops l).loop.phase ≠ .calling functors)
      (hdispatches : Dispatches (w.loops l) → Dispatches (w'.loops l))
      (hbatch : ∀ id ∈ (w'.loops l).batch, id ∈ (w.loops l).batch ∨ Joins w l id e)

theorem Shift.onLoop {l : Nat} {e : Event} (l' : Nat) (f : LoopState → LoopState)
    (hloops : ∀ i, (w'.loops i).work = ((w.onLoop l' f).loops i).work) (hshift : l = l' →
      (w'.loops l).work = (f (w.loops l)).work → Shift w w' e l) : Shift w w' e l := by
  have hwork := hloops l
  rw [onLoop_loops] at hwork
  split_ifs at hwork with hl
  · subst hl
    exact hshift rfl hwork
  · exact .same hwork

theorem mem_batch {s : LoopState} {id : Nat} : id ∈ s.batch ↔
    id ∈ activeConns s.loop.phase ∨ (∃ cb, (id, cb) ∈ s.callbacks) ∨ ∃ r, (id, r) ∈ s.rest := by
  simp only [LoopState.batch, List.mem_append, List.mem_map, Prod.exists, exists_and_right, exists_eq_right, or_assoc]

theorem work_onLoop {l : Nat} {f : LoopState → LoopState} {left : List (Nat × Rest)}
    (hwork : ∀ i, (w'.loops i).work = if i = l then (((w.onLoop l f).loops l).loop.phase,
      ((w.onLoop l f).loops l).callbacks, left ++ ((w.onLoop l f).loops l).rest) else ((w.onLoop l f).loops i).work)
    (i : Nat) : (w'.loops i).work = ((w.onLoop l fun s => { f s with rest := left ++ (f s).rest }).loops i).work := by
  rw [hwork i, onLoop_loops_self, onLoop_loops, onLoop_loops]
  split_ifs with hi
  · rfl
  · rfl

theorem Shift.to {e : Event} {l : Nat} {phase : Phase Active Functor} {callbacks : List (Nat × EventCallback)}
    (left : List (Nat × Rest)) (hidle : (w.loops l).rest = [] ∨ ∀ functors, (w.loops l).loop.phase ≠ .calling functors)
    (hwork : (w'.loops l).work = (phase, callbacks, left ++ (w.loops l).rest))
    (hdispatches : Dispatches (w.loops l) → callbacks = [] ∨ ∃ active, phase = .dispatching active)
    (hphase : ∀ id ∈ activeConns phase, id ∈ activeConns (w.loops l).loop.phase ∨ Joins w l id e)
    (hcallbacks : ∀ p ∈ callbacks, p.1 ∈ (w.loops l).batch)
    (hleft : ∀ p ∈ left, p.1 ∈ (w.loops l).batch ∨ Joins w l p.1 e) : Shift w w' e l := by
  obtain ⟨hphase', hcallbacks', hrest'⟩ := work_eq_iff.mp hwork
  refine .turn hidle (fun h => ?_) fun id hid => ?_
  · unfold Dispatches
    rw [hphase', hcallbacks']
    exact hdispatches h
  · rw [mem_batch, hphase', hcallbacks', hrest'] at hid
    rcases hid with hid | ⟨cb, hid⟩ | ⟨r, hid⟩
    · exact (hphase id hid).imp_left fun h => mem_batch.mpr (Or.inl h)
    · exact Or.inl (hcallbacks _ hid)
    · rcases List.mem_append.mp hid with hid | hid
      · exact hleft _ hid
      · exact Or.inl (mem_batch.mpr (Or.inr (Or.inr ⟨r, hid⟩)))

theorem Shift.goes {e : Event} {l : Nat} {phase : Phase Active Functor} {callbacks : List (Nat × EventCallback)}
    (hidle : (w.loops l).rest = [] ∨ ∀ functors, (w.loops l).loop.phase ≠ .calling functors)
    (hwork : (w'.loops l).work = (phase, callbacks, (w.loops l).rest))
    (hdispatches : Dispatches (w.loops l) → callbacks = [] ∨ ∃ active, phase = .dispatching active)
    (hphase : ∀ id ∈ activeConns phase, id ∈ activeConns (w.loops l).loop.phase ∨ Joins w l id e)
    (hcallbacks : ∀ p ∈ callbacks, p.1 ∈ (w.loops l).batch) : Shift w w' e l :=
  .to [] hidle hwork hdispatches hphase hcallbacks nofun

theorem callbacks_batch {s : LoopState} {p : Nat × EventCallback} (hp : p ∈ s.callbacks) : p.1 ∈ s.batch :=
  mem_batch.mpr (Or.inr (Or.inl ⟨p.2, hp⟩))

theorem shift_of_step {e : Event} (hen : Enabled w e) (hok : step w e = .ok w') (l : Nat) : Shift w w' e l := by
  cases e with
  | enterLoop l' =>
      cases hok
      refine .onLoop l' _ (fun _ => rfl) fun hl hwork => ?_
      subst hl
      have hphase := hen.2
      refine .goes (Or.inr fun fs => by rw [hphase]; simp) hwork (fun h => ?_)
        (fun id hid => absurd hid List.not_mem_nil) fun p hp => callbacks_batch hp
      exact Or.inl (h.resolve_right (by rw [hphase]; simp))
  | poll l' active =>
      cases hok
      refine .onLoop l' _ (fun _ => rfl) fun hl hwork => ?_
      subst hl
      have hphase := hen.1
      exact .goes (Or.inr fun fs => by rw [hphase]; simp) hwork (fun _ => Or.inr ⟨active, rfl⟩)
        (fun id hid => Or.inr hid) fun p hp => callbacks_batch hp
  | handleEvent l' =>
      simp only [step] at hok
      split at hok
      · next id revents active hphase =>
        cases hok
        refine .onLoop l' _ (fun _ => rfl) fun hl hwork => ?_
        subst hl
        refine .goes (Or.inl hen.1) hwork (fun _ => Or.inr ⟨active, rfl⟩)
          (fun id hid => Or.inl (activeConns_cons hphase id hid)) fun p hp => ?_
        obtain ⟨cb, _, rfl⟩ := List.mem_map.mp hp
        refine mem_batch.mpr (Or.inl ?_)
        rw [hphase]
        exact List.mem_cons_self
      · next a active _ hphase =>
        cases hok
        refine .onLoop l' _ (fun _ => rfl) fun hl hwork => ?_
        subst hl
        exact .goes (Or.inl hen.1) hwork (fun _ => Or.inr ⟨active, rfl⟩)
          (fun id hid => Or.inl (activeConns_cons hphase id hid)) fun p hp => callbacks_batch hp
      · cases hok
        exact .same rfl
  | acceptor sockfd =>
      simp only [step] at hok
      split at hok
      · next active sockfd hphase =>
        obtain ⟨left, hall, hleft, _⟩ := newConnection_work hok
        refine .onLoop 0 _ (work_onLoop hall) fun hl hwork => ?_
        subst hl
        exact .to _ (Or.inl hen.1) hwork (fun _ => Or.inr ⟨active, rfl⟩)
          (fun id hid => Or.inl (activeConns_cons hphase id hid)) (fun p hp => callbacks_batch hp) fun p hp =>
          Or.inr (hleft p hp)
      · next active hphase =>
        cases hok
        refine .onLoop 0 _ (fun _ => rfl) fun hl hwork => ?_
        subst hl
        exact .goes (Or.inl hen.1) hwork (fun _ => Or.inr ⟨active, rfl⟩)
          (fun id hid => Or.inl (activeConns_cons hphase id hid)) fun p hp => callbacks_batch hp
      · cases hok
        exact .same rfl
  | handleCallback l' r wr =>
      simp only [step] at hok
      split at hok
      · next id cb callbacks hcallbacks =>
        obtain ⟨o, ho, hok⟩ := bind_eq_ok.mp hok
        obtain ⟨hall, _⟩ := finish_work hok
        refine .onLoop l' _ (work_onLoop hall) fun hl hwork => ?_
        subst hl
        refine .to _ (Or.inl hen.1) hwork (fun h => Or.inr (h.resolve_left hen.2)) (fun id hid => Or.inl hid)
          (fun p hp => callbacks_batch (by rw [hcallbacks]; exact List.mem_cons_of_mem _ hp)) fun p hp => ?_
        obtain ⟨r, _, rfl⟩ := List.mem_map.mp hp
        exact Or.inl (callbacks_batch (p := (id, cb)) (by rw [hcallbacks]; exact List.mem_cons_self))
      · cases hok
        exact .same rfl
  | timerCallback l' i =>
      simp only [step] at hok
      split at hok
      · next id hid =>
        obtain ⟨o, ho, hok⟩ := bind_eq_ok.mp hok
        obtain ⟨hall, _⟩ := finish_work hok
        refine .onLoop l' _ (work_onLoop hall) fun hl hwork => ?_
        subst hl
        refine .to _ (Or.inl hen.1) hwork (fun _ => Or.inl hen.2.1) (fun id hid => Or.inl hid)
          (fun p hp => callbacks_batch hp) fun p hp => ?_
        obtain ⟨r, hr, rfl⟩ := List.mem_map.mp hp
        refine Or.inr ⟨hid, ?_⟩
        have hrun : (w.conn id).tcp.runFunctor (l = (w.conn id).loop) (fun _ => 0) (.ok 0) .forceCloseInLoop =
            .ok o := ho
        simpa using lifecycle_of_rest hrun (List.ne_nil_of_mem hr)
      · cases hok
        exact .same rfl
  | swapFunctors l' =>
      cases hok
      refine .onLoop l' _ (fun _ => rfl) fun hl hwork => ?_
      subst hl
      exact .goes (Or.inl hen.1) hwork (fun _ => Or.inl hen.2.1) (fun id hid => absurd hid List.not_mem_nil)
        fun p hp => callbacks_batch hp
  | callFunctor l' mem wr =>
      simp only [step] at hok
      split at hok
      · next f functors hphase =>
        obtain ⟨left, hall, hleft, _⟩ := runFunctor_work hok
        refine .onLoop l' _ (work_onLoop hall) fun hl hwork => ?_
        subst hl
        refine .to _ (Or.inl hen.1) hwork (fun h => ?_) (fun id hid => absurd hid List.not_mem_nil)
          (fun p hp => callbacks_batch hp) fun p hp => ?_
        · exact Or.inl (h.resolve_right (by rw [hphase]; simp))
        · obtain ⟨g, rfl, hg⟩ := hleft p hp
          exact Or.inr ⟨g, by rw [hphase]; rfl, hg⟩
      · cases hok
        exact .same rfl
  | endFunctors l' =>
      cases hok
      refine .onLoop l' _ (fun _ => rfl) fun hl hwork => ?_
      subst hl
      have hphase := hen.2
      refine .goes (Or.inl hen.1) hwork (fun h => ?_) (fun id hid => absurd hid List.not_mem_nil)
        fun p hp => callbacks_batch hp
      exact Or.inl (h.resolve_right (by rw [hphase]; simp))
  | userCode l' =>
      obtain ⟨p, rest, hrest⟩ := List.exists_cons_of_ne_nil hen
      have hwork := userCode_work hrest hok l
      split_ifs at hwork with hl
      · subst hl
        refine .pop p rfl ?_
        obtain ⟨hphase, hcallbacks, hrest'⟩ := work_eq_iff.mp hwork
        rw [hphase, hcallbacks, hrest', ← hrest]
        rfl
      · exact .same hwork
  | call thread id c mem wr =>
      rcases call_cases (w.conn id).tcp c with hcall | ⟨_, state, t, _, hcall, ht⟩
      · simp only [step, hcall] at hok
        cases hok
        exact .same rfl
      · simp only [step, hcall] at hok
        split at hok
        · rcases ht with rfl | ⟨f, rfl, hf⟩
          · cases hok
            exact .same (queueInLoop_work _ _ _ _ _)
          · -- a function that user code calls directly leaves nothing to call
            obtain ⟨left, hall, hleft, _⟩ := runFunctor_work hok
            have hnil : left = [] := by
              refine List.eq_nil_iff_forall_not_mem.mpr fun p hp => ?_
              obtain ⟨g, he, hg⟩ := hleft p hp
              cases he
              rcases hg with rfl | rfl | ⟨rfl, _⟩ <;> exact hf trivial
            subst hnil
            refine .same ((hall l).trans ?_)
            split_ifs with hl
            · rw [hl]
              rfl
            · rfl
        · cases hok
          exact .same rfl
  | retrieve id len =>
      obtain ⟨_, _, hok⟩ := bind_eq_ok.mp hok
      cases hok
      exact .same rfl
  | push i =>
      simp only [step] at hok
      split at hok
      · cases hok
        exact .same (queueInLoop_work _ _ _ _ _)
      · cases hok
        exact .same rfl

theorem log_of_step {e : Event} {id : Nat} (hok : step w e = .ok w') (hlog : (id, .unregistered) ∈ w'.log) :
    (id, .unregistered) ∈ w.log ∨ ∃ l rest, e = .userCode l ∧ (w.loops l).rest = (id, .remove) :: rest := by
  cases e with
  | enterLoop l | poll l active | swapFunctors l | endFunctors l =>
      cases hok
      exact Or.inl hlog
  | handleEvent l =>
      simp only [step] at hok
      split at hok <;> cases hok <;> exact Or.inl hlog
  | acceptor sockfd =>
      simp only [step] at hok
      split at hok
      · obtain ⟨_, _, _, hmono⟩ := newConnection_work hok
        exact Or.inl (hmono id hlog)
      · cases hok
        exact Or.inl hlog
      · cases hok
        exact Or.inl hlog
  | handleCallback l r wr =>
      simp only [step] at hok
      split at hok
      · obtain ⟨o, _, hok⟩ := bind_eq_ok.mp hok
        rw [(finish_work hok).2] at hlog
        exact Or.inl (unregistered_log (unregistered_closedBy o) hlog)
      · cases hok
        exact Or.inl hlog
  | timerCallback l i =>
      simp only [step] at hok
      split at hok
      · obtain ⟨o, _, hok⟩ := bind_eq_ok.mp hok
        rw [(finish_work hok).2] at hlog
        exact Or.inl (unregistered_log (unregistered_closedBy o) hlog)
      · cases hok
        exact Or.inl hlog
  | callFunctor l mem wr =>
      simp only [step] at hok
      split at hok
      · obtain ⟨_, _, _, hmono⟩ := runFunctor_work hok
        exact Or.inl (hmono id hlog)
      · cases hok
        exact Or.inl hlog
  | userCode l =>
      simp only [step] at hok
      split at hok
      · next id' r rest hrest =>
        rcases (runRest_work hok).2 id hlog with hold | ⟨rfl, rfl⟩
        · exact Or.inl hold
        · exact Or.inr ⟨l, rest, rfl, hrest⟩
      · cases hok
        exact Or.inl hlog
  | call thread id' c mem wr =>
      rcases call_cases (w.conn id').tcp c with hcall | ⟨_, state, t, _, hcall, ht⟩
      · simp only [step, hcall] at hok
        cases hok
        exact Or.inl hlog
      · simp only [step, hcall] at hok
        split at hok
        · rcases ht with rfl | ⟨f, rfl, hf⟩
          · cases hok
            exact Or.inl hlog
          · obtain ⟨_, _, _, hmono⟩ := runFunctor_work hok
            exact Or.inl (hmono id hlog)
        · cases hok
          exact Or.inl hlog
  | retrieve id' len =>
      obtain ⟨_, _, hok⟩ := bind_eq_ok.mp hok
      cases hok
      exact Or.inl hlog
  | push i =>
      simp only [step] at hok
      split at hok <;> cases hok <;> exact Or.inl hlog

/-! ### The invariant -/

/-- What a loop's thread is at: a connection that is not gone; callbacks, while it dispatches; and `Channel::remove` as
the last that a functor has to do. -/
structure Attends (w : World) : Prop where
  batch : ∀ l, ∀ id ∈ (w.loops l).batch, (id, .unregistered) ∉ w.log
  dispatches : ∀ l, Dispatches (w.loops l)
  removes : ∀ l id, (id, .remove) ∈ (w.loops l).rest → (∃ functors, (w.loops l).loop.phase = .calling functors) ∧
    ∃ before, (w.loops l).rest = before ++ [(id, .remove)] ∧ ∀ p ∈ before, p.2 ≠ .remove

variable {stage stage' : Nat → Stage}

theorem Inv.gone_iff (h : Inv w stage) (id : Nat) : (id, .unregistered) ∈ w.log ↔ stage id = .gone := by
  have hlife : .unregistered ∈ (stage id).lives (w.conn id).loop ↔ stage id = .gone := Stage.unregistered_mem_lives
  rw [← hlife, ← (h.fits id).life, World.life, List.mem_filterMap]
  constructor
  · exact fun hmem => ⟨_, hmem, if_pos rfl⟩
  · rintro ⟨⟨id', life⟩, hmem, heq⟩
    split_ifs at heq with hid
    cases heq
    exact hid ▸ hmem

end TcpServer

namespace ServerLifetime

open Run TcpServer EpollPoller

variable {w w' : World} {stage stage' : Nat → Stage}

/-- Nothing brings a connection that is gone back to a loop. -/
theorem Inv.joins (h : Inv w stage) {e : TcpServer.Event} (hen : TcpServer.Enabled w.server e) {l id : Nat}
    (hjoins : Joins w.server l id e) : stage id ≠ .gone := by
  intro hgone
  have hfits := h.server.fits id
  rw [hgone] at hfits
  have hclosed : ¬ (w.server.conn id).tcp.Open := by
    rw [TcpConnection.Open, hfits.allows.1]
    simp
  cases e with
  | poll l' active =>
      obtain ⟨a, ha, hid⟩ := List.mem_filterMap.mp hjoins
      cases a with
      | channel id' revents =>
          cases hid
          obtain ⟨mask, hset, _⟩ := hen.2.2 _ ha
          exact (h.unregistered hgone l').2 _ _ hset rfl
      | acceptor => cases hid
      | timerfd => cases hid
      | other => cases hid
  | acceptor sockfd =>
      have habsent := h.server.fresh id (le_of_eq (show id = w.server.nextConnId from hjoins).symm)
      rw [hgone] at habsent
      cases habsent
  | timerCallback l' i => exact hclosed hjoins.2
  | callFunctor l' mem wr =>
      obtain ⟨f, hnext, hf⟩ := hjoins
      obtain ⟨functors, hphase⟩ := Phase.nextFunctor_eq_some.mp hnext
      -- a connection that is gone has no token on any loop
      have hnone : ∀ t, (Functor.conn id f).token id ≠ some t := by
        intro t ht
        have htokens := hfits.tokens l
        have hmem : t ∈ (w.server.loops l).tokens id := by
          refine List.mem_append_left _ (List.mem_filterMap.mpr ⟨_, ?_, ht⟩)
          rw [EventLoop.queued_calling hphase]
          exact List.mem_cons_self
        rw [htokens] at hmem
        cases hmem
      rcases hf with rfl | rfl | ⟨_, hopen⟩
      · exact hnone .establish (if_pos rfl)
      · exact hnone .destroy (if_pos rfl)
      · exact hclosed hopen
  | _ => exact hjoins

theorem mentions_of_batch {s : LoopState} {id : Nat} (h : id ∈ s.batch) : id ∈ s.mentions := by
  simp only [LoopState.batch, LoopState.mentions, List.mem_append] at h ⊢
  tauto

theorem batch_congr {s s' : LoopState} (h : s'.work = s.work) : s'.batch = s.batch := by
  obtain ⟨hphase, hcallbacks, hrest⟩ := work_eq_iff.mp h
  unfold LoopState.batch
  rw [hphase, hcallbacks, hrest]

/-- What is in the batch of a loop was there before the step, or the step brought it. -/
theorem mem_batch_of_step {s s' : TcpServer.World} {e : TcpServer.Event} (hen : TcpServer.Enabled s e)
    (hok : TcpServer.step s e = .ok s') {l id : Nat} (hid : id ∈ (s'.loops l).batch) :
    id ∈ (s.loops l).batch ∨ Joins s l id e := by
  cases shift_of_step hen hok l with
  | same hwork => exact Or.inl (batch_congr hwork ▸ hid)
  | pop p _ hwork =>
      refine Or.inl ?_
      obtain ⟨hphase, hcallbacks, hrest⟩ := work_eq_iff.mp hwork
      rw [mem_batch] at hid ⊢
      rw [hphase, hcallbacks, hrest]
      rcases hid with hid | hid | ⟨r, hid⟩
      · exact Or.inl hid
      · exact Or.inr (Or.inl hid)
      · exact Or.inr (Or.inr ⟨r, List.mem_cons_of_mem _ hid⟩)
  | turn _ _ hbatch => exact hbatch id hid

theorem destroyed_work {s s' : TcpServer.World} {l id : Nat} {mem : Memory} {wr : WriteResult}
    (hrest : (s.loops l).rest = []) (hnext : (s.loops l).loop.phase.nextFunctor = some (.conn id .connectDestoryed))
    (hok : TcpServer.step s (.callFunctor l mem wr) = .ok s') :
    (∃ functors, (s'.loops l).loop.phase = .calling functors) ∧
      ∃ before, (s'.loops l).rest = before ++ [(id, .remove)] ∧ ∀ p ∈ before, p.2 ≠ .remove := by
  obtain ⟨functors, hphase⟩ := Phase.nextFunctor_eq_some.mp hnext
  simp only [TcpServer.step, hphase] at hok
  obtain ⟨o, ho, hok⟩ := bind_eq_ok.mp hok
  have hwork := (finish_work hok).1 l
  have hself : ((s.onLoop l fun t => { t with loop := t.loop.callRest functors }).record id
      (World.ranLife l .connectDestoryed)).loops l = { s.loops l with loop := (s.loops l).loop.callRest functors } :=
    onLoop_loops_self s l fun t => { t with loop := t.loop.callRest functors }
  rw [if_pos rfl, hself, hrest, List.append_nil] at hwork
  obtain ⟨hphase', _, hrest'⟩ := work_eq_iff.mp hwork
  refine ⟨⟨functors, hphase'⟩, ?_⟩
  rw [hrest']
  obtain ⟨_, _, ho⟩ := bind_eq_ok.mp ho
  split at ho
  · cases ho
    exact ⟨[(id, .connectionDown)], rfl, by simp⟩
  · cases ho
    exact ⟨[], rfl, by simp⟩

theorem attends_step {s' : TcpServer.World} (hatt : Attends w.server) (h : Inv w stage) {e : TcpServer.Event}
    (hen : TcpServer.Enabled w.server e) (hok : TcpServer.step w.server e = .ok s') : Attends s' where
  batch := by
    intro l id hid hlog
    have hbefore := mem_batch_of_step hen hok hid
    rcases log_of_step hok hlog with hold | ⟨l₀, rest, rfl, hrest⟩
    · rcases hbefore with hmem | hjoins
      · exact hatt.batch l id hmem hold
      · exact h.joins hen hjoins ((h.server.gone_iff id).mp hold)
    · -- the `remove` is the last thing to do for the loop of the connection, which has no batch any more
      have hmem := hbefore.resolve_right fun h => h
      have hat : ∀ l, id ∈ (w.server.loops l).batch → (w.server.conn id).loop = l :=
        fun l hmem => (h.server.located l id (mentions_of_batch hmem)).2
      have hl : l = l₀ := by
        refine (hat l hmem).symm.trans (hat l₀ (mem_batch.mpr (Or.inr (Or.inr ⟨.remove, ?_⟩))))
        rw [hrest]
        exact List.mem_cons_self
      subst hl
      obtain ⟨⟨functors, hphase⟩, before, heq, hremove⟩ := hatt.removes l id (by rw [hrest]; exact List.mem_cons_self)
      have hnil : rest = [] := by
        cases before with
        | nil => exact (List.cons.inj (hrest.symm.trans heq)).2
        | cons p before =>
            have hp := (List.cons.inj (hrest.symm.trans heq)).1
            exact absurd (congrArg Prod.snd hp.symm) (hremove p List.mem_cons_self)
      have hcallbacks := (hatt.dispatches l).resolve_right (by rw [hphase]; simp)
      have hwork := userCode_work hrest hok l
      rw [if_pos rfl, hphase, hcallbacks, hnil] at hwork
      obtain ⟨hphase', hcallbacks', hrest'⟩ := work_eq_iff.mp hwork
      rw [mem_batch, hphase', hcallbacks', hrest'] at hid
      simp [activeConns] at hid
  dispatches := by
    intro l
    have hdispatches := hatt.dispatches l
    cases shift_of_step hen hok l with
    | same hwork =>
        obtain ⟨hphase, hcallbacks, _⟩ := work_eq_iff.mp hwork
        unfold Dispatches at hdispatches ⊢
        rwa [hphase, hcallbacks]
    | pop p _ hwork =>
        obtain ⟨hphase, hcallbacks, _⟩ := work_eq_iff.mp hwork
        unfold Dispatches at hdispatches ⊢
        rwa [hphase, hcallbacks] at hdispatches
    | turn _ hturn _ => exact hturn hdispatches
  removes := by
    intro l id hid
    have hnew : (id, .remove) ∈ (w.server.loops l).rest ∨ Destroys w.server e l id :=
      (step_frame h.bounded hok).2 l id hid
    cases shift_of_step hen hok l with
    | same hwork =>
        obtain ⟨hphase, _, hrest⟩ := work_eq_iff.mp hwork
        rw [hrest] at hid ⊢
        rw [hphase]
        exact hatt.removes l id hid
    | pop p he hwork =>
        obtain ⟨hsame, _, hrest⟩ := work_eq_iff.mp hwork
        obtain ⟨hphase, before, heq, hremove⟩ := hatt.removes l id (by rw [hrest]; exact List.mem_cons_of_mem _ hid)
        rw [hsame] at hphase
        refine ⟨hphase, ?_⟩
        rw [hrest] at heq
        cases before with
        | nil =>
            rw [(List.cons.inj heq).2] at hid
            cases hid
        | cons q before =>
            exact ⟨before, (List.cons.inj heq).2, fun p hp => hremove p (List.mem_cons_of_mem _ hp)⟩
    | turn hidle _ _ =>
        rcases hnew with hold | ⟨mem, wr, rfl, hnext⟩
        · obtain ⟨⟨functors, hphase⟩, _⟩ := hatt.removes l id hold
          rcases hidle with hnil | hno
          · rw [hnil] at hold
            cases hold
          · exact absurd hphase (hno functors)
        · exact destroyed_work hen.1 hnext hok

theorem attends_init (ioLoops highWaterMark : Nat) (writeComplete highWater : Bool) :
    Attends (TcpServer.init ioLoops highWaterMark writeComplete highWater) where
  batch _ _ _ := nofun
  dispatches _ := Or.inl rfl
  removes _ _ := nofun

/-! ### References -/

/-- A connection that is not gone has a reference: its entry in `connections_`, or the functor that destroys it. -/
theorem Inv.refs_pos (h : Inv w stage) {id : Nat} (hlive : (stage id).Live) : 0 < w.refs id := by
  have hfits := h.server.fits id
  have htokens := hfits.tokens (w.server.conn id).loop
  have hlisted : (stage id).listed = true → 0 < w.refs id := by
    intro hl
    have hentry := hfits.connections
    rw [if_pos hl, ← hfits.name hlive.1] at hentry
    unfold World.refs
    rw [if_pos hentry]
    omega
  have hfunctor : ∀ f ∈ (w.server.loops (w.server.conn id).loop).loop.queued ++ w.called (w.server.conn id).loop,
      f = .conn id .connectDestoryed → 0 < w.refs id := by
    rintro f hf rfl
    exact Nat.lt_of_lt_of_le (onLoop_pos hf (by simp [holds, ConnFunctor.isShared])) (onLoop_le_refs h.bounded rfl)
  cases hst : stage id with
  | absent => exact absurd hst hlive.1
  | gone => exact absurd hst hlive.2
  | destroying =>
      rw [hst, Stage.tokens, if_pos rfl] at htokens
      have hmem := mem_of_destroy (htokens ▸ List.mem_singleton.mpr rfl)
      exact hfunctor _ (List.mem_append_left _ hmem) rfl
  | unregistering =>
      rw [hst, Stage.tokens, if_pos rfl] at htokens
      have hmem := h.removes _ id (mem_of_unregister (htokens ▸ List.mem_singleton.mpr rfl))
      exact hfunctor _ (List.mem_append_right _ hmem) rfl
  | _ => exact hlisted (by rw [hst]; rfl)

theorem Inv.refs_of_onLoop (h : Inv w stage) {l id : Nat} (hid : id ∈ (w.server.loops l).mentions)
    (hpos : 0 < w.onLoop id l) : 0 < w.refs id :=
  Nat.lt_of_lt_of_le hpos (onLoop_le_refs h.bounded (h.server.located l id hid).2.symm)

/-- The connections that a step uses. -/
def uses (w : World) : Event → List Nat
  | .server (.poll _ active) => active.filterMap Active.channel?
  | .server (.handleEvent l) => ((w.server.loops l).loop.phase.nextChannel.bind Active.channel?).toList
  | .server (.handleCallback l _ _) => (w.server.loops l).callbacks.head?.toList.map Prod.fst
  | .server (.timerCallback l i) => (w.server.loops l).timers[i]?.toList
  | .server (.callFunctor l _ _) =>
      match (w.server.loops l).loop.phase.nextFunctor with
      | some (.conn id _) | some (.removeConnectionInLoop id) => [id]
      | none => []
  | .server (.userCode l) => (w.server.loops l).rest.head?.toList.map Prod.fst
  | .server (.call _ id _ _ _) | .server (.retrieve id _) | .copy id => [id]
  | .server (.enterLoop _) | .server (.acceptor _) | .server (.swapFunctors _) | .server (.endFunctors _)
  | .server (.push _) | .drop _ | .destroy => []

/-- The step calls a functor that is bound to the `this` of the connection. -/
def CallsThis (w : World) (id : Nat) : Event → Prop
  | .server (.callFunctor l _ _) =>
      ∃ f, (w.server.loops l).loop.phase.nextFunctor = some (.conn id f) ∧ f.isShared = false
  | _ => False

/-- Whatever the step uses is referenced, or it calls a functor that is bound to `this`. -/
def UsesReferenced (w : World) (e : Event) : Prop := ∀ id ∈ uses w e, 0 < w.refs id ∨ CallsThis w id e

theorem Inv.refs_of_batch (h : Inv w stage) (hatt : Attends w.server) {l id : Nat}
    (hid : id ∈ (w.server.loops l).batch) : 0 < w.refs id := by
  refine h.refs_pos ⟨(h.server.located l id (mentions_of_batch hid)).1, fun hgone => ?_⟩
  exact hatt.batch l id hid ((h.server.gone_iff id).mpr hgone)

theorem Inv.usesReferenced (h : Inv w stage) (hatt : Attends w.server) {e : Event} (hen : Enabled w e) :
    UsesReferenced w e := by
  intro id hid
  cases e with
  | copy id' =>
      cases List.mem_singleton.mp hid
      exact Or.inl hen.2
  | drop id' => cases hid
  | destroy => cases hid
  | server e =>
      cases e with
      | poll l active =>
          refine Or.inl (h.refs_pos ⟨?_, h.joins (l := l) hen.1 hid⟩)
          obtain ⟨a, ha, hid⟩ := List.mem_filterMap.mp hid
          cases a <;> cases hid
          exact (h.server.reported (hen.1.2.2 _ ha)).1
      | handleEvent l =>
          obtain ⟨a, hnext, hchannel⟩ := Option.bind_eq_some_iff.mp (Option.mem_toList.mp hid)
          obtain ⟨active, hphase⟩ := Phase.nextChannel_eq_some.mp hnext
          refine Or.inl (h.refs_of_batch hatt (l := l) (mem_batch.mpr (Or.inl ?_)))
          rw [hphase]
          exact List.mem_filterMap.mpr ⟨a, List.mem_cons_self, hchannel⟩
      | handleCallback l r wr =>
          obtain ⟨p, hp, rfl⟩ := List.mem_map.mp hid
          refine Or.inl (h.refs_of_batch hatt (l := l) (callbacks_batch ?_))
          exact List.mem_of_mem_head? (Option.mem_toList.mp hp)
      | timerCallback l i =>
          have hmem : id ∈ (w.server.loops l).timers := List.mem_of_getElem? (Option.mem_toList.mp hid)
          refine Or.inl (h.refs_of_onLoop (l := l) ?_ ?_)
          · exact List.mem_append_left _ (List.mem_append_right _ hmem)
          · have hpos : 0 < ((w.server.loops l).timers ++ w.expired l).count id :=
              List.count_pos_iff.mpr (List.mem_append_left _ hmem)
            unfold World.onLoop
            omega
      | callFunctor l mem wr =>
          obtain ⟨f, hnext⟩ := Option.ne_none_iff_exists'.mp hen.1.2
          obtain ⟨functors, hphase⟩ := Phase.nextFunctor_eq_some.mp hnext
          have hqueued : f ∈ (w.server.loops l).loop.queued := by
            rw [EventLoop.queued_calling hphase]
            exact List.mem_cons_self
          simp only [uses, hnext] at hid
          cases f with
          | conn id' g =>
              cases List.mem_singleton.mp hid
              cases hshared : g.isShared with
              | false => exact Or.inr ⟨g, hnext, hshared⟩
              | true =>
                  have hmention : id ∈ (w.server.loops l).mentions := by
                    simp only [LoopState.mentions, List.append_assoc]
                    exact List.mem_append_left _ (List.mem_filterMap.mpr ⟨_, hqueued, rfl⟩)
                  refine Or.inl (h.refs_of_onLoop hmention (onLoop_pos (List.mem_append_left _ hqueued) ?_))
                  simp [holds, hshared]
          | removeConnectionInLoop id' =>
              cases List.mem_singleton.mp hid
              have htoken : .removal ∈ (w.server.loops l).tokens id :=
                List.mem_append_left _ (List.mem_filterMap.mpr ⟨_, hqueued, if_pos rfl⟩)
              refine Or.inl (h.refs_pos ⟨fun hst => ?_, fun hst => ?_⟩)
              · rw [(h.server.fits id).tokens l, hst] at htoken
                cases htoken
              · rw [(h.server.fits id).tokens l, hst] at htoken
                cases htoken
      | userCode l =>
          obtain ⟨p, hp, rfl⟩ := List.mem_map.mp hid
          refine Or.inl (h.refs_of_batch hatt (l := l) (mem_batch.mpr (Or.inr (Or.inr ⟨p.2, ?_⟩))))
          exact List.mem_of_mem_head? (Option.mem_toList.mp hp)
      | call thread id' c mem wr =>
          cases List.mem_singleton.mp hid
          exact Or.inl hen.2
      | retrieve id' len =>
          cases List.mem_singleton.mp hid
          exact Or.inl hen.2
      | _ => cases hid

/-- **Only a functor bound to `this` uses a freed connection.** For every server and every run of its loops over all
batches of ready channels, answers of the sockets, functors, timers, user code, calls from other threads, copies and
drops of references and the destruction of the server with an empty `connections_`: each connection that a step uses has
a reference, or the step calls a functor that holds the connection's `this`. -/
theorem usesReferenced_of_along (ioLoops highWaterMark : Nat) (writeComplete highWater : Bool) (es : List Event)
    (hes : Along step Enabled (init ioLoops highWaterMark writeComplete highWater) es)
    (hclear : Along step ClosesOnDestroy (init ioLoops highWaterMark writeComplete highWater) es) :
    Holds step anyError (fun w e _ => UsesReferenced w e) (init ioLoops highWaterMark writeComplete highWater) es := by
  refine holds_of_along (I := fun w => (∃ stage, Inv w stage) ∧ Attends w.server) (fun w e h hboth => ?_)
    ⟨⟨_, .init ioLoops highWaterMark writeComplete highWater⟩,
      attends_init ioLoops highWaterMark writeComplete highWater⟩
    (along_and.mpr ⟨hes, hclear⟩)
  obtain ⟨⟨stage, h⟩, hatt⟩ := h
  refine ⟨fun _ _ => trivial, fun w' hok => ⟨h.usesReferenced hatt hboth.1, h.step hboth.1 hboth.2 hok, ?_⟩⟩
  cases e with
  | server e =>
      obtain ⟨_, _, hok⟩ := bind_eq_ok.mp hok
      obtain ⟨s, hstep, hok⟩ := bind_eq_ok.mp hok
      cases hok
      exact attends_step hatt h hboth.1.1 hstep
  | copy id =>
      cases hok
      exact hatt
  | drop id =>
      cases hok
      exact hatt
  | destroy =>
      cases hok
      exact ⟨hatt.batch, hatt.dispatches, hatt.removes⟩

/-- Another thread calls `send` with a copy of the connection, and another one `forceClose`. The functor of `send` is
queued when the connection was closed and destroyed; then the thread drops its copy, and the loop calls the functor. -/
def sendAndDrop : List Event :=
  [.server (.enterLoop 0), .server (.poll 0 [.acceptor]), .server (.acceptor (some 7)), .copy 1, .server (.userCode 0),
    .server (.call none 1 (.send 0 1) (fun _ => 7) (.ok 1)), .server (.call none 1 .forceClose (fun _ => 0) (.ok 0)),
    .server (.push 1), .server (.swapFunctors 0), .server (.callFunctor 0 (fun _ => 0) (.ok 0)),
    .server (.userCode 0), .server (.userCode 0), .server (.endFunctors 0), .server (.poll 0 [.other]),
    .server (.handleEvent 0), .server (.swapFunctors 0), .server (.callFunctor 0 (fun _ => 0) (.ok 0)),
    .server (.userCode 0), .server (.endFunctors 0), .server (.push 0), .drop 1, .server (.poll 0 [.other]),
    .server (.handleEvent 0), .server (.swapFunctors 0), .server (.callFunctor 0 (fun _ => 7) (.ok 1))]

theorem usesReferenced_of_along_run :
    Holds step anyError (fun w e _ => UsesReferenced w e) (init 0 64 true true) sendAndDrop :=
  usesReferenced_of_along 0 64 true true sendAndDrop (by decide +kernel) (by decide +kernel)

/-- The functor of `send` does use the freed connection. -/
theorem uses_freed : Along step Enabled (init 0 64 true true) sendAndDrop ∧
    ¬ Holds step anyError (fun w e _ => ∀ id ∈ uses w e, 0 < w.refs id) (init 0 64 true true) sendAndDrop := by
  decide +kernel

end ServerLifetime

end OulaServer
