import OulaServer.TcpConnection.Spec
import OulaServer.TcpServer.Basic

/-!
# Stages of a server's connections

A connection goes through its stages in one order. What moves it to the next stage is a `Token`: a functor
in the queue of one loop, or the rest of a function on one loop's thread. `Fits w id st` says that the
connection `id` is at stage `st`: what happened to it so far, the one place where its token is, its entry in
`connections_`, its state and what its poller holds about it. `Base` is the rest of the invariant: names,
descriptors, and that everything about a connection but its removal is on its own loop.

A step touches one connection. `Base.acted` and `Fits.acted_of_ne` carry the invariant of all others over a
function of the connection, and `finish_ok` says what such a function leaves in the loop and the poller.
-/

namespace OulaServer

namespace TcpServer

open TcpConnection EpollPoller World

/-! ### Stages and tokens -/

inductive Stage where
  | absent
  | created
  | up
  | closing
  | removing
  | destroying
  | unregistering
  | gone
  deriving DecidableEq, Repr

/-- What moves a connection to its next stage. -/
inductive Token where
  | establish
  | close
  | removal
  | destroy
  | unregister
  deriving DecidableEq, Repr

def Functor.token (id : Nat) : Functor → Option Token
  | .conn id' .connectEstablished => if id' = id then some .establish else none
  | .conn id' .connectDestoryed => if id' = id then some .destroy else none
  | .conn _ _ => none
  | .removeConnectionInLoop id' => if id' = id then some .removal else none

def restToken (id : Nat) : Nat × Rest → Option Token
  | (id', .closeCallback) => if id' = id then some .close else none
  | (id', .remove) => if id' = id then some .unregister else none
  | _ => none

/-- The tokens of a connection on a loop. -/
def LoopState.tokens (s : LoopState) (id : Nat) : List Token :=
  s.loop.queued.filterMap (Functor.token id) ++ s.rest.filterMap (restToken id)

namespace Stage

/-- The tokens that a connection of the loop `own` has on the loop `l`. -/
def tokens (own l : Nat) : Stage → List Token
  | absent | up | gone => []
  | created => if l = own then [.establish] else []
  | closing => if l = own then [.close] else []
  | removing => if l = 0 then [.removal] else []
  | destroying => if l = own then [.destroy] else []
  | unregistering => if l = own then [.unregister] else []

/-- What happened to a connection of the loop `own`. -/
def lives (own : Nat) : Stage → List Life
  | absent => []
  | created => [.accepted]
  | up => [.accepted, .established own]
  | closing | removing => [.accepted, .established own, .closed]
  | destroying => [.accepted, .established own, .closed, .removed]
  | unregistering => [.accepted, .established own, .closed, .removed, .destroyed own]
  | gone => [.accepted, .established own, .closed, .removed, .destroyed own, .unregistered]

/-- The connection is in `connections_`. -/
def listed : Stage → Bool
  | created | up | closing | removing => true
  | absent | destroying | unregistering | gone => false

/-- The connection's descriptor is in use. -/
def Live (st : Stage) : Prop := st ≠ absent ∧ st ≠ gone

instance (st : Stage) : Decidable st.Live := inferInstanceAs (Decidable (_ ∧ _))

theorem unregistered_mem_lives {st : Stage} {own : Nat} : .unregistered ∈ st.lives own ↔ st = gone := by
  cases st <;> simp [lives]

/-- The connection is closed, and its channel is still known to the poller. -/
def Closed (c : TcpConnection) : Prop :=
  c.state = .kDisconnected ∧ c.channel.events = kNoneEvent ∧ c.channel.inPollerStatus ≠ .kInit

def Allows (c : TcpConnection) : Stage → Prop
  | absent => True
  | created => c.state = .kConnecting ∧ (c.channel.events = kNoneEvent ∨ c.channel.events = kWriteEvent)
  | up => c.Open ∧ (c.channel.events = kReadEvent ∨ c.channel.events = kReadEvent ||| kWriteEvent) ∧
      c.channel.inPollerStatus ≠ .kInit
  | closing | removing | destroying | unregistering => Closed c
  | gone => c.state = .kDisconnected ∧ c.channel.events = kNoneEvent

end Stage

/-! ### The invariant -/

/-- The connection `id` looks as at the stage `st`: its entry in `connections_`, its fields and its poller. -/
structure Stands (w : World) (id : Nat) (st : Stage) : Prop where
  connections : w.connections (toString id) = if st.listed then some id else none
  name : st ≠ .absent → (w.conn id).name = toString id
  allows : st.Allows (w.conn id).tcp
  validIn : (w.conn id).tcp.inputBuffer.Valid
  validOut : (w.conn id).tcp.outputBuffer.Valid
  registered : st.Live → (w.loops (w.conn id).loop).poller.Registered id (w.conn id).tcp.channel

/-- The connection `id` is at the stage `st`. -/
structure Fits (w : World) (id : Nat) (st : Stage) : Prop extends Stands w id st where
  life : w.life id = st.lives (w.conn id).loop
  tokens : ∀ l, (w.loops l).tokens id = st.tokens (w.conn id).loop l

def Functor.conn? : Functor → Option Nat
  | .conn id _ => some id
  | .removeConnectionInLoop _ => none

def activeConns : Phase Active Functor → List Nat
  | .dispatching active => active.filterMap Active.channel?
  | _ => []

/-- The connections that a loop has to do with, other than to remove them. -/
def LoopState.mentions (s : LoopState) : List Nat :=
  s.loop.queued.filterMap Functor.conn? ++ s.callbacks.map Prod.fst ++ s.rest.map Prod.fst ++ s.timers ++
    activeConns s.loop.phase

/-- The connection `id` was accepted and is on the loop `l`. -/
def At (w : World) (stage : Nat → Stage) (l id : Nat) : Prop := stage id ≠ .absent ∧ (w.conn id).loop = l

/-- The descriptor of a connection. -/
def World.fd (w : World) (id : Nat) : Int := (w.conn id).tcp.channel.fd

structure Base (w : World) (stage : Nat → Stage) : Prop where
  fresh : ∀ id, w.nextConnId ≤ id → stage id = .absent
  names : ∀ name id, w.connections name = some id → name = toString id
  distinct : ∀ id id', (stage id).Live → (stage id').Live → w.fd id = w.fd id' → id = id'
  -- a poller holds the descriptors of its own connections only
  others : ∀ l fd, (∀ id, (stage id).Live → (w.conn id).loop = l → w.fd id ≠ fd) →
    (w.loops l).poller.channels fd = none ∧ (w.loops l).poller.epollSet fd = none
  located : ∀ l, ∀ id ∈ (w.loops l).mentions, At w stage l id
  inflight : ∀ l f, (l, f) ∈ w.inflight → (∀ id, f.token id = none) ∧ ∃ id g, f = .conn id g ∧ At w stage l id

structure Inv (w : World) (stage : Nat → Stage) : Prop extends Base w stage where
  fits : ∀ id, Fits w id (stage id)

/-- The invariant in the middle of a step, when what happened to the connection `id` or its token is open. -/
structure Around (w : World) (stage : Nat → Stage) (id : Nat) : Prop extends Base w stage where
  fits : ∀ id', id' ≠ id → Fits w id' (stage id')
  stands : Stands w id (stage id)

theorem Inv.around {w : World} {stage : Nat → Stage} (h : Inv w stage) (id : Nat) : Around w stage id :=
  ⟨h.toBase, fun id' _ => h.fits id', (h.fits id).toStands⟩

/-! ### Tokens -/

theorem Stage.tokens_cases {st : Stage} {own l : Nat} {t : Token} {before after : List Token}
    (h : before ++ t :: after = st.tokens own l) :
    before = [] ∧ after = [] ∧ match t with
      | .establish => st = created ∧ l = own
      | .close => st = closing ∧ l = own
      | .removal => st = removing ∧ l = 0
      | .destroy => st = destroying ∧ l = own
      | .unregister => st = unregistering ∧ l = own := by
  have hone : ∀ {p : Prop} [Decidable p] {t' : Token}, before ++ t :: after = (if p then [t'] else []) →
      before = [] ∧ after = [] ∧ t = t' ∧ p := by
    intro p _ t' h
    split_ifs at h with hp
    · obtain ⟨hb, hc⟩ | ⟨_, hc⟩ := List.append_eq_singleton_iff.mp h
      · cases hc
        exact ⟨hb, rfl, rfl, hp⟩
      · cases hc
    · simp at h
  cases st <;> simp only [tokens] at h
  · simp at h
  · obtain ⟨hb, ha, rfl, hp⟩ := hone h
    exact ⟨hb, ha, rfl, hp⟩
  · simp at h
  · obtain ⟨hb, ha, rfl, hp⟩ := hone h
    exact ⟨hb, ha, rfl, hp⟩
  · obtain ⟨hb, ha, rfl, hp⟩ := hone h
    exact ⟨hb, ha, rfl, hp⟩
  · obtain ⟨hb, ha, rfl, hp⟩ := hone h
    exact ⟨hb, ha, rfl, hp⟩
  · obtain ⟨hb, ha, rfl, hp⟩ := hone h
    exact ⟨hb, ha, rfl, hp⟩
  · simp at h

theorem Stage.tokens_elsewhere {st : Stage} {own l l' : Nat} (h : st.tokens own l ≠ []) (hne : l' ≠ l) :
    st.tokens own l' = [] := by
  have hone : ∀ {p p' : Prop} [Decidable p] [Decidable p'] {t : Token}, (p → p' → l' = l) →
      (if p then [t] else []) ≠ [] → (if p' then [t] else []) = [] := by
    intro p p' _ _ t himp h
    split_ifs at h with hp
    · exact if_neg fun hp' => hne (himp hp hp')
    · exact absurd rfl h
  cases st <;> simp only [tokens] at h ⊢
  · exact hone (fun ha hb => hb.trans ha.symm) h
  · exact hone (fun ha hb => hb.trans ha.symm) h
  · exact hone (fun ha hb => hb.trans ha.symm) h
  · exact hone (fun ha hb => hb.trans ha.symm) h
  · exact hone (fun ha hb => hb.trans ha.symm) h

theorem mentions_mono {s s' : LoopState} (hqueued : ∀ f ∈ s'.loop.queued, f ∈ s.loop.queued)
    (hcallbacks : ∀ p ∈ s'.callbacks, p ∈ s.callbacks) (hrest : ∀ p ∈ s'.rest, p ∈ s.rest)
    (htimers : ∀ i ∈ s'.timers, i ∈ s.timers)
    (hactive : ∀ i ∈ activeConns s'.loop.phase, i ∈ activeConns s.loop.phase) :
    ∀ i ∈ s'.mentions, i ∈ s.mentions := by
  intro i hi
  simp only [LoopState.mentions, List.mem_append, List.mem_filterMap, List.mem_map] at hi ⊢
  rcases hi with (((⟨f, hf, hi⟩ | ⟨p, hp, hi⟩) | ⟨p, hp, hi⟩) | hi) | hi
  · exact Or.inl (Or.inl (Or.inl (Or.inl ⟨f, hqueued f hf, hi⟩)))
  · exact Or.inl (Or.inl (Or.inl (Or.inr ⟨p, hcallbacks p hp, hi⟩)))
  · exact Or.inl (Or.inl (Or.inr ⟨p, hrest p hp, hi⟩))
  · exact Or.inl (Or.inr (htimers i hi))
  · exact Or.inr (hactive i hi)

/-! ### What a function of a connection leaves -/

namespace World

theorem life_append (w : World) (log : List (Nat × Life)) (id : Nat) :
    World.life { w with log := w.log ++ log } id =
      w.life id ++ log.filterMap fun e => if e.1 = id then some e.2 else none :=
  List.filterMap_append

@[simp] theorem life_record (w : World) (id id' : Nat) (lives : List Life) :
    (w.record id lives).life id' = w.life id' ++ if id' = id then lives else [] := by
  refine (life_append w _ id').trans (congrArg _ ?_)
  rw [List.filterMap_map]
  by_cases h : id' = id
  · subst h
    simp
  · simp [h, Ne.symm h]

/-- The world after a function of the connection `id` on its loop, which it leaves as `s`. -/
def acted (w : World) (id : Nat) (s : LoopState) (tcp : TcpConnection) (lives : List Life) : World :=
  ((w.onLoop (w.conn id).loop fun _ => s).setTcp id tcp).record id lives

variable {w : World} {id : Nat} {s : LoopState} {tcp : TcpConnection} {lives : List Life}

@[simp] theorem acted_conn_self : (w.acted id s tcp lives).conn id = { w.conn id with tcp } :=
  Function.update_self _ _ _

theorem acted_conn_of_ne {id' : Nat} (h : id' ≠ id) : (w.acted id s tcp lives).conn id' = w.conn id' :=
  Function.update_of_ne h _ _

@[simp] theorem acted_loop (id' : Nat) : ((w.acted id s tcp lives).conn id').loop = (w.conn id').loop := by
  by_cases h : id' = id
  · subst h
    rw [acted_conn_self]
  · rw [acted_conn_of_ne h]

theorem acted_loops (l : Nat) :
    (w.acted id s tcp lives).loops l = if l = (w.conn id).loop then s else w.loops l :=
  Function.update_apply _ _ _ _

@[simp] theorem acted_loops_self : (w.acted id s tcp lives).loops (w.conn id).loop = s :=
  Function.update_self _ _ _

@[simp] theorem acted_life (id' : Nat) :
    (w.acted id s tcp lives).life id' = w.life id' ++ if id' = id then lives else [] :=
  life_record _ id id' lives

end World

/-- The outcome leaves the interest. -/
def Keeps (c : TcpConnection) (o : Outcome) : Prop := o.conn.channel = c.channel ∧ .update ∉ o.effects

/-- The outcome changes the interest once, and not from none to none. -/
def Redeclares (c : TcpConnection) (o : Outcome) : Prop :=
  ∃ e before after, (e ≠ kNoneEvent ∨ c.channel.events ≠ kNoneEvent) ∧
    o.conn.channel = { c.channel with events := e } ∧ o.effects = before ++ .update :: after ∧
    .update ∉ before ∧ .update ∉ after

/-- A function of the connection `id` found its loop as `s` and left it as `s'`, and the channel as
`channel`. -/
structure Ran (s s' : LoopState) (id : Nat) (c : TcpConnection) (o : Outcome) (channel : Channel) : Prop where
  phase : s'.loop.phase = s.loop.phase
  queued : s'.loop.queued = s.loop.queued ++ (functors o.effects).map (.conn id)
  callbacks : s'.callbacks = s.callbacks
  rest : s'.rest = o.rest.map (id, ·) ++ s.rest
  timers : ∀ i ∈ s'.timers, i ∈ s.timers ∨ i = id
  fd : channel.fd = c.channel.fd
  events : channel.events = o.conn.channel.events
  poller : .update ∉ o.effects ∧ s'.poller = s.poller ∧ channel = c.channel ∨
    .update ∈ o.effects ∧ s'.poller.Registered id channel ∧ channel.inPollerStatus ≠ .kInit ∧
      SameBut c.channel.fd s.poller s'.poller

/-- An effect other than an update acts on the loop only. -/
def LoopState.perform (id : Nat) (s : LoopState) : Effect → LoopState
  | .queueInLoop f => { s with loop := s.loop.queueInLoop true (.conn id f) }
  | .addTimer => { s with timers := s.timers ++ [id] }
  | .update | .write _ | .shutdownWrite => s

theorem onLoop_self (w : World) (l : Nat) : (w.onLoop l fun s => s) = w := by
  simp only [onLoop, Function.update_eq_self]

theorem onLoop_onLoop (w : World) (l : Nat) (f g : LoopState → LoopState) :
    (w.onLoop l f).onLoop l g = w.onLoop l fun s => g (f s) := by
  simp only [onLoop, Function.update_self, Function.update_idem]

theorem foldlM_perform {l id : Nat} {effects : List Effect} (hupd : .update ∉ effects) {w : World}
    (hl : (w.conn id).loop = l) :
    effects.foldlM (World.perform l id) w = .ok (w.onLoop l fun s => effects.foldl (LoopState.perform id) s) := by
  induction effects generalizing w with
  | nil => exact congrArg _ (onLoop_self w l).symm
  | cons e effects ih =>
      have hone : World.perform l id w e = .ok (w.onLoop l fun s => s.perform id e) := by
        cases e with
        | update => exact absurd List.mem_cons_self hupd
        | write _ => exact congrArg _ (onLoop_self w l).symm
        | shutdownWrite => exact congrArg _ (onLoop_self w l).symm
        | queueInLoop f => simp only [World.perform, queueInLoop, hl, LoopState.perform, decide_true]
        | addTimer => simp only [World.perform, hl, LoopState.perform]
      rw [List.foldlM_cons, hone, ok_bind,
        ih (w := w.onLoop l _) (fun hmem => hupd (List.mem_cons_of_mem _ hmem)) hl, onLoop_onLoop]
      rfl

theorem foldl_perform (id : Nat) (effects : List Effect) (s : LoopState) :
    let s' := effects.foldl (LoopState.perform id) s
    s'.loop.phase = s.loop.phase ∧
      s'.loop.queued = s.loop.queued ++ (functors effects).map (.conn id) ∧ s'.callbacks = s.callbacks ∧
      s'.rest = s.rest ∧ s'.poller = s.poller ∧ ∀ i ∈ s'.timers, i ∈ s.timers ∨ i = id := by
  induction effects generalizing s with
  | nil => exact ⟨rfl, by simp, rfl, rfl, rfl, fun _ => Or.inl⟩
  | cons e effects ih =>
      obtain ⟨hphase, hqueued, hcallbacks, hrest, hpoller, htimers⟩ := ih (s.perform id e)
      simp only [List.foldl_cons]
      rw [hphase, hqueued, hcallbacks, hrest, hpoller]
      refine ⟨?_, ?_, ?_, ?_, ?_, fun i hi => ?_⟩
      · cases e <;> simp [LoopState.perform]
      · cases e <;> simp [LoopState.perform, functors_cons, Effect.functor]
      · cases e <;> rfl
      · cases e <;> rfl
      · cases e <;> rfl
      · rcases htimers i hi with hi | hi
        · cases e <;> simp only [LoopState.perform, List.mem_append, List.mem_singleton] at hi <;> tauto
        · exact Or.inr hi

@[simp] theorem onLoop_conn (w : World) (l : Nat) (f : LoopState → LoopState) : (w.onLoop l f).conn = w.conn := rfl

theorem setTcp_onLoop (w : World) (l id : Nat) (f : LoopState → LoopState) (tcp : TcpConnection) :
    (w.setTcp id tcp).onLoop l f = (w.onLoop l f).setTcp id tcp := rfl

theorem setTcp_setTcp (w : World) (id : Nat) (tcp tcp' : TcpConnection) :
    (w.setTcp id tcp).setTcp id tcp' = w.setTcp id tcp' := by
  simp only [setTcp, Function.update_idem, Function.update_self]

@[simp] theorem setTcp_conn_self (w : World) (id : Nat) (tcp : TcpConnection) :
    (w.setTcp id tcp).conn id = { w.conn id with tcp } := Function.update_self _ _ _

@[simp] theorem onLoop_loops_self (w : World) (l : Nat) (f : LoopState → LoopState) :
    (w.onLoop l f).loops l = f (w.loops l) := Function.update_self _ _ _

theorem setPoller_setTcp {w : World} {l id : Nat} (hl : (w.conn id).loop = l) (f : LoopState → LoopState)
    (tcp : TcpConnection) (p : EpollPoller Nat) (c : Channel) :
    ((w.setTcp id tcp).onLoop l f).setPoller id p c =
      (w.onLoop l fun s => { f s with poller := p }).setTcp id { tcp with channel := c } := by
  subst hl
  simp only [setPoller, onLoop_conn, setTcp_conn_self, onLoop_onLoop, setTcp_onLoop, setTcp_setTcp]

theorem perform_update {w : World} {l id : Nat} {p : EpollPoller Nat} {c : Channel} (hl : (w.conn id).loop = l)
    (hupd : (w.loops l).poller.updateChannel id (w.conn id).tcp.channel = .ok (p, c)) :
    World.perform l id w .update = .ok (w.setPoller id p c) := by
  subst hl
  simp only [World.perform, check_pos, ok_bind, hupd]
  rfl

theorem finish_ok {w : World} {l id : Nat} {o : Outcome} (hl : (w.conn id).loop = l)
    (hupd : Keeps (w.conn id).tcp o ∨
      (w.loops l).poller.Registered id (w.conn id).tcp.channel ∧ Redeclares (w.conn id).tcp o) :
    ∃ s channel, w.finish l id o = .ok (w.acted id s { o.conn with channel } (closedBy o)) ∧
      Ran (w.loops l) s id (w.conn id).tcp o channel := by
  subst hl
  have hloop : ((w.setTcp id o.conn).conn id).loop = (w.conn id).loop := by simp
  rcases hupd with ⟨hchannel, hno⟩ | ⟨hreg, e, before, after, he, hchannel, heffects, hbefore, hafter⟩
  · obtain ⟨hphase, hqueued, hcallbacks, hrest, hpoller, htimers⟩ :=
      foldl_perform id o.effects (w.loops (w.conn id).loop)
    generalize hs : o.effects.foldl (LoopState.perform id) (w.loops (w.conn id).loop) = s at *
    have hfinish : w.finish (w.conn id).loop id o = .ok (w.acted id { s with rest := o.rest.map (id, ·) ++ s.rest }
        { o.conn with channel := o.conn.channel } (closedBy o)) := by
      simp only [finish, foldlM_perform hno hloop, ok_bind, setTcp_onLoop, onLoop_onLoop, acted, ← hs]
      rfl
    exact ⟨_, _, hfinish, hphase, hqueued, hcallbacks, congrArg _ hrest, htimers, by rw [hchannel], rfl,
      Or.inl ⟨hno, hpoller, hchannel⟩⟩
  · obtain ⟨hphase, hqueued, hcallbacks, hrest, hpoller, htimers⟩ :=
      foldl_perform id before (w.loops (w.conn id).loop)
    generalize hs : before.foldl (LoopState.perform id) (w.loops (w.conn id).loop) = s at *
    obtain ⟨p, c, hupd, hreg', hfd, hevents, hstatus, hsame⟩ := updateChannel_spec (hpoller ▸ hreg) he
    obtain ⟨hphase', hqueued', hcallbacks', hrest', hpoller', htimers'⟩ :=
      foldl_perform id after { s with poller := p }
    generalize hs' : after.foldl (LoopState.perform id) { s with poller := p } = s' at *
    have hone : World.perform (w.conn id).loop id ((w.setTcp id o.conn).onLoop (w.conn id).loop fun s =>
        before.foldl (LoopState.perform id) s) .update = .ok (((w.setTcp id o.conn).onLoop (w.conn id).loop fun s =>
          before.foldl (LoopState.perform id) s).setPoller id p c) := by
      refine perform_update hloop ?_
      rw [onLoop_loops_self]
      simp only [setTcp_onLoop, setTcp_conn_self, hchannel]
      rw [← hupd, ← hs]
      rfl
    have hfinish : w.finish (w.conn id).loop id o = .ok (w.acted id { s' with rest := o.rest.map (id, ·) ++ s'.rest }
        { o.conn with channel := c } (closedBy o)) := by
      simp only [finish, heffects, List.foldlM_append, List.foldlM_cons, foldlM_perform hbefore hloop, ok_bind,
        hone]
      rw [setPoller_setTcp rfl, foldlM_perform hafter (by simp)]
      simp only [setTcp_onLoop, onLoop_onLoop, ok_bind, acted, ← hs', ← hs]
      rfl
    refine ⟨_, _, hfinish, hphase'.trans hphase, ?_, hcallbacks'.trans hcallbacks,
      congrArg _ (hrest'.trans hrest), fun i hi => ?_, hfd, ?_, Or.inr ?_⟩
    · rw [hqueued', heffects]
      simp [hqueued, functors_cons, Effect.functor]
    · exact (htimers' i hi).elim (htimers i) Or.inr
    · rw [hevents, hchannel]
    · exact ⟨by simp [heffects], hpoller' ▸ hreg', hstatus, by rw [hpoller', ← hpoller]; exact hsame⟩

/-! ### Tokens and mentions after a function -/

theorem token_of_user {f : ConnFunctor} (hf : f.IsUser) (id id' : Nat) : (Functor.conn id f).token id' = none := by
  rcases hf with rfl | ⟨len, rfl⟩ <;> rfl

/-- The tokens among the functors of a connection are those that open or destroy it. -/
theorem token_eq_none_iff {f : ConnFunctor} {id : Nat} :
    (Functor.conn id f).token id = none ↔ f ≠ .connectEstablished ∧ f ≠ .connectDestoryed := by
  cases f <;> simp [Functor.token]

theorem token_of_not_lifecycle {f : ConnFunctor} (hf : ¬ f.IsLifecycle) (id id' : Nat) :
    (Functor.conn id f).token id' = none := by
  cases f with
  | connectEstablished | connectDestoryed | forceCloseInLoop => exact absurd trivial hf
  | _ => rfl

theorem token_of_ne {id id' : Nat} (h : id' ≠ id) (f : ConnFunctor) : (Functor.conn id f).token id' = none := by
  cases f <;> simp [Functor.token, h.symm]

theorem restToken_of_ne {id id' : Nat} (h : id' ≠ id) (r : Rest) : restToken id' (id, r) = none := by
  cases r <;> simp [restToken, h.symm]

namespace Ran

variable {s s' : LoopState} {id : Nat} {c : TcpConnection} {o : Outcome} {channel : Channel}

theorem tokens_of_ne (h : Ran s s' id c o channel) {id' : Nat} (hne : id' ≠ id) : s'.tokens id' = s.tokens id' := by
  have hq : ((functors o.effects).map (Functor.conn id)).filterMap (Functor.token id') = [] := by
    simp [token_of_ne hne]
  have hr : (o.rest.map (id, ·)).filterMap (restToken id') = [] := by
    simp [restToken_of_ne hne]
  simp only [LoopState.tokens, h.queued, h.rest, List.filterMap_append, hq, hr, List.append_nil, List.nil_append]

theorem tokens_self (h : Ran s s' id c o channel) (huser : ∀ f ∈ functors o.effects, f.IsUser) :
    s'.tokens id = s.loop.queued.filterMap (Functor.token id) ++
      ((o.rest.map (id, ·)).filterMap (restToken id) ++ s.rest.filterMap (restToken id)) := by
  have hq : ((functors o.effects).map (Functor.conn id)).filterMap (Functor.token id) = [] := by
    rw [List.filterMap_eq_nil_iff]
    intro f hf
    obtain ⟨g, hg, rfl⟩ := List.mem_map.mp hf
    exact token_of_user (huser g hg) id id
  simp only [LoopState.tokens, h.queued, h.rest, List.filterMap_append, hq, List.append_nil]

theorem mentions (h : Ran s s' id c o channel) : ∀ i ∈ s'.mentions, i ∈ s.mentions ∨ i = id := by
  intro i hi
  simp only [LoopState.mentions, h.queued, h.callbacks, h.rest, h.phase, List.filterMap_append, List.map_append,
    List.mem_append, List.mem_filterMap, List.mem_map] at hi ⊢
  rcases hi with ((((hi | ⟨f, ⟨g, hg, rfl⟩, hi⟩) | hi) | (⟨r, ⟨r', hr', rfl⟩, rfl⟩ | hi)) | hi) | hi
  · simp only [hi, true_or]
  · cases hi
    exact Or.inr rfl
  · simp only [hi, true_or, or_true]
  · exact Or.inr rfl
  · simp only [hi, true_or, or_true]
  · rcases h.timers i hi with hi | hi
    · simp only [hi, true_or, or_true]
    · exact Or.inr hi
  · simp only [hi, true_or, or_true]

end Ran

/-! ### The others -/

variable {w : World} {stage : Nat → Stage}

theorem World.acted_fd_of_ne {id id' : Nat} {s : LoopState} {tcp : TcpConnection} {lives : List Life} (h : id' ≠ id) :
    (w.acted id s tcp lives).fd id' = w.fd id' := by
  simp only [World.fd, acted_conn_of_ne h]

theorem World.acted_fd {id : Nat} {s : LoopState} {tcp : TcpConnection} {lives : List Life}
    (hfd : tcp.channel.fd = w.fd id) (id' : Nat) : (w.acted id s tcp lives).fd id' = w.fd id' := by
  by_cases h : id' = id
  · subst h
    simp [World.fd, hfd]
  · exact acted_fd_of_ne h

/-- The poller of a loop after a step of its connection `id` to the stage `st`: nothing changed, or only the
entries of the descriptor did, and they are empty if the connection is gone. -/
def PollerKept (stage : Nat → Stage) (id : Nat) (st : Stage) (fd : Int) (p p' : EpollPoller Nat) : Prop :=
  p' = p ∧ ((stage id).Live → st.Live) ∨
    (stage id).Live ∧ SameBut fd p p' ∧ (st.Live ∨ p'.channels fd = none ∧ p'.epollSet fd = none)

theorem Fits.acted_of_ne {id id' : Nat} {s : LoopState} {tcp : TcpConnection} {lives : List Life} {st : Stage}
    (hbase : Base w stage) (h : Fits w id' (stage id')) (hne : id' ≠ id)
    (htokens : s.tokens id' = (w.loops (w.conn id).loop).tokens id')
    (hpoller : PollerKept stage id st (w.fd id) (w.loops (w.conn id).loop).poller s.poller) :
    Fits (w.acted id s tcp lives) id' (stage id') := by
  refine ⟨⟨h.connections, fun ha => ?_, ?_, ?_, ?_, fun hlive => ?_⟩, ?_, fun l => ?_⟩
  · rw [acted_conn_of_ne hne, h.name ha]
  · rw [acted_conn_of_ne hne]
    exact h.allows
  · rw [acted_conn_of_ne hne]
    exact h.validIn
  · rw [acted_conn_of_ne hne]
    exact h.validOut
  · rw [acted_conn_of_ne hne, acted_loops]
    have hreg := h.registered hlive
    split_ifs with hl
    · rw [hl] at hreg
      rcases hpoller with ⟨heq, _⟩ | ⟨hlive', hsame, _⟩
      · rwa [heq]
      · exact hreg.frame hsame fun hfd => hne (hbase.distinct id' id hlive hlive' hfd)
    · exact hreg
  · rw [acted_life, if_neg hne, List.append_nil, acted_loop, h.life]
  · rw [acted_loops, acted_loop]
    split_ifs with hl
    · rw [htokens, ← hl, h.tokens]
    · exact h.tokens l

theorem Base.acted {id : Nat} {s : LoopState} {tcp : TcpConnection} {lives : List Life} {st : Stage}
    (h : Base w stage) (hid : stage id ≠ .absent) (hst : st ≠ .absent) (hlive : st.Live → (stage id).Live)
    (hfd : tcp.channel.fd = w.fd id)
    (hpoller : PollerKept stage id st (w.fd id) (w.loops (w.conn id).loop).poller s.poller)
    (hmentions : ∀ i ∈ s.mentions, i ∈ (w.loops (w.conn id).loop).mentions ∨ i = id) :
    Base (w.acted id s tcp lives) (Function.update stage id st) := by
  have hlive' : ∀ i, (Function.update stage id st i).Live → (stage i).Live := by
    intro i hi
    by_cases h : i = id
    · subst h
      exact hlive (by simpa using hi)
    · simpa [h] using hi
  have hat : ∀ l i, At w stage l i → At (w.acted id s tcp lives) (Function.update stage id st) l i := by
    intro l i hi
    refine ⟨?_, (acted_loop i).trans hi.2⟩
    by_cases h : i = id
    · subst h
      simpa using hst
    · simpa [h] using hi.1
  refine ⟨fun i hi => ?_, h.names, fun i i' hi hi' hii => ?_, fun l fd hnone => ?_, fun l i hi => ?_, fun l f hf => ?_⟩
  · have hne : i ≠ id := by
      rintro rfl
      exact hid (h.fresh i hi)
    rw [Function.update_of_ne hne]
    exact h.fresh i hi
  · rw [acted_fd hfd, acted_fd hfd] at hii
    exact h.distinct i i' (hlive' i hi) (hlive' i' hi') hii
  · simp only [acted_fd hfd, acted_loop] at hnone
    -- a connection other than `id` is live as before
    have hother : ∀ i, i ≠ id → (stage i).Live → (w.conn i).loop = l → w.fd i ≠ fd := fun i hne hi hl =>
      hnone i (by rwa [Function.update_of_ne hne]) hl
    rw [acted_loops]
    split_ifs with hl
    · subst hl
      by_cases hst' : st.Live
      · have hfd' : w.fd id ≠ fd := hnone id (by simpa using hst') rfl
        have hold := h.others _ fd fun i hi hl => by
          by_cases hne : i = id
          · exact hne ▸ hfd'
          · exact hother i hne hi hl
        rcases hpoller with ⟨heq, _⟩ | ⟨_, hsame, _⟩
        · rwa [heq]
        · rwa [hsame.channels fd hfd'.symm, hsame.epollSet fd hfd'.symm]
      · rcases hpoller with ⟨heq, hkeep⟩ | ⟨_, hsame, hgone⟩
        · rw [heq]
          refine h.others _ fd fun i hi hl => ?_
          by_cases hne : i = id
          · subst hne
            exact absurd (hkeep hi) hst'
          · exact hother i hne hi hl
        · by_cases hfd' : fd = w.fd id
          · subst hfd'
            exact hgone.resolve_left hst'
          · rw [hsame.channels fd hfd', hsame.epollSet fd hfd']
            refine h.others _ fd fun i hi hl => ?_
            by_cases hne : i = id
            · subst hne
              exact Ne.symm hfd'
            · exact hother i hne hi hl
    · refine h.others l fd fun i hi hl' => hother i ?_ hi hl'
      rintro rfl
      exact hl hl'.symm
  · rw [acted_loops] at hi
    split_ifs at hi with hl
    · rcases hmentions i hi with hi | rfl
      · exact hat l i (h.located l i (hl ▸ hi))
      · exact hat l i ⟨hid, hl.symm⟩
    · exact hat l i (h.located l i hi)
  · obtain ⟨htoken, i, g, rfl, hi⟩ := h.inflight l f hf
    exact ⟨htoken, i, g, rfl, hat l i hi⟩

theorem onLoop_loops (l l' : Nat) (f : LoopState → LoopState) :
    (w.onLoop l f).loops l' = if l' = l then f (w.loops l) else w.loops l' := Function.update_apply _ _ _ _

theorem Stands.onLoop {id l : Nat} {f : LoopState → LoopState} {st : Stage} (h : Stands w id st)
    (hpoller : (f (w.loops l)).poller = (w.loops l).poller) : Stands (w.onLoop l f) id st := by
  refine { h with registered := fun hlive => ?_ }
  have hreg := h.registered hlive
  rw [onLoop_conn, onLoop_loops]
  split_ifs with hl
  · rw [hpoller, ← hl]
    exact hreg
  · exact hreg

theorem Fits.onLoop {id l : Nat} {f : LoopState → LoopState} {st : Stage} (h : Fits w id st)
    (hpoller : (f (w.loops l)).poller = (w.loops l).poller)
    (htokens : (f (w.loops l)).tokens id = (w.loops l).tokens id) : Fits (w.onLoop l f) id st := by
  refine { h.toStands.onLoop hpoller with life := h.life, tokens := fun l' => ?_ }
  rw [onLoop_loops]
  split_ifs with hl
  · rw [htokens, ← hl]
    exact h.tokens l'
  · exact h.tokens l'

theorem Base.onLoop {l : Nat} {f : LoopState → LoopState} (h : Base w stage)
    (hpoller : (f (w.loops l)).poller = (w.loops l).poller)
    (hmentions : ∀ i ∈ (f (w.loops l)).mentions, i ∈ (w.loops l).mentions ∨ At w stage l i) :
    Base (w.onLoop l f) stage := by
  refine { h with others := fun l' fd hnone => ?_, located := fun l' i hi => ?_ }
  · have hold := h.others l' fd hnone
    rw [onLoop_loops]
    split_ifs with hl
    · rw [hpoller, ← hl]
      exact hold
    · exact hold
  · rw [onLoop_loops] at hi
    split_ifs at hi with hl
    · subst hl
      exact (hmentions i hi).elim (h.located l' i) id
    · exact h.located l' i hi

theorem Inv.onLoop {l : Nat} {f : LoopState → LoopState} (h : Inv w stage)
    (hpoller : (f (w.loops l)).poller = (w.loops l).poller)
    (htokens : ∀ id, (f (w.loops l)).tokens id = (w.loops l).tokens id)
    (hmentions : ∀ i ∈ (f (w.loops l)).mentions, i ∈ (w.loops l).mentions ∨ At w stage l i) :
    Inv (w.onLoop l f) stage :=
  ⟨h.toBase.onLoop hpoller hmentions, fun id => (h.fits id).onLoop hpoller (htokens id)⟩

theorem Around.onLoop {l id : Nat} {f : LoopState → LoopState} (h : Around w stage id)
    (hpoller : (f (w.loops l)).poller = (w.loops l).poller)
    (htokens : ∀ id', id' ≠ id → (f (w.loops l)).tokens id' = (w.loops l).tokens id')
    (hmentions : ∀ i ∈ (f (w.loops l)).mentions, i ∈ (w.loops l).mentions ∨ At w stage l i) :
    Around (w.onLoop l f) stage id :=
  ⟨h.toBase.onLoop hpoller hmentions, fun id' hne => (h.fits id' hne).onLoop hpoller (htokens id' hne),
    h.stands.onLoop hpoller⟩

theorem Around.record {id : Nat} (h : Around w stage id) (lives : List Life) :
    Around (w.record id lives) stage id := by
  refine ⟨⟨h.fresh, h.names, h.distinct, h.others, h.located, h.inflight⟩, fun id' hne => ?_, ⟨h.stands.connections,
    h.stands.name, h.stands.allows, h.stands.validIn, h.stands.validOut, h.stands.registered⟩⟩
  obtain ⟨⟨hconn, hname, hallows, hin, hout, hreg⟩, hlife, htokens⟩ := h.fits id' hne
  refine ⟨⟨hconn, hname, hallows, hin, hout, hreg⟩, ?_, htokens⟩
  rw [life_record, if_neg hne, List.append_nil]
  exact hlife

/-! ### A function of a connection -/

/-- In `w`, where the connection `id` may have lost its token, the outcome of a function of the connection on
its loop's thread makes it fit the stage `st`. -/
structure Moves (w : World) (stage : Nat → Stage) (l id : Nat) (o : Outcome) (st : Stage) : Prop where
  loop : (w.conn id).loop = l
  accepted : stage id ≠ .absent
  present : st ≠ .absent
  live : st.Live ↔ (stage id).Live
  listed : st.listed = (stage id).listed
  declares : Keeps (w.conn id).tcp o ∨ (stage id).Live ∧ Redeclares (w.conn id).tcp o
  user : ∀ f ∈ functors o.effects, f.IsUser
  life : w.life id ++ closedBy o = st.lives l
  tokens : ∀ l', (if l' = l then (w.loops l).loop.queued.filterMap (Functor.token id) ++
    ((o.rest.map (id, ·)).filterMap (restToken id) ++ (w.loops l).rest.filterMap (restToken id))
    else (w.loops l').tokens id) = st.tokens l l'
  allows : ∀ channel : Channel, channel.events = o.conn.channel.events →
    ((w.conn id).tcp.channel.inPollerStatus ≠ .kInit ∨ .update ∈ o.effects → channel.inPollerStatus ≠ .kInit) →
    st.Allows { o.conn with channel }
  validIn : o.conn.inputBuffer.Valid
  validOut : o.conn.outputBuffer.Valid

theorem Moves.finish {l id : Nat} {o : Outcome} {st : Stage} (h : Moves w stage l id o st)
    (haround : Around w stage id) :
    ∃ w', w.finish l id o = .ok w' ∧ Inv w' (Function.update stage id st) := by
  have hloop := h.loop
  subst hloop
  have hreg := haround.stands.registered
  obtain ⟨s, channel, hfinish, hran⟩ := finish_ok rfl (h.declares.imp_right fun hd => ⟨hreg hd.1, hd.2⟩)
  have hpoller : PollerKept stage id st (w.fd id) (w.loops (w.conn id).loop).poller s.poller := by
    rcases hran.poller with ⟨_, heq, _⟩ | ⟨hmem, _, _, hsame⟩
    · exact Or.inl ⟨heq, h.live.mpr⟩
    · have hlive : (stage id).Live := (h.declares.resolve_left fun hkeep => hkeep.2 hmem).1
      exact Or.inr ⟨hlive, hsame, Or.inl (h.live.mpr hlive)⟩
  have hreg' : st.Live → s.poller.Registered id channel := by
    intro hlive
    rcases hran.poller with ⟨_, heq, hchannel⟩ | ⟨_, hreg', _⟩
    · rw [heq, hchannel]
      exact hreg (h.live.mp hlive)
    · exact hreg'
  have hstatus : (w.conn id).tcp.channel.inPollerStatus ≠ .kInit ∨ .update ∈ o.effects →
      channel.inPollerStatus ≠ .kInit := by
    rintro (hold | hmem) <;> rcases hran.poller with ⟨hno, _, hchannel⟩ | ⟨_, _, hstatus, _⟩
    · rwa [hchannel]
    · exact hstatus
    · exact absurd hmem hno
    · exact hstatus
  refine ⟨_, hfinish, haround.toBase.acted h.accepted h.present h.live.mp hran.fd hpoller hran.mentions,
    fun id' => ?_⟩
  by_cases hne : id' = id
  · subst hne
    rw [Function.update_self]
    refine ⟨⟨?_, fun _ => ?_, ?_, ?_, ?_, fun hlive => ?_⟩, ?_, fun l => ?_⟩
    · rw [h.listed]
      exact haround.stands.connections
    · rw [acted_conn_self]
      exact haround.stands.name h.accepted
    · rw [acted_conn_self]
      exact h.allows channel hran.events hstatus
    · rw [acted_conn_self]
      exact h.validIn
    · rw [acted_conn_self]
      exact h.validOut
    · rw [acted_conn_self, acted_loops_self]
      exact hreg' hlive
    · rw [acted_life, if_pos rfl, acted_loop, h.life]
    · rw [acted_loops, acted_loop, ← h.tokens l, ← hran.tokens_self h.user]
      split_ifs <;> rfl
  · rw [Function.update_of_ne hne]
    exact (haround.fits id' hne).acted_of_ne haround.toBase hne (hran.tokens_of_ne hne) hpoller

end TcpServer

end OulaServer
