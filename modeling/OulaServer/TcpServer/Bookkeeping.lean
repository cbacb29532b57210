import Mathlib.Data.List.Infix
import OulaServer.TcpServer.Transitions

/-!
# The server's connections

In every run of a server's loops that `handleClose`'s own assertion does not end, `connections_` holds
exactly the accepted connections that `removeConnectionInLoop` has not removed, every connection is
established and destroyed at most once, on its own loop and in order, and `Channel::remove` finds the channel
registered (`bookkeeping_of_along`).

The invariant `Inv` gives every connection a stage. Each step of a loop's thread is one of the transitions of
`OulaServer.TcpServer.Transitions`, after it took what it runs out of the loop.
-/

namespace OulaServer

namespace TcpServer

open Run TcpConnection EpollPoller World

/-- What may happen to a connection of the loop `l`, in this order. -/
def lifeOrder (l : Nat) : List Life := [.accepted, .established l, .closed, .removed, .destroyed l, .unregistered]

structure Bookkeeping (w : World) : Prop where
  /-- `connections_` has the accepted connections that were not removed, under their names. -/
  connections : ∀ name id, w.connections name = some id ↔
    w.Accepted id ∧ .removed ∉ w.life id ∧ name = (w.conn id).name
  names : ∀ id id', w.Accepted id → w.Accepted id' → (w.conn id).name = (w.conn id').name → id = id'
  life : ∀ id, w.life id <+: lifeOrder (w.conn id).loop

/-- If the step is the `channel_->remove()` of `ConnectDestoryed`, the channel has no interest and is
registered under its descriptor in the poller of the connection's loop, which runs it. -/
def RemovesRegistered (w : World) : Event → Prop
  | .userCode l => ∀ id, (w.loops l).rest.head? = some (id, .remove) →
      (w.conn id).loop = l ∧ (w.loops l).poller.channels (w.fd id) = some id ∧
      (w.conn id).tcp.channel.events = kNoneEvent ∧
      ((w.conn id).tcp.channel.inPollerStatus = .kAdded ∨ (w.conn id).tcp.channel.inPollerStatus = .kDeleted)
  | _ => True

variable {w : World} {stage : Nat → Stage}

/-! ### The invariant at once -/

theorem Stage.lives_ordered (st : Stage) (l : Nat) : st.lives l <+: lifeOrder l := by
  cases st <;> simp [lives, lifeOrder]

theorem Inv.accepted (h : Inv w stage) (id : Nat) : w.Accepted id ↔ stage id ≠ .absent := by
  rw [Accepted, (h.fits id).life]
  cases stage id <;> simp [Stage.lives]

theorem Inv.bookkeeping (h : Inv w stage) : Bookkeeping w := by
  have hlisted : ∀ id, (stage id).listed = true ↔ w.Accepted id ∧ .removed ∉ w.life id := by
    intro id
    rw [h.accepted, (h.fits id).life]
    cases stage id <;> simp [Stage.lives, Stage.listed]
  refine ⟨fun name id => ⟨fun hname => ?_, ?_⟩, fun id id' hid hid' hname => ?_, fun id => ?_⟩
  · obtain rfl := h.names name id hname
    have hconn := (h.fits id).connections
    rw [hname] at hconn
    have hl : (stage id).listed = true := by
      by_contra hl
      rw [if_neg hl] at hconn
      cases hconn
    obtain ⟨hacc, hrem⟩ := (hlisted id).mp hl
    exact ⟨hacc, hrem, ((h.fits id).name ((h.accepted id).mp hacc)).symm⟩
  · rintro ⟨hacc, hrem, rfl⟩
    rw [(h.fits id).name ((h.accepted id).mp hacc), (h.fits id).connections, if_pos ((hlisted id).mpr ⟨hacc, hrem⟩)]
  · rw [(h.fits id).name ((h.accepted id).mp hid), (h.fits id').name ((h.accepted id').mp hid')] at hname
    exact toString_inj hname
  · rw [(h.fits id).life]
    exact (stage id).lives_ordered _

theorem Inv.rest_token (h : Inv w stage) {l id : Nat} {r : Rest} {rest : List (Nat × Rest)}
    (hrest : (w.loops l).rest = (id, r) :: rest) {t : Token} (ht : restToken id (id, r) = some t) :
    (w.loops l).loop.queued.filterMap (Functor.token id) ++ t :: rest.filterMap (restToken id) =
      (stage id).tokens (w.conn id).loop l := by
  rw [← (h.fits id).tokens l, LoopState.tokens, hrest, List.filterMap_cons_some ht]

theorem Inv.removesRegistered (h : Inv w stage) (e : Event) : RemovesRegistered w e := by
  cases e with
  | userCode l =>
      intro id hhead
      obtain ⟨rest, hrest⟩ : ∃ rest, (w.loops l).rest = (id, .remove) :: rest := by
        cases hr : (w.loops l).rest with
        | nil => simp [hr] at hhead
        | cons r rest =>
            rw [hr] at hhead
            cases hhead
            exact ⟨rest, rfl⟩
      obtain ⟨_, _, hst, hl⟩ := Stage.tokens_cases (h.rest_token hrest (t := .unregister) (if_pos rfl))
      subst hl
      have hallows := (h.fits id).allows
      have hreg := (h.fits id).registered
      rw [hst] at hallows hreg
      obtain ⟨_, hnone, hstatus⟩ := hallows
      refine ⟨rfl, (hreg ⟨nofun, nofun⟩).found hstatus, hnone, ?_⟩
      cases hs : (w.conn id).tcp.channel.inPollerStatus with
      | kInit => exact absurd hs hstatus
      | kAdded => exact Or.inl rfl
      | kDeleted => exact Or.inr rfl
  | _ => trivial

theorem init_inv (ioLoops highWaterMark : Nat) (writeComplete highWater : Bool) :
    Inv (init ioLoops highWaterMark writeComplete highWater) fun _ => .absent := by
  refine ⟨⟨fun _ _ => rfl, nofun, fun id _ hid => absurd rfl hid.1, fun _ _ _ => ⟨rfl, rfl⟩, nofun, nofun⟩,
    fun id => ⟨⟨rfl, fun h => absurd rfl h, trivial, ?_, ?_, fun hid => absurd rfl hid.1⟩, rfl, fun _ => rfl⟩⟩
  · exact Buffer.new_valid (by decide)
  · exact Buffer.new_valid (by decide)

/-! ### The steps -/

/-- Only `handleClose`'s own assertion ends a run. -/
def ClosedTwice (a : Abort) : Prop := a = .handleClose

instance (a : Abort) : Decidable (ClosedTwice a) := inferInstanceAs (Decidable (a = _))

/-- The step leads to a world that the invariant describes, or fails the assertion of `handleClose`. -/
def Advances (w : World) (e : Event) : Prop :=
  step w e = .error .handleClose ∨ ∃ w' stage', step w e = .ok w' ∧ Inv w' stage'

/-- What `handleClose` does to an open connection, or its failed assertion. -/
theorem Inv.handleClose (h : Inv w stage) {l id : Nat} (hat : At w stage l id) {b : Buffer} (hb : b.Valid) :
    let c : TcpConnection := { (w.conn id).tcp with inputBuffer := b }
    c.handleClose true = .error .handleClose ∨
      ∃ o w' stage', c.handleClose true = .ok o ∧ w.finish l id o = .ok w' ∧ Inv w' stage' := by
  intro c
  by_cases hopen : c.Open
  · obtain ⟨w', hfinish, hinv⟩ := h.close hat hopen hb rfl
    exact Or.inr ⟨_, w', _, handleClose_ok hopen, hfinish, hinv⟩
  · refine Or.inl ?_
    simp only [TcpConnection.handleClose, check_pos, check_neg hopen, ok_bind, error_bind]

theorem Inv.forceClose (h : Inv w stage) {l id : Nat} (hat : At w stage l id) :
    ∃ o w' stage', (w.conn id).tcp.forceCloseInLoop true = .ok o ∧ w.finish l id o = .ok w' ∧ Inv w' stage' := by
  by_cases hopen : (w.conn id).tcp.Open
  · obtain ⟨w', hfinish, hinv⟩ := h.close hat hopen (h.fits id).validIn rfl
    exact ⟨_, w', _, (forceCloseInLoop_open hopen).trans (handleClose_ok hopen), hfinish, hinv⟩
  · have hq : Quiet (w.conn id).tcp { conn := (w.conn id).tcp } :=
      Quiet.of_buffer (h.fits id).validOut nofun nofun
    obtain ⟨w', hfinish, hinv⟩ := h.quiet hat hq
    exact ⟨_, w', stage, forceCloseInLoop_keep hopen, hfinish, hinv⟩

theorem Inv.runFunctor (h : Inv w stage) {l id : Nat} (hat : At w stage l id) {f : ConnFunctor}
    (hf : (Functor.conn id f).token id = none) (mem : Memory) (wr : WriteResult) :
    ∃ w' stage', w.runFunctor l mem wr (.conn id f) = .ok w' ∧ Inv w' stage' := by
  have hrun : ∀ o, (w.conn id).tcp.runFunctor true mem wr f = .ok o →
      w.runFunctor l mem wr (.conn id f) = w.finish l id o := by
    intro o ho
    have hnil : ranLife l f = [] := by
      cases f <;> first | rfl | simp [Functor.token] at hf
    rw [runFunctor_conn hat.2 ho, hnil, record_nil]
  by_cases hforce : f = .forceCloseInLoop
  · subst hforce
    obtain ⟨o, w', stage', ho, hfinish, hinv⟩ := h.forceClose hat
    exact ⟨w', stage', (hrun o ho).trans hfinish, hinv⟩
  · have hlife : ¬ f.IsLifecycle := by
      have hno := token_eq_none_iff.mp hf
      exact fun hl => (ConnFunctor.isLifecycle_iff.mp hl).elim hno.1 fun hl => hl.elim hno.2 hforce
    obtain ⟨o, ho, hq⟩ := runFunctor_quiet mem wr (h.fits id).validOut hlife
    obtain ⟨w', hfinish, hinv⟩ := h.quiet hat hq
    exact ⟨w', stage, (hrun o ho).trans hfinish, hinv⟩

theorem mentions_callbacks {s : LoopState} {p : Nat × EventCallback} {callbacks : List (Nat × EventCallback)}
    (hcb : s.callbacks = p :: callbacks) :
    ∀ i ∈ LoopState.mentions { s with callbacks }, i ∈ s.mentions := by
  refine mentions_mono (fun _ hf => hf) (fun q hq => ?_) (fun _ hp => hp) (fun _ hi => hi) (fun _ hi => hi)
  rw [hcb]
  exact List.mem_cons_of_mem _ hq

theorem mentions_timers (s : LoopState) (i : Nat) :
    ∀ j ∈ LoopState.mentions { s with timers := s.timers.eraseIdx i }, j ∈ s.mentions :=
  mentions_mono (fun _ hf => hf) (fun _ hp => hp) (fun _ hp => hp) (fun _ => List.mem_of_mem_eraseIdx)
    (fun _ hi => hi)

theorem advances_handleCallback (h : Inv w stage) {l : Nat} {r : Option (List UInt8)} {wr : WriteResult}
    (hen : Enabled w (.handleCallback l r wr)) : Advances w (.handleCallback l r wr) := by
  obtain ⟨⟨id, cb⟩, callbacks, hcb⟩ := List.exists_cons_of_ne_nil hen.2
  have hat : At w stage l id := h.located l id (by simp [LoopState.mentions, hcb])
  have hpop : Inv (w.onLoop l fun s => { s with callbacks }) stage :=
    h.onLoop rfl (fun _ => rfl) fun i hi => Or.inl (mentions_callbacks hcb i hi)
  have hstep : step w (.handleCallback l r wr) = (w.conn id).tcp.handleCallback true r wr cb >>= fun o =>
      (w.onLoop l fun s => { s with callbacks }).finish l id o := by
    simp only [step, hcb, hat.2, decide_true]
  rw [Advances, hstep]
  cases cb with
  | close =>
      rcases hpop.handleClose hat (h.fits id).validIn with herr | ⟨o, w', stage', ho, hfinish, hinv⟩
      · exact Or.inl (congrArg (· >>= _) herr)
      · exact Or.inr ⟨w', stage', (congrArg (· >>= _) ho).trans hfinish, hinv⟩
  | read =>
      obtain ⟨b, hb, hread | hread⟩ := handleRead_cases (h.fits id).validIn r
      · obtain ⟨w', hfinish, hinv⟩ := hpop.deliver hat hb
        exact Or.inr ⟨w', stage, (congrArg (· >>= _) hread).trans hfinish, hinv⟩
      · rcases hpop.handleClose hat hb with herr | ⟨o, w', stage', ho, hfinish, hinv⟩
        · exact Or.inl (congrArg (· >>= _) (hread.trans herr))
        · exact Or.inr ⟨w', stage', (congrArg (· >>= _) (hread.trans ho)).trans hfinish, hinv⟩
  | write =>
      obtain ⟨o, ho, hq⟩ := handleWirte_quiet (w := wr) (h.fits id).validOut
      obtain ⟨w', hfinish, hinv⟩ := hpop.quiet hat hq
      exact Or.inr ⟨w', stage, (congrArg (· >>= _) ho).trans hfinish, hinv⟩

theorem advances_timerCallback (h : Inv w stage) {l i : Nat} (hen : Enabled w (.timerCallback l i)) :
    Advances w (.timerCallback l i) := by
  obtain ⟨_, _, hi, _⟩ := hen
  have hget : (w.loops l).timers[i]? = some ((w.loops l).timers.get ⟨i, hi⟩) := List.getElem?_eq_getElem hi
  generalize (w.loops l).timers.get ⟨i, hi⟩ = id at hget
  have hat : At w stage l id := by
    refine h.located l id ?_
    simp only [LoopState.mentions, List.mem_append, List.mem_of_getElem? hget, true_or, or_true]
  have hpop : Inv (w.onLoop l fun s => { s with timers := s.timers.eraseIdx i }) stage :=
    h.onLoop rfl (fun _ => rfl) fun j hj => Or.inl (mentions_timers _ i j hj)
  obtain ⟨o, w', stage', ho, hfinish, hinv⟩ := hpop.forceClose hat
  refine Or.inr ⟨w', stage', ?_, hinv⟩
  rw [← hfinish]
  simp only [step, hget, hat.2, decide_true]
  exact congrArg (· >>= _) ho

/-! ### Functors -/

theorem tokens_callRest {s : LoopState} {f : Functor} {fs : List Functor} (hphase : s.loop.phase = .calling (f :: fs))
    (id : Nat) : s.tokens id =
      (f.token id).toList ++ LoopState.tokens { s with loop := s.loop.callRest fs } id := by
  simp only [LoopState.tokens, EventLoop.queued_calling hphase, EventLoop.queued_callRest, List.cons_append]
  cases h : f.token id <;> simp [h]

theorem mentions_callRest {s : LoopState} {f : Functor} {fs : List Functor}
    (hphase : s.loop.phase = .calling (f :: fs)) :
    ∀ i ∈ LoopState.mentions { s with loop := s.loop.callRest fs }, i ∈ s.mentions := by
  refine mentions_mono (fun g hg => ?_) (fun _ hp => hp) (fun _ hp => hp) (fun _ hi => hi) nofun
  rw [EventLoop.queued_calling hphase]
  exact List.mem_cons_of_mem _ hg

theorem advances_callFunctor (h : Inv w stage) {l : Nat} {mem : Memory} {wr : WriteResult}
    (hen : Enabled w (.callFunctor l mem wr)) : Advances w (.callFunctor l mem wr) := by
  obtain ⟨f, hf⟩ := Option.ne_none_iff_exists'.mp hen.2
  obtain ⟨fs, hphase⟩ := Phase.nextFunctor_eq_some.mp hf
  have hstep : step w (.callFunctor l mem wr) =
      (w.onLoop l fun s => { s with loop := s.loop.callRest fs }).runFunctor l mem wr f := by
    simp only [step, hphase]
  have hpop : ∀ i ∈ LoopState.mentions { w.loops l with loop := (w.loops l).loop.callRest fs },
      i ∈ (w.loops l).mentions ∨ At w stage l i := fun i hi => Or.inl (mentions_callRest hphase i hi)
  rw [Advances, hstep]
  -- a functor that is a token of the connection `id` is the one that it has
  have hspend : ∀ id t, f.token id = some t → (∀ id', id' ≠ id → f.token id' = none) →
      [] ++ t :: LoopState.tokens { w.loops l with loop := (w.loops l).loop.callRest fs } id =
        (stage id).tokens (w.conn id).loop l ∧
      Around (w.onLoop l fun s => { s with loop := s.loop.callRest fs }) stage id ∧
      ∀ l', ((w.onLoop l fun s => { s with loop := s.loop.callRest fs }).loops l').tokens id = [] := by
    intro id t ht hother
    have htoken : (w.loops l).tokens id =
        [] ++ t :: LoopState.tokens { w.loops l with loop := (w.loops l).loop.callRest fs } id := by
      rw [tokens_callRest hphase, ht]
      rfl
    refine ⟨htoken.symm.trans ((h.fits id).tokens l), (h.around id).onLoop rfl (fun id' hne => ?_) hpop,
      h.spend htoken rfl⟩
    rw [tokens_callRest hphase, hother id' hne]
    rfl
  cases f with
  | removeConnectionInLoop id =>
      obtain ⟨htokens, haround, hempty⟩ := hspend id .removal (if_pos rfl) fun id' hne => if_neg hne.symm
      obtain ⟨_, _, hst, rfl⟩ := Stage.tokens_cases htokens
      have hlife := (h.fits id).life
      rw [hst] at hlife
      obtain ⟨w', hrun, hinv⟩ := haround.removal (Or.inr hst) hlife hempty
      exact Or.inr ⟨w', _, hrun, hinv⟩
  | conn id g =>
      by_cases hg : (Functor.conn id g).token id = none
      · have hat : At w stage l id := by
          refine h.located l id ?_
          simp [LoopState.mentions, EventLoop.queued_calling hphase, Functor.conn?]
        have htoken : ∀ id', (Functor.conn id g).token id' = none := fun id' => by
          by_cases hne : id' = id
          · rwa [hne]
          · exact token_of_ne hne g
        have hinv : Inv (w.onLoop l fun s => { s with loop := s.loop.callRest fs }) stage := by
          refine h.onLoop rfl (fun id' => ?_) hpop
          rw [tokens_callRest hphase, htoken]
          rfl
        obtain ⟨w', stage', hrun, hinv'⟩ := hinv.runFunctor hat hg mem wr
        exact Or.inr ⟨w', stage', hrun, hinv'⟩
      · have hlife := (h.fits id).life
        cases g with
        | connectEstablished =>
            obtain ⟨htokens, haround, hempty⟩ := hspend id .establish (if_pos rfl) fun id' hne => token_of_ne hne _
            obtain ⟨_, _, hst, rfl⟩ := Stage.tokens_cases htokens
            rw [hst] at hlife
            obtain ⟨w', hrun, hinv⟩ := haround.establish rfl hst hlife hempty mem wr
            exact Or.inr ⟨w', _, hrun, hinv⟩
        | connectDestoryed =>
            obtain ⟨htokens, haround, hempty⟩ := hspend id .destroy (if_pos rfl) fun id' hne => token_of_ne hne _
            obtain ⟨_, _, hst, rfl⟩ := Stage.tokens_cases htokens
            rw [hst] at hlife
            obtain ⟨w', hrun, hinv⟩ := haround.destroy rfl hst hlife hempty mem wr
            exact Or.inr ⟨w', _, hrun, hinv⟩
        | _ => exact absurd rfl hg

/-! ### What is left of a function -/

theorem tokens_rest {s : LoopState} {p : Nat × Rest} {rest : List (Nat × Rest)} (hrest : s.rest = p :: rest)
    (id : Nat) : s.tokens id = s.loop.queued.filterMap (Functor.token id) ++
      ((restToken id p).toList ++ rest.filterMap (restToken id)) := by
  rw [LoopState.tokens, hrest]
  cases h : restToken id p <;> simp [h]

theorem mentions_rest {s : LoopState} {p : Nat × Rest} {rest : List (Nat × Rest)} (hrest : s.rest = p :: rest) :
    ∀ i ∈ LoopState.mentions { s with rest }, i ∈ s.mentions := by
  refine mentions_mono (fun _ hf => hf) (fun _ hp => hp) (fun q hq => ?_) (fun _ hi => hi) (fun _ hi => hi)
  rw [hrest]
  exact List.mem_cons_of_mem _ hq

theorem removeConnection_zero (w : World) (id : Nat) : w.removeConnection 0 id = w.removeConnectionInLoop 0 id :=
  if_pos rfl

theorem advances_userCode (h : Inv w stage) {l : Nat} (hen : Enabled w (.userCode l)) : Advances w (.userCode l) := by
  obtain ⟨⟨id, r⟩, rest, hrest⟩ := List.exists_cons_of_ne_nil hen
  have hstep : step w (.userCode l) = (w.onLoop l fun s => { s with rest }).runRest l id r := by
    simp only [step, hrest]
  have hpop : ∀ i ∈ LoopState.mentions { w.loops l with rest }, i ∈ (w.loops l).mentions ∨ At w stage l i :=
    fun i hi => Or.inl (mentions_rest hrest i hi)
  rw [Advances, hstep]
  have hother : ∀ id', id' ≠ id → LoopState.tokens { w.loops l with rest } id' = (w.loops l).tokens id' := by
    intro id' hne
    rw [tokens_rest hrest, restToken_of_ne hne]
    rfl
  have hspend : ∀ t, restToken id (id, r) = some t →
      (w.loops l).loop.queued.filterMap (Functor.token id) ++ t :: rest.filterMap (restToken id) =
        (stage id).tokens (w.conn id).loop l ∧
      ∀ l', ((w.onLoop l fun s => { s with rest }).loops l').tokens id = [] := by
    intro t ht
    refine ⟨h.rest_token hrest ht, h.spend (t := t) ?_ rfl⟩
    rw [tokens_rest hrest, ht]
    rfl
  have haround : Around (w.onLoop l fun s => { s with rest }) stage id :=
    (h.around id).onLoop rfl hother hpop
  have hlife := (h.fits id).life
  have huser : restToken id (id, r) = none → Inv (w.onLoop l fun s => { s with rest }) stage := by
    intro hr
    refine h.onLoop rfl (fun id' => ?_) hpop
    by_cases hne : id' = id
    · subst hne
      rw [tokens_rest hrest, hr]
      rfl
    · exact hother id' hne
  cases r with
  | connectionUp => exact Or.inr ⟨_, stage, rfl, huser rfl⟩
  | connectionDown => exact Or.inr ⟨_, stage, rfl, huser rfl⟩
  | messageCallback => exact Or.inr ⟨_, stage, rfl, huser rfl⟩
  | closeCallback =>
      obtain ⟨htokens, hempty⟩ := hspend .close (if_pos rfl)
      obtain ⟨_, _, hst, _⟩ := Stage.tokens_cases htokens
      rw [hst] at hlife
      by_cases hl : l = 0
      · subst hl
        obtain ⟨w', hrun, hinv⟩ := haround.removal (Or.inl hst) hlife hempty
        exact Or.inr ⟨w', _, (removeConnection_zero _ id).trans hrun, hinv⟩
      · exact Or.inr ⟨_, _, if_neg hl, haround.queueRemoval hst hlife hempty⟩
  | remove =>
      obtain ⟨htokens, hempty⟩ := hspend .unregister (if_pos rfl)
      obtain ⟨_, _, hst, rfl⟩ := Stage.tokens_cases htokens
      rw [hst] at hlife
      obtain ⟨w', hrun, hinv⟩ := haround.unregister rfl hst hlife hempty
      exact Or.inr ⟨w', _, hrun, hinv⟩

/-! ### Calls by user code -/

theorem Inv.setTcp (h : Inv w stage) {id : Nat} (hid : stage id ≠ .absent) {tcp : TcpConnection}
    (hchannel : tcp.channel = (w.conn id).tcp.channel) (hallows : (stage id).Allows tcp)
    (hin : tcp.inputBuffer.Valid) (hout : tcp.outputBuffer.Valid) : Inv (w.setTcp id tcp) stage := by
  have heq : w.setTcp id tcp = w.acted id (w.loops (w.conn id).loop) tcp [] := by
    rw [acted, record_nil]
    simp only [World.onLoop, Function.update_eq_self]
  have hpoller : PollerKept stage id (stage id) (w.fd id) (w.loops (w.conn id).loop).poller
      (w.loops (w.conn id).loop).poller := Or.inl ⟨rfl, fun hlive => hlive⟩
  have hbase : Base (w.acted id (w.loops (w.conn id).loop) tcp []) (Function.update stage id (stage id)) :=
    h.toBase.acted hid hid (fun hlive => hlive) (congrArg Channel.fd hchannel) hpoller fun i hi => Or.inl hi
  rw [Function.update_eq_self] at hbase
  rw [heq]
  refine ⟨hbase, fun id' => ?_⟩
  by_cases hne : id' = id
  · subst hne
    have hfits := h.fits id'
    refine ⟨⟨hfits.connections, fun ha => ?_, ?_, ?_, ?_, fun hlive => ?_⟩, ?_, fun l => ?_⟩
    · rw [acted_conn_self]
      exact hfits.name ha
    · rwa [acted_conn_self]
    · rwa [acted_conn_self]
    · rwa [acted_conn_self]
    · rw [acted_conn_self, acted_loops_self, hchannel]
      exact hfits.registered hlive
    · rw [acted_life, if_pos rfl, List.append_nil, acted_loop]
      exact hfits.life
    · rw [acted_loops, acted_loop, ← hfits.tokens l]
      split_ifs with hl
      · rw [hl]
      · rfl
  · exact (h.fits id').acted_of_ne h.toBase hne rfl hpoller

theorem Inv.call (h : Inv w stage) {id : Nat} (hid : stage id ≠ .absent) (hopen : (w.conn id).tcp.Open)
    {state : StateE} (hstate : state = (w.conn id).tcp.state ∨ state = .kDisconnecting) :
    Inv (w.setTcp id { (w.conn id).tcp with state }) stage := by
  have hfits := h.fits id
  have hup := hfits.allows.up_of_open hid hopen
  have hallows := hfits.allows
  rw [hup] at hallows
  refine h.setTcp hid rfl ?_ hfits.validIn hfits.validOut
  rw [hup]
  refine ⟨?_, hallows.2⟩
  rcases hstate with rfl | rfl
  · exact hopen
  · exact Or.inr rfl

theorem Inv.setInflight (h : Inv w stage) (fs : List (Nat × Functor))
    (hfs : ∀ l f, (l, f) ∈ fs → (∀ id, f.token id = none) ∧ ∃ id g, f = .conn id g ∧ At w stage l id) :
    Inv { w with inflight := fs } stage := by
  refine ⟨{ h.toBase with inflight := hfs }, fun id => ?_⟩
  obtain ⟨⟨hconn, hname, hallows, hin, hout, hreg⟩, hlife, htokens⟩ := h.fits id
  exact ⟨⟨hconn, hname, hallows, hin, hout, hreg⟩, hlife, htokens⟩

theorem advances_call (h : Inv w stage) {thread : Option Nat} {id : Nat} {c : Call} {mem : Memory} {wr : WriteResult}
    (hen : Enabled w (.call thread id c mem wr)) : Advances w (.call thread id c mem wr) := by
  have hid : stage id ≠ .absent := (h.accepted id).mp hen.1
  rcases call_cases (w.conn id).tcp c with hnone | ⟨hopen, state, t, hstate, hcall, ht⟩
  · refine Or.inr ⟨w.setTcp id (w.conn id).tcp, stage, by simp only [step, hnone], ?_⟩
    exact h.setTcp hid rfl (h.fits id).allows (h.fits id).validIn (h.fits id).validOut
  have hinv := h.call hid hopen hstate
  have hat : At (w.setTcp id { (w.conn id).tcp with state }) stage (w.conn id).loop id :=
    ⟨hid, by rw [setTcp_conn_self]⟩
  have htoken : ∀ i, (Functor.conn id t.functor).token i = none := by
    intro i
    rcases ht with rfl | ⟨f, rfl, hf⟩
    · rfl
    · exact token_of_not_lifecycle hf id i
  by_cases hthread : thread = some (w.conn id).loop
  · cases t with
    | runInLoop f =>
        obtain ⟨w', stage', hrun, hinv'⟩ := hinv.runFunctor hat (htoken id) mem wr
        refine Or.inr ⟨w', stage', ?_, hinv'⟩
        rw [← hrun]
        simp only [step, hcall, if_pos hthread, ToLoop.functor]
    | queueInLoop f =>
        have hqueue : Inv ((w.setTcp id { (w.conn id).tcp with state }).queueInLoop (w.conn id).loop true
            (.conn id f)) stage := by
          refine hinv.queue htoken ?_
          rintro i ⟨⟩
          exact hat
        exact Or.inr ⟨_, stage, by simp only [step, hcall, if_pos hthread], hqueue⟩
  · have hpush := hinv.setInflight (w.inflight ++ [((w.conn id).loop, .conn id t.functor)]) ?_
    · exact Or.inr ⟨_, stage, by simp only [step, hcall, if_neg hthread], hpush⟩
    · intro l f hf
      rcases List.mem_append.mp hf with hf | hf
      · exact hinv.inflight l f hf
      · cases List.mem_singleton.mp hf
        exact ⟨htoken, id, _, rfl, hat⟩

theorem advances_retrieve (h : Inv w stage) {id len : Nat} (hen : Enabled w (.retrieve id len)) :
    Advances w (.retrieve id len) := by
  obtain ⟨hacc, _, hlen⟩ := hen
  have hfits := h.fits id
  obtain ⟨b, hb, hvalid, _⟩ := Buffer.retrieve_spec hfits.validIn hlen
  have hstep : step w (.retrieve id len) = .ok (w.setTcp id { (w.conn id).tcp with inputBuffer := b }) := by
    simp only [step, hb, ok_bind]
    rfl
  exact Or.inr ⟨_, stage, hstep, h.setTcp ((h.accepted id).mp hacc) rfl
    (hfits.allows.of_eq rfl rfl fun hs => hs) hvalid hfits.validOut⟩

theorem advances_push (h : Inv w stage) {i : Nat} (hen : Enabled w (.push i)) : Advances w (.push i) := by
  have hget : w.inflight[i]? = some (w.inflight.get ⟨i, hen⟩) := List.getElem?_eq_getElem hen
  generalize w.inflight.get ⟨i, hen⟩ = lf at hget
  obtain ⟨l, f⟩ := lf
  obtain ⟨htoken, id, g, rfl, hat⟩ := h.inflight l f (List.mem_of_getElem? hget)
  have hinv : Inv (w.queueInLoop l false (.conn id g)) stage := by
    refine h.queue htoken ?_
    rintro i ⟨⟩
    exact hat
  have hpush := hinv.setInflight (w.inflight.eraseIdx i)
    fun l f hf => hinv.inflight l f (List.mem_of_mem_eraseIdx hf)
  exact Or.inr ⟨_, stage, by simp only [step, hget], hpush⟩

/-! ### A new connection -/

/-- The part of `newConnection` before `ConnectEstablished` is run or queued. -/
def World.accept (w : World) (ioLoop : Nat) (sockfd : Int) : World :=
  let conn : Connection :=
    { tcp := TcpConnection.new sockfd w.highWaterMark w.writeCompleteCallback w.highWaterMarkCallback
      name := toString w.nextConnId
      loop := ioLoop }
  World.record { w with
    connections := Function.update w.connections conn.name (some w.nextConnId)
    conn := Function.update w.conn w.nextConnId conn
    nextConnId := w.nextConnId + 1 } w.nextConnId [.accepted]

@[simp] theorem accept_conn_self (w : World) (l : Nat) (sockfd : Int) : (w.accept l sockfd).conn w.nextConnId =
    { tcp := TcpConnection.new sockfd w.highWaterMark w.writeCompleteCallback w.highWaterMarkCallback
      name := toString w.nextConnId
      loop := l } := Function.update_self _ _ _

theorem accept_conn_of_ne {w : World} {id : Nat} (hne : id ≠ w.nextConnId) (l : Nat) (sockfd : Int) :
    (w.accept l sockfd).conn id = w.conn id := Function.update_of_ne hne _ _

theorem newConnection_eq (w : World) (sockfd : Int) : ∃ ioLoop nextLoopIdx, w.newConnection 0 sockfd =
    let v := World.accept { w with nextLoopIdx } ioLoop sockfd
    if 0 = ioLoop then v.runFunctor 0 (fun _ => 0) (.ok 0) (.conn w.nextConnId .connectEstablished)
    else .ok (v.queueInLoop ioLoop false (.conn w.nextConnId .connectEstablished)) := by
  by_cases hzero : w.ioLoops = 0
  · refine ⟨0, w.nextLoopIdx, ?_⟩
    simp only [World.newConnection, World.getNextLoop, check_pos, ok_bind, if_pos hzero]
    rfl
  · refine ⟨w.nextLoopIdx + 1, (w.nextLoopIdx + 1) % w.ioLoops, ?_⟩
    simp only [World.newConnection, World.getNextLoop, check_pos, ok_bind, if_neg hzero]
    rfl

theorem Inv.accept (h : Inv w stage) (l : Nat) {sockfd : Int} (hfd : ∀ id, (stage id).Live → w.fd id ≠ sockfd) :
    Around (w.accept l sockfd) (Function.update stage w.nextConnId .created) w.nextConnId ∧
      (w.accept l sockfd).life w.nextConnId = [.accepted] ∧
      ∀ l', ((w.accept l sockfd).loops l').tokens w.nextConnId = [] := by
  have habsent := h.fresh _ (Nat.le_refl w.nextConnId)
  have hne : ∀ id, stage id ≠ .absent → id ≠ w.nextConnId := by
    rintro id hid rfl
    exact hid habsent
  have hfits := h.fits w.nextConnId
  rw [habsent] at hfits
  have hself : (w.accept l sockfd).fd w.nextConnId = sockfd := by
    rw [World.fd, accept_conn_self]
    rfl
  have hold : ∀ id, id ≠ w.nextConnId → (w.accept l sockfd).fd id = w.fd id := fun id hid => by
    rw [World.fd, accept_conn_of_ne hid, World.fd]
  have hat : ∀ l' id, At w stage l' id →
      At (w.accept l sockfd) (Function.update stage w.nextConnId .created) l' id := by
    intro l' id hid
    refine ⟨?_, ?_⟩
    · rw [Function.update_of_ne (hne id hid.1)]
      exact hid.1
    · rw [accept_conn_of_ne (hne id hid.1)]
      exact hid.2
  -- no connection that is live has the new descriptor, on whichever loop
  have hfree : ∀ l', (w.loops l').poller.channels sockfd = none ∧ (w.loops l').poller.epollSet sockfd = none :=
    fun l' => h.others l' sockfd fun id hid _ => hfd id hid
  refine ⟨⟨⟨fun id hid => ?_, fun name id hname => ?_, fun id id' hid hid' heq => ?_, fun l' fd hnone => ?_,
    fun l' id hid => hat l' id (h.located l' id hid), fun l' f hf => ?_⟩, fun id hid => ?_, ?_⟩, ?_, hfits.tokens⟩
  · have hlt : w.nextConnId < id := hid
    rw [Function.update_of_ne hlt.ne']
    exact h.fresh id hlt.le
  · change Function.update w.connections _ _ _ = _ at hname
    rw [Function.update_apply] at hname
    split_ifs at hname with heq
    · cases hname
      exact heq
    · exact h.names name id hname
  · by_cases hid0 : id = w.nextConnId <;> by_cases hid1 : id' = w.nextConnId
    · rw [hid0, hid1]
    · rw [Function.update_of_ne hid1] at hid'
      rw [hid0, hself, hold id' hid1] at heq
      exact absurd heq.symm (hfd id' hid')
    · rw [Function.update_of_ne hid0] at hid
      rw [hid1, hself, hold id hid0] at heq
      exact absurd heq (hfd id hid)
    · rw [Function.update_of_ne hid0] at hid
      rw [Function.update_of_ne hid1] at hid'
      rw [hold id hid0, hold id' hid1] at heq
      exact h.distinct id id' hid hid' heq
  · refine h.others l' fd fun id hid hl => ?_
    have hid0 := hne id hid.1
    rw [← hold id hid0]
    refine hnone id ?_ ?_
    · rwa [Function.update_of_ne hid0]
    · rwa [accept_conn_of_ne hid0]
  · obtain ⟨htoken, id, g, rfl, hid⟩ := h.inflight l' f hf
    exact ⟨htoken, id, g, rfl, hat l' id hid⟩
  · obtain ⟨⟨hconn, hname, hallows, hin, hout, hreg⟩, hlife, htokens⟩ := h.fits id
    rw [Function.update_of_ne hid]
    have hsame := accept_conn_of_ne hid l sockfd
    rw [← hsame] at hname hallows hin hout hreg hlife htokens
    refine ⟨⟨?_, hname, hallows, hin, hout, hreg⟩, ?_, htokens⟩
    · exact (Function.update_of_ne (fun he => hid (toString_inj he)) _ _).trans hconn
    · rw [World.accept, life_record, if_neg hid, List.append_nil]
      exact hlife
  · rw [Function.update_self]
    refine ⟨Function.update_self _ _ _, fun _ => ?_, ?_, ?_, ?_, fun _ => ?_⟩
    · rw [accept_conn_self]
    · rw [accept_conn_self]
      exact ⟨rfl, Or.inl rfl⟩
    · rw [accept_conn_self]
      exact Buffer.new_valid (by decide)
    · rw [accept_conn_self]
      exact Buffer.new_valid (by decide)
    · rw [accept_conn_self]
      exact ⟨rfl, hfree l⟩
  · rw [World.accept, life_record, if_pos rfl]
    exact congrArg (· ++ [Life.accepted]) hfits.life

theorem advances_newConnection (h : Inv w stage) {sockfd : Int}
    (hfd : ∀ id, (stage id).Live → w.fd id ≠ sockfd) :
    ∃ w' stage', w.newConnection 0 sockfd = .ok w' ∧ Inv w' stage' := by
  obtain ⟨ioLoop, nextLoopIdx, heq⟩ := newConnection_eq w sockfd
  have hnext : Inv { w with nextLoopIdx } stage := by
    refine ⟨{ h.toBase with }, fun id => ?_⟩
    obtain ⟨⟨hconn, hname, hallows, hin, hout, hreg⟩, hlife, htokens⟩ := h.fits id
    exact ⟨⟨hconn, hname, hallows, hin, hout, hreg⟩, hlife, htokens⟩
  obtain ⟨haround, hlife, htokens⟩ := hnext.accept ioLoop hfd
  have hst : Function.update stage w.nextConnId .created w.nextConnId = .created := Function.update_self _ _ _
  have hl : ((World.accept { w with nextLoopIdx } ioLoop sockfd).conn w.nextConnId).loop = ioLoop :=
    congrArg Connection.loop (accept_conn_self { w with nextLoopIdx } ioLoop sockfd)
  rw [heq]
  by_cases hzero : 0 = ioLoop
  · obtain ⟨w', hrun, hinv⟩ := haround.establish (hl.trans hzero.symm) hst hlife htokens (fun _ => 0) (.ok 0)
    exact ⟨w', _, (if_pos hzero).trans hrun, hinv⟩
  · refine ⟨_, _, if_neg hzero, haround.queue false ?_ htokens (fun l' => ?_) (fun id' hne => token_of_ne hne _) ?_⟩
    · rw [hlife]
      exact (congrArg (Stage.lives _) hst).symm
    · rw [hst, hl]
      simp only [Functor.token, if_true, Option.toList_some, Stage.tokens]
    · rintro i ⟨⟩
      refine ⟨?_, hl⟩
      rw [hst]
      simp

/-! ### The loops' own steps -/

theorem Inv.phase (h : Inv w stage) {l : Nat} (f : EventLoop Active Functor → EventLoop Active Functor)
    (hqueued : (f (w.loops l).loop).queued = (w.loops l).loop.queued)
    (hactive : ∀ i ∈ activeConns (f (w.loops l).loop).phase,
      i ∈ activeConns (w.loops l).loop.phase ∨ At w stage l i) :
    Inv (w.onLoop l fun s => { s with loop := f s.loop }) stage := by
  refine h.onLoop rfl (fun id => ?_) fun i hi => ?_
  · simp only [LoopState.tokens, hqueued]
  · simp only [LoopState.mentions, hqueued, List.mem_append] at hi ⊢
    rcases hi with hi | hi
    · exact Or.inl (Or.inl hi)
    · exact (hactive i hi).imp_left Or.inr

/-- What `poll` reports of a connection is on the connection's own loop. -/
theorem Inv.reported (h : Inv w stage) {l id : Nat} {revents : Events} (hr : Reported w l (.channel id revents)) :
    At w stage l id := by
  obtain ⟨mask, hset, _⟩ := hr
  by_cases hex : ∃ i, (stage i).Live ∧ (w.conn i).loop = l ∧ w.fd i = w.fd id
  · obtain ⟨i, hlive, rfl, hfd⟩ := hex
    have hreg := ((h.fits i).registered hlive).epollSet_eq
    change (w.loops _).poller.epollSet (w.fd i) = _ at hreg
    rw [hfd] at hreg
    change (w.loops _).poller.epollSet (w.fd id) = _ at hset
    rw [hset] at hreg
    split_ifs at hreg
    cases hreg
    exact ⟨hlive.1, rfl⟩
  · have hnone := (h.others l (w.fd id) fun i hlive hl hfd => hex ⟨i, hlive, hl, hfd⟩).2
    exact absurd (hset.symm.trans hnone) nofun

theorem activeConns_cons {p : Phase Active Functor} {a : Active} {active : List Active}
    (hphase : p = .dispatching (a :: active)) : ∀ i ∈ active.filterMap Active.channel?, i ∈ activeConns p := by
  intro i hi
  subst hphase
  obtain ⟨b, hb, hi⟩ := List.mem_filterMap.mp hi
  exact List.mem_filterMap.mpr ⟨b, List.mem_cons_of_mem _ hb, hi⟩

theorem advances_handleEvent (h : Inv w stage) {l : Nat} (hen : Enabled w (.handleEvent l)) :
    Advances w (.handleEvent l) := by
  obtain ⟨_, hcallbacks, hnext⟩ := hen
  obtain ⟨a, ha⟩ := Option.ne_none_iff_exists'.mp hnext
  obtain ⟨active, hphase⟩ := Phase.nextChannel_eq_some.mp ha
  have hmove : Inv (w.onLoop l fun s => { s with loop := s.loop.dispatch active }) stage :=
    h.phase (fun e => e.dispatch active) (EventLoop.queued_dispatching hphase).symm
      fun i hi => Or.inl (activeConns_cons hphase i hi)
  cases a with
  | channel id revents =>
      have hat : At w stage l id := by
        refine h.located l id ?_
        simp [LoopState.mentions, hphase, activeConns, Active.channel?]
      have hcall : Inv ((w.onLoop l fun s => { s with loop := s.loop.dispatch active }).onLoop l
          fun s => { s with callbacks := (OulaServer.handleEvent revents).map (id, ·) }) stage := by
        refine hmove.onLoop rfl (fun _ => rfl) fun i hi => ?_
        simp only [LoopState.mentions, List.mem_append, List.map_map] at hi ⊢
        rcases hi with (((hi | hi) | hi) | hi) | hi
        · exact Or.inl (Or.inl (Or.inl (Or.inl (Or.inl hi))))
        · obtain ⟨cb, _, rfl⟩ := List.mem_map.mp hi
          exact Or.inr hat
        · exact Or.inl (Or.inl (Or.inl (Or.inr hi)))
        · exact Or.inl (Or.inl (Or.inr hi))
        · exact Or.inl (Or.inr hi)
      rw [onLoop_onLoop] at hcall
      exact Or.inr ⟨_, stage, by simp only [step, hphase], hcall⟩
  | acceptor => exact Or.inr ⟨_, stage, by simp only [step, hphase], hmove⟩
  | timerfd => exact Or.inr ⟨_, stage, by simp only [step, hphase], hmove⟩
  | other => exact Or.inr ⟨_, stage, by simp only [step, hphase], hmove⟩

theorem advances_acceptor (h : Inv w stage) {sockfd : Option Int} (hen : Enabled w (.acceptor sockfd)) :
    Advances w (.acceptor sockfd) := by
  obtain ⟨_, _, hnext, _, hfresh⟩ := hen
  obtain ⟨active, hphase⟩ := Phase.nextChannel_eq_some.mp hnext
  have hmove : Inv (w.onLoop 0 fun s => { s with loop := s.loop.dispatch active }) stage :=
    h.phase (fun e => e.dispatch active) (EventLoop.queued_dispatching hphase).symm
      fun i hi => Or.inl (activeConns_cons hphase i hi)
  cases sockfd with
  | none => exact Or.inr ⟨_, stage, by simp only [step, hphase], hmove⟩
  | some sockfd =>
      have hfd : ∀ id, (stage id).Live → w.fd id ≠ sockfd := by
        intro id hlive
        refine hfresh sockfd rfl id ?_ ((h.accepted id).mpr hlive.1) ?_
        · by_contra hge
          exact hlive.1 (h.fresh id (Nat.le_of_not_lt hge))
        · rw [(h.fits id).life, Stage.unregistered_mem_lives]
          exact hlive.2
      obtain ⟨w', stage', hnew, hinv⟩ := advances_newConnection hmove hfd
      exact Or.inr ⟨w', stage', by simp only [step, hphase, hnew], hinv⟩

theorem step_advances (h : Inv w stage) {e : Event} (hen : Enabled w e) : Advances w e := by
  cases e with
  | enterLoop l =>
      exact Or.inr ⟨_, stage, rfl,
        h.phase EventLoop.enterPoll (EventLoop.queued_beforeLoop hen.2).symm nofun⟩
  | poll l active =>
      obtain ⟨hphase, _, hready⟩ := hen
      refine Or.inr ⟨_, stage, rfl,
        h.phase (fun e => e.dispatch active) (EventLoop.queued_polling hphase).symm fun i hi => Or.inr ?_⟩
      obtain ⟨a, ha, hi⟩ := List.mem_filterMap.mp hi
      cases a <;> cases hi
      exact h.reported (hready _ ha)
  | handleEvent l => exact advances_handleEvent h hen
  | acceptor sockfd => exact advances_acceptor h hen
  | handleCallback l r wr => exact advances_handleCallback h hen
  | timerCallback l i => exact advances_timerCallback h hen
  | swapFunctors l =>
      obtain ⟨_, _, hphase⟩ := hen
      refine Or.inr ⟨_, stage, rfl, h.phase EventLoop.swapFunctors ?_ nofun⟩
      rw [EventLoop.queued_swapFunctors, EventLoop.queued_dispatching hphase]
  | callFunctor l mem wr => exact advances_callFunctor h hen
  | endFunctors l =>
      exact Or.inr ⟨_, stage, rfl,
        h.phase EventLoop.endFunctors (EventLoop.queued_calling hen.2).symm nofun⟩
  | userCode l => exact advances_userCode h hen
  | call thread id c mem wr => exact advances_call h hen
  | retrieve id len => exact advances_retrieve h hen
  | push i => exact advances_push h hen

/-- **The server's connections.** Connections are never freed in this system: a functor that holds a bare `this`
finds the connection as it was left, and the runs in which it would find it freed are those of
`OulaServer.TcpServer.Usage`. For every number of loops and in every run of them, over all batches of ready
channels, answers of the sockets, functors, timers, user code and calls from other threads: no assertion but
that of `handleClose` fails; `connections_` holds exactly the accepted connections that
`removeConnectionInLoop` has not removed, under distinct names; every connection is established, closed,
removed and destroyed at most once and in this order, `ConnectEstablished` and `ConnectDestoryed` on its own
loop; and `Channel::remove` finds the channel registered and without interest. -/
theorem bookkeeping_of_along (ioLoops highWaterMark : Nat) (writeComplete highWater : Bool) (es : List Event)
    (hes : Along step Enabled (init ioLoops highWaterMark writeComplete highWater) es) :
    Holds step ClosedTwice (fun w e w' => Bookkeeping w' ∧ RemovesRegistered w e)
      (init ioLoops highWaterMark writeComplete highWater) es := by
  refine holds_of_along (I := fun w => ∃ stage, Inv w stage) (fun w e h hen => ?_)
    ⟨_, init_inv ioLoops highWaterMark writeComplete highWater⟩ hes
  obtain ⟨stage, h⟩ := h
  rcases step_advances h hen with herr | ⟨w', stage', hstep, hinv⟩
  · refine ⟨fun a ha => ?_, fun w' hw' => ?_⟩
    · rw [herr] at ha
      cases ha
      rfl
    · rw [herr] at hw'
      cases hw'
  · exact StepHolds.of_ok hstep ⟨⟨hinv.bookkeeping, h.removesRegistered e⟩, stage', hinv⟩

/-- The server accepts a connection for its other loop; it comes up there, reads, is closed from another thread,
removed on the server's loop and destroyed on its own. -/
def acceptAndClose : List Event :=
  [.enterLoop 0, .poll 0 [.acceptor], .acceptor (some 7), .swapFunctors 0, .endFunctors 0, .enterLoop 1,
    .poll 1 [.other], .handleEvent 1, .swapFunctors 1, .callFunctor 1 (fun _ => 0) (.ok 0), .userCode 1,
    .call none 1 .forceClose (fun _ => 0) (.ok 0), .push 0, .endFunctors 1, .poll 1 [.channel 1 pollIn, .other],
    .handleEvent 1, .handleCallback 1 none (.ok 0), .userCode 1, .handleEvent 1, .swapFunctors 1,
    .callFunctor 1 (fun _ => 0) (.ok 0), .userCode 1, .userCode 1, .endFunctors 1, .poll 0 [.other], .handleEvent 0,
    .swapFunctors 0, .callFunctor 0 (fun _ => 0) (.ok 0), .endFunctors 0, .poll 1 [.other], .handleEvent 1,
    .swapFunctors 1, .callFunctor 1 (fun _ => 0) (.ok 0), .userCode 1]

theorem bookkeeping_of_along_run :
    Holds step ClosedTwice (fun w e w' => Bookkeeping w' ∧ RemovesRegistered w e) (init 1 64 true true) acceptAndClose :=
  bookkeeping_of_along 1 64 true true acceptAndClose (by decide +kernel)

end TcpServer

end OulaServer
