import OulaServer.TcpServer.Stages
import Std.Data.String.ToNat

/-!
# From one stage to the next

What the functions of a connection and of the server do to the stages. `Inv.quiet` and `Inv.deliver` leave
them; `Inv.close`, `Around.establish`, `Around.destroy`, `Around.removal`, `Around.queueRemoval` and
`Around.unregister` take one connection to its next stage. The last five use up a token of the connection, so
they start from `Around`, where it has none.
-/

namespace OulaServer

namespace TcpServer

open TcpConnection EpollPoller World

variable {w : World} {stage : Nat → Stage}

theorem toString_inj {m n : Nat} (h : toString m = toString n) : m = n := Nat.repr_injective h

/-! ### Functions that leave the stage -/

theorem Stage.Allows.of_eq {st : Stage} {c c' : TcpConnection} (h : st.Allows c) (hstate : c'.state = c.state)
    (hevents : c'.channel.events = c.channel.events)
    (hstatus : c.channel.inPollerStatus ≠ .kInit → c'.channel.inPollerStatus ≠ .kInit) : st.Allows c' := by
  cases st <;> simp only [Allows, Closed, Open, hstate, hevents] at h ⊢
  · exact h
  · exact ⟨h.1, h.2.1, hstatus h.2.2⟩
  · exact ⟨h.1, h.2.1, hstatus h.2.2⟩
  · exact ⟨h.1, h.2.1, hstatus h.2.2⟩
  · exact ⟨h.1, h.2.1, hstatus h.2.2⟩
  · exact ⟨h.1, h.2.1, hstatus h.2.2⟩
  · exact h

/-- Only a connection that is not closed declares its write interest, and never redundantly. -/
theorem Stage.Allows.declare {st : Stage} {c : TcpConnection} {op : ChannelOp} (h : st.Allows c) (hst : st ≠ .absent)
    (hop : op = .enableWriteEvent ∧ c.state ≠ .kDisconnected ∨
      op = .disableWriteEvent ∧ c.channel.isEnableWriteEvent = true) :
    st.Live ∧ (op.apply c.channel.events ≠ kNoneEvent ∨ c.channel.events ≠ kNoneEvent) ∧
      ∀ c' : TcpConnection, c'.state = c.state → c'.channel.events = op.apply c.channel.events →
        c'.channel.inPollerStatus ≠ .kInit → st.Allows c' := by
  have hclosed : c.state = .kDisconnected → c.channel.events = kNoneEvent → False := by
    intro hstate hnone
    rcases hop with ⟨_, hne⟩ | ⟨_, hw⟩
    · exact hne hstate
    · rw [Channel.isEnableWriteEvent, hnone] at hw
      revert hw
      decide
  have hwrite : op = .enableWriteEvent ∨ op = .disableWriteEvent ∧ c.channel.events ≠ kNoneEvent := by
    rcases hop with ⟨rfl, _⟩ | ⟨rfl, hw⟩
    · exact Or.inl rfl
    · refine Or.inr ⟨rfl, fun hnone => ?_⟩
      rw [Channel.isEnableWriteEvent, hnone] at hw
      revert hw
      decide
  cases st with
  | absent => exact absurd rfl hst
  | created =>
      obtain ⟨hstate, hevents⟩ := h
      have hkey : (op.apply c.channel.events ≠ kNoneEvent ∨ c.channel.events ≠ kNoneEvent) ∧
          (op.apply c.channel.events = kNoneEvent ∨ op.apply c.channel.events = kWriteEvent) := by
        rcases hevents with he | he <;> rcases hwrite with rfl | ⟨rfl, hne⟩ <;> rw [he] at *
        · decide
        · exact absurd rfl hne
        · decide
        · decide
      exact ⟨by decide, hkey.1, fun c' hstate' he _ => ⟨hstate'.trans hstate, he ▸ hkey.2⟩⟩
  | up =>
      obtain ⟨hopen, hevents, _⟩ := h
      have hkey : c.channel.events ≠ kNoneEvent ∧ (op.apply c.channel.events = kReadEvent ∨
          op.apply c.channel.events = kReadEvent ||| kWriteEvent) := by
        rcases hevents with he | he <;> rcases hwrite with rfl | ⟨rfl, _⟩ <;> rw [he] <;> decide
      refine ⟨by decide, Or.inr hkey.1, fun c' hstate' he hstatus => ⟨?_, he ▸ hkey.2, hstatus⟩⟩
      rwa [Open, hstate']
  | closing => exact (hclosed h.1 h.2.1).elim
  | removing => exact (hclosed h.1 h.2.1).elim
  | destroying => exact (hclosed h.1 h.2.1).elim
  | unregistering => exact (hclosed h.1 h.2.1).elim
  | gone => exact (hclosed h.1 h.2).elim

theorem Inv.quiet (h : Inv w stage) {l id : Nat} (hat : At w stage l id) {o : Outcome}
    (hq : Quiet (w.conn id).tcp o) : ∃ w', w.finish l id o = .ok w' ∧ Inv w' stage := by
  obtain ⟨hid, rfl⟩ := hat
  have hfits := h.fits id
  have hmoves : Moves w stage (w.conn id).loop id o (stage id) := by
    refine ⟨rfl, hid, hid, Iff.rfl, rfl, ?_, hq.functors, ?_, fun l' => ?_, fun channel hevents hstatus => ?_, ?_, hq.valid⟩
    · rcases hq.update with hkeep | ⟨op, before, after, hdecl⟩
      · exact Or.inl hkeep
      · obtain ⟨hlive, hne, _⟩ := hfits.allows.declare hid hdecl.op
        exact Or.inr ⟨hlive, _, before, after, hne, hdecl.channel, hdecl.effects, hdecl.before, hdecl.after⟩
    · rw [closedBy, hq.rest, if_neg (by simp), List.append_nil, hfits.life]
    · rw [← hfits.tokens l', hq.rest]
      split_ifs with hl
      · rw [hl]
        rfl
      · rfl
    · rcases hq.update with ⟨hkeep, hno⟩ | ⟨op, before, after, hdecl⟩
      · exact hfits.allows.of_eq hq.state (hevents.trans (congrArg _ hkeep)) fun hs => hstatus (Or.inl hs)
      · obtain ⟨_, _, hallows⟩ := hfits.allows.declare hid hdecl.op
        refine hallows _ hq.state (hevents.trans (congrArg _ hdecl.channel)) (hstatus (Or.inr ?_))
        simp [hdecl.effects]
    · rw [hq.inputBuffer]
      exact hfits.validIn
  obtain ⟨w', hfinish, hinv⟩ := hmoves.finish (h.around id)
  rw [Function.update_eq_self] at hinv
  exact ⟨w', hfinish, hinv⟩

theorem Inv.deliver (h : Inv w stage) {l id : Nat} (hat : At w stage l id) {b : Buffer} (hb : b.Valid) :
    ∃ w', w.finish l id { conn := { (w.conn id).tcp with inputBuffer := b }, rest := [.messageCallback] } = .ok w' ∧
      Inv w' stage := by
  obtain ⟨hid, rfl⟩ := hat
  have hfits := h.fits id
  have hmoves : Moves w stage (w.conn id).loop id
      { conn := { (w.conn id).tcp with inputBuffer := b }, rest := [.messageCallback] } (stage id) := by
    refine ⟨rfl, hid, hid, Iff.rfl, rfl, Or.inl ⟨rfl, nofun⟩, nofun, ?_, fun l' => ?_,
      fun channel hevents hstatus => ?_, hb, hfits.validOut⟩
    · rw [closedBy, if_neg (by simp), List.append_nil, hfits.life]
    · rw [← hfits.tokens l']
      split_ifs with hl
      · rw [hl]
        rfl
      · rfl
    · exact hfits.allows.of_eq rfl hevents fun hs => hstatus (Or.inl hs)
  obtain ⟨w', hfinish, hinv⟩ := hmoves.finish (h.around id)
  rw [Function.update_eq_self] at hinv
  exact ⟨w', hfinish, hinv⟩

/-! ### Functions that take the connection to its next stage -/

/-- Without a token of the connection, its tokens are those of what is left of the function that ran. -/
theorem tokens_none {id : Nat} (h : ∀ l', (w.loops l').tokens id = []) (left : List Token) (l l' : Nat) :
    (if l' = l then (w.loops l).loop.queued.filterMap (Functor.token id) ++
      (left ++ (w.loops l).rest.filterMap (restToken id)) else (w.loops l').tokens id) = if l' = l then left else [] := by
  obtain ⟨hq, hr⟩ := List.append_eq_nil_iff.mp (h l)
  rw [hq, hr, h l', List.append_nil, List.nil_append]

theorem runFunctor_conn {l id : Nat} {mem : Memory} {wr : WriteResult} {f : ConnFunctor} {o : Outcome}
    (hl : (w.conn id).loop = l) (ho : (w.conn id).tcp.runFunctor true mem wr f = .ok o) :
    w.runFunctor l mem wr (.conn id f) = (w.record id (ranLife l f)).finish l id o := by
  subst hl
  simp only [World.runFunctor, decide_true, ho, ok_bind]

theorem Stage.Allows.up_of_open {st : Stage} {c : TcpConnection} (h : st.Allows c) (hst : st ≠ .absent)
    (hopen : c.Open) : st = .up := by
  have hne : c.state ≠ .kConnecting ∧ c.state ≠ .kDisconnected := by
    rcases hopen with hs | hs <;> rw [hs] <;> decide
  cases st with
  | absent => exact absurd rfl hst
  | created => exact absurd h.1 hne.1
  | up => rfl
  | closing => exact absurd h.1 hne.2
  | removing => exact absurd h.1 hne.2
  | destroying => exact absurd h.1 hne.2
  | unregistering => exact absurd h.1 hne.2
  | gone => exact absurd h.1 hne.2

theorem Inv.close (h : Inv w stage) {l id : Nat} (hat : At w stage l id) {c : TcpConnection} (hopen : c.Open)
    {b : Buffer} (hb : b.Valid) (hc : c = { (w.conn id).tcp with inputBuffer := b }) :
    ∃ w', w.finish l id { conn := c.closed, effects := [.update], rest := [.connectionDown, .closeCallback] } = .ok w' ∧
      Inv w' (Function.update stage id .closing) := by
  subst hc
  obtain ⟨hid, rfl⟩ := hat
  have hfits := h.fits id
  have hup := hfits.allows.up_of_open hid hopen
  rw [hup] at hfits
  obtain ⟨_, hevents, _⟩ := hfits.allows
  have hmoves : Moves w stage (w.conn id).loop id
      { conn := TcpConnection.closed { (w.conn id).tcp with inputBuffer := b }, effects := [.update],
        rest := [.connectionDown, .closeCallback] } .closing := by
    refine ⟨rfl, hid, nofun, ?_, by rw [hup]; rfl, Or.inr ⟨?_, kNoneEvent, [], [], Or.inr ?_, rfl, rfl, nofun, nofun⟩,
      nofun, ?_, fun l' => ?_, fun channel he hstatus => ⟨rfl, he, hstatus (Or.inr List.mem_cons_self)⟩, hb,
      hfits.validOut⟩
    · rw [hup]
      decide
    · rw [hup]
      decide
    · rcases hevents with he | he <;> rw [he] <;> decide
    · rw [hfits.life]
      rfl
    · refine (tokens_none (fun l' => hfits.tokens l') _ _ l').trans ?_
      simp [restToken, Stage.tokens, List.filterMap_cons]
  exact hmoves.finish (h.around id)

theorem Around.establish {l id : Nat} (h : Around w stage id) (hl : (w.conn id).loop = l) (hst : stage id = .created)
    (hlife : w.life id = [.accepted]) (htokens : ∀ l', (w.loops l').tokens id = []) (mem : Memory) (wr : WriteResult) :
    ∃ w', w.runFunctor l mem wr (.conn id .connectEstablished) = .ok w' ∧
      Inv w' (Function.update stage id .up) := by
  subst hl
  have hstands := h.stands
  rw [hst] at hstands
  obtain ⟨hstate, hevents⟩ := hstands.allows
  have harg : ChannelOp.enableReadEvent.apply (w.conn id).tcp.channel.events ≠ kNoneEvent ∧
      (ChannelOp.enableReadEvent.apply (w.conn id).tcp.channel.events = kReadEvent ∨
        ChannelOp.enableReadEvent.apply (w.conn id).tcp.channel.events = kReadEvent ||| kWriteEvent) := by
    rcases hevents with he | he <;> rw [he] <;> decide
  have hmoves : Moves (w.record id [.established (w.conn id).loop]) stage (w.conn id).loop id
      { conn := { (w.conn id).tcp with state := .kConnected,
                                       channel := (w.conn id).tcp.channel.declare .enableReadEvent }
        effects := [.update]
        rest := [.connectionUp] } .up := by
    refine ⟨rfl, by rw [hst]; nofun, nofun, ?_, by rw [hst]; rfl,
      Or.inr ⟨?_, _, [], [], Or.inl harg.1, rfl, rfl, nofun, nofun⟩, nofun, ?_, fun l' => ?_,
      fun channel he hstatus => ⟨Or.inl rfl, ?_, hstatus (Or.inr List.mem_cons_self)⟩, hstands.validIn, hstands.validOut⟩
    · rw [hst]
      decide
    · rw [hst]
      decide
    · rw [life_record, if_pos rfl, hlife]
      rfl
    · refine (tokens_none (w := w.record id [.established (w.conn id).loop]) htokens [] _ l').trans ?_
      rw [ite_self]
      rfl
    · rw [he]
      exact harg.2
  rw [runFunctor_conn (f := .connectEstablished) rfl (connectEstablished_ok hstate)]
  exact hmoves.finish (h.record _)

theorem Around.destroy {l id : Nat} (h : Around w stage id) (hl : (w.conn id).loop = l) (hst : stage id = .destroying)
    (hlife : w.life id = Stage.lives l .destroying) (htokens : ∀ l', (w.loops l').tokens id = []) (mem : Memory)
    (wr : WriteResult) :
    ∃ w', w.runFunctor l mem wr (.conn id .connectDestoryed) = .ok w' ∧
      Inv w' (Function.update stage id .unregistering) := by
  subst hl
  have hstands := h.stands
  rw [hst] at hstands
  obtain ⟨hstate, hevents, hstatus⟩ := hstands.allows
  have hmoves : Moves (w.record id [.destroyed (w.conn id).loop]) stage (w.conn id).loop id
      { conn := (w.conn id).tcp, rest := [.remove] } .unregistering := by
    refine ⟨rfl, by rw [hst]; decide, by decide, ?_, by rw [hst]; rfl, Or.inl ⟨rfl, by simp⟩, by simp, ?_,
      fun l' => ?_, fun channel he hs => ⟨hstate, he.trans hevents, hs (Or.inl hstatus)⟩, hstands.validIn, hstands.validOut⟩
    · rw [hst]
      decide
    · rw [life_record, if_pos rfl, hlife]
      rfl
    · refine (tokens_none (w := w.record id [.destroyed (w.conn id).loop]) htokens _ _ l').trans ?_
      simp [restToken, Stage.tokens]
  have hne : (w.conn id).tcp.state ≠ .kConnected := by
    rw [hstate]
    decide
  rw [runFunctor_conn (f := .connectDestoryed) rfl (connectDestoryed_keep hne)]
  exact hmoves.finish (h.record _)

/-! ### Queueing a token -/

theorem tokens_queue (s : LoopState) (b : Bool) (f : Functor) (id : Nat) :
    LoopState.tokens { s with loop := s.loop.queueInLoop b f } id =
      s.loop.queued.filterMap (Functor.token id) ++ (f.token id).toList ++ s.rest.filterMap (restToken id) := by
  simp only [LoopState.tokens, EventLoop.queued_queueInLoop, List.filterMap_append]
  cases h : f.token id <;> simp [h]

theorem mentions_queue (s : LoopState) (b : Bool) (f : Functor) :
    ∀ i ∈ LoopState.mentions { s with loop := s.loop.queueInLoop b f }, i ∈ s.mentions ∨ f.conn? = some i := by
  intro i hi
  simp only [LoopState.mentions, EventLoop.queued_queueInLoop, EventLoop.queueInLoop_phase, List.filterMap_append,
    List.mem_append] at hi ⊢
  rcases hi with ((((hi | hi) | hi) | hi) | hi) | hi
  · simp only [hi, true_or]
  · obtain ⟨f', hf', hconn⟩ := List.mem_filterMap.mp hi
    rw [List.mem_singleton.mp hf'] at hconn
    exact Or.inr hconn
  · simp only [hi, true_or, or_true]
  · simp only [hi, true_or, or_true]
  · simp only [hi, true_or, or_true]
  · simp only [hi, true_or, or_true]

theorem Inv.queue (h : Inv w stage) {l : Nat} {b : Bool} {f : Functor} (htoken : ∀ id, f.token id = none)
    (hconn : ∀ i, f.conn? = some i → At w stage l i) : Inv (w.queueInLoop l b f) stage := by
  refine h.onLoop rfl (fun id => ?_) fun i hi => (mentions_queue _ b f i hi).imp_right (hconn i)
  rw [tokens_queue, htoken id]
  simp [LoopState.tokens]

theorem Around.queue {l id : Nat} (h : Around w stage id) (b : Bool) {f : Functor}
    (hlife : w.life id = (stage id).lives (w.conn id).loop) (htokens : ∀ l', (w.loops l').tokens id = [])
    (htoken : ∀ l', (if l' = l then (f.token id).toList else []) = (stage id).tokens (w.conn id).loop l')
    (hother : ∀ id', id' ≠ id → f.token id' = none) (hconn : ∀ i, f.conn? = some i → At w stage l i) :
    Inv (w.queueInLoop l b f) stage := by
  have haround : Around (w.queueInLoop l b f) stage id := by
    refine h.onLoop rfl (fun id' hne => ?_) fun i hi => (mentions_queue _ b f i hi).imp_right (hconn i)
    rw [tokens_queue, hother id' hne]
    simp [LoopState.tokens]
  refine ⟨haround.toBase, fun id' => ?_⟩
  by_cases hne : id' = id
  · subst hne
    refine ⟨haround.stands, hlife, fun l' => ?_⟩
    rw [World.queueInLoop, onLoop_loops]
    refine Eq.trans ?_ (htoken l')
    split_ifs
    · obtain ⟨hq, hr⟩ := List.append_eq_nil_iff.mp (htokens l)
      rw [tokens_queue, hq, hr, List.append_nil, List.nil_append]
    · exact htokens l'
  · exact haround.fits id' hne

theorem Around.restage {id : Nat} {st : Stage} (h : Around w stage id) (connections : String → Option Nat)
    (hlive : (stage id).Live) (hst : st.Live)
    (hnames : ∀ name i, connections name = some i → w.connections name = some i)
    (hkeep : ∀ i, i ≠ id → connections (toString i) = w.connections (toString i))
    (hstands : Stands { w with connections } id st) :
    Around { w with connections } (Function.update stage id st) id := by
  have hlive' : ∀ i, (Function.update stage id st i).Live ↔ (stage i).Live := by
    intro i
    by_cases hi : i = id
    · subst hi
      simpa using iff_of_true hst hlive
    · rw [Function.update_of_ne hi]
  have hat : ∀ l i, At w stage l i → At { w with connections } (Function.update stage id st) l i := by
    intro l i hi
    refine ⟨?_, hi.2⟩
    by_cases hne : i = id
    · subst hne
      simpa using hst.1
    · rw [Function.update_of_ne hne]
      exact hi.1
  refine ⟨⟨fun i hi => ?_, fun name i hname => h.names name i (hnames name i hname), fun i i' hi hi' => ?_,
    fun l fd hnone => ?_, fun l i hi => ?_, fun l f hf => ?_⟩, fun i hne => ?_, ?_⟩
  · have hne : i ≠ id := by
      rintro rfl
      exact hlive.1 (h.fresh i hi)
    rw [Function.update_of_ne hne]
    exact h.fresh i hi
  · exact h.distinct i i' ((hlive' i).mp hi) ((hlive' i').mp hi')
  · exact h.others l fd fun i hi => hnone i ((hlive' i).mpr hi)
  · exact hat l i (h.located l i hi)
  · obtain ⟨htoken, i, g, rfl, hi⟩ := h.inflight l f hf
    exact ⟨htoken, i, g, rfl, hat l i hi⟩
  · rw [Function.update_of_ne hne]
    obtain ⟨⟨hconn, hname, hallows, hin, hout, hreg⟩, hlife, htokens⟩ := h.fits i hne
    exact ⟨⟨(hkeep i hne).trans hconn, hname, hallows, hin, hout, hreg⟩, hlife, htokens⟩
  · rw [Function.update_self]
    exact hstands

theorem Around.removal {id : Nat} (h : Around w stage id) (hst : stage id = .closing ∨ stage id = .removing)
    (hlife : w.life id = [.accepted, .established (w.conn id).loop, .closed])
    (htokens : ∀ l', (w.loops l').tokens id = []) :
    ∃ w', w.removeConnectionInLoop 0 id = .ok w' ∧ Inv w' (Function.update stage id .destroying) := by
  have hlive : (stage id).Live := by rcases hst with hst | hst <;> rw [hst] <;> decide
  have hlisted : (stage id).listed = true := by rcases hst with hst | hst <;> rw [hst] <;> rfl
  have hclosed : Stage.Closed (w.conn id).tcp := by
    have hallows := h.stands.allows
    rcases hst with hst | hst <;> rwa [hst] at hallows
  have hname := h.stands.name hlive.1
  have hfound : w.connections (toString id) = some id := by
    rw [h.stands.connections, if_pos hlisted]
  have hremove : w.removeConnectionInLoop 0 id = .ok
      ((World.record { w with connections := Function.update w.connections (toString id) none } id
        [.removed]).queueInLoop (w.conn id).loop (0 = (w.conn id).loop) (.conn id .connectDestoryed)) := by
    simp only [World.removeConnectionInLoop, hname, hfound, Option.isSome_some, check_pos, ok_bind]
    rfl
  -- without its entry in `connections_` the connection stands as one that is to be destroyed
  have haround : Around { w with connections := Function.update w.connections (toString id) none }
      (Function.update stage id .destroying) id := by
    refine h.restage _ hlive (by decide) (fun name i hi => ?_) (fun i hne => ?_) ⟨Function.update_self _ _ _,
      fun _ => hname, hclosed, h.stands.validIn, h.stands.validOut, fun _ => h.stands.registered hlive⟩
    · rw [Function.update_apply] at hi
      split_ifs at hi
      exact hi
    · exact Function.update_of_ne (fun he => hne (toString_inj he)) _ _
  refine ⟨_, hremove, (haround.record [.removed]).queue _ ?_ htokens (fun l' => ?_) (fun id' hne => token_of_ne hne _) ?_⟩
  · rw [life_record, if_pos rfl, Function.update_self]
    exact (congrArg (· ++ _) hlife).trans rfl
  · simp only [Functor.token, if_true, Option.toList_some, Function.update_self, Stage.tokens]
    rfl
  · rintro i ⟨⟩
    exact ⟨by simp, rfl⟩

theorem Around.queueRemoval {id : Nat} (h : Around w stage id) (hst : stage id = .closing)
    (hlife : w.life id = [.accepted, .established (w.conn id).loop, .closed])
    (htokens : ∀ l', (w.loops l').tokens id = []) :
    Inv (w.queueInLoop 0 false (.removeConnectionInLoop id)) (Function.update stage id .removing) := by
  have hlive : (stage id).Live := by
    rw [hst]
    decide
  have hstands := h.stands
  have haround : Around w (Function.update stage id .removing) id := by
    refine h.restage w.connections hlive (by decide) (fun _ _ hi => hi) (fun _ _ => rfl) ?_
    rw [hst] at hstands
    exact ⟨hstands.connections, fun _ => hstands.name nofun, hstands.allows, hstands.validIn, hstands.validOut,
      fun _ => hstands.registered (by decide)⟩
  refine haround.queue _ ?_ htokens (fun l' => ?_) (fun id' hne => ?_) nofun
  · rw [Function.update_self]
    exact hlife
  · simp [Functor.token, Stage.tokens]
  · simp [Functor.token, hne.symm]

theorem Around.unregister {l id : Nat} (h : Around w stage id) (hl : (w.conn id).loop = l)
    (hst : stage id = .unregistering) (hlife : w.life id = Stage.lives l .unregistering)
    (htokens : ∀ l', (w.loops l').tokens id = []) :
    ∃ w', w.runRest l id .remove = .ok w' ∧ Inv w' (Function.update stage id .gone) := by
  subst hl
  have hstands := h.stands
  rw [hst] at hstands
  obtain ⟨hstate, hnone, hstatus⟩ := hstands.allows
  have hlive : (stage id).Live := by
    rw [hst]
    decide
  have hreg := hstands.registered (by decide)
  obtain ⟨p, c, hremove, hreg', hfd, hnone', hinit, hsame⟩ := removeChannel_spec hreg (hreg.found hstatus) hnone
  simp only [Registered, hinit, hfd] at hreg'
  have hrun : w.runRest (w.conn id).loop id .remove = .ok (w.acted id { w.loops (w.conn id).loop with poller := p }
      { (w.conn id).tcp with channel := c } [.unregistered]) := by
    simp only [World.runRest, check_pos, ok_bind, hremove]
    rfl
  have hpoller : PollerKept stage id .gone (w.fd id) (w.loops (w.conn id).loop).poller p :=
    Or.inr ⟨hlive, hsame, Or.inr hreg'.2⟩
  refine ⟨_, hrun, h.toBase.acted hlive.1 (by decide) (fun hgone => absurd rfl hgone.2) hfd hpoller (fun i hi => Or.inl hi),
    fun id' => ?_⟩
  by_cases hne : id' = id
  · subst hne
    rw [Function.update_self]
    refine ⟨⟨hstands.connections, fun _ => ?_, ?_, ?_, ?_, fun hgone => absurd rfl hgone.2⟩, ?_, fun l => ?_⟩
    · rw [acted_conn_self]
      exact hstands.name (by decide)
    · rw [acted_conn_self]
      exact ⟨hstate, hnone'⟩
    · rw [acted_conn_self]
      exact hstands.validIn
    · rw [acted_conn_self]
      exact hstands.validOut
    · rw [acted_life, if_pos rfl, acted_loop, hlife]
      rfl
    · rw [acted_loops]
      split_ifs
      · exact htokens _
      · exact htokens l
  · rw [Function.update_of_ne hne]
    exact (h.fits id' hne).acted_of_ne h.toBase hne rfl hpoller

/-- The token that is used up was the connection's only one. -/
theorem Inv.spend (h : Inv w stage) {l id : Nat} {f : LoopState → LoopState} {before after : List Token} {t : Token}
    (htoken : (w.loops l).tokens id = before ++ t :: after)
    (hspent : (f (w.loops l)).tokens id = before ++ after) : ∀ l', ((w.onLoop l f).loops l').tokens id = [] := by
  have hst := (h.fits id).tokens l
  rw [htoken] at hst
  obtain ⟨rfl, rfl, _⟩ := Stage.tokens_cases hst
  intro l'
  rw [onLoop_loops]
  split_ifs with hl
  · exact hspent
  · rw [(h.fits id).tokens l']
    exact Stage.tokens_elsewhere (by rw [← hst]; simp) hl

theorem record_nil (w : World) (id : Nat) : w.record id [] = w := by
  simp only [World.record, List.map_nil, List.append_nil]

end TcpServer

end OulaServer
