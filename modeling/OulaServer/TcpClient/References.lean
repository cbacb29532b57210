import OulaServer.TcpClient.Spec

/-!
# Who holds a client's connection

`Sound` says of a connection what keeps it alive. While it is open, the client holds it, or after the client was
destroyed a forced close of it is under way or user code has a copy (`Owned`). Once it is down, either its close
callback is still to be called, or `ConnectDestoryed` is on its way, or what is left of that is `Channel::remove`, and
each of these goes with a reference; after that its channel is not registered any more. A function of one connection
leaves what holds of the others (`Apart`).
-/

namespace OulaServer

namespace TcpClient

open Run TcpConnection EpollPoller World

/-! ### References -/

/-- A reference to the connection that is not one of user code. -/
def Held (w : World) (id : Nat) : Prop :=
  w.connection = some id ∨ (∃ f ∈ w.loop.queued ++ w.called ++ w.inflight, f.holds id = true) ∨
    .forceCloseInLoop id ∈ w.timers ++ w.expired

/-- A forced close of the connection is under way. -/
def Forced (w : World) (id : Nat) : Prop :=
  .conn id .forceCloseInLoop ∈ w.pending ∨ .conn id .addTimerInLoop ∈ w.pending ∨ .forceCloseInLoop id ∈ w.timers

instance (w : World) (id : Nat) : Decidable (Forced w id) := inferInstanceAs (Decidable (_ ∨ _ ∨ _))

/-- Some reference to the connection, maybe one of user code. -/
def Alive (w : World) (id : Nat) : Prop := Held w id ∨ 0 < w.copies id

variable {w w' : World} {id : Nat}

@[simp] theorem holds_conn (id : Nat) (f : ConnFunctor) : (Functor.conn id f).holds id = f.isShared := by
  simp [Functor.holds]

theorem Held.owners (h : Held w id) : 0 < w.owners id := by
  unfold World.owners
  rcases h with h | ⟨f, hf, hholds⟩ | h
  · rw [if_pos h]
    omega
  · have hpos : 0 < (w.loop.queued ++ w.called ++ w.inflight).countP (Functor.holds id) :=
      List.countP_pos_iff.mpr ⟨f, hf, hholds⟩
    omega
  · have hpos : 0 < (w.timers ++ w.expired).count (Timer.forceCloseInLoop id) := List.count_pos_iff.mpr h
    omega

theorem Alive.refs (h : Alive w id) : 0 < w.refs id :=
  h.elim (fun hh => Nat.add_pos_left hh.owners _) fun hc => Nat.add_pos_right _ hc

theorem Held.of_pending {f : ConnFunctor} (hf : .conn id f ∈ w.pending) (hshared : f.isShared = true) : Held w id := by
  refine Or.inr (Or.inl ⟨.conn id f, ?_, by rw [holds_conn, hshared]⟩)
  rcases List.mem_append.mp hf with hf | hf
  · exact List.mem_append_left _ (List.mem_append_left _ hf)
  · exact List.mem_append_right _ hf

theorem Held.of_called {f : ConnFunctor} (hf : .conn id f ∈ w.called) (hshared : f.isShared = true) : Held w id :=
  Or.inr (Or.inl ⟨.conn id f, List.mem_append_left _ (List.mem_append_right _ hf), by rw [holds_conn, hshared]⟩)

theorem Forced.held (h : Forced w id) : Held w id := by
  rcases h with h | h | h
  · exact .of_pending h rfl
  · exact .of_pending h rfl
  · exact Or.inr (Or.inr (List.mem_append_left _ h))

theorem Held.mono (h : Held w id) (hconnection : w.connection = some id → w'.connection = some id)
    (hfunctors : ∀ f ∈ w.loop.queued ++ w.called ++ w.inflight, f.holds id = true →
      f ∈ w'.loop.queued ++ w'.called ++ w'.inflight)
    (htimers : .forceCloseInLoop id ∈ w.timers ++ w.expired → .forceCloseInLoop id ∈ w'.timers ++ w'.expired) :
    Held w' id := by
  rcases h with h | ⟨f, hf, hholds⟩ | h
  · exact Or.inl (hconnection h)
  · exact Or.inr (Or.inl ⟨f, hfunctors f hf hholds, hholds⟩)
  · exact Or.inr (Or.inr (htimers h))

/-! ### One connection -/

/-- The close callbacks of the connection that are still to be called. -/
def closings (w : World) (id : Nat) : Nat := w.rest.count (id, .closeCallback)

/-- `ConnectDestoryed` of the connection is on its way. -/
def Destroying (w : World) (id : Nat) : Prop := .conn id .connectDestoryed ∈ w.pending

/-- `Channel::remove` of the connection is left of `ConnectDestoryed`. -/
def Removing (w : World) (id : Nat) : Prop := (id, .remove) ∈ w.rest

structure Sound (w : World) (id : Nat) : Prop where
  validIn : (w.conn id).tcp.inputBuffer.Valid
  validOut : (w.conn id).tcp.outputBuffer.Valid
  tracks : w.poller.Tracks (.conn id) (some (w.conn id).tcp.channel)
  state : (w.conn id).tcp.Open ∨ (w.conn id).tcp.state = .kDisconnected
  none : (w.conn id).tcp.state = .kDisconnected → (w.conn id).tcp.channel.events = kNoneEvent
  down : (w.conn id).tcp.state = .kDisconnected → 0 < closings w id ∨ Destroying w id ∨ Removing w id ∨
    (w.conn id).tcp.channel.inPollerStatus = .kInit
  once : closings w id ≤ 1
  closing : 0 < closings w id → (w.conn id).tcp.state = .kDisconnected ∧ Alive w id ∧
    ((w.conn id).closeCallback = .client → w.connection = some id)
  destroying : Destroying w id → (w.conn id).tcp.state = .kDisconnected
  removing : Removing w id → .conn id .connectDestoryed ∈ w.called
  current : w.connection = some id → (w.conn id).closeCallback = .client ∧
    ((w.conn id).tcp.Open ∨ 0 < closings w id)

/-- Who holds a connection that is open. -/
def Owned (w : World) (id : Nat) : Prop :=
  (w.conn id).tcp.Open → w.connection = some id ∨
    w.destroyed = true ∧ (w.conn id).closeCallback = .details ∧ (Forced w id ∨ 0 < w.copies id)

theorem not_open_of_down {c : TcpConnection} (h : c.state = .kDisconnected) : ¬ c.Open := by
  rintro (hs | hs) <;> rw [h] at hs <;> cases hs

theorem Sound.closings_open (h : Sound w id) (hopen : (w.conn id).tcp.Open) : closings w id = 0 := by
  by_contra hne
  exact not_open_of_down (h.closing (Nat.pos_of_ne_zero hne)).1 hopen

/-- A step that leaves the connection `id` alone. -/
structure Apart (w w' : World) (id : Nat) : Prop where
  conn : w'.conn id = w.conn id
  tracks : ∀ o, w.poller.Tracks (.conn id) o → w'.poller.Tracks (.conn id) o
  connection : w'.connection = some id ↔ w.connection = some id
  destroying : Destroying w' id ↔ Destroying w id
  closings : closings w' id = closings w id
  removing : Removing w' id ↔ Removing w id
  called : Removing w id → .conn id .connectDestoryed ∈ w.called → .conn id .connectDestoryed ∈ w'.called
  held : 0 < TcpClient.closings w id → Held w id → Held w' id
  copies : w'.copies id = w.copies id

theorem Apart.refl (w : World) (id : Nat) : Apart w w id :=
  ⟨rfl, fun _ h => h, Iff.rfl, Iff.rfl, rfl, Iff.rfl, fun _ h => h, fun _ h => h, rfl⟩

theorem Sound.apart (h : Sound w id) (ha : Apart w w' id) : Sound w' id := by
  obtain ⟨hconn, htracks, hconnection, hdestroying, hclosings, hremoving, hcalled, hheld, hcopies⟩ := ha
  refine ⟨?_, ?_, ?_, ?_, ?_, ?_, ?_, ?_, ?_, ?_, ?_⟩
  · rw [hconn]
    exact h.validIn
  · rw [hconn]
    exact h.validOut
  · rw [hconn]
    exact htracks _ h.tracks
  · rw [hconn]
    exact h.state
  · rw [hconn]
    exact h.none
  · rw [hconn, hclosings, hdestroying, hremoving]
    exact h.down
  · rw [hclosings]
    exact h.once
  · rw [hconn, hclosings]
    intro hpos
    obtain ⟨hdown, halive, hclient⟩ := h.closing hpos
    exact ⟨hdown, halive.imp (hheld hpos) fun hc => hcopies ▸ hc, fun hc => hconnection.mpr (hclient hc)⟩
  · rw [hconn, hdestroying]
    exact h.destroying
  · rw [hremoving]
    exact fun hr => hcalled hr (h.removing hr)
  · rw [hconn, hconnection, hclosings]
    exact h.current

theorem Owned.apart (h : Owned w id) (hconn : w'.conn id = w.conn id)
    (hconnection : w.connection = some id → w'.connection = some id) (hdestroyed : w'.destroyed = w.destroyed)
    (hcopies : w'.copies id = w.copies id) (hforced : Forced w id → Forced w' id) : Owned w' id := by
  intro hopen
  rw [hconn] at hopen ⊢
  rw [hdestroyed, hcopies]
  exact (h hopen).imp hconnection fun ⟨hd, hc, hf⟩ => ⟨hd, hc, hf.imp_left hforced⟩

/-! ### The invariant -/

/-- The loop has to do with the connection. -/
def Mentioned (w : World) (id : Nat) : Prop :=
  (∃ f, .conn id f ∈ w.pending) ∨ (∃ cb, (.conn id, cb) ∈ w.callbacks) ∨ (∃ r, (id, r) ∈ w.rest) ∨
    .forceCloseInLoop id ∈ w.timers ∨
    (∃ active revents, w.loop.phase = .dispatching active ∧ .channel (.conn id) revents ∈ active) ∨
    w.connection = some id

structure Base (w : World) : Prop where
  sound : ∀ id, Made w id → Sound w id
  unmade : ∀ id, ¬ Made w id → w.poller.Unregistered (.conn id)
  mentioned : ∀ id, Mentioned w id → Made w id
  connected : w.connection ≠ none → w.connector.state = .kConnected
  destroyed : w.destroyed = true → w.connection = none

/-- A step that leaves the client sound, and every connection that was owned. -/
abbrev Keeps (w w' : World) : Prop := Base w' ∧ ∀ id, Owned w id → Owned w' id

/-- A step after which the loop has to do with no connection that was not made. -/
structure Fewer (w w' : World) (id : Nat) : Prop where
  pending : ∀ f, .conn id f ∈ w'.pending → .conn id f ∈ w.pending ∨ Made w id
  callbacks : ∀ cb, (.conn id, cb) ∈ w'.callbacks → (.conn id, cb) ∈ w.callbacks ∨ Made w id
  rest : ∀ r, (id, r) ∈ w'.rest → (id, r) ∈ w.rest ∨ Made w id
  timers : .forceCloseInLoop id ∈ w'.timers → .forceCloseInLoop id ∈ w.timers ∨ Made w id
  active : ∀ active revents, w'.loop.phase = .dispatching active → .channel (.conn id) revents ∈ active →
    (∃ active revents, w.loop.phase = .dispatching active ∧ .channel (.conn id) revents ∈ active) ∨ Made w id
  connection : w'.connection = some id → w.connection = some id ∨ Made w id

theorem Fewer.refl (w : World) (id : Nat) : Fewer w w id :=
  ⟨fun _ => Or.inl, fun _ => Or.inl, fun _ => Or.inl, Or.inl,
    fun active revents h hmem => Or.inl ⟨active, revents, h, hmem⟩, Or.inl⟩

theorem Base.fewer (h : Base w) (hf : Fewer w w' id) (hm : Mentioned w' id) : Made w id := by
  rcases hm with ⟨f, hm⟩ | ⟨cb, hm⟩ | ⟨r, hm⟩ | hm | ⟨active, revents, hphase, hm⟩ | hm
  · exact (hf.pending f hm).elim (fun hm => h.mentioned id (Or.inl ⟨f, hm⟩)) fun hm => hm
  · exact (hf.callbacks cb hm).elim (fun hm => h.mentioned id (Or.inr (Or.inl ⟨cb, hm⟩))) fun hm => hm
  · exact (hf.rest r hm).elim (fun hm => h.mentioned id (Or.inr (Or.inr (Or.inl ⟨r, hm⟩)))) fun hm => hm
  · exact (hf.timers hm).elim (fun hm => h.mentioned id (Or.inr (Or.inr (Or.inr (Or.inl hm))))) fun hm => hm
  · exact (hf.active active revents hphase hm).elim
      (fun hm => h.mentioned id (Or.inr (Or.inr (Or.inr (Or.inr (Or.inl hm)))))) fun hm => hm
  · exact (hf.connection hm).elim (fun hm => h.mentioned id (Or.inr (Or.inr (Or.inr (Or.inr (Or.inr hm)))))) fun hm => hm

theorem Base.touch (h : Base w) (id : Nat) (hid : w'.nextConnId = w.nextConnId) (hsound : Made w id → Sound w' id)
    (hapart : ∀ id', id' ≠ id → Apart w w' id')
    (hunmade : ¬ Made w id → w.poller.Unregistered (.conn id) → w'.poller.Unregistered (.conn id))
    (hfewer : ∀ id', Fewer w w' id') (hconnected : w'.connection ≠ none → w'.connector.state = .kConnected)
    (hdestroyed : w'.destroyed = true → w'.connection = none) : Base w' := by
  have hmade : ∀ id', Made w' id' ↔ Made w id' := fun id' => by rw [Made, Made, hid]
  refine ⟨fun id' hm => ?_, fun id' hm => ?_, fun id' hm => ?_, hconnected, hdestroyed⟩
  · rw [hmade] at hm
    by_cases hne : id' = id
    · subst hne
      exact hsound hm
    · exact (h.sound id' hm).apart (hapart id' hne)
  · rw [hmade] at hm
    by_cases hne : id' = id
    · subst hne
      exact hunmade hm (h.unmade id' hm)
    · exact ((hapart id' hne).tracks none ((h.unmade id' hm).tracks none)).unregistered nofun
  · rw [hmade]
    exact h.fewer (hfewer id') hm

theorem Base.apart (h : Base w) (hid : w'.nextConnId = w.nextConnId) (hapart : ∀ id, Apart w w' id)
    (hfewer : ∀ id, Fewer w w' id) (hconnected : w'.connection ≠ none → w'.connector.state = .kConnected)
    (hdestroyed : w'.destroyed = true → w'.connection = none) : Base w' :=
  h.touch 0 hid (fun hm => (h.sound 0 hm).apart (hapart 0)) (fun id' _ => hapart id')
    (fun _ hun => ((hapart 0).tracks none (hun.tracks none)).unregistered nofun) hfewer hconnected hdestroyed

/-! ### A function of a connection -/

variable {c : TcpConnection} {o : Outcome} {tcp : TcpConnection} {channel before : Channel}
  {loop : EventLoop Active Functor} {poller : EpollPoller Owner} {timers : List Timer} {effects : List Effect}
  {rest : List Rest}

@[simp] theorem acted_conn_self : (w.acted id tcp loop poller timers rest).conn id = { w.conn id with tcp } :=
  Function.update_self _ _ _

theorem acted_conn_of_ne {id' : Nat} (hne : id' ≠ id) :
    (w.acted id tcp loop poller timers rest).conn id' = w.conn id' :=
  Function.update_of_ne hne _ _

theorem closings_acted (id' : Nat) : closings (w.acted id tcp loop poller timers rest) id' =
    (if id' = id then rest.count .closeCallback else 0) + closings w id' := by
  have hcount : (rest.map (id, ·)).count (id', Rest.closeCallback) =
      if id' = id then rest.count .closeCallback else 0 := by
    induction rest with
    | nil => simp
    | cons r rest ih =>
        rw [List.map_cons, List.count_cons, ih, List.count_cons]
        by_cases hne : id' = id
        · subst hne
          simp
        · have hne' : id ≠ id' := Ne.symm hne
          simp [hne, hne']
  unfold closings
  change List.count _ (rest.map (id, ·) ++ w.rest) = _
  rw [List.count_append, hcount]

theorem mem_acted_rest {id' : Nat} {r : Rest} : (id', r) ∈ (w.acted id tcp loop poller timers rest).rest ↔
    id' = id ∧ r ∈ rest ∨ (id', r) ∈ w.rest := by
  change (id', r) ∈ rest.map (id, ·) ++ w.rest ↔ _
  rw [List.mem_append, List.mem_map]
  constructor
  · rintro (⟨r', hr', heq⟩ | hmem)
    · cases heq
      exact Or.inl ⟨rfl, hr'⟩
    · exact Or.inr hmem
  · rintro (⟨rfl, hr⟩ | hmem)
    · exact Or.inl ⟨r, hr, rfl⟩
    · exact Or.inr hmem

namespace Acts

variable (h : Acts w id before effects channel loop poller timers)
include h

theorem mem_pending {f : Functor} : f ∈ (w.acted id tcp loop poller timers rest).pending ↔
    f ∈ w.pending ∨ ∃ g ∈ functors effects, f = .conn id g := by
  change f ∈ loop.queued ++ w.inflight ↔ _
  rw [h.queued, pending]
  simp only [List.mem_append, List.mem_map]
  constructor
  · rintro ((hf | ⟨g, hg, rfl⟩) | hf)
    · exact Or.inl (Or.inl hf)
    · exact Or.inr ⟨g, hg, rfl⟩
    · exact Or.inl (Or.inr hf)
  · rintro ((hf | hf) | ⟨g, hg, rfl⟩)
    · exact Or.inl (Or.inl hf)
    · exact Or.inr hf
    · exact Or.inl (Or.inr ⟨g, hg, rfl⟩)

theorem mem_timers {t : Timer} (ht : t ∈ w.timers) : t ∈ (w.acted id tcp loop poller timers rest).timers := by
  change t ∈ timers
  rw [h.timers]
  exact List.mem_append_left _ ht

theorem held {id' : Nat} (hh : Held w id') : Held (w.acted id tcp loop poller timers rest) id' := by
  refine hh.mono (fun hc => hc) (fun f hf _ => ?_) fun ht => ?_
  · change f ∈ loop.queued ++ w.called ++ w.inflight
    rw [h.queued]
    simp only [List.mem_append] at hf ⊢
    tauto
  · rcases List.mem_append.mp ht with ht | ht
    · exact List.mem_append_left _ (h.mem_timers ht)
    · exact List.mem_append_right _ ht

theorem forced {id' : Nat} (hf : Forced w id') : Forced (w.acted id tcp loop poller timers rest) id' := by
  rcases hf with hf | hf | hf
  · exact Or.inl (h.mem_pending.mpr (Or.inl hf))
  · exact Or.inr (Or.inl (h.mem_pending.mpr (Or.inl hf)))
  · exact Or.inr (Or.inr (h.mem_timers hf))

theorem apart {id' : Nat} (hne : id' ≠ id) : Apart w (w.acted id tcp loop poller timers rest) id' where
  conn := acted_conn_of_ne hne
  tracks := h.others (.conn id') (fun he => hne (Owner.conn.inj he))
  connection := Iff.rfl
  destroying := by
    refine h.mem_pending.trans ⟨fun hd => hd.resolve_right ?_, Or.inl⟩
    rintro ⟨g, _, heq⟩
    cases heq
    exact hne rfl
  closings := by rw [closings_acted, if_neg hne, Nat.zero_add]
  removing := by
    refine mem_acted_rest.trans ⟨fun hr => hr.resolve_left fun hr => hne hr.1, Or.inr⟩
  called _ hc := hc
  held _ hh := h.held hh
  copies := rfl

theorem fewer (hmade : Made w id) (id' : Nat) : Fewer w (w.acted id tcp loop poller timers rest) id' where
  pending f hf := by
    rcases h.mem_pending.mp hf with hf | ⟨g, _, heq⟩
    · exact Or.inl hf
    · cases heq
      exact Or.inr hmade
  callbacks _ := Or.inl
  rest r hr := by
    rcases mem_acted_rest.mp hr with ⟨rfl, _⟩ | hr
    · exact Or.inr hmade
    · exact Or.inl hr
  timers ht := by
    change _ ∈ timers at ht
    rw [h.timers] at ht
    rcases List.mem_append.mp ht with ht | ht
    · exact Or.inl ht
    · cases mem_timersOf ht
      exact Or.inr hmade
  active active revents hphase hmem := by
    change loop.phase = _ at hphase
    exact Or.inl ⟨active, revents, h.phase.symm.trans hphase, hmem⟩
  connection := Or.inl

/-- The step lemma of a function of the connection `id`, which leaves it sound. -/
theorem base (hbase : Base w) (hmade : Made w id) (hsound : Sound (w.acted id tcp loop poller timers rest) id) :
    Base (w.acted id tcp loop poller timers rest) :=
  hbase.touch id rfl (fun _ => hsound) (fun _ hne => h.apart hne) (fun hno => absurd hmade hno) (h.fewer hmade)
    hbase.connected hbase.destroyed

end Acts

theorem open_congr {c c' : TcpConnection} (h : c'.state = c.state) : c'.Open ↔ c.Open := by
  unfold Open
  rw [h]

theorem Base.calm (h : Base w) (hmade : Made w id) (hcalm : Calm (w.conn id).tcp o) (hok : w.finish id o = .ok w') :
    Keeps w w' := by
  obtain ⟨channel, loop, poller, timers, rfl, hacts⟩ := finish_ok hok
  have hs := h.sound id hmade
  have hclosings : closings (w.acted id { o.conn with channel } loop poller timers o.rest) id = closings w id := by
    have hzero : o.rest.count .closeCallback = 0 :=
      List.count_eq_zero.mpr fun hmem => nomatch hcalm.rest _ hmem
    rw [closings_acted, if_pos rfl, hzero, Nat.zero_add]
  have hremoving : Removing (w.acted id { o.conn with channel } loop poller timers o.rest) id ↔ Removing w id := by
    refine mem_acted_rest.trans ⟨fun hr => hr.resolve_left fun hr => ?_, Or.inr⟩
    cases hcalm.rest _ hr.2
  have hdestroying : Destroying (w.acted id { o.conn with channel } loop poller timers o.rest) id ↔
      Destroying w id := by
    refine hacts.mem_pending.trans ⟨fun hd => hd.resolve_right ?_, Or.inl⟩
    rintro ⟨g, hg, heq⟩
    cases heq
    rcases hcalm.functors _ hg with hu | ⟨_, hu⟩ <;> cases hu
  have hopen : { o.conn with channel }.Open ↔ (w.conn id).tcp.Open := open_congr hcalm.state
  -- a connection that is down keeps its channel
  have hkept : (w.conn id).tcp.state = .kDisconnected → channel = (w.conn id).tcp.channel := by
    intro hdown
    obtain ⟨hchannel, hno⟩ := hcalm.down hdown (hs.none hdown)
    exact (hacts.kept hno).trans hchannel
  refine ⟨hacts.base h hmade ⟨?_, ?_, ?_, ?_, ?_, ?_, ?_, ?_, ?_, ?_, ?_⟩, fun id' ho => ?_⟩
  · rw [acted_conn_self]
    exact hcalm.validIn
  · rw [acted_conn_self]
    exact hcalm.validOut
  · rw [acted_conn_self]
    exact hacts.tracks (hs.tracks.congr hcalm.fd hcalm.status)
  · rw [acted_conn_self]
    exact hs.state.imp hopen.mpr fun hdown => hcalm.state.trans hdown
  · rw [acted_conn_self]
    intro hdown
    have hdown' := hcalm.state.symm.trans hdown
    change channel.events = _
    rw [hkept hdown']
    exact hs.none hdown'
  · rw [acted_conn_self, hclosings, hdestroying, hremoving]
    intro hdown
    have hdown' := hcalm.state.symm.trans hdown
    change _ ∨ _ ∨ _ ∨ channel.inPollerStatus = _
    rw [hkept hdown']
    exact hs.down hdown'
  · rw [hclosings]
    exact hs.once
  · rw [acted_conn_self, hclosings]
    intro hpos
    obtain ⟨hdown, halive, hclient⟩ := hs.closing hpos
    exact ⟨hcalm.state.trans hdown, halive.imp_left hacts.held, hclient⟩
  · rw [acted_conn_self, hdestroying]
    exact fun hd => hcalm.state.trans (hs.destroying hd)
  · rw [hremoving]
    exact hs.removing
  · rw [acted_conn_self, hclosings]
    exact fun hc => (hs.current hc).imp_right fun hor => hor.imp_left hopen.mpr
  · by_cases hne : id' = id
    · subst hne
      intro hop
      rw [acted_conn_self] at hop ⊢
      exact (ho (hopen.mp hop)).imp_right fun ⟨hd, hc, hf⟩ => ⟨hd, hc, hf.imp_left hacts.forced⟩
    · exact ho.apart (acted_conn_of_ne hne) (fun hc => hc) rfl rfl hacts.forced

theorem Base.closes (h : Base w) (hmade : Made w id) (hopen : (w.conn id).tcp.Open) (halive : Alive w id)
    (hclient : (w.conn id).closeCallback = .client → w.connection = some id) {b : Buffer} (hb : b.Valid)
    (hok : w.finish id (closes (w.conn id).tcp b) = .ok w') :
    Base w' ∧ ∀ id', (id' ≠ id → Owned w id') → Owned w' id' := by
  obtain ⟨channel, loop, poller, timers, rfl, hacts⟩ := finish_ok hok
  have hs := h.sound id hmade
  have hzero := hs.closings_open hopen
  have hclosings : closings (w.acted id { (closes (w.conn id).tcp b).conn with channel } loop poller timers
      (closes (w.conn id).tcp b).rest) id = 1 := by
    rw [closings_acted, if_pos rfl, hzero]
    rfl
  refine ⟨hacts.base h hmade ⟨?_, ?_, ?_, ?_, ?_, ?_, ?_, ?_, ?_, ?_, ?_⟩, fun id' ho => ?_⟩
  · rw [acted_conn_self]
    exact hb
  · rw [acted_conn_self]
    exact hs.validOut
  · rw [acted_conn_self]
    exact hacts.tracks (hs.tracks.congr rfl rfl)
  · rw [acted_conn_self]
    exact Or.inr rfl
  · rw [acted_conn_self]
    exact fun _ => hacts.events
  · rw [hclosings]
    exact fun _ => Or.inl Nat.one_pos
  · rw [hclosings]
  · rw [acted_conn_self]
    exact fun _ => ⟨rfl, halive.imp_left hacts.held, hclient⟩
  · rw [acted_conn_self]
    exact fun _ => rfl
  · intro hr
    refine hs.removing ((mem_acted_rest.mp hr).resolve_left ?_)
    rintro ⟨_, hmem⟩
    simp [TcpClient.closes] at hmem
  · rw [acted_conn_self, hclosings]
    exact fun hc => ⟨(hs.current hc).1, Or.inr Nat.one_pos⟩
  · by_cases hne : id' = id
    · subst hne
      intro hop
      rw [acted_conn_self] at hop
      exact absurd hop (not_open_of_down rfl)
    · exact (ho hne).apart (acted_conn_of_ne hne) (fun hc => hc) rfl rfl hacts.forced

end TcpClient

end OulaServer
