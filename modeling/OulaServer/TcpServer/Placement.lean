import Mathlib.Data.Int.CardIntervalMod
import OulaServer.TcpServer.Bookkeeping

/-!
# Where the connections of a server are

`getNextLoop` hands out the pool's loops in turn. `Placement` is what that is about: the loops, the next of them, and
the loop of each connection accepted so far. Only `newConnection` changes it, and it does so by `Placement.accept`
(`step_placement`), which keeps `Placement.Fair`: the connections are on the loops whose turn it was, so no loop of the
pool was given more than one connection more than another (`balanced_of_along`).

Where a connection is decides where it is to be looked for at rest: when no loop has a functor or the rest of a function
left, each connection accepted is up and in `connections_` and its loop's poller, or it is gone from both
(`settled_of_along`).
-/

namespace OulaServer

namespace TcpServer

open TcpConnection EpollPoller World Run

/-- The connections accepted so far, in the order in which they were. -/
def World.accepted (w : World) : List Nat := w.log.filterMap fun e => if e.2 = .accepted then some e.1 else none

/-- How many of them `getNextLoop` put on the loop `l`. -/
def World.load (w : World) (l : Nat) : Nat := w.accepted.countP fun id => (w.conn id).loop = l

/-! ### The round robin -/

/-- What `getNextLoop` decides, and what it depends on. -/
structure Placement where
  ioLoops : Nat
  nextLoopIdx : Nat
  nextConnId : Nat
  loop : Nat → Nat
  accepted : List Nat

namespace Placement

/-- A connection is accepted and put on the next loop. -/
def accept (p : Placement) : Placement where
  ioLoops := p.ioLoops
  nextLoopIdx := if p.ioLoops = 0 then p.nextLoopIdx else (p.nextLoopIdx + 1) % p.ioLoops
  nextConnId := p.nextConnId + 1
  loop := Function.update p.loop p.nextConnId (if p.ioLoops = 0 then 0 else p.nextLoopIdx + 1)
  accepted := p.accepted ++ [p.nextConnId]

/-- The loop whose turn it is for the connection `id`. -/
def turn (ioLoops id : Nat) : Nat := if ioLoops = 0 then 0 else (id - 1) % ioLoops + 1

/-- Connections `1` to `n` were put on the loops whose turn it was, of `m` in the pool. -/
structure Fair (m : Nat) (p : Placement) (n : Nat) : Prop where
  ioLoops : p.ioLoops = m
  nextLoopIdx : 0 < m → p.nextLoopIdx = n % m
  nextConnId : p.nextConnId = n + 1
  loop : ∀ id ∈ p.accepted, p.loop id = turn m id
  accepted : p.accepted = List.range' 1 n

theorem Fair.accept {m : Nat} {p : Placement} {n : Nat} (h : p.Fair m n) : p.accept.Fair m (n + 1) where
  ioLoops := h.ioLoops
  nextLoopIdx hpos := by
    show (if p.ioLoops = 0 then p.nextLoopIdx else (p.nextLoopIdx + 1) % p.ioLoops) = _
    rw [h.ioLoops, if_neg hpos.ne', h.nextLoopIdx hpos, Nat.mod_add_mod]
  nextConnId := congrArg (· + 1) h.nextConnId
  loop id hid := by
    show Function.update p.loop p.nextConnId _ id = _
    rw [h.ioLoops, h.nextConnId]
    rcases List.mem_append.mp hid with hold | hnew
    · have hlt : id < n + 1 := by
        rw [h.accepted, List.mem_range'_1] at hold
        omega
      rw [Function.update_of_ne hlt.ne]
      exact h.loop id hold
    · rw [List.mem_singleton.mp hnew, h.nextConnId, Function.update_self, turn]
      split_ifs with hzero
      · rfl
      · rw [h.nextLoopIdx (Nat.pos_of_ne_zero hzero), Nat.add_sub_cancel]
  accepted := by
    show p.accepted ++ [p.nextConnId] = _
    rw [h.accepted, h.nextConnId, List.range'_1_concat, Nat.add_comm]

theorem countP_turn {ioLoops l : Nat} (hl : 1 ≤ l) (hle : l ≤ ioLoops) (n : Nat) :
    (List.range' 1 n).countP (fun id => turn ioLoops id = l) =
      n / ioLoops + if l - 1 < n % ioLoops then 1 else 0 := by
  have hpos : 0 < ioLoops := by omega
  have hcount := Nat.count_modEq_card n hpos (l - 1)
  rw [Nat.mod_eq_of_lt (by omega : l - 1 < ioLoops), Nat.count_eq_card_filter_range] at hcount
  rw [← hcount, List.range'_eq_map_range, List.countP_map, List.countP_eq_length_filter]
  show _ = ((Finset.range n).filter _).card
  rw [Finset.card_def, Finset.filter_val, Finset.range_val, Multiset.range, Multiset.filter_coe, Multiset.coe_card]
  congr 2
  funext i
  have hlt : l - 1 < ioLoops := by omega
  simp only [Function.comp_apply, turn, if_neg hpos.ne', Nat.add_sub_cancel_left, Nat.ModEq, Nat.mod_eq_of_lt hlt]
  congr 1
  apply propext
  omega

end Placement

/-! ### Only `newConnection` decides -/

def World.placement (w : World) : Placement :=
  ⟨w.ioLoops, w.nextLoopIdx, w.nextConnId, fun id => (w.conn id).loop, w.accepted⟩

variable {w w' : World}

theorem placement_setTcp (w : World) (id : Nat) (tcp : TcpConnection) : (w.setTcp id tcp).placement = w.placement := by
  have hloop : (fun id' => ((w.setTcp id tcp).conn id').loop) = fun id' => (w.conn id').loop := by
    funext id'
    simp only [setTcp, Function.update_apply]
    split_ifs with hid
    · rw [hid]
    · rfl
  simp only [placement, hloop]
  rfl

theorem placement_record (w : World) (id : Nat) {lives : List Life} (h : .accepted ∉ lives) :
    (w.record id lives).placement = w.placement := by
  have haccepted : (w.record id lives).accepted = w.accepted := by
    have hnone : (lives.map (id, ·)).filterMap (fun e => if e.2 = .accepted then some e.1 else none) = [] := by
      rw [List.filterMap_eq_nil_iff]
      intro e he
      obtain ⟨life, hlife, rfl⟩ := List.mem_map.mp he
      refine if_neg fun heq => h ?_
      rwa [show life = .accepted from heq] at hlife
    show (w.log ++ lives.map (id, ·)).filterMap _ = _
    rw [List.filterMap_append, hnone, List.append_nil]
    rfl
  simp only [placement, haccepted]
  rfl

theorem perform_placement {l id : Nat} {e : Effect} (hok : w.perform l id e = .ok w') :
    w'.placement = w.placement := by
  cases e with
  | update =>
      obtain ⟨_, _, hok⟩ := bind_eq_ok.mp hok
      obtain ⟨⟨p, c⟩, _, hok⟩ := bind_eq_ok.mp hok
      cases hok
      exact placement_setTcp _ id _
  | queueInLoop f =>
      cases hok
      rfl
  | addTimer =>
      cases hok
      rfl
  | write bytes =>
      cases hok
      rfl
  | shutdownWrite =>
      cases hok
      rfl

theorem effects_placement {l id : Nat} {effects : List Effect}
    (hok : effects.foldlM (World.perform l id) w = .ok w') : w'.placement = w.placement := by
  induction effects generalizing w with
  | nil =>
      cases hok
      rfl
  | cons e effects ih =>
      obtain ⟨w₁, hone, hok⟩ := bind_eq_ok.mp ((List.foldlM_cons ..).symm.trans hok)
      exact (ih hok).trans (perform_placement hone)

theorem finish_placement {l id : Nat} {o : Outcome} (hok : w.finish l id o = .ok w') :
    w'.placement = w.placement := by
  obtain ⟨w₁, heffects, hok⟩ := bind_eq_ok.mp hok
  cases hok
  have hclosed : Life.accepted ∉ closedBy o := by
    unfold closedBy
    split_ifs <;> simp
  exact (placement_record _ id hclosed).trans ((effects_placement heffects).trans (placement_setTcp w id o.conn))

theorem removeConnectionInLoop_placement {l id : Nat} (hok : w.removeConnectionInLoop l id = .ok w') :
    w'.placement = w.placement := by
  obtain ⟨_, _, hok⟩ := bind_eq_ok.mp hok
  obtain ⟨_, _, hok⟩ := bind_eq_ok.mp hok
  cases hok
  let w₁ : World := { w with connections := Function.update w.connections (w.conn id).name none }
  show (w₁.record id [.removed]).placement = w₁.placement
  exact placement_record w₁ id (by simp)

theorem runFunctor_placement {l : Nat} {mem : Memory} {wr : WriteResult} {f : Functor}
    (hok : w.runFunctor l mem wr f = .ok w') : w'.placement = w.placement := by
  cases f with
  | removeConnectionInLoop id => exact removeConnectionInLoop_placement hok
  | conn id f =>
      obtain ⟨o, _, hok⟩ := bind_eq_ok.mp hok
      have hran : Life.accepted ∉ ranLife l f := by cases f <;> simp [ranLife]
      exact (finish_placement hok).trans (placement_record w id hran)

theorem runRest_placement {l id : Nat} {r : Rest} (hok : w.runRest l id r = .ok w') :
    w'.placement = w.placement := by
  cases r with
  | closeCallback =>
      change w.removeConnection l id = .ok w' at hok
      unfold World.removeConnection at hok
      split at hok
      · exact removeConnectionInLoop_placement hok
      · cases hok
        rfl
  | remove =>
      obtain ⟨_, _, hok⟩ := bind_eq_ok.mp hok
      obtain ⟨⟨p, c⟩, _, hok⟩ := bind_eq_ok.mp hok
      cases hok
      exact (placement_record _ id (by simp)).trans (placement_setTcp _ id _)
  | connectionUp =>
      cases hok
      rfl
  | connectionDown =>
      cases hok
      rfl
  | messageCallback =>
      cases hok
      rfl

theorem accept_placement (w : World) (l : Nat) (sockfd : Int) : (w.accept l sockfd).placement =
    ⟨w.ioLoops, w.nextLoopIdx, w.nextConnId + 1, Function.update (fun id => (w.conn id).loop) w.nextConnId l,
      w.accepted ++ [w.nextConnId]⟩ := by
  have hloop : (fun id => ((w.accept l sockfd).conn id).loop) =
      Function.update (fun id => (w.conn id).loop) w.nextConnId l := by
    funext id
    by_cases hid : id = w.nextConnId
    · rw [hid, accept_conn_self, Function.update_self]
    · rw [accept_conn_of_ne hid, Function.update_of_ne hid]
  have haccepted : (w.accept l sockfd).accepted = w.accepted ++ [w.nextConnId] := by
    show (w.log ++ [(w.nextConnId, Life.accepted)]).filterMap _ = _
    rw [List.filterMap_append]
    rfl
  simp only [placement, hloop, haccepted]
  rfl

theorem newConnection_placement {sockfd : Int} (hok : w.newConnection 0 sockfd = .ok w') :
    w'.placement = w.placement.accept := by
  obtain ⟨_, _, hok⟩ := bind_eq_ok.mp hok
  obtain ⟨⟨ioLoop, w₁⟩, hnext, hok⟩ := bind_eq_ok.mp hok
  have haccept : (w₁.accept ioLoop sockfd).placement = w.placement.accept := by
    obtain ⟨_, _, hnext⟩ := bind_eq_ok.mp hnext
    rw [accept_placement]
    split at hnext
    · next hzero =>
      cases hnext
      unfold Placement.accept placement
      dsimp only
      rw [if_pos hzero, if_pos hzero]
    · next hpos =>
      cases hnext
      unfold Placement.accept placement
      dsimp only
      rw [if_neg hpos, if_neg hpos]
      rfl
  rw [← haccept]
  dsimp only at hok
  split at hok
  · exact runFunctor_placement hok
  · cases hok
    rfl

theorem step_placement {e : Event} (hok : step w e = .ok w') :
    w'.placement = w.placement ∨ w'.placement = w.placement.accept := by
  cases e with
  | enterLoop l | poll l active | swapFunctors l | endFunctors l =>
      cases hok
      exact Or.inl rfl
  | handleEvent l =>
      simp only [step] at hok
      split at hok
      · cases hok
        exact Or.inl rfl
      · cases hok
        exact Or.inl rfl
      · cases hok
        exact Or.inl rfl
  | acceptor sockfd =>
      simp only [step] at hok
      split at hok
      · exact Or.inr ((newConnection_placement hok).trans rfl)
      · cases hok
        exact Or.inl rfl
      · cases hok
        exact Or.inl rfl
  | handleCallback l r wr =>
      simp only [step] at hok
      split at hok
      · obtain ⟨o, _, hok⟩ := bind_eq_ok.mp hok
        exact Or.inl ((finish_placement hok).trans rfl)
      · cases hok
        exact Or.inl rfl
  | timerCallback l i =>
      simp only [step] at hok
      split at hok
      · obtain ⟨o, _, hok⟩ := bind_eq_ok.mp hok
        exact Or.inl ((finish_placement hok).trans rfl)
      · cases hok
        exact Or.inl rfl
  | callFunctor l mem wr =>
      simp only [step] at hok
      split at hok
      · exact Or.inl ((runFunctor_placement hok).trans rfl)
      · cases hok
        exact Or.inl rfl
  | userCode l =>
      simp only [step] at hok
      split at hok
      · exact Or.inl ((runRest_placement hok).trans rfl)
      · cases hok
        exact Or.inl rfl
  | call thread id c mem wr =>
      simp only [step] at hok
      split at hok
      · split at hok
        · split at hok
          · exact Or.inl ((runFunctor_placement hok).trans (placement_setTcp w id _))
          · cases hok
            exact Or.inl (placement_setTcp w id _)
        · cases hok
          exact Or.inl (placement_setTcp w id _)
      · cases hok
        exact Or.inl (placement_setTcp w id _)
  | retrieve id len =>
      obtain ⟨b, _, hok⟩ := bind_eq_ok.mp hok
      cases hok
      exact Or.inl (placement_setTcp w id _)
  | push i =>
      simp only [step] at hok
      split at hok
      · cases hok
        exact Or.inl rfl
      · cases hok
        exact Or.inl rfl

theorem fair_init (ioLoops highWaterMark : Nat) (writeComplete highWater : Bool) :
    (init ioLoops highWaterMark writeComplete highWater).placement.Fair ioLoops 0 where
  ioLoops := rfl
  nextLoopIdx _ := (Nat.zero_mod ioLoops).symm
  nextConnId := rfl
  loop _ hid := absurd hid List.not_mem_nil
  accepted := rfl

theorem Placement.Fair.step {m n : Nat} (h : w.placement.Fair m n) {e : Event} (hok : step w e = .ok w') :
    ∃ n', w'.placement.Fair m n' := by
  rcases step_placement hok with heq | heq
  · exact ⟨n, heq ▸ h⟩
  · exact ⟨n + 1, heq ▸ h.accept⟩

/-! ### The balance of the loops -/

/-- The connections are numbered in the order in which they were accepted, each is on the loop whose turn it was, and
no loop of the pool was given more than one of them more than another. -/
structure Balanced (w : World) : Prop where
  accepted : w.accepted = List.range' 1 (w.nextConnId - 1)
  loop : ∀ id ∈ w.accepted, (w.conn id).loop = Placement.turn w.ioLoops id
  load : ∀ l l', 1 ≤ l → l ≤ w.ioLoops → 1 ≤ l' → l' ≤ w.ioLoops → w.load l ≤ w.load l' + 1

theorem Placement.Fair.load {m n l : Nat} (h : w.placement.Fair m n) (hl : 1 ≤ l) (hle : l ≤ m) :
    w.load l = n / m + if l - 1 < n % m then 1 else 0 := by
  rw [← Placement.countP_turn hl hle, ← h.accepted]
  apply List.countP_congr
  intro id hid
  rw [decide_eq_true_iff, decide_eq_true_iff, ← h.loop id hid]
  rfl

theorem Placement.Fair.balanced {m n : Nat} (h : w.placement.Fair m n) : Balanced w where
  accepted := by
    have hnext : w.nextConnId = n + 1 := h.nextConnId
    rw [hnext, Nat.add_sub_cancel]
    exact h.accepted
  loop id hid := by
    have hloops : w.ioLoops = m := h.ioLoops
    rw [hloops]
    exact h.loop id hid
  load l l' hl hle hl' hle' := by
    have hloops : w.ioLoops = m := h.ioLoops
    rw [hloops] at hle hle'
    rw [h.load hl hle, h.load hl' hle']
    split_ifs <;> omega

theorem mem_accepted {id : Nat} : id ∈ w.accepted ↔ w.Accepted id := by
  simp only [World.accepted, World.Accepted, World.life, List.mem_filterMap]
  constructor
  · rintro ⟨⟨id', life⟩, hmem, heq⟩
    split_ifs at heq with hlife
    exact ⟨_, hmem, by simp_all⟩
  · rintro ⟨⟨id', life⟩, hmem, heq⟩
    split_ifs at heq with hid
    exact ⟨_, hmem, by simp_all⟩

theorem Placement.turn_le (m id : Nat) : turn m id ≤ m := by
  unfold turn
  split_ifs with hzero
  · omega
  · have := Nat.mod_lt (id - 1) (Nat.pos_of_ne_zero hzero)
    omega

/-! ### The server at rest -/

/-- No loop has a functor to call, or the rest of a function to run. -/
def AtRest (w : World) : Prop := ∀ l ≤ w.ioLoops, (w.loops l).loop.queued = [] ∧ (w.loops l).rest = []

instance (w : World) : Decidable (AtRest w) :=
  decidable_of_iff (∀ l < w.ioLoops + 1, (w.loops l).loop.queued = [] ∧ (w.loops l).rest = [])
    (forall_congr' fun _ => by rw [Nat.lt_succ_iff])

/-- The connection is open, the server has it under its name, and its loop's poller watches it. -/
structure IsUp (w : World) (id : Nat) : Prop where
  life : w.life id = [.accepted, .established (w.conn id).loop]
  opened : (w.conn id).tcp.Open
  listed : w.connections (w.conn id).name = some id
  watched : (w.loops (w.conn id).loop).poller.epollSet (w.conn id).tcp.channel.fd =
    some ((w.conn id).tcp.channel.events, id)

/-- The connection was closed and destroyed, and neither the server nor a poller has it. -/
structure IsGone (w : World) (id : Nat) : Prop where
  life : w.life id = [.accepted, .established (w.conn id).loop, .closed, .removed, .destroyed (w.conn id).loop,
    .unregistered]
  closed : (w.conn id).tcp.state = .kDisconnected
  unlisted : ∀ name, w.connections name ≠ some id
  unknown : ∀ l fd, (w.loops l).poller.channels fd ≠ some id
  unwatched : ∀ l fd mask, (w.loops l).poller.epollSet fd ≠ some (mask, id)

variable {stage : Nat → Stage}

theorem Inv.isUp (h : Inv w stage) {id : Nat} (hst : stage id = .up) : IsUp w id := by
  have hfits := h.fits id
  rw [hst] at hfits
  obtain ⟨hopen, hevents, hstatus⟩ := hfits.allows
  have hne : (w.conn id).tcp.channel.events ≠ kNoneEvent := by
    rcases hevents with heq | heq <;> rw [heq] <;> decide
  refine ⟨hfits.life, hopen, ?_, ?_⟩
  · rw [hfits.name (by simp), hfits.connections]
    rfl
  · have hreg := hfits.registered (by decide)
    unfold Registered at hreg
    split at hreg
    · exact absurd hreg.1 hne
    · exact hreg.2.2
    · exact absurd hreg.1 hne

theorem Inv.holds_live (h : Inv w stage) {l id : Nat} {fd : Int} (hst : stage id = .gone) :
    (w.loops l).poller.channels fd ≠ some id ∧ ∀ mask, (w.loops l).poller.epollSet fd ≠ some (mask, id) := by
  by_cases hex : ∃ id', (stage id').Live ∧ (w.conn id').loop = l ∧ w.fd id' = fd
  · obtain ⟨id', hlive, rfl, rfl⟩ := hex
    have hne : id' ≠ id := by
      rintro rfl
      exact hlive.2 hst
    have hreg := (h.fits id').registered hlive
    unfold Registered at hreg
    split at hreg
    · obtain ⟨_, hchannels, hset⟩ := hreg
      simp [World.fd, hchannels, hset]
    · obtain ⟨_, hchannels, hset⟩ := hreg
      simp [World.fd, hchannels, hset, hne]
    · obtain ⟨_, hchannels, hset⟩ := hreg
      simp [World.fd, hchannels, hset, hne]
  · obtain ⟨hchannels, hset⟩ := h.others l fd fun id' hlive hl hfd => hex ⟨id', hlive, hl, hfd⟩
    simp [hchannels, hset]

theorem Inv.isGone (h : Inv w stage) {id : Nat} (hst : stage id = .gone) : IsGone w id := by
  have hfits := h.fits id
  rw [hst] at hfits
  refine ⟨hfits.life, hfits.allows.1, fun name hname => ?_, fun l fd => (h.holds_live hst).1,
    fun l fd => (h.holds_live hst).2⟩
  rw [h.names name id hname, hfits.connections] at hname
  cases hname

/-- A connection with nothing queued or left to run for it is up or gone. -/
theorem Inv.settled (h : Inv w stage) {m n : Nat} (hfair : w.placement.Fair m n) (hrest : AtRest w) {id : Nat}
    (hid : w.Accepted id) : IsUp w id ∨ IsGone w id := by
  have hle : (w.conn id).loop ≤ w.ioLoops := by
    have hloop : (w.conn id).loop = Placement.turn w.ioLoops id := hfair.balanced.loop id (mem_accepted.mpr hid)
    rw [hloop]
    exact Placement.turn_le _ _
  have hnone : ∀ l ≤ w.ioLoops, (stage id).tokens (w.conn id).loop l = [] := by
    intro l hl
    rw [← (h.fits id).tokens l, LoopState.tokens, (hrest l hl).1, (hrest l hl).2]
    rfl
  have hown := hnone _ hle
  have hbase := hnone 0 (Nat.zero_le _)
  cases hst : stage id with
  | absent => exact absurd hst ((h.accepted id).mp hid)
  | up => exact Or.inl (h.isUp hst)
  | gone => exact Or.inr (h.isGone hst)
  | removing =>
      rw [hst] at hbase
      simp [Stage.tokens] at hbase
  | created | closing | destroying | unregistering =>
      rw [hst] at hown
      simp [Stage.tokens] at hown

/-! ### Runs -/

/-- The invariant of the server and that of the round robin over `m` loops. -/
structure Placed (m : Nat) (w : World) : Prop where
  inv : ∃ stage, Inv w stage
  fair : ∃ n, w.placement.Fair m n

theorem Placed.step {m : Nat} (h : Placed m w) {e : Event} (hen : Enabled w e) {Q : World → Prop}
    (hQ : ∀ t, Placed m t → Q t) : StepHolds step ClosedTwice (fun _ _ t => Q t ∧ Placed m t) w e := by
  obtain ⟨stage, hinv⟩ := h.inv
  obtain ⟨n, hfair⟩ := h.fair
  rcases step_advances hinv hen with herr | ⟨w', stage', hstep, hinv'⟩
  · refine ⟨fun a ha => ?_, fun w' hw' => ?_⟩
    · rw [herr] at ha
      cases ha
      rfl
    · rw [herr] at hw'
      cases hw'
  · have hplaced : Placed m w' := ⟨⟨stage', hinv'⟩, hfair.step hstep⟩
    exact .of_ok hstep ⟨hQ w' hplaced, hplaced⟩

theorem placed_init (ioLoops highWaterMark : Nat) (writeComplete highWater : Bool) :
    Placed ioLoops (init ioLoops highWaterMark writeComplete highWater) :=
  ⟨⟨_, init_inv ioLoops highWaterMark writeComplete highWater⟩,
    0, fair_init ioLoops highWaterMark writeComplete highWater⟩

/-- **The round robin.** For every number of loops and in every run of them, over all batches of ready channels,
answers of the sockets, functors, timers, user code and calls from other threads: after every step the connections
accepted so far are numbered in their order, each is on the loop whose turn it was (the base loop if the pool is empty),
and no loop of the pool was given more than one of them more than another. -/
theorem balanced_of_along (ioLoops highWaterMark : Nat) (writeComplete highWater : Bool) (es : List Event)
    (hes : Along step Enabled (init ioLoops highWaterMark writeComplete highWater) es) :
    Holds step ClosedTwice (fun _ _ w => Balanced w) (init ioLoops highWaterMark writeComplete highWater) es := by
  refine holds_of_along (fun w e h hen => h.step hen fun t ht => ?_)
    (placed_init ioLoops highWaterMark writeComplete highWater) hes
  obtain ⟨n, hfair⟩ := ht.fair
  exact hfair.balanced

/-- Three connections for two loops. -/
def acceptThree : List Event :=
  [.enterLoop 0, .poll 0 [.acceptor, .acceptor], .acceptor (some 7), .acceptor (some 8), .swapFunctors 0,
    .endFunctors 0, .poll 0 [.acceptor], .acceptor (some 9)]

theorem balanced_of_along_run :
    Holds step ClosedTwice (fun _ _ w => Balanced w) (init 2 64 true true) acceptThree :=
  balanced_of_along 2 64 true true acceptThree (by decide +kernel)

/-- **At rest the views agree.** For every number of loops and in every run of them: whenever no loop has a functor or
the rest of a function left, each connection accepted so far is open, in `connections_` under its name and watched by
its loop's poller for its interest, or it was established, closed, removed, destroyed and unregistered, each once and in
this order, and neither `connections_` nor a poller has it. -/
theorem settled_of_along (ioLoops highWaterMark : Nat) (writeComplete highWater : Bool) (es : List Event)
    (hes : Along step Enabled (init ioLoops highWaterMark writeComplete highWater) es) :
    Holds step ClosedTwice (fun _ _ w => AtRest w → ∀ id, w.Accepted id → IsUp w id ∨ IsGone w id)
      (init ioLoops highWaterMark writeComplete highWater) es := by
  refine holds_of_along (fun w e h hen => h.step hen fun t ht hrest id hid => ?_)
    (placed_init ioLoops highWaterMark writeComplete highWater) hes
  obtain ⟨stage, hinv⟩ := ht.inv
  obtain ⟨n, hfair⟩ := ht.fair
  exact hinv.settled hfair hrest hid

/-- A connection comes up on loop `1`, the peer closes it, and the loops come to rest; another one comes up then. -/
def closeAndAccept : List Event :=
  [.enterLoop 0, .poll 0 [.acceptor], .acceptor (some 7), .swapFunctors 0, .endFunctors 0, .enterLoop 1,
    .poll 1 [.other], .handleEvent 1, .swapFunctors 1, .callFunctor 1 (fun _ => 0) (.ok 0), .userCode 1,
    .endFunctors 1, .poll 1 [.channel 1 pollIn], .handleEvent 1, .handleCallback 1 (some []) (.ok 0), .userCode 1,
    .userCode 1, .swapFunctors 1, .endFunctors 1, .poll 0 [.other], .handleEvent 0, .swapFunctors 0,
    .callFunctor 0 (fun _ => 0) (.ok 0), .endFunctors 0, .poll 1 [.other], .handleEvent 1, .swapFunctors 1,
    .callFunctor 1 (fun _ => 0) (.ok 0), .userCode 1, .endFunctors 1, .poll 0 [.acceptor], .acceptor (some 7)]

theorem settled_of_along_run :
    Holds step ClosedTwice (fun _ _ w => AtRest w → ∀ id, w.Accepted id → IsUp w id ∨ IsGone w id)
      (init 1 64 true true) closeAndAccept :=
  settled_of_along 1 64 true true closeAndAccept (by decide +kernel)

end TcpServer

end OulaServer
