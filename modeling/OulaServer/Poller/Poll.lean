import OulaServer.Channel
import OulaServer.Lib.Region
import OulaServer.Lib.Run

/-!
# `PollPoller`

`updateChannel`, `RemoveChannel` and `fillActiveChannels` of `net/poller/PollPoller.cpp`. The vector
`pollfds_` holds one slot for each registered descriptor, `fdInpollfdsIdx_` the slot of each
descriptor, and a slot whose descriptor is to be ignored carries `-(fd + 1)`.

`Rep` is the representation invariant. It survives every update and every removal but two kinds:

* a channel that is registered with an empty interest gets a slot that is not marked as ignored;
* a removal moves the last slot into the hole and looks up its descriptor as it stands in the slot,
  negated when the channel there is ignored, so the index of that channel is not repaired.

`rep_iff` says that these are the only ones. What `poll` watches and how `fillActiveChannels`
dispatches follow from `Rep` (`Rep.watches`, `Rep.dispatches`).
-/

namespace OulaServer

open Region

/-- `struct pollfd`. -/
structure PollFd where
  fd : Int
  events : BitVec 16
  revents : BitVec 16
  deriving DecidableEq, Repr

variable {ι : Type} [DecidableEq ι]

structure PollPoller (ι : Type) where
  channels : Int → Option ι
  pollfds : List PollFd
  fdInpollfdsIdx : Int → Option Nat

namespace PollPoller

def new : PollPoller ι := ⟨fun _ => none, [], fun _ => none⟩

/-- `PollPoller::updateChannel` on the channel at `ch`, whose fields are `c`. -/
def updateChannel (p : PollPoller ι) (ch : ι) (c : Channel) :
    Except Abort (PollPoller ι × Channel) :=
  match p.fdInpollfdsIdx c.fd with
  | none => do
      check (p.channels c.fd = none) .updateChannelFound
      let pfd : PollFd := { fd := c.fd, events := c.events.setWidth 16, revents := 0 }
      let pollfds := p.pollfds ++ [pfd]
      return ({ channels := Function.update p.channels c.fd (some ch)
                pollfds
                fdInpollfdsIdx := Function.update p.fdInpollfdsIdx c.fd (some (pollfds.length - 1)) },
        { c with inPollerStatus := .kAdded })
  | some idx => do
      check ((p.channels c.fd).isSome) .updateChannelFound
      check (p.channels c.fd = some ch) .updateChannelSame
      check (idx < p.pollfds.length) .updateChannelIdx
      match p.pollfds[idx]? with
      | none => .error .pollfdsBounds
      | some pfd =>
          check (pfd.fd = c.fd ∨ pfd.fd = -(c.fd + 1)) .updateChannelFd
          let isIgoreInPoller := c.isNoneEvent
          let pfd : PollFd :=
            { fd := if !isIgoreInPoller then c.fd else -(c.fd + 1)
              events := c.events.setWidth 16
              revents := 0 }
          return ({ p with pollfds := p.pollfds.set idx pfd }, c)

/-- The removal of `fd` from slot `idx` when it is not the last one: the last slot, which carries
`lastFd`, is swapped there and the index of `lastFd` set to `idx`. -/
def swapOut (p : PollPoller ι) (fd lastFd : Int) (idx : Nat) : PollPoller ι :=
  let lastIdx := p.pollfds.length - 1
  let fdInpollfdsIdx := Function.update p.fdInpollfdsIdx lastFd (some idx)
  { channels := Function.update p.channels fd none
    pollfds := (swap p.pollfds lastIdx idx).dropLast
    fdInpollfdsIdx := Function.update fdInpollfdsIdx fd none }

/-- `PollPoller::RemoveChannel`. -/
def removeChannel (p : PollPoller ι) (ch : ι) (c : Channel) : Except Abort (PollPoller ι) := do
  check ((p.channels c.fd).isSome) .removeChannelFound
  check (p.channels c.fd = some ch) .removeChannelSame
  check c.isNoneEvent .removeChannelNoneEvent
  match p.fdInpollfdsIdx c.fd with
  | none => .error .removeChannelIdx
  | some idx =>
      match p.pollfds[idx]?, p.pollfds[p.pollfds.length - 1]? with
      | some pfd, some last =>
          check (pfd.fd = -(c.fd + 1) ∧ pfd.events.signExtend 32 = c.events) .removeChannelFd
          if idx = p.pollfds.length - 1 then
            return { channels := Function.update p.channels c.fd none
                     pollfds := p.pollfds.dropLast
                     fdInpollfdsIdx := Function.update p.fdInpollfdsIdx c.fd none }
          else
            return p.swapOut c.fd last.fd idx
      | _, _ => .error .pollfdsBounds

/-- The loop of `PollPoller::fillActiveChannels` over what `poll` left in `pollfds_`. -/
def fillActiveChannels (p : PollPoller ι) : List PollFd → Nat → Except Abort (List (ι × Events))
  | [], _ => .ok []
  | _ :: _, 0 => .ok []
  | pfd :: pfds, numEvents + 1 =>
      if 0 < pfd.revents.toInt then
        match p.channels pfd.fd with
        | none => .error .fillActiveChannels
        | some ch => do
            let rest ← p.fillActiveChannels pfds numEvents
            return (ch, pfd.revents.signExtend 32) :: rest
      else p.fillActiveChannels pfds (numEvents + 1)

end PollPoller

/-! ### The representation invariant -/

/-- All channels of a loop and its poller. -/
structure PollSystem (ι : Type) where
  chan : ι → Channel
  poller : PollPoller ι

namespace PollSystem

open Run

/-- Channels on the descriptors `fd`, none of them registered yet. -/
def init (fd : ι → Int) : PollSystem ι := ⟨fun ch => Channel.new (fd ch), PollPoller.new⟩

def step (s : PollSystem ι) : PollerOp ι → Except Abort (PollSystem ι)
  | .update ch op => do
      let c := s.chan ch
      let (p, c) ← s.poller.updateChannel ch { c with events := op.apply c.events }
      return ⟨Function.update s.chan ch c, p⟩
  | .remove ch => do
      let p ← s.poller.removeChannel ch (s.chan ch)
      return ⟨s.chan, p⟩

/-- `remove()` is called on a registered channel whose interest is empty. -/
def Pre (s : PollSystem ι) : PollerOp ι → Prop
  | .update _ _ => True
  | .remove ch => s.poller.channels (s.chan ch).fd = some ch ∧ (s.chan ch).events = kNoneEvent

instance (s : PollSystem ι) : (a : PollerOp ι) → Decidable (Pre s a)
  | .update _ _ => .isTrue trivial
  | .remove _ => inferInstanceAs (Decidable (_ ∧ _))

/-- No channel is registered with an empty interest, and none is removed from a slot before the last
one while the last slot is ignored. -/
def NotIgnored (s : PollSystem ι) : PollerOp ι → Prop
  | .update ch op => s.poller.fdInpollfdsIdx (s.chan ch).fd = none →
      op.apply (s.chan ch).events ≠ kNoneEvent
  | .remove ch => s.poller.fdInpollfdsIdx (s.chan ch).fd ≠ some (s.poller.pollfds.length - 1) →
      ∀ last ∈ s.poller.pollfds.getLast?, 0 ≤ last.fd

instance (s : PollSystem ι) : (a : PollerOp ι) → Decidable (NotIgnored s a)
  | .update _ _ => inferInstanceAs (Decidable (_ → _))
  | .remove _ => inferInstanceAs (Decidable (_ → ∀ last ∈ s.poller.pollfds.getLast?, 0 ≤ last.fd))

/-- The slot of a registered channel: its descriptor, or the negated one when its interest is empty,
and its interest. -/
def SlotOf (c : Channel) (pfd : PollFd) : Prop :=
  pfd.fd = (if c.events = kNoneEvent then -(c.fd + 1) else c.fd) ∧ pfd.events.signExtend 32 = c.events

/-- The representation invariant. -/
structure Rep (s : PollSystem ι) : Prop where
  keys : ∀ fd, (s.poller.fdInpollfdsIdx fd).isSome ↔ (s.poller.channels fd).isSome
  lt : ∀ fd i, s.poller.fdInpollfdsIdx fd = some i → i < s.poller.pollfds.length
  inj : ∀ fd fd' i, s.poller.fdInpollfdsIdx fd = some i → s.poller.fdInpollfdsIdx fd' = some i → fd = fd'
  surj : ∀ i, i < s.poller.pollfds.length → ∃ fd, s.poller.fdInpollfdsIdx fd = some i
  slot : ∀ fd i, s.poller.fdInpollfdsIdx fd = some i → ∃ ch pfd, s.poller.channels fd = some ch ∧
    (s.chan ch).fd = fd ∧ s.poller.pollfds[i]? = some pfd ∧ SlotOf (s.chan ch) pfd

/-- `poll` watches exactly the registered channels with a non-empty interest, for that interest. -/
def Watches (s : PollSystem ι) : Prop :=
  ∀ fd m, 0 ≤ fd → ((∃ pfd ∈ s.poller.pollfds, pfd.fd = fd ∧ pfd.events.signExtend 32 = m) ↔
    ∃ ch, s.poller.channels fd = some ch ∧ (s.chan ch).fd = fd ∧ (s.chan ch).events = m ∧ m ≠ kNoneEvent)

/-- What `poll` may leave in a slot: an ignored one reports nothing. -/
def PollAnswer (before after : PollFd) : Prop :=
  after.fd = before.fd ∧ after.events = before.events ∧ 0 ≤ after.revents.toInt ∧
    (after.fd < 0 → after.revents.toInt = 0)

/-- `fillActiveChannels` hands each reported descriptor to its own channel, in the order of the slots. -/
def Dispatches (s : PollSystem ι) : Prop :=
  ∀ answer, List.Forall₂ PollAnswer s.poller.pollfds answer →
    ∃ active, s.poller.fillActiveChannels answer (answer.countP fun pfd => 0 < pfd.revents.toInt) =
        .ok active ∧
      active.map (fun x => ((s.chan x.1).fd, x.2)) =
        (answer.filter fun pfd => 0 < pfd.revents.toInt).map fun pfd => (pfd.fd, pfd.revents.signExtend 32)

/-! ### What follows from the invariant -/

omit [DecidableEq ι] in
theorem Rep.watches {s : PollSystem ι} (h : Rep s) (hpos : ∀ ch, 0 ≤ (s.chan ch).fd) : Watches s := by
  intro fd m hfd
  constructor
  · rintro ⟨pfd, hmem, hpfd, hm⟩
    obtain ⟨i, hi, hget⟩ := List.mem_iff_getElem.mp hmem
    obtain ⟨fd', hidx⟩ := h.surj i hi
    obtain ⟨ch, pfd', hch, hchfd, hslot, hfd', hev⟩ := h.slot fd' i hidx
    rw [List.getElem?_eq_getElem hi, hget] at hslot
    cases hslot
    have hp := hpos ch
    by_cases hnone : (s.chan ch).events = kNoneEvent
    · rw [if_pos hnone] at hfd'
      omega
    · rw [if_neg hnone] at hfd'
      refine ⟨ch, ?_, by omega, by rw [← hm, hev], by rw [← hm, hev]; exact hnone⟩
      rw [show fd = fd' by omega]
      exact hch
  · rintro ⟨ch, hch, rfl, rfl, hne⟩
    have hkey : (s.poller.fdInpollfdsIdx (s.chan ch).fd).isSome := by
      rw [h.keys, hch]
      rfl
    obtain ⟨i, hidx⟩ := Option.isSome_iff_exists.mp hkey
    obtain ⟨ch', pfd, hch', _, hslot, hfd', hev⟩ := h.slot _ i hidx
    rw [hch] at hch'
    cases hch'
    rw [if_neg hne] at hfd'
    exact ⟨pfd, List.mem_of_getElem? hslot, hfd', hev⟩

omit [DecidableEq ι] in
/-- The loop of `fillActiveChannels`, when every reported slot belongs to a channel. -/
theorem fillActiveChannels_spec {s : PollSystem ι} (pfds : List PollFd)
    (h : ∀ pfd ∈ pfds, 0 < pfd.revents.toInt → ∃ ch, s.poller.channels pfd.fd = some ch ∧
      (s.chan ch).fd = pfd.fd) :
    ∃ active, s.poller.fillActiveChannels pfds (pfds.countP fun pfd => 0 < pfd.revents.toInt) =
        .ok active ∧
      active.map (fun x => ((s.chan x.1).fd, x.2)) =
        (pfds.filter fun pfd => 0 < pfd.revents.toInt).map fun pfd => (pfd.fd, pfd.revents.signExtend 32) := by
  induction pfds with
  | nil => exact ⟨[], rfl, rfl⟩
  | cons pfd pfds ih =>
      obtain ⟨active, hactive, hmap⟩ := ih fun x hx => h x (List.mem_cons_of_mem _ hx)
      by_cases hpos : 0 < pfd.revents.toInt
      · obtain ⟨ch, hch, hfd⟩ := h pfd (List.mem_cons_self ..) hpos
        refine ⟨(ch, pfd.revents.signExtend 32) :: active, ?_, ?_⟩
        · rw [List.countP_cons_of_pos (by simpa using hpos)]
          simp only [PollPoller.fillActiveChannels, if_pos hpos, hch, hactive, ok_bind]
          rfl
        · rw [List.filter_cons_of_pos (by simpa using hpos), List.map_cons, List.map_cons, hmap, hfd]
      · refine ⟨active, ?_, ?_⟩
        · rw [List.countP_cons_of_neg (by simpa using hpos)]
          -- no event is left when the count is zero, and the loop ends early
          cases hcount : pfds.countP fun pfd => 0 < pfd.revents.toInt with
          | zero =>
              rw [hcount] at hactive
              cases pfds <;> exact hactive
          | succ n =>
              rw [hcount] at hactive
              simp only [PollPoller.fillActiveChannels, if_neg hpos]
              exact hactive
        · rw [List.filter_cons_of_neg (by simpa using hpos), hmap]

omit [DecidableEq ι] in
theorem Rep.dispatches {s : PollSystem ι} (h : Rep s) (hpos : ∀ ch, 0 ≤ (s.chan ch).fd) : Dispatches s := by
  intro answer hanswer
  refine fillActiveChannels_spec answer fun pfd hmem hrev => ?_
  obtain ⟨i, hi, hget⟩ := List.mem_iff_getElem.mp hmem
  have hlen := hanswer.length_eq
  have hi' : i < s.poller.pollfds.length := by omega
  obtain ⟨hfd, _, _, hneg⟩ := hanswer.get hi' hi
  simp only [List.get_eq_getElem, hget] at hfd hneg
  obtain ⟨fd, hidx⟩ := h.surj i hi'
  obtain ⟨ch, slot, hch, hchfd, hslot, hsfd, _⟩ := h.slot fd i hidx
  rw [List.getElem?_eq_getElem hi'] at hslot
  cases hslot
  have hp := hpos ch
  rw [← hfd] at hsfd
  split_ifs at hsfd with hnone
  · have := hneg (by omega)
    omega
  · rw [hchfd] at hsfd
    exact ⟨ch, by rw [hsfd]; exact hch, by rw [hsfd]; exact hchfd⟩

/-! ### One operation -/

/-- The invariant with what the rest of the argument needs: distinct descriptors that are not negative. -/
structure Inv (s : PollSystem ι) : Prop where
  distinct : Function.Injective fun ch => (s.chan ch).fd
  nonneg : ∀ ch, 0 ≤ (s.chan ch).fd
  interest : ∀ ch, Interest (s.chan ch).events
  rep : Rep s

omit [DecidableEq ι] in
theorem init_inv {fd : ι → Int} (hfd : Function.Injective fd) (hpos : ∀ ch, 0 ≤ fd ch) : Inv (init fd) := by
  refine ⟨hfd, hpos, fun _ => Interest.none, ?_, ?_, ?_, ?_, ?_⟩
  · simp [init, PollPoller.new]
  · intro fd i h
    cases h
  · intro fd fd' i h
    cases h
  · intro i hi
    cases hi
  · intro fd i h
    cases h

omit [DecidableEq ι] in
theorem Rep.channel_fd {s : PollSystem ι} (h : Rep s) {fd : Int} {ch : ι}
    (hch : s.poller.channels fd = some ch) : (s.chan ch).fd = fd ∧ ∃ i, s.poller.fdInpollfdsIdx fd = some i := by
  have hkey : (s.poller.fdInpollfdsIdx fd).isSome := by
    rw [h.keys, hch]
    rfl
  obtain ⟨i, hidx⟩ := Option.isSome_iff_exists.mp hkey
  obtain ⟨ch', _, hch', hfd, _⟩ := h.slot fd i hidx
  rw [hch] at hch'
  cases hch'
  exact ⟨hfd, i, hidx⟩

theorem Inv.update_chan {s : PollSystem ι} (h : Inv s) {ch : ι} {c : Channel} {p : PollPoller ι}
    (hfd : c.fd = (s.chan ch).fd) (hint : Interest c.events)
    (hrep : Rep ⟨Function.update s.chan ch c, p⟩) : Inv ⟨Function.update s.chan ch c, p⟩ := by
  have hfds : ∀ ch', (Function.update s.chan ch c ch').fd = (s.chan ch').fd := by
    intro ch'
    by_cases hch : ch' = ch
    · subst hch
      rw [Function.update_self, hfd]
    · rw [Function.update_of_ne hch]
  refine ⟨?_, fun ch' => ?_, fun ch' => ?_, hrep⟩
  · intro a b hab
    exact h.distinct ((hfds a).symm.trans (hab.trans (hfds b)))
  · show 0 ≤ (Function.update s.chan ch c ch').fd
    rw [hfds]
    exact h.nonneg ch'
  · by_cases hch : ch' = ch
    · subst hch
      simpa using hint
    · simpa [Function.update_of_ne hch] using h.interest ch'

theorem Inv.slot_other {s : PollSystem ι} (h : Inv s) {ch : ι} {c : Channel} {fd : Int} {i : Nat}
    (hne : fd ≠ (s.chan ch).fd) (hidx : s.poller.fdInpollfdsIdx fd = some i) :
    ∃ ch' pfd, s.poller.channels fd = some ch' ∧ (Function.update s.chan ch c ch').fd = fd ∧
      s.poller.pollfds[i]? = some pfd ∧ SlotOf (Function.update s.chan ch c ch') pfd := by
  obtain ⟨ch', pfd, hch', hfd, hget, hslot⟩ := h.rep.slot fd i hidx
  have hch : ch' ≠ ch := by
    rintro rfl
    exact hne hfd.symm
  rw [← Function.update_of_ne hch c s.chan] at hfd hslot
  exact ⟨ch', pfd, hch', hfd, hget, hslot⟩

theorem updateChannel_new {s : PollSystem ι} (h : Inv s) {ch : ι} {e : Events} (he : Interest e)
    (hnew : s.poller.fdInpollfdsIdx (s.chan ch).fd = none) :
    ∃ p c, s.poller.updateChannel ch { s.chan ch with events := e } = .ok (p, c) ∧
      c.fd = (s.chan ch).fd ∧ c.events = e ∧
      p.fdInpollfdsIdx (s.chan ch).fd = some s.poller.pollfds.length ∧
      p.pollfds[s.poller.pollfds.length]? = some ⟨(s.chan ch).fd, e.setWidth 16, 0⟩ ∧
      (e ≠ kNoneEvent → Rep ⟨Function.update s.chan ch c, p⟩) := by
  have hnone : s.poller.channels (s.chan ch).fd = none := by
    have := h.rep.keys (s.chan ch).fd
    rw [hnew] at this
    simpa using this
  simp only [PollPoller.updateChannel, hnew, hnone, check_pos, ok_bind, List.length_append,
    List.length_singleton, Nat.add_sub_cancel]
  refine ⟨_, _, rfl, rfl, rfl, by simp, by simp, fun hne => ⟨?_, ?_, ?_, ?_, ?_⟩⟩
  · intro fd
    by_cases hfd : fd = (s.chan ch).fd
    · subst hfd
      simp
    · simpa [Function.update_of_ne hfd] using h.rep.keys fd
  · intro fd i hidx
    simp only [List.length_append, List.length_singleton] at hidx ⊢
    by_cases hfd : fd = (s.chan ch).fd
    · subst hfd
      simp at hidx
      omega
    · rw [Function.update_of_ne hfd] at hidx
      have := h.rep.lt fd i hidx
      omega
  · intro fd fd' i hidx hidx'
    dsimp only at hidx hidx'
    by_cases hfd : fd = (s.chan ch).fd <;> by_cases hfd' : fd' = (s.chan ch).fd
    · rw [hfd, hfd']
    · subst hfd
      rw [Function.update_of_ne hfd'] at hidx'
      simp only [Function.update_self, Option.some.injEq] at hidx
      have := h.rep.lt fd' i hidx'
      omega
    · subst hfd'
      rw [Function.update_of_ne hfd] at hidx
      simp only [Function.update_self, Option.some.injEq] at hidx'
      have := h.rep.lt fd i hidx
      omega
    · rw [Function.update_of_ne hfd] at hidx
      rw [Function.update_of_ne hfd'] at hidx'
      exact h.rep.inj fd fd' i hidx hidx'
  · intro i hi
    simp only [List.length_append, List.length_singleton] at hi
    by_cases hlast : i = s.poller.pollfds.length
    · exact ⟨(s.chan ch).fd, by simp [hlast]⟩
    · obtain ⟨fd, hidx⟩ := h.rep.surj i (by omega)
      have hfd : fd ≠ (s.chan ch).fd := by
        rintro rfl
        rw [hnew] at hidx
        cases hidx
      exact ⟨fd, by simpa [Function.update_of_ne hfd] using hidx⟩
  · intro fd i hidx
    dsimp only at hidx ⊢
    by_cases hfd : fd = (s.chan ch).fd
    · subst hfd
      simp only [Function.update_self, Option.some.injEq] at hidx
      subst hidx
      refine ⟨ch, _, by simp, by simp, by simp; rfl, ?_⟩
      simp only [Function.update_self, SlotOf, if_neg hne, he.signExtend, and_self]
    · simp only [Function.update_of_ne hfd] at hidx
      have hlt := h.rep.lt fd i hidx
      obtain ⟨ch', pfd, hch', hfd', hget, hslot⟩ := h.slot_other hfd hidx
      refine ⟨ch', pfd, ?_, hfd', ?_, hslot⟩
      · simp only [Function.update_of_ne hfd, hch']
      · rw [List.getElem?_append_left hlt]
        exact hget

theorem updateChannel_old {s : PollSystem ι} (h : Inv s) {ch : ι} {e : Events} (he : Interest e) {i : Nat}
    (hidx : s.poller.fdInpollfdsIdx (s.chan ch).fd = some i) :
    ∃ p c, s.poller.updateChannel ch { s.chan ch with events := e } = .ok (p, c) ∧
      c.fd = (s.chan ch).fd ∧ c.events = e ∧ Rep ⟨Function.update s.chan ch c, p⟩ := by
  obtain ⟨ch', pfd, hch, hfd, hget, hslot⟩ := h.rep.slot _ i hidx
  obtain rfl : ch' = ch := h.distinct hfd
  have hlt := h.rep.lt _ i hidx
  have hpfd : pfd.fd = (s.chan ch').fd ∨ pfd.fd = -((s.chan ch').fd + 1) := by
    have := hslot.1
    split_ifs at this with hnone
    · exact Or.inr this
    · exact Or.inl this
  simp only [PollPoller.updateChannel, hidx, hch, Option.isSome_some, check_pos, ok_bind, hlt, hget, hpfd]
  refine ⟨_, _, rfl, rfl, rfl, h.rep.keys, ?_, h.rep.inj, ?_, ?_⟩
  · intro fd j hj
    simpa using h.rep.lt fd j hj
  · intro j hj
    exact h.rep.surj j (by simpa using hj)
  · intro fd j hj
    by_cases hfd' : fd = (s.chan ch').fd
    · subst hfd'
      rw [hidx] at hj
      cases hj
      refine ⟨ch', _, hch, by simp, List.getElem?_set_self hlt, ?_⟩
      simp only [Function.update_self, SlotOf, he.signExtend, and_true, Channel.isNoneEvent]
      by_cases hnone : e = kNoneEvent <;> simp [hnone]
    · have hji : i ≠ j := by
        rintro rfl
        exact hfd' (h.rep.inj _ _ _ hj hidx)
      obtain ⟨ch₁, pfd₁, hch₁, hfd₁, hget₁, hslot₁⟩ := h.slot_other hfd' hj
      exact ⟨ch₁, pfd₁, hch₁, hfd₁, by rw [List.getElem?_set_ne hji]; exact hget₁, hslot₁⟩

omit [DecidableEq ι] in
theorem Inv.slot_fd {s : PollSystem ι} (h : Inv s) {fd : Int} {i : Nat} {pfd : PollFd}
    (hidx : s.poller.fdInpollfdsIdx fd = some i) (hget : s.poller.pollfds[i]? = some pfd)
    (hpos : 0 ≤ pfd.fd) : pfd.fd = fd := by
  obtain ⟨ch, pfd', _, hfd, hget', hslot⟩ := h.rep.slot fd i hidx
  rw [hget] at hget'
  cases hget'
  have hnonneg := h.nonneg ch
  have := hslot.1
  split_ifs at this with hnone <;> omega

theorem removeChannel_last {s : PollSystem ι} (h : Inv s) {ch : ι}
    (hch : s.poller.channels (s.chan ch).fd = some ch) (hnone : (s.chan ch).events = kNoneEvent)
    (hidx : s.poller.fdInpollfdsIdx (s.chan ch).fd = some (s.poller.pollfds.length - 1)) :
    ∃ p, s.poller.removeChannel ch (s.chan ch) = .ok p ∧ Rep ⟨s.chan, p⟩ := by
  obtain ⟨ch', pfd, hch', _, hget, hfd, hev⟩ := h.rep.slot _ _ hidx
  rw [hch] at hch'
  cases hch'
  rw [if_pos hnone] at hfd
  have hlt := h.rep.lt _ _ hidx
  have hslot : pfd.fd = -((s.chan ch).fd + 1) ∧ pfd.events.signExtend 32 = (s.chan ch).events := ⟨hfd, hev⟩
  simp only [PollPoller.removeChannel, hch, Option.isSome_some, check_pos, ok_bind, Channel.isNoneEvent,
    hnone, BEq.rfl, hidx, hget]
  rw [hnone] at hslot
  simp only [check_pos hslot, ok_bind, if_true]
  -- an index of another descriptor is not the last one
  have hother : ∀ fd i, fd ≠ (s.chan ch).fd → s.poller.fdInpollfdsIdx fd = some i →
      i < s.poller.pollfds.length - 1 := by
    intro fd i hne hi
    have hi' := h.rep.lt fd i hi
    by_contra hge
    obtain rfl : i = s.poller.pollfds.length - 1 := by omega
    exact hne (h.rep.inj _ _ _ hi hidx)
  refine ⟨_, rfl, ?_, ?_, ?_, ?_, ?_⟩
  · intro fd
    by_cases hne : fd = (s.chan ch).fd
    · subst hne
      simp
    · simpa [Function.update_of_ne hne] using h.rep.keys fd
  · intro fd i hi
    dsimp only at hi
    by_cases hne : fd = (s.chan ch).fd
    · subst hne
      simp at hi
    · rw [Function.update_of_ne hne] at hi
      simpa using hother fd i hne hi
  · intro fd fd' i hi hi'
    dsimp only at hi hi'
    have hne : fd ≠ (s.chan ch).fd := by
      rintro rfl
      simp at hi
    have hne' : fd' ≠ (s.chan ch).fd := by
      rintro rfl
      simp at hi'
    rw [Function.update_of_ne hne] at hi
    rw [Function.update_of_ne hne'] at hi'
    exact h.rep.inj fd fd' i hi hi'
  · intro i hi
    simp only [List.length_dropLast] at hi
    obtain ⟨fd, hi'⟩ := h.rep.surj i (by omega)
    have hne : fd ≠ (s.chan ch).fd := by
      rintro rfl
      rw [hidx] at hi'
      cases hi'
      omega
    exact ⟨fd, by simpa [Function.update_of_ne hne] using hi'⟩
  · intro fd i hi
    dsimp only at hi ⊢
    have hne : fd ≠ (s.chan ch).fd := by
      rintro rfl
      simp at hi
    rw [Function.update_of_ne hne] at hi
    have hi' := hother fd i hne hi
    obtain ⟨ch₁, pfd₁, hch₁, hfd₁, hget₁, hslot₁⟩ := h.rep.slot fd i hi
    refine ⟨ch₁, pfd₁, by rw [Function.update_of_ne hne, hch₁], hfd₁, ?_, hslot₁⟩
    rw [List.getElem?_dropLast, if_pos hi', hget₁]

/-- `RemoveChannel` on a channel in an earlier slot: the last slot moves there, and its index is looked
up by the descriptor that the slot carries. -/
theorem removeChannel_swap {s : PollSystem ι} (h : Inv s) {ch : ι} {i : Nat} {last : PollFd}
    (hch : s.poller.channels (s.chan ch).fd = some ch) (hnone : (s.chan ch).events = kNoneEvent)
    (hidx : s.poller.fdInpollfdsIdx (s.chan ch).fd = some i) (hi : i ≠ s.poller.pollfds.length - 1)
    (hlast : s.poller.pollfds[s.poller.pollfds.length - 1]? = some last) :
    s.poller.removeChannel ch (s.chan ch) = .ok (s.poller.swapOut (s.chan ch).fd last.fd i) := by
  obtain ⟨ch', pfd, hch', _, hget, hfd, hev⟩ := h.rep.slot _ _ hidx
  rw [hch] at hch'
  cases hch'
  rw [if_pos hnone] at hfd
  have hslot : pfd.fd = -((s.chan ch).fd + 1) ∧ pfd.events.signExtend 32 = (s.chan ch).events := ⟨hfd, hev⟩
  simp only [PollPoller.removeChannel, hch, Option.isSome_some, check_pos, ok_bind, Channel.isNoneEvent,
    hnone, BEq.rfl, hidx, hget, hlast]
  rw [hnone] at hslot
  simp only [check_pos hslot, ok_bind, if_neg hi]
  rfl

omit [DecidableEq ι] in
/-- When the last slot is active, its descriptor is the key of its index, and the index is repaired. -/
theorem removeChannel_swap_rep {s : PollSystem ι} (h : Inv s) {ch : ι} {i : Nat} {last : PollFd}
    (hidx : s.poller.fdInpollfdsIdx (s.chan ch).fd = some i) (hi : i ≠ s.poller.pollfds.length - 1)
    (hlast : s.poller.pollfds[s.poller.pollfds.length - 1]? = some last) (hpos : 0 ≤ last.fd) :
    Rep ⟨s.chan, s.poller.swapOut (s.chan ch).fd last.fd i⟩ := by
  have hlt := h.rep.lt _ _ hidx
  obtain ⟨fdl, hfdl⟩ := h.rep.surj (s.poller.pollfds.length - 1) (by omega)
  obtain rfl : last.fd = fdl := h.slot_fd hfdl hlast hpos
  have hlne : last.fd ≠ (s.chan ch).fd := by
    intro he
    rw [he, hidx] at hfdl
    cases hfdl
    exact hi rfl
  -- the new index: the last descriptor at `i`, the removed one nowhere, the others where they were
  have hnew : ∀ fd j, Function.update (Function.update s.poller.fdInpollfdsIdx last.fd (some i))
      (s.chan ch).fd none fd = some j → fd ≠ (s.chan ch).fd ∧
        ((fd = last.fd ∧ j = i) ∨ (fd ≠ last.fd ∧ s.poller.fdInpollfdsIdx fd = some j ∧ j ≠ i ∧
          j < s.poller.pollfds.length - 1)) := by
    intro fd j hj
    have hne : fd ≠ (s.chan ch).fd := by
      rintro rfl
      simp at hj
    refine ⟨hne, ?_⟩
    rw [Function.update_of_ne hne] at hj
    by_cases hl : fd = last.fd
    · subst hl
      simp only [Function.update_self, Option.some.injEq] at hj
      exact Or.inl ⟨rfl, hj.symm⟩
    · rw [Function.update_of_ne hl] at hj
      have hjlt := h.rep.lt fd j hj
      have hji : j ≠ i := by
        rintro rfl
        exact hne (h.rep.inj _ _ _ hj hidx)
      have hjl : j ≠ s.poller.pollfds.length - 1 := by
        rintro rfl
        exact hl (h.rep.inj _ _ _ hj hfdl)
      exact Or.inr ⟨hl, hj, hji, by omega⟩
  unfold PollPoller.swapOut
  refine ⟨?_, ?_, ?_, ?_, ?_⟩
  · intro fd
    dsimp only
    by_cases hne : fd = (s.chan ch).fd
    · subst hne
      simp
    · rw [Function.update_of_ne hne, Function.update_of_ne hne, ← h.rep.keys fd]
      by_cases hl : fd = last.fd
      · subst hl
        simp [hfdl]
      · rw [Function.update_of_ne hl]
  · intro fd j hj
    simp only [List.length_dropLast, length_swap]
    rcases (hnew fd j hj).2 with ⟨_, rfl⟩ | ⟨_, _, _, hjlt⟩
    · omega
    · exact hjlt
  · intro fd fd' j hj hj'
    rcases (hnew fd j hj).2 with ⟨rfl, rfl⟩ | ⟨_, hold, hji, _⟩
    · rcases (hnew fd' j hj').2 with ⟨rfl, _⟩ | ⟨_, _, hji', _⟩
      · rfl
      · exact absurd rfl hji'
    · rcases (hnew fd' j hj').2 with ⟨rfl, rfl⟩ | ⟨_, hold', _, _⟩
      · exact absurd rfl hji
      · exact h.rep.inj _ _ _ hold hold'
  · intro j hj
    simp only [List.length_dropLast, length_swap] at hj
    dsimp only
    by_cases hji : j = i
    · exact ⟨last.fd, by rw [Function.update_of_ne hlne, Function.update_self, hji]⟩
    · obtain ⟨fd, hfd⟩ := h.rep.surj j (by omega)
      have hne : fd ≠ (s.chan ch).fd := by
        rintro rfl
        rw [hidx] at hfd
        cases hfd
        exact hji rfl
      have hl : fd ≠ last.fd := by
        rintro rfl
        rw [hfdl] at hfd
        cases hfd
        omega
      exact ⟨fd, by rw [Function.update_of_ne hne, Function.update_of_ne hl, hfd]⟩
  · intro fd j hj
    dsimp only
    obtain ⟨hne, hcase⟩ := hnew fd j hj
    rw [Function.update_of_ne hne]
    rcases hcase with ⟨rfl, rfl⟩ | ⟨_, hold, hji, hjlt⟩
    · obtain ⟨ch₁, pfd₁, hch₁, hfd₁, hget₁, hslot₁⟩ := h.rep.slot _ _ hfdl
      refine ⟨ch₁, pfd₁, hch₁, hfd₁, ?_, hslot₁⟩
      rw [getElem?_swap_dropLast (by omega) (by omega), if_pos rfl, hget₁]
    · obtain ⟨ch₁, pfd₁, hch₁, hfd₁, hget₁, hslot₁⟩ := h.rep.slot _ _ hold
      refine ⟨ch₁, pfd₁, hch₁, hfd₁, ?_, hslot₁⟩
      rw [getElem?_swap_dropLast (by omega) hjlt, if_neg hji, hget₁]

/-! ### Runs over any number of channels -/

/-- What holds after every operation: the representation, what `poll` watches, and how
`fillActiveChannels` dispatches. -/
def Sound (_ : PollSystem ι) (_ : PollerOp ι) (t : PollSystem ι) : Prop := Rep t ∧ Watches t ∧ Dispatches t

omit [DecidableEq ι] in
theorem Inv.sound {s t : PollSystem ι} {a : PollerOp ι} (h : Inv t) : Sound s a t :=
  ⟨h.rep, h.rep.watches h.nonneg, h.rep.dispatches h.nonneg⟩

theorem step_good (s : PollSystem ι) (a : PollerOp ι) (h : Inv s) (hpre : Pre s a)
    (hgood : NotIgnored s a) : StepHolds step noError (fun s a t => Sound s a t ∧ Inv t) s a := by
  cases a with
  | update ch op =>
      have he := (h.interest ch).apply op
      cases hidx : s.poller.fdInpollfdsIdx (s.chan ch).fd with
      | none =>
          obtain ⟨p, c, hupd, hfd, hev, _, _, hrep⟩ := updateChannel_new h he hidx
          have hinv := h.update_chan hfd (hev ▸ he) (hrep (hgood hidx))
          exact StepHolds.of_ok (by simp only [step, hupd]; rfl) ⟨hinv.sound, hinv⟩
      | some i =>
          obtain ⟨p, c, hupd, hfd, hev, hrep⟩ := updateChannel_old h he hidx
          have hinv := h.update_chan hfd (hev ▸ he) hrep
          exact StepHolds.of_ok (by simp only [step, hupd]; rfl) ⟨hinv.sound, hinv⟩
  | remove ch =>
      obtain ⟨hch, hnone⟩ := hpre
      obtain ⟨_, i, hidx⟩ := h.rep.channel_fd hch
      by_cases hi : i = s.poller.pollfds.length - 1
      · subst hi
        obtain ⟨p, hrem, hrep⟩ := removeChannel_last h hch hnone hidx
        have hinv : Inv ⟨s.chan, p⟩ := ⟨h.distinct, h.nonneg, h.interest, hrep⟩
        exact StepHolds.of_ok (by simp only [step, hrem]; rfl) ⟨hinv.sound, hinv⟩
      · have hlt := h.rep.lt _ _ hidx
        have hlast : s.poller.pollfds[s.poller.pollfds.length - 1]? =
            some s.poller.pollfds[s.poller.pollfds.length - 1] := List.getElem?_eq_getElem _
        have hpos : 0 ≤ s.poller.pollfds[s.poller.pollfds.length - 1].fd := by
          refine hgood (fun he => hi ?_) _ ?_
          · rw [hidx] at he
            cases he
            rfl
          · rw [List.getLast?_eq_getElem?, hlast]
            rfl
        have hrep := removeChannel_swap_rep h hidx hi hlast hpos
        have hinv : Inv ⟨s.chan, s.poller.swapOut (s.chan ch).fd
            s.poller.pollfds[s.poller.pollfds.length - 1].fd i⟩ :=
          ⟨h.distinct, h.nonneg, h.interest, hrep⟩
        refine StepHolds.of_ok ?_ ⟨hinv.sound, hinv⟩
        simp only [step, removeChannel_swap h hch hnone hidx hi hlast]
        rfl

theorem step_bad (s : PollSystem ι) (a : PollerOp ι) (h : Inv s) (hpre : Pre s a)
    (hbad : ¬ NotIgnored s a) : ¬ StepHolds step noError Sound s a := by
  intro hold
  cases a with
  | update ch op =>
      simp only [NotIgnored, Classical.not_imp, not_not] at hbad
      obtain ⟨hidx, hnone⟩ := hbad
      obtain ⟨p, c, hupd, hfd, hev, hidx', hget, _⟩ :=
        updateChannel_new h ((h.interest ch).apply op) hidx
      have hrep := (hold.2 ⟨Function.update s.chan ch c, p⟩ (by simp only [step, hupd]; rfl)).1
      -- the slot carries the descriptor itself, but the interest is empty
      obtain ⟨ch', pfd, _, hfd', hget', hslot, _⟩ := hrep.slot _ _ hidx'
      have hfds : (Function.update s.chan ch c ch').fd = (s.chan ch').fd := by
        by_cases hch : ch' = ch
        · subst hch
          rw [Function.update_self, hfd]
        · rw [Function.update_of_ne hch]
      obtain rfl : ch' = ch := h.distinct (hfds.symm.trans hfd')
      rw [hget] at hget'
      cases hget'
      simp only [Function.update_self, hev, hnone, if_true, hfd] at hslot
      omega
  | remove ch =>
      simp only [NotIgnored, Classical.not_imp, not_forall, not_le] at hbad
      obtain ⟨hi, last, hmem, hneg⟩ := hbad
      obtain ⟨hch, hnone⟩ := hpre
      obtain ⟨_, i, hidx⟩ := h.rep.channel_fd hch
      rw [List.getLast?_eq_getElem?] at hmem
      have hi' : i ≠ s.poller.pollfds.length - 1 := by
        rintro rfl
        exact hi hidx
      have hrem := removeChannel_swap h hch hnone hidx hi' hmem
      have hrep := (hold.2 _ (by simp only [step, hrem]; rfl)).1
      -- the negated descriptor became a key of the index, but of no channel
      have hnonneg := h.nonneg ch
      have hne : last.fd ≠ (s.chan ch).fd := by omega
      have hkey := hrep.keys last.fd
      simp only [PollPoller.swapOut, Function.update_of_ne hne, Function.update_self, Option.isSome_some,
        true_iff] at hkey
      obtain ⟨ch', hch'⟩ := Option.isSome_iff_exists.mp hkey
      have hfd := (h.rep.channel_fd hch').1
      have := h.nonneg ch'
      omega

/-- **When the representation invariant holds.** For every number of channels on distinct descriptors
and every sequence of operations: no assertion fails and after every operation the representation
invariant holds, `poll` watches exactly the registered channels with a non-empty interest and each
reported descriptor is dispatched to its own channel, if and only if no channel is registered with an
empty interest and none is removed from a slot before the last one while the last slot is ignored. -/
theorem rep_iff (fd : ι → Int) (hfd : Function.Injective fd) (hpos : ∀ ch, 0 ≤ fd ch)
    (ops : List (PollerOp ι)) (hops : Along step Pre (init fd) ops) :
    Holds step noError Sound (init fd) ops ↔ Along step NotIgnored (init fd) ops :=
  holds_iff_along (fun s a h hpre hgood => step_good s a h hpre hgood)
    (fun s a h hpre hbad => step_bad s a h hpre hbad) (init_inv hfd hpos) hops

/-- Three channels: the middle one is removed while the last slot is active, then the last one. -/
theorem rep_iff_run :
    Holds step noError Sound (init fun ch : Fin 3 => 5 + (ch.val : Int))
      [.update 0 .enableReadEvent, .update 1 .enableReadEvent, .update 2 .enableReadEvent,
        .update 1 .disableAllEvent, .update 2 .enableWriteEvent, .remove 1, .update 2 .disableAllEvent,
        .remove 2, .update 1 .enableWriteEvent] :=
  (rep_iff (fun ch : Fin 3 => 5 + (ch.val : Int)) (by decide) (by decide)
    [.update 0 .enableReadEvent, .update 1 .enableReadEvent, .update 2 .enableReadEvent,
      .update 1 .disableAllEvent, .update 2 .enableWriteEvent, .remove 1, .update 2 .disableAllEvent,
      .remove 2, .update 1 .enableWriteEvent] (by decide)).mpr (by decide)

/-- Removing the first of two channels while the last slot is ignored leaves an index of the negated
descriptor, which is no key of `channels_`. -/
theorem remove_before_ignored :
    Along step Pre (init fun ch : Bool => if ch then 5 else 6)
        [.update true .enableReadEvent, .update false .enableReadEvent, .update false .disableAllEvent,
          .update true .disableAllEvent, .remove true] ∧
      ¬ Holds step noError Sound (init fun ch : Bool => if ch then 5 else 6)
        [.update true .enableReadEvent, .update false .enableReadEvent, .update false .disableAllEvent,
          .update true .disableAllEvent, .remove true] := by
  refine ⟨by decide, fun h => ?_⟩
  have hlast := (((((h.2 _ rfl).2.2 _ rfl).2.2 _ rfl).2.2 _ rfl).2.2 _ rfl).1
  have hkeys := hlast.1.keys (-7)
  exact absurd (hkeys.mp rfl) (by decide)

end PollSystem

end OulaServer
