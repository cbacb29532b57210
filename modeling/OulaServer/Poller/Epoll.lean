import OulaServer.Channel
import OulaServer.Lib.Run

/-!
# `EpollPoller`

`updateChannel` and `RemoveChannel` of `net/poller/EpollPoller.cpp` over a model of the kernel's
epoll set: a map from descriptors to a mask and a channel pointer in which `EPOLL_CTL_ADD` fails on
a present descriptor and `EPOLL_CTL_MOD` and `EPOLL_CTL_DEL` fail on an absent one. Channels are
named by a type `ι` of pointers.

`Registered p ch c` says what the poller and the kernel hold about a channel for each value of its
status. It is kept by every update that leaves a non-empty interest or starts from one
(`updateChannel_spec`) and by `RemoveChannel` (`removeChannel_spec`), while the entries of other
descriptors are untouched. The remaining update, an empty interest declared again, goes through the
`EPOLL_CTL_ADD` branch (`updateChannel_redundant`): `kernelSet_iff` is the exact condition under
which the kernel's set equals the declared interest in every state of a run.
-/

namespace OulaServer

variable {ι : Type} [DecidableEq ι]

inductive CtlOp where
  | add
  | mod
  | del
  deriving DecidableEq, Repr

/-- `epoll_ctl` on the set; `none` is the result `-1`. -/
def epollCtl (set : Int → Option (Events × ι)) (op : CtlOp) (fd : Int) (event : Events × ι) :
    Option (Int → Option (Events × ι)) :=
  match op, set fd with
  | .add, none => some (Function.update set fd (some event))
  | .mod, some _ => some (Function.update set fd (some event))
  | .del, some _ => some (Function.update set fd none)
  | _, _ => none

/-- `channels_`, the kernel's set behind `epollfd_`, and the number of `epoll_ctl` calls that failed
(the source logs them and goes on). -/
structure EpollPoller (ι : Type) where
  channels : Int → Option ι
  epollSet : Int → Option (Events × ι)
  ctlFailures : Nat

namespace EpollPoller

def new : EpollPoller ι := ⟨fun _ => none, fun _ => none, 0⟩

def updateOperator2Poller (p : EpollPoller ι) (op : CtlOp) (ch : ι) (c : Channel) : EpollPoller ι :=
  match epollCtl p.epollSet op c.fd (c.events, ch) with
  | some set => { p with epollSet := set }
  | none => { p with ctlFailures := p.ctlFailures + 1 }

/-- `EpollPoller::updateChannel` on the channel at `ch`, whose fields are `c`. -/
def updateChannel (p : EpollPoller ι) (ch : ι) (c : Channel) :
    Except Abort (EpollPoller ι × Channel) :=
  match c.inPollerStatus with
  | .kInit => do
      let p := { p with channels := Function.update p.channels c.fd (some ch) }
      return (p.updateOperator2Poller .add ch c, { c with inPollerStatus := .kAdded })
  | .kDeleted => do
      check ((p.channels c.fd).isSome) .updateChannelFound
      check (p.channels c.fd = some ch) .updateChannelSame
      return (p.updateOperator2Poller .add ch c, { c with inPollerStatus := .kAdded })
  | .kAdded => do
      check ((p.channels c.fd).isSome) .updateChannelFound
      check (p.channels c.fd = some ch) .updateChannelSame
      if c.isNoneEvent then
        return (p.updateOperator2Poller .del ch c, { c with inPollerStatus := .kDeleted })
      else
        return (p.updateOperator2Poller .mod ch c, c)

/-- `EpollPoller::RemoveChannel`. -/
def removeChannel (p : EpollPoller ι) (ch : ι) (c : Channel) :
    Except Abort (EpollPoller ι × Channel) := do
  check ((p.channels c.fd).isSome) .removeChannelFound
  check (p.channels c.fd = some ch) .removeChannelSame
  check c.isNoneEvent .removeChannelNoneEvent
  check (c.inPollerStatus = .kAdded ∨ c.inPollerStatus = .kDeleted) .removeChannelStatus
  let p := { p with channels := Function.update p.channels c.fd none }
  let p := if c.inPollerStatus = .kAdded then p.updateOperator2Poller .del ch c else p
  return (p, { c with inPollerStatus := .kInit })

/-! ### One channel -/

/-- What the poller and the kernel hold about the channel at `ch`, by its status. -/
def Registered (p : EpollPoller ι) (ch : ι) (c : Channel) : Prop :=
  match c.inPollerStatus with
  | .kInit => c.events = kNoneEvent ∧ p.channels c.fd = none ∧ p.epollSet c.fd = none
  | .kAdded => c.events ≠ kNoneEvent ∧ p.channels c.fd = some ch ∧
      p.epollSet c.fd = some (c.events, ch)
  | .kDeleted => c.events = kNoneEvent ∧ p.channels c.fd = some ch ∧ p.epollSet c.fd = none

/-- `p'` and `p` hold the same about every descriptor but `fd`, and no `epoll_ctl` failed between. -/
structure SameBut (fd : Int) (p p' : EpollPoller ι) : Prop where
  channels : ∀ fd', fd' ≠ fd → p'.channels fd' = p.channels fd'
  epollSet : ∀ fd', fd' ≠ fd → p'.epollSet fd' = p.epollSet fd'
  ctlFailures : p'.ctlFailures = p.ctlFailures

omit [DecidableEq ι] in
theorem Registered.frame {p p' : EpollPoller ι} {fd : Int} {ch : ι} {c : Channel}
    (h : p.Registered ch c) (hsame : SameBut fd p p') (hfd : c.fd ≠ fd) : p'.Registered ch c := by
  unfold Registered at h ⊢
  rw [hsame.channels _ hfd, hsame.epollSet _ hfd]
  exact h

omit [DecidableEq ι] in
theorem Registered.epollSet_eq {p : EpollPoller ι} {ch : ι} {c : Channel} (h : p.Registered ch c) :
    p.epollSet c.fd = if c.events = kNoneEvent then none else some (c.events, ch) := by
  unfold Registered at h
  split at h
  · rw [if_pos h.1, h.2.2]
  · rw [if_neg h.1, h.2.2]
  · rw [if_pos h.1, h.2.2]

omit [DecidableEq ι] in
theorem Registered.found {p : EpollPoller ι} {ch : ι} {c : Channel} (h : p.Registered ch c)
    (hstatus : c.inPollerStatus ≠ .kInit) : p.channels c.fd = some ch := by
  unfold Registered at h
  split at h
  · next hs => exact absurd hs hstatus
  · exact h.2.1
  · exact h.2.1

/-- Declaring the interest `e`, when it is not empty or was not: the channel stays registered. -/
theorem updateChannel_spec {p : EpollPoller ι} {ch : ι} {c : Channel} (h : p.Registered ch c)
    {e : Events} (he : e ≠ kNoneEvent ∨ c.events ≠ kNoneEvent) :
    ∃ p' c', p.updateChannel ch { c with events := e } = .ok (p', c') ∧ p'.Registered ch c' ∧
      c'.fd = c.fd ∧ c'.events = e ∧ c'.inPollerStatus ≠ .kInit ∧ SameBut c.fd p p' := by
  obtain ⟨fd, events, status⟩ := c
  cases status with
  | kInit =>
      obtain ⟨rfl, hch, hset⟩ := h
      have hne : e ≠ kNoneEvent := he.resolve_right (fun hn => hn rfl)
      simp only [updateChannel, updateOperator2Poller, epollCtl, hset]
      refine ⟨_, _, rfl, ⟨hne, by simp, by simp⟩, rfl, rfl, nofun, ⟨?_, ?_, rfl⟩⟩
      · intro fd' hfd
        exact Function.update_of_ne hfd _ _
      · intro fd' hfd
        exact Function.update_of_ne hfd _ _
  | kDeleted =>
      obtain ⟨rfl, hch, hset⟩ := h
      have hne : e ≠ kNoneEvent := he.resolve_right (fun hn => hn rfl)
      simp only [updateChannel, updateOperator2Poller, epollCtl, hset, hch, Option.isSome_some,
        check_pos, ok_bind]
      refine ⟨_, _, rfl, ⟨hne, hch, by simp⟩, rfl, rfl, nofun, ⟨fun _ _ => rfl, ?_, rfl⟩⟩
      intro fd' hfd
      exact Function.update_of_ne hfd _ _
  | kAdded =>
      obtain ⟨hne, hch, hset⟩ := h
      simp only [updateChannel, updateOperator2Poller, epollCtl, hset, hch, Option.isSome_some,
        check_pos, ok_bind, Channel.isNoneEvent]
      by_cases hnone : e = kNoneEvent
      · subst hnone
        refine ⟨_, _, rfl, ⟨rfl, hch, by simp⟩, rfl, rfl, nofun, ⟨fun _ _ => rfl, ?_, rfl⟩⟩
        intro fd' hfd
        exact Function.update_of_ne hfd _ _
      · simp only [beq_iff_eq, hnone, if_false]
        refine ⟨_, _, rfl, ⟨hnone, hch, by simp⟩, rfl, rfl, nofun, ⟨fun _ _ => rfl, ?_, rfl⟩⟩
        intro fd' hfd
        exact Function.update_of_ne hfd _ _

/-- `RemoveChannel` on a registered channel whose interest is empty: the channel was deleted from the
kernel's set before, so no `epoll_ctl` is made. -/
theorem removeChannel_spec {p : EpollPoller ι} {ch : ι} {c : Channel} (h : p.Registered ch c)
    (hfound : p.channels c.fd = some ch) (hnone : c.events = kNoneEvent) :
    ∃ p' c', p.removeChannel ch c = .ok (p', c') ∧ p'.Registered ch c' ∧ c'.fd = c.fd ∧
      c'.events = kNoneEvent ∧ c'.inPollerStatus = .kInit ∧ SameBut c.fd p p' := by
  obtain ⟨fd, events, status⟩ := c
  subst hnone
  cases status with
  | kInit => rw [h.2.1] at hfound; cases hfound
  | kAdded => exact absurd rfl h.1
  | kDeleted =>
      obtain ⟨_, hch, hset⟩ := h
      simp only [removeChannel, hch, Option.isSome_some, check_pos, ok_bind, Channel.isNoneEvent,
        BEq.rfl, reduceCtorEq, or_true, if_false]
      refine ⟨_, _, rfl, ⟨rfl, by simp, hset⟩, rfl, rfl, rfl, ⟨?_, fun _ _ => rfl, rfl⟩⟩
      intro fd' hfd
      exact Function.update_of_ne hfd _ _

/-- Declaring the empty interest of a channel again adds it to the kernel's set with mask 0. -/
theorem updateChannel_redundant {p : EpollPoller ι} {ch : ι} {c : Channel} (h : p.Registered ch c)
    (hnone : c.events = kNoneEvent) :
    ∃ p' c', p.updateChannel ch c = .ok (p', c') ∧ c'.fd = c.fd ∧ c'.events = kNoneEvent ∧
      p'.epollSet c.fd = some (kNoneEvent, ch) := by
  obtain ⟨fd, events, status⟩ := c
  subst hnone
  cases status with
  | kInit =>
      simp only [updateChannel, updateOperator2Poller, epollCtl, h.2.2]
      exact ⟨_, _, rfl, rfl, rfl, by simp⟩
  | kDeleted =>
      simp only [updateChannel, updateOperator2Poller, epollCtl, h.2.2, h.2.1, Option.isSome_some,
        check_pos, ok_bind]
      exact ⟨_, _, rfl, rfl, rfl, by simp⟩
  | kAdded => exact absurd rfl h.1

theorem updateChannel_same {p : EpollPoller ι} {ch : ι} {c : Channel} (h : p.Registered ch c)
    (hne : c.events ≠ kNoneEvent) : p.updateChannel ch c = .ok (p, c) := by
  obtain ⟨fd, events, status⟩ := c
  cases status with
  | kInit => exact absurd h.1 hne
  | kDeleted => exact absurd h.1 hne
  | kAdded =>
      obtain ⟨hne, hch, hset⟩ := h
      dsimp only at hne hch hset
      have hkeep : Function.update p.epollSet fd (some (events, ch)) = p.epollSet := by
        rw [← hset, Function.update_eq_self]
      simp only [updateChannel, updateOperator2Poller, epollCtl, hset, hch, Option.isSome_some,
        check_pos, ok_bind, Channel.isNoneEvent, beq_iff_eq, hne, if_false, hkeep]
      rfl

/-! ### What the poller holds about one channel, whatever the others do -/

omit [DecidableEq ι] in
/-- Neither the poller nor the kernel holds the channel. -/
def Unregistered (p : EpollPoller ι) (ch : ι) : Prop :=
  (∀ fd, p.channels fd ≠ some ch) ∧ ∀ fd event, p.epollSet fd = some event → event.2 ≠ ch

omit [DecidableEq ι] in
/-- What is held about the channel at `ch` stands under its descriptor, as its status says. -/
structure Tracks (p : EpollPoller ι) (ch : ι) (o : Option Channel) : Prop where
  channels : ∀ fd, p.channels fd = some ch → ∃ c ∈ o, c.fd = fd ∧ c.inPollerStatus ≠ .kInit
  epollSet : ∀ fd events, p.epollSet fd = some (events, ch) → ∃ c ∈ o, c.fd = fd ∧ c.inPollerStatus = .kAdded

omit [DecidableEq ι] in
theorem new_tracks (ch : ι) (o : Option Channel) : (new : EpollPoller ι).Tracks ch o := ⟨nofun, nofun⟩

omit [DecidableEq ι] in
theorem Tracks.unregistered {p : EpollPoller ι} {ch : ι} {o : Option Channel} (h : p.Tracks ch o)
    (ho : ∀ c ∈ o, c.inPollerStatus = .kInit) : p.Unregistered ch := by
  refine ⟨fun fd hfd => ?_, fun fd event hfd hch => ?_⟩
  · obtain ⟨c, hc, _, hstatus⟩ := h.channels fd hfd
    exact hstatus (ho c hc)
  · obtain ⟨events, ch'⟩ := event
    cases hch
    obtain ⟨c, hc, _, hstatus⟩ := h.epollSet fd events hfd
    rw [ho c hc] at hstatus
    cases hstatus

omit [DecidableEq ι] in
theorem Unregistered.tracks {p : EpollPoller ι} {ch : ι} (h : p.Unregistered ch) (o : Option Channel) :
    p.Tracks ch o :=
  ⟨fun fd hfd => absurd hfd (h.1 fd), fun fd events hfd => absurd rfl (h.2 fd (events, ch) hfd)⟩

omit [DecidableEq ι] in
theorem epollCtl_some {set set' : Int → Option (Events × ι)} {op : CtlOp} {fd fd' : Int} {event e : Events × ι}
    (h : epollCtl set op fd event = some set') (he : set' fd' = some e) :
    fd' ≠ fd ∧ set fd' = some e ∨ fd' = fd ∧ e = event ∧ op ≠ .del := by
  have hcases : op ≠ .del ∧ set' = Function.update set fd (some event) ∨ set' = Function.update set fd none := by
    unfold epollCtl at h
    split at h
    · exact Or.inl ⟨nofun, (Option.some.inj h).symm⟩
    · exact Or.inl ⟨nofun, (Option.some.inj h).symm⟩
    · exact Or.inr (Option.some.inj h).symm
    · cases h
  by_cases hfd : fd' = fd
  · subst hfd
    rcases hcases with ⟨hop, rfl⟩ | rfl
    · rw [Function.update_self] at he
      exact Or.inr ⟨rfl, (Option.some.inj he).symm, hop⟩
    · rw [Function.update_self] at he
      cases he
  · rcases hcases with ⟨_, rfl⟩ | rfl
    · rw [Function.update_of_ne hfd] at he
      exact Or.inl ⟨hfd, he⟩
    · rw [Function.update_of_ne hfd] at he
      exact Or.inl ⟨hfd, he⟩

omit [DecidableEq ι] in
/-- An entry of the kernel's set after `epoll_ctl`, whether it failed or not: an old one, or the one that was
asked for. A deleted descriptor has none. -/
theorem updateOperator2Poller_epollSet {p : EpollPoller ι} {op : CtlOp} {ch : ι} {c : Channel} {fd : Int}
    {e : Events × ι} (h : (p.updateOperator2Poller op ch c).epollSet fd = some e) :
    (fd ≠ c.fd ∨ op ≠ .del) ∧ (p.epollSet fd = some e ∨ fd = c.fd ∧ e = (c.events, ch)) := by
  unfold updateOperator2Poller at h
  split at h
  · next set hset =>
      rcases epollCtl_some hset h with ⟨hfd, hold⟩ | ⟨hfd, he, hop⟩
      · exact ⟨Or.inl hfd, Or.inl hold⟩
      · exact ⟨Or.inr hop, Or.inr ⟨hfd, he⟩⟩
  · next hset =>
      refine ⟨?_, Or.inl h⟩
      by_contra hboth
      obtain ⟨rfl, rfl⟩ : fd = c.fd ∧ op = .del := by tauto
      have hsome : p.epollSet c.fd = some e := h
      simp only [epollCtl, hsome, reduceCtorEq] at hset

omit [DecidableEq ι] in
@[simp] theorem updateOperator2Poller_channels {p : EpollPoller ι} {op : CtlOp} {ch : ι} {c : Channel} :
    (p.updateOperator2Poller op ch c).channels = p.channels := by
  unfold updateOperator2Poller
  split <;> rfl

/-- What `updateChannel` changes: at most the entries of the channel's descriptor, which become its own. -/
structure Updated (p p' : EpollPoller ι) (ch : ι) (c c' : Channel) : Prop where
  channel : ∃ status, status ≠ .kInit ∧ c' = { c with inPollerStatus := status }
  channels : ∀ fd x, p'.channels fd = some x → p.channels fd = some x ∨ fd = c.fd ∧ x = ch
  epollSet : ∀ fd e, p'.epollSet fd = some e → (fd ≠ c.fd ∨ c'.inPollerStatus = .kAdded) ∧
    (p.epollSet fd = some e ∨ fd = c.fd ∧ e = (c.events, ch))

theorem updateChannel_updated {p p' : EpollPoller ι} {ch : ι} {c c' : Channel}
    (h : p.updateChannel ch c = .ok (p', c')) : Updated p p' ch c c' := by
  unfold updateChannel at h
  cases hstatus : c.inPollerStatus with
  | kInit =>
      simp only [hstatus] at h
      cases h
      refine ⟨⟨.kAdded, nofun, rfl⟩, fun fd x hx => ?_, fun fd e he => ?_⟩
      · rw [updateOperator2Poller_channels] at hx
        by_cases hfd : fd = c.fd
        · subst hfd
          simp only [Function.update_self, Option.some.injEq] at hx
          exact Or.inr ⟨rfl, hx.symm⟩
        · simp only [Function.update_of_ne hfd] at hx
          exact Or.inl hx
      · exact ⟨Or.inr rfl, (updateOperator2Poller_epollSet he).2⟩
  | kDeleted =>
      simp only [hstatus] at h
      obtain ⟨_, _, h⟩ := bind_eq_ok.mp h
      obtain ⟨_, _, h⟩ := bind_eq_ok.mp h
      cases h
      refine ⟨⟨.kAdded, nofun, rfl⟩, fun fd x hx => ?_, fun fd e he => ?_⟩
      · rw [updateOperator2Poller_channels] at hx
        exact Or.inl hx
      · exact ⟨Or.inr rfl, (updateOperator2Poller_epollSet he).2⟩
  | kAdded =>
      simp only [hstatus] at h
      obtain ⟨_, _, h⟩ := bind_eq_ok.mp h
      obtain ⟨_, _, h⟩ := bind_eq_ok.mp h
      split_ifs at h
      · cases h
        refine ⟨⟨.kDeleted, nofun, rfl⟩, fun fd x hx => ?_, fun fd e he => ?_⟩
        · rw [updateOperator2Poller_channels] at hx
          exact Or.inl hx
        · obtain ⟨hfd, hold⟩ := updateOperator2Poller_epollSet he
          exact ⟨Or.inl (hfd.resolve_right fun hne => hne rfl), hold⟩
      · cases h
        refine ⟨⟨.kAdded, nofun, by rw [← hstatus]⟩, fun fd x hx => ?_, fun fd e he => ?_⟩
        · rw [updateOperator2Poller_channels] at hx
          exact Or.inl hx
        · exact ⟨Or.inr hstatus, (updateOperator2Poller_epollSet he).2⟩

/-- What `RemoveChannel` changes: it removes the entries of the channel's descriptor. -/
structure Removed (p p' : EpollPoller ι) (c c' : Channel) : Prop where
  channel : c' = { c with inPollerStatus := .kInit }
  channels : ∀ fd x, p'.channels fd = some x → fd ≠ c.fd ∧ p.channels fd = some x
  epollSet : ∀ fd e, p'.epollSet fd = some e →
    (fd ≠ c.fd ∨ c.inPollerStatus ≠ .kAdded) ∧ p.epollSet fd = some e

theorem removeChannel_removed {p p' : EpollPoller ι} {ch : ι} {c c' : Channel}
    (h : p.removeChannel ch c = .ok (p', c')) : Removed p p' c c' := by
  obtain ⟨_, _, h⟩ := bind_eq_ok.mp h
  obtain ⟨_, _, h⟩ := bind_eq_ok.mp h
  obtain ⟨_, _, h⟩ := bind_eq_ok.mp h
  obtain ⟨_, _, h⟩ := bind_eq_ok.mp h
  have hchannels : ∀ fd x, Function.update p.channels c.fd none fd = some x →
      fd ≠ c.fd ∧ p.channels fd = some x := by
    intro fd x hx
    by_cases hfd : fd = c.fd
    · rw [hfd, Function.update_self] at hx
      cases hx
    · rw [Function.update_of_ne hfd] at hx
      exact ⟨hfd, hx⟩
  by_cases hstatus : c.inPollerStatus = .kAdded
  · simp only [if_pos hstatus] at h
    cases h
    refine ⟨rfl, fun fd x hx => ?_, fun fd e he => ?_⟩
    · rw [updateOperator2Poller_channels] at hx
      exact hchannels fd x hx
    · obtain ⟨hfd, hold⟩ := updateOperator2Poller_epollSet he
      have hne : fd ≠ c.fd := hfd.resolve_right fun hne => hne rfl
      exact ⟨Or.inl hne, hold.resolve_right fun hself => hne hself.1⟩
  · simp only [if_neg hstatus] at h
    cases h
    exact ⟨rfl, hchannels, fun fd e he => ⟨Or.inr hstatus, he⟩⟩

omit [DecidableEq ι] in
theorem Tracks.congr {p : EpollPoller ι} {ch : ι} {c c' : Channel} (h : p.Tracks ch (some c)) (hfd : c'.fd = c.fd)
    (hstatus : c'.inPollerStatus = c.inPollerStatus) : p.Tracks ch (some c') := by
  refine ⟨fun fd hx => ?_, fun fd events he => ?_⟩
  · obtain ⟨_, ⟨⟩, hcfd, hne⟩ := h.channels fd hx
    exact ⟨c', rfl, hfd.trans hcfd, by rwa [hstatus]⟩
  · obtain ⟨_, ⟨⟩, hcfd, hadded⟩ := h.epollSet fd events he
    exact ⟨c', rfl, hfd.trans hcfd, by rwa [hstatus]⟩

omit [DecidableEq ι] in
theorem Tracks.update {p p' : EpollPoller ι} {ch : ι} {c₀ c c' : Channel} (h : p.Tracks ch (some c₀))
    (hfd : c.fd = c₀.fd) (hup : Updated p p' ch c c') : p'.Tracks ch (some c') := by
  obtain ⟨⟨status, hne, rfl⟩, hchannels, hset⟩ := hup
  refine ⟨fun fd hx => ?_, fun fd events he => ?_⟩
  · refine ⟨_, rfl, ?_, hne⟩
    rcases hchannels fd ch hx with hold | ⟨rfl, _⟩
    · obtain ⟨_, ⟨⟩, rfl, _⟩ := h.channels fd hold
      exact hfd
    · rfl
  · obtain ⟨hadded, hold⟩ := hset fd _ he
    have heq : c.fd = fd := by
      rcases hold with hold | ⟨rfl, _⟩
      · obtain ⟨_, ⟨⟩, rfl, _⟩ := h.epollSet fd events hold
        exact hfd
      · rfl
    exact ⟨_, rfl, heq, hadded.resolve_left fun hne => hne heq.symm⟩

omit [DecidableEq ι] in
theorem Tracks.update_of_ne {p p' : EpollPoller ι} {ch ch' : ι} {o : Option Channel} {c c' : Channel}
    (h : p.Tracks ch' o) (hne : ch' ≠ ch) (hup : Updated p p' ch c c') : p'.Tracks ch' o :=
  ⟨fun fd hx => h.channels fd ((hup.channels fd ch' hx).resolve_right fun hnew => hne hnew.2),
    fun fd events he => h.epollSet fd events
      ((hup.epollSet fd _ he).2.resolve_right fun hnew => hne (congrArg Prod.snd hnew.2))⟩

omit [DecidableEq ι] in
theorem Tracks.remove {p p' : EpollPoller ι} {ch : ι} {c c' : Channel} (h : p.Tracks ch (some c))
    (hrem : Removed p p' c c') : p'.Unregistered ch := by
  refine ⟨fun fd hx => ?_, fun fd e he hch => ?_⟩
  · obtain ⟨hne, hold⟩ := hrem.channels fd ch hx
    obtain ⟨_, ⟨⟩, rfl, _⟩ := h.channels fd hold
    exact hne rfl
  · obtain ⟨events, ch'⟩ := e
    cases hch
    obtain ⟨hor, hold⟩ := hrem.epollSet fd _ he
    obtain ⟨_, ⟨⟩, rfl, hstatus⟩ := h.epollSet fd events hold
    exact hor.elim (fun hne => hne rfl) fun hne => hne hstatus

omit [DecidableEq ι] in
theorem Tracks.of_removed {p p' : EpollPoller ι} {ch : ι} {o : Option Channel} {c c' : Channel}
    (h : p.Tracks ch o) (hrem : Removed p p' c c') : p'.Tracks ch o :=
  ⟨fun fd hx => h.channels fd (hrem.channels fd ch hx).2, fun fd events he =>
    h.epollSet fd events (hrem.epollSet fd _ he).2⟩

end EpollPoller

/-! ### Runs over any number of channels -/

/-- All channels of a loop and its poller. -/
structure EpollSystem (ι : Type) where
  chan : ι → Channel
  poller : EpollPoller ι

namespace EpollSystem

open Run EpollPoller

/-- Channels on the descriptors `fd`, none of them registered yet. -/
def init (fd : ι → Int) : EpollSystem ι := ⟨fun ch => Channel.new (fd ch), EpollPoller.new⟩

def step (s : EpollSystem ι) : PollerOp ι → Except Abort (EpollSystem ι)
  | .update ch op => do
      let c := s.chan ch
      let (p, c) ← s.poller.updateChannel ch { c with events := op.apply c.events }
      return ⟨Function.update s.chan ch c, p⟩
  | .remove ch => do
      let (p, c) ← s.poller.removeChannel ch (s.chan ch)
      return ⟨Function.update s.chan ch c, p⟩

/-- `remove()` is called on a registered channel whose interest is empty. -/
def Pre (s : EpollSystem ι) : PollerOp ι → Prop
  | .update _ _ => True
  | .remove ch => s.poller.channels (s.chan ch).fd = some ch ∧ (s.chan ch).events = kNoneEvent

/-- No disable operation is called on a channel whose interest is already empty. -/
def NotRedundant (s : EpollSystem ι) : PollerOp ι → Prop
  | .update ch op => op.isDisable = true → (s.chan ch).events ≠ kNoneEvent
  | .remove _ => True

instance (s : EpollSystem ι) : (a : PollerOp ι) → Decidable (Pre s a)
  | .update _ _ => .isTrue trivial
  | .remove _ => inferInstanceAs (Decidable (_ ∧ _))

instance (s : EpollSystem ι) : (a : PollerOp ι) → Decidable (NotRedundant s a)
  | .update _ op => inferInstanceAs (Decidable (op.isDisable = true → _))
  | .remove _ => .isTrue trivial

/-- No `epoll_ctl` failed, and the kernel watches exactly the channels whose interest is not empty,
each with its interest as the mask and its own pointer. -/
def KernelAgrees (s : EpollSystem ι) : Prop :=
  s.poller.ctlFailures = 0 ∧ ∀ fd event, s.poller.epollSet fd = some event ↔
    ∃ ch, (s.chan ch).fd = fd ∧ (s.chan ch).events ≠ kNoneEvent ∧ event = ((s.chan ch).events, ch)

/-- After the operation the kernel agrees, and a disable operation repeated changed nothing. -/
def Faithful (s : EpollSystem ι) (a : PollerOp ι) (t : EpollSystem ι) : Prop :=
  KernelAgrees t ∧ ∀ ch op, a = .update ch op → op.isDisable = true →
    op.apply (s.chan ch).events = (s.chan ch).events → t = s

structure Inv (s : EpollSystem ι) : Prop where
  distinct : Function.Injective fun ch => (s.chan ch).fd
  interest : ∀ ch, Interest (s.chan ch).events
  registered : ∀ ch, s.poller.Registered ch (s.chan ch)
  others : ∀ fd, (∀ ch, (s.chan ch).fd ≠ fd) → s.poller.epollSet fd = none
  ctlFailures : s.poller.ctlFailures = 0

omit [DecidableEq ι] in
theorem init_inv {fd : ι → Int} (hfd : Function.Injective fd) : Inv (init fd) :=
  ⟨hfd, fun _ => Interest.none, fun _ => ⟨rfl, rfl, rfl⟩, fun _ _ => rfl, rfl⟩

omit [DecidableEq ι] in
theorem Inv.kernelAgrees {s : EpollSystem ι} (h : Inv s) : KernelAgrees s := by
  refine ⟨h.ctlFailures, fun fd event => ⟨fun hset => ?_, ?_⟩⟩
  · by_cases hfd : ∃ ch, (s.chan ch).fd = fd
    · obtain ⟨ch, rfl⟩ := hfd
      rw [(h.registered ch).epollSet_eq] at hset
      split_ifs at hset with hnone
      cases hset
      exact ⟨ch, rfl, hnone, rfl⟩
    · rw [h.others fd fun ch hch => hfd ⟨ch, hch⟩] at hset
      cases hset
  · rintro ⟨ch, rfl, hne, rfl⟩
    rw [(h.registered ch).epollSet_eq, if_neg hne]

theorem Inv.update {s : EpollSystem ι} (h : Inv s) {ch : ι} {p : EpollPoller ι} {c : Channel}
    (hreg : p.Registered ch c) (hfd : c.fd = (s.chan ch).fd) (hint : Interest c.events)
    (hsame : SameBut (s.chan ch).fd s.poller p) : Inv ⟨Function.update s.chan ch c, p⟩ := by
  have hfds : ∀ ch', (Function.update s.chan ch c ch').fd = (s.chan ch').fd := by
    intro ch'
    by_cases hch : ch' = ch
    · subst hch
      rw [Function.update_self, hfd]
    · rw [Function.update_of_ne hch]
  refine ⟨?_, fun ch' => ?_, fun ch' => ?_, fun fd hnone => ?_, hsame.ctlFailures.trans h.ctlFailures⟩
  · intro a b hab
    exact h.distinct ((hfds a).symm.trans (hab.trans (hfds b)))
  · by_cases hch : ch' = ch
    · subst hch
      simpa using hint
    · simpa [Function.update_of_ne hch] using h.interest ch'
  · by_cases hch : ch' = ch
    · subst hch
      simpa using hreg
    · have hne : (s.chan ch').fd ≠ (s.chan ch).fd := fun he => hch (h.distinct he)
      simpa [Function.update_of_ne hch] using (h.registered ch').frame hsame hne
  · have hfd' : ∀ ch', (s.chan ch').fd ≠ fd := fun ch' he => hnone ch' ((hfds ch').trans he)
    exact (hsame.epollSet fd (hfd' ch).symm).trans (h.others fd hfd')

theorem step_good (s : EpollSystem ι) (a : PollerOp ι) (h : Inv s) (hpre : Pre s a)
    (hgood : NotRedundant s a) :
    StepHolds step noError (fun s a t => Faithful s a t ∧ Inv t) s a := by
  cases a with
  | update ch op =>
      have hreg := h.registered ch
      have he : op.apply (s.chan ch).events ≠ kNoneEvent ∨ (s.chan ch).events ≠ kNoneEvent := by
        cases hop : op.isDisable with
        | true => exact Or.inr (hgood hop)
        | false => exact Or.inl (apply_enable_ne_none (h.interest ch) hop)
      obtain ⟨p, c, hupd, hreg', hfd, hev, _, hsame⟩ := updateChannel_spec hreg he
      have hstep : step s (.update ch op) = .ok ⟨Function.update s.chan ch c, p⟩ := by
        simp only [step, hupd]
        rfl
      have hint : Interest c.events := hev ▸ (h.interest ch).apply op
      have hinv := h.update hreg' hfd hint hsame
      refine StepHolds.of_ok hstep ⟨⟨hinv.kernelAgrees, ?_⟩, hinv⟩
      intro ch' op' hop hdis hkeep
      cases hop
      -- the interest stays what it is and is not empty, so the update is a `MOD` with the same mask
      rw [hkeep, updateChannel_same hreg (hgood hdis)] at hupd
      cases hupd
      rw [Function.update_eq_self]
  | remove ch =>
      obtain ⟨hfound, hnone⟩ := hpre
      obtain ⟨p, c, hrem, hreg', hfd, hev, _, hsame⟩ := removeChannel_spec (h.registered ch) hfound hnone
      have hstep : step s (.remove ch) = .ok ⟨Function.update s.chan ch c, p⟩ := by
        simp only [step, hrem]
        rfl
      have hinv := h.update hreg' hfd (hev ▸ Interest.none) hsame
      exact StepHolds.of_ok hstep ⟨⟨hinv.kernelAgrees, by intro _ _ hop; cases hop⟩, hinv⟩

theorem step_bad (s : EpollSystem ι) (a : PollerOp ι) (h : Inv s) (hbad : ¬ NotRedundant s a) :
    ¬ StepHolds step noError Faithful s a := by
  intro hold
  cases a with
  | remove ch => exact hbad trivial
  | update ch op =>
      simp only [NotRedundant, not_forall, not_not] at hbad
      obtain ⟨hdis, hnone⟩ := hbad
      obtain ⟨p, c, hupd, hfd, hev, hset⟩ := updateChannel_redundant (h.registered ch) hnone
      have hstep : step s (.update ch op) = .ok ⟨Function.update s.chan ch c, p⟩ := by
        simp only [step, hnone, apply_disable_none hdis]
        rw [← hnone, hupd]
        rfl
      obtain ⟨⟨_, hagree⟩, _⟩ := hold.2 _ hstep
      obtain ⟨ch', hfd', hne, hevent⟩ := (hagree (s.chan ch).fd (kNoneEvent, ch)).mp hset
      obtain rfl := (Prod.mk.inj hevent).2
      simp only [Function.update_self] at hne
      exact hne hev

/-- **When the kernel's set equals the declared interest.** For every number of channels on distinct
descriptors and every sequence of operations: no assertion fails, no `epoll_ctl` fails, the kernel
watches exactly the declared interests after every operation and a repeated disable operation
changes nothing, if and only if no disable operation is called on a channel whose interest is
already empty. -/
theorem kernelSet_iff (fd : ι → Int) (hfd : Function.Injective fd) (ops : List (PollerOp ι))
    (hops : Along step Pre (init fd) ops) :
    Holds step noError Faithful (init fd) ops ↔ Along step NotRedundant (init fd) ops :=
  holds_iff_along (fun s a h hpre hgood => step_good s a h hpre hgood)
    (fun s a h _ hbad => step_bad s a h hbad) (init_inv hfd) hops

/-- Two channels that are enabled, disabled, enabled again and removed. -/
theorem kernelSet_iff_run :
    Holds step noError Faithful (init fun ch : Bool => if ch then 5 else 6)
      [.update true .enableReadEvent, .update false .enableReadEvent, .update true .enableWriteEvent,
        .update true .disableWriteEvent, .update true .disableWriteEvent, .update true .disableAllEvent,
        .update true .enableWriteEvent, .update true .disableAllEvent, .remove true] :=
  (kernelSet_iff (fun ch : Bool => if ch then 5 else 6) (by decide)
    [.update true .enableReadEvent, .update false .enableReadEvent, .update true .enableWriteEvent,
      .update true .disableWriteEvent, .update true .disableWriteEvent, .update true .disableAllEvent,
      .update true .enableWriteEvent, .update true .disableAllEvent, .remove true] (by decide)).mpr
    (by decide)

/-- `DisableAllEvent` twice leaves the descriptor in the kernel's set, with mask 0. -/
theorem disableAllEvent_twice :
    Along step Pre (init fun _ : Unit => 5)
        [.update () .enableReadEvent, .update () .disableAllEvent, .update () .disableAllEvent] ∧
      ¬ Holds step noError Faithful (init fun _ : Unit => 5)
        [.update () .enableReadEvent, .update () .disableAllEvent, .update () .disableAllEvent] := by
  refine ⟨by decide, fun h => ?_⟩
  have hlast := (((h.2 _ rfl).2.2 _ rfl).2.2 _ rfl).1
  obtain ⟨ch, _, hne, _⟩ := (hlast.1.2 5 (kNoneEvent, ())).mp rfl
  exact hne rfl

end EpollSystem

end OulaServer
