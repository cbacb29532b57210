import OulaServer.Poller.Epoll
import OulaServer.Poller.Poll

/-!
# One interface, two pollers

`Poller::NewDefaultPoller` chooses between `EpollPoller` and `PollPoller` by an environment variable. `Interface` says
what either is for: which channels it has, and which interest each of them declared. Both refine it, the one with a set
in the kernel and the other with a vector (`EpollSystem.Refines.step`, `PollSystem.Refines.step`). So side by side on
the same channels they know the same channels, watch the same descriptors for the same events, and hand the same
channels with the same events to the loop whenever `epoll_wait` does not fill `events_` (`agree_of_along`).
-/

namespace OulaServer

open Run

variable {ι : Type} [DecidableEq ι]

/-- The channels of a loop as its poller is to know them. -/
structure Interface (ι : Type) where
  interest : ι → Events
  /-- `HasChannel`. -/
  hasChannel : ι → Bool

namespace Interface

def init : Interface ι := ⟨fun _ => kNoneEvent, fun _ => false⟩

def step (i : Interface ι) : PollerOp ι → Interface ι
  | .update ch op => {
      interest := Function.update i.interest ch (op.apply (i.interest ch))
      hasChannel := Function.update i.hasChannel ch true }
  | .remove ch => { i with hasChannel := Function.update i.hasChannel ch false }

/-- `remove()` is called on a registered channel whose interest is empty. -/
def Pre (i : Interface ι) : PollerOp ι → Prop
  | .update _ _ => True
  | .remove ch => i.hasChannel ch = true ∧ i.interest ch = kNoneEvent

/-- The poller watches the channel for `mask`. -/
def Watches (i : Interface ι) (ch : ι) (mask : Events) : Prop :=
  i.hasChannel ch = true ∧ i.interest ch = mask ∧ mask ≠ kNoneEvent

instance (i : Interface ι) : (a : PollerOp ι) → Decidable (Pre i a)
  | .update _ _ => .isTrue trivial
  | .remove _ => inferInstanceAs (Decidable (_ ∧ _))

end Interface

/-- `Poller::HasChannel` on `channels_`, for the channel at `ch`. -/
def Poller.hasChannel (channels : Int → Option ι) (ch : ι) (c : Channel) : Bool := channels c.fd = some ch

theorem Poller.hasChannel_eq_true {channels : Int → Option ι} {ch : ι} {c : Channel} :
    Poller.hasChannel channels ch c = true ↔ channels c.fd = some ch := decide_eq_true_iff

/-! ### `EpollPoller` -/

namespace EpollSystem

open EpollPoller

/-- The poller has the channels of the interface, on the descriptors `fd`, and these declared its interests. -/
structure Refines (fd : ι → Int) (s : EpollSystem ι) (i : Interface ι) : Prop where
  inv : Inv s
  descriptor : ∀ ch, (s.chan ch).fd = fd ch
  interest : ∀ ch, (s.chan ch).events = i.interest ch
  hasChannel : ∀ ch, s.poller.channels (fd ch) = some ch ↔ i.hasChannel ch = true

omit [DecidableEq ι] in
theorem Refines.init {fd : ι → Int} (hfd : Function.Injective fd) : Refines fd (init fd) .init where
  inv := init_inv hfd
  descriptor _ := rfl
  interest _ := rfl
  hasChannel _ := by simp [EpollSystem.init, EpollPoller.new, Interface.init]

variable {fd : ι → Int} {s : EpollSystem ι} {i : Interface ι}

theorem Refines.replace (h : Refines fd s i) {ch : ι} {p : EpollPoller ι} {c : Channel} (has : Bool)
    (hinv : Inv ⟨Function.update s.chan ch c, p⟩) (hfd : c.fd = fd ch)
    (hhas : p.channels (fd ch) = some ch ↔ has = true)
    (hother : ∀ fd', fd' ≠ fd ch → p.channels fd' = s.poller.channels fd') :
    Refines fd ⟨Function.update s.chan ch c, p⟩
      ⟨Function.update i.interest ch c.events, Function.update i.hasChannel ch has⟩ := by
  have hdistinct : ∀ ch', ch' ≠ ch → fd ch' ≠ fd ch := by
    intro ch' hne he
    rw [← h.descriptor, ← h.descriptor] at he
    exact hne (h.inv.distinct he)
  refine ⟨hinv, fun ch' => ?_, fun ch' => ?_, fun ch' => ?_⟩
  · by_cases hch : ch' = ch
    · subst hch
      simpa using hfd
    · simpa [Function.update_of_ne hch] using h.descriptor ch'
  · by_cases hch : ch' = ch
    · subst hch
      simp
    · simpa [Function.update_of_ne hch] using h.interest ch'
  · by_cases hch : ch' = ch
    · subst hch
      simpa using hhas
    · rw [hother _ (hdistinct ch' hch)]
      simpa [Function.update_of_ne hch] using h.hasChannel ch'

theorem Refines.step (h : Refines fd s i) {a : PollerOp ι} (hpre : i.Pre a) (hgood : NotRedundant s a) :
    ∃ t, step s a = .ok t ∧ Refines fd t (i.step a) := by
  have hpre' : Pre s a := by
    cases a with
    | update ch op => trivial
    | remove ch => exact ⟨by rw [h.descriptor, h.hasChannel]; exact hpre.1, by rw [h.interest]; exact hpre.2⟩
  obtain ⟨t, ht, _, hinv⟩ := (step_good s a h.inv hpre' hgood).exists_ok
  refine ⟨t, ht, ?_⟩
  cases a with
  | update ch op =>
      obtain ⟨⟨p, c⟩, hupd, ht⟩ := bind_eq_ok.mp ht
      cases ht
      have hne : op.apply (s.chan ch).events ≠ kNoneEvent ∨ (s.chan ch).events ≠ kNoneEvent := by
        cases hop : op.isDisable with
        | true => exact Or.inr (hgood hop)
        | false => exact Or.inl (apply_enable_ne_none (h.inv.interest ch) hop)
      obtain ⟨p', c', hupd', hreg, hfd, hev, hstatus, hsame⟩ := updateChannel_spec (h.inv.registered ch) hne
      cases hupd'.symm.trans hupd
      have hfound := hreg.found hstatus
      rw [hfd, h.descriptor] at hfound
      rw [h.descriptor] at hfd hsame
      have href := h.replace true hinv hfd (iff_of_true hfound rfl) hsame.channels
      rwa [hev, h.interest] at href
  | remove ch =>
      obtain ⟨⟨p, c⟩, hrem, ht⟩ := bind_eq_ok.mp ht
      cases ht
      obtain ⟨p', c', hrem', hreg, hfd, hev, hstatus, hsame⟩ :=
        removeChannel_spec (h.inv.registered ch) hpre'.1 hpre'.2
      cases hrem'.symm.trans hrem
      have hnone : p.channels c.fd = none := by
        unfold Registered at hreg
        rw [hstatus] at hreg
        exact hreg.2.1
      rw [hfd, h.descriptor] at hnone
      rw [h.descriptor] at hfd hsame
      have href := h.replace false hinv hfd (by simp [hnone]) hsame.channels
      have hkeep : Function.update i.interest ch c.events = i.interest := by
        rw [hev, ← hpre.2, Function.update_eq_self]
      rwa [hkeep] at href

omit [DecidableEq ι] in
theorem Refines.watches (h : Refines fd s i) {fd' : Int} {mask : Events} {ch : ι} :
    s.poller.epollSet fd' = some (mask, ch) ↔ fd' = fd ch ∧ i.Watches ch mask := by
  rw [h.inv.kernelAgrees.2 fd' (mask, ch)]
  constructor
  · rintro ⟨ch', rfl, hne, heq⟩
    obtain ⟨rfl, rfl⟩ := Prod.mk.inj heq
    have hstatus : (s.chan ch).inPollerStatus ≠ .kInit := by
      intro hinit
      have hreg := h.inv.registered ch
      unfold Registered at hreg
      rw [hinit] at hreg
      exact hne hreg.1
    have hfound := (h.inv.registered ch).found hstatus
    rw [h.descriptor, h.hasChannel] at hfound
    exact ⟨h.descriptor ch, hfound, (h.interest ch).symm, hne⟩
  · rintro ⟨rfl, _, rfl, hne⟩
    exact ⟨ch, h.descriptor ch, by rw [h.interest]; exact hne, by rw [h.interest]⟩

end EpollSystem

/-! ### `PollPoller` -/

namespace PollPoller

theorem updateChannel_channels {p p' : PollPoller ι} {ch : ι} {c c' : Channel}
    (hok : p.updateChannel ch c = .ok (p', c')) : p'.channels c.fd = some ch ∧
      (∀ fd, fd ≠ c.fd → p'.channels fd = p.channels fd) ∧ c'.fd = c.fd ∧ c'.events = c.events := by
  unfold updateChannel at hok
  split at hok
  · obtain ⟨_, _, hok⟩ := bind_eq_ok.mp hok
    cases hok
    exact ⟨Function.update_self .., fun fd hfd => Function.update_of_ne hfd .., rfl, rfl⟩
  · obtain ⟨_, _, hok⟩ := bind_eq_ok.mp hok
    obtain ⟨_, hsame, hok⟩ := bind_eq_ok.mp hok
    obtain ⟨_, _, hok⟩ := bind_eq_ok.mp hok
    split at hok
    · cases hok
    · obtain ⟨_, _, hok⟩ := bind_eq_ok.mp hok
      cases hok
      exact ⟨check_eq_ok.mp hsame, fun _ _ => rfl, rfl, rfl⟩

theorem removeChannel_channels {p p' : PollPoller ι} {ch : ι} {c : Channel} (hok : p.removeChannel ch c = .ok p') :
    p'.channels = Function.update p.channels c.fd none := by
  obtain ⟨_, _, hok⟩ := bind_eq_ok.mp hok
  obtain ⟨_, _, hok⟩ := bind_eq_ok.mp hok
  obtain ⟨_, _, hok⟩ := bind_eq_ok.mp hok
  split at hok
  · cases hok
  · split at hok
    · obtain ⟨_, _, hok⟩ := bind_eq_ok.mp hok
      split at hok
      · cases hok
        rfl
      · cases hok
        rfl
    · cases hok

end PollPoller

namespace PollSystem

/-- The poller has the channels of the interface, on the descriptors `fd`, and these declared its interests. -/
structure Refines (fd : ι → Int) (s : PollSystem ι) (i : Interface ι) : Prop where
  inv : Inv s
  descriptor : ∀ ch, (s.chan ch).fd = fd ch
  interest : ∀ ch, (s.chan ch).events = i.interest ch
  hasChannel : ∀ ch, s.poller.channels (fd ch) = some ch ↔ i.hasChannel ch = true

omit [DecidableEq ι] in
theorem Refines.init {fd : ι → Int} (hfd : Function.Injective fd) (hpos : ∀ ch, 0 ≤ fd ch) :
    Refines fd (init fd) .init where
  inv := init_inv hfd hpos
  descriptor _ := rfl
  interest _ := rfl
  hasChannel _ := by simp [PollSystem.init, PollPoller.new, Interface.init]

variable {fd : ι → Int} {s : PollSystem ι} {i : Interface ι}

theorem Refines.step (h : Refines fd s i) {a : PollerOp ι} (hpre : i.Pre a) (hgood : NotIgnored s a) :
    ∃ t, step s a = .ok t ∧ Refines fd t (i.step a) := by
  have hdistinct : ∀ ch ch', ch' ≠ ch → fd ch' ≠ fd ch := by
    intro ch ch' hne he
    rw [← h.descriptor, ← h.descriptor] at he
    exact hne (h.inv.distinct he)
  have hpre' : Pre s a := by
    cases a with
    | update ch op => trivial
    | remove ch => exact ⟨by rw [h.descriptor, h.hasChannel]; exact hpre.1, by rw [h.interest]; exact hpre.2⟩
  obtain ⟨t, ht, _, hinv⟩ := (step_good s a h.inv hpre' hgood).exists_ok
  refine ⟨t, ht, ?_⟩
  cases a with
  | update ch op =>
      obtain ⟨⟨p, c⟩, hupd, ht⟩ := bind_eq_ok.mp ht
      cases ht
      obtain ⟨hself, hother, hfd, hev⟩ := PollPoller.updateChannel_channels hupd
      simp only [h.descriptor] at hself hother hfd
      refine ⟨hinv, fun ch' => ?_, fun ch' => ?_, fun ch' => ?_⟩
      · by_cases hch : ch' = ch
        · subst hch
          simpa using hfd
        · simpa [Function.update_of_ne hch] using h.descriptor ch'
      · by_cases hch : ch' = ch
        · subst hch
          simpa [Interface.step, h.interest] using hev
        · simpa [Interface.step, Function.update_of_ne hch] using h.interest ch'
      · by_cases hch : ch' = ch
        · subst hch
          simpa [Interface.step] using hself
        · rw [hother _ (hdistinct ch ch' hch)]
          simpa [Interface.step, Function.update_of_ne hch] using h.hasChannel ch'
  | remove ch =>
      obtain ⟨p, hrem, ht⟩ := bind_eq_ok.mp ht
      cases ht
      have hchannels := PollPoller.removeChannel_channels hrem
      rw [h.descriptor] at hchannels
      refine ⟨hinv, h.descriptor, h.interest, fun ch' => ?_⟩
      rw [hchannels]
      by_cases hch : ch' = ch
      · subst hch
        simp [Interface.step]
      · rw [Function.update_of_ne (hdistinct ch ch' hch)]
        simpa [Interface.step, Function.update_of_ne hch] using h.hasChannel ch'

omit [DecidableEq ι] in
theorem Refines.watches (h : Refines fd s i) {fd' : Int} (hpos : 0 ≤ fd') {mask : Events} :
    (∃ pfd ∈ s.poller.pollfds, pfd.fd = fd' ∧ pfd.events.signExtend 32 = mask) ↔
      ∃ ch, fd' = fd ch ∧ i.Watches ch mask := by
  rw [h.inv.rep.watches h.inv.nonneg fd' mask hpos]
  constructor
  · rintro ⟨ch, hch, rfl, rfl, hne⟩
    rw [h.descriptor, h.hasChannel] at hch
    exact ⟨ch, h.descriptor ch, hch, (h.interest ch).symm, hne⟩
  · rintro ⟨ch, rfl, hhas, rfl, hne⟩
    exact ⟨ch, (h.hasChannel ch).mpr hhas, h.descriptor ch, h.interest ch, hne⟩

omit [DecidableEq ι] in
/-- No two slots have the same descriptor, but those that are ignored. -/
theorem Inv.slots_nodup (h : Inv s) {j k : Nat} {pfd pfd' : PollFd} (hj : s.poller.pollfds[j]? = some pfd)
    (hk : s.poller.pollfds[k]? = some pfd') (hpos : 0 ≤ pfd.fd) (heq : pfd.fd = pfd'.fd) : j = k := by
  obtain ⟨hlt, _⟩ := List.getElem?_eq_some_iff.mp hj
  obtain ⟨hlt', _⟩ := List.getElem?_eq_some_iff.mp hk
  obtain ⟨fd₁, hidx⟩ := h.rep.surj j hlt
  obtain ⟨fd₂, hidx'⟩ := h.rep.surj k hlt'
  have hfd := h.slot_fd hidx hj hpos
  have hfd' := h.slot_fd hidx' hk (heq ▸ hpos)
  rw [← hfd, heq, hfd', hidx'] at hidx
  exact (Option.some.inj hidx).symm

end PollSystem

/-! ### What the pollers report -/

namespace EpollPoller

/-- `EpollPoller::poll` with `size` entries in `events_`: what `fillActiveChannels` makes of the answer of `epoll_wait`,
and the size after it. -/
def poll (size : Nat) (answer : List (Events × ι)) : List (ι × Events) × Nat :=
  (answer.map fun event => (event.2, event.1),
    if 0 < answer.length ∧ answer.length = size then size * 2 else size)

end EpollPoller

/-- An answer of `epoll_wait` when the descriptors of the channels are ready for `ready`: at most `size` of the ready
ones that it watches, and all of them if they are fewer. -/
structure EpollSystem.EpollAnswer (s : EpollSystem ι) (ready : ι → Events) (size : Nat)
    (answer : List (Events × ι)) : Prop where
  nodup : (answer.map Prod.snd).Nodup
  fits : answer.length ≤ size
  sound : ∀ x ∈ answer, (∃ fd mask, s.poller.epollSet fd = some (mask, x.2)) ∧ x.1 = ready x.2 ∧ ready x.2 ≠ 0
  complete : answer.length < size → ∀ fd mask ch, s.poller.epollSet fd = some (mask, ch) → ready ch ≠ 0 →
    (ready ch, ch) ∈ answer

namespace PollSystem

/-- The answer of `poll` in the slots: those that it watches have what their channel is ready for. -/
structure PollAnswered (s : PollSystem ι) (ready : ι → Events) (slots : List PollFd) : Prop where
  slots : List.Forall₂ (fun before after : PollFd => after.fd = before.fd ∧ after.events = before.events ∧
    (before.fd < 0 → after.revents = 0) ∧
    ∀ ch, (s.chan ch).fd = before.fd → after.revents = (ready ch).setWidth 16) s.poller.pollfds slots

variable {fd : ι → Int} {s : PollSystem ι} {i : Interface ι} {ready : ι → Events} {slots : List PollFd}

omit [DecidableEq ι] in
theorem PollAnswered.slot (hanswer : PollAnswered s ready slots) {k : Nat} {after : PollFd}
    (hk : slots[k]? = some after) :
    ∃ before, s.poller.pollfds[k]? = some before ∧ after.fd = before.fd ∧ (before.fd < 0 → after.revents = 0) ∧
      ∀ ch, (s.chan ch).fd = before.fd → after.revents = (ready ch).setWidth 16 := by
  obtain ⟨hlt, rfl⟩ := List.getElem?_eq_some_iff.mp hk
  have hlen := hanswer.slots.length_eq
  have hlt' : k < s.poller.pollfds.length := by omega
  obtain ⟨hfd, _, hneg, hchan⟩ := hanswer.slots.get hlt' hlt
  exact ⟨_, List.getElem?_eq_getElem hlt', hfd, hneg, hchan⟩

theorem toInt_short {e : Events} (he : e.toNat < 2 ^ 15) : (e.setWidth 16).toInt = e.toNat := by
  rw [BitVec.toInt_eq_toNat_of_lt]
  · rw [BitVec.toNat_setWidth]
    omega
  · rw [BitVec.toNat_setWidth]
    omega

theorem signExtend_short {e : Events} (he : e.toNat < 2 ^ 15) : (e.setWidth 16).signExtend 32 = e := by
  apply BitVec.eq_of_toInt_eq
  rw [BitVec.toInt_signExtend_of_le (by omega), toInt_short he, BitVec.toInt_eq_toNat_of_lt (by omega)]

omit [DecidableEq ι] in
theorem Inv.slot_chan (h : Inv s) {k : Nat} {pfd : PollFd} (hk : s.poller.pollfds[k]? = some pfd) :
    pfd.fd < 0 ∨ ∃ ch, (s.chan ch).fd = pfd.fd := by
  obtain ⟨hlt, _⟩ := List.getElem?_eq_some_iff.mp hk
  obtain ⟨fd', hidx⟩ := h.rep.surj k hlt
  obtain ⟨ch, _, _, hfd, _⟩ := h.rep.slot fd' k hidx
  rcases Int.lt_or_le pfd.fd 0 with hneg | hpos
  · exact Or.inl hneg
  · exact Or.inr ⟨ch, by rw [hfd, h.slot_fd hidx hk hpos]⟩

omit [DecidableEq ι] in
theorem Inv.revents (h : Inv s) (hready : ∀ ch, (ready ch).toNat < 2 ^ 15) (hanswer : PollAnswered s ready slots)
    {k : Nat} {after : PollFd} (hk : slots[k]? = some after) :
    0 ≤ after.revents.toInt ∧ (after.fd < 0 → after.revents.toInt = 0) := by
  obtain ⟨before, hbefore, hfd, hneg, hchan⟩ := hanswer.slot hk
  rcases h.slot_chan hbefore with hlt | ⟨ch, hch⟩
  · simp [hneg hlt]
  · have hrev : after.revents.toInt = (ready ch).toNat := by rw [hchan ch hch, toInt_short (hready ch)]
    have hpos : 0 ≤ (s.chan ch).fd := h.nonneg ch
    constructor
    · omega
    · intro hlt
      rw [hfd, ← hch] at hlt
      omega

omit [DecidableEq ι] in
theorem Inv.pollAnswer (h : Inv s) (hready : ∀ ch, (ready ch).toNat < 2 ^ 15) (hanswer : PollAnswered s ready slots) :
    List.Forall₂ PollAnswer s.poller.pollfds slots := by
  rw [List.forall₂_iff_get]
  refine ⟨hanswer.slots.length_eq, fun k hk hk' => ?_⟩
  obtain ⟨hfd, hevents, _⟩ := hanswer.slots.get hk hk'
  exact ⟨hfd, hevents, h.revents hready hanswer (List.getElem?_eq_getElem hk')⟩

omit [DecidableEq ι] in
/-- The number that `poll` returns counts the slots with something to report. -/
theorem Inv.countP_revents (h : Inv s) (hready : ∀ ch, (ready ch).toNat < 2 ^ 15)
    (hanswer : PollAnswered s ready slots) :
    (slots.countP fun pfd => pfd.revents != 0) = slots.countP fun pfd => 0 < pfd.revents.toInt := by
  apply List.countP_congr
  intro pfd hmem
  obtain ⟨k, hk⟩ := List.mem_iff_getElem?.mp hmem
  have hnonneg := (h.revents hready hanswer hk).1
  have hzero : pfd.revents = 0 ↔ pfd.revents.toInt = 0 := by
    rw [← BitVec.toInt_inj]
    simp
  simp only [bne_iff_ne, ne_eq, hzero, decide_eq_true_eq]
  omega

omit [DecidableEq ι] in
theorem Refines.reported (h : Refines fd s i) (hready : ∀ ch, (ready ch).toNat < 2 ^ 15)
    (hanswer : PollAnswered s ready slots) (ch : ι) (revents : Events) :
    (∃ pfd ∈ slots, 0 < pfd.revents.toInt ∧ pfd.fd = fd ch ∧ pfd.revents.signExtend 32 = revents) ↔
      (∃ mask, i.Watches ch mask) ∧ revents = ready ch ∧ ready ch ≠ 0 := by
  have hnonneg : 0 ≤ fd ch := h.descriptor ch ▸ h.inv.nonneg ch
  have hne : 0 < (ready ch).toNat ↔ ready ch ≠ 0 := by
    rw [Nat.pos_iff_ne_zero, Ne, Ne, ← BitVec.toNat_inj]
    rfl
  constructor
  · rintro ⟨pfd, hmem, hpos, hfd, rfl⟩
    obtain ⟨k, hk⟩ := List.mem_iff_getElem?.mp hmem
    obtain ⟨before, hbefore, hsame, _, hchan⟩ := hanswer.slot hk
    have hfd' : before.fd = fd ch := hsame.symm.trans hfd
    have hrev := hchan ch (by rw [h.descriptor, hfd'])
    rw [hrev, toInt_short (hready ch)] at hpos
    rw [hrev, signExtend_short (hready ch)]
    refine ⟨?_, rfl, hne.mp (by omega)⟩
    obtain ⟨ch', hch', hwatches⟩ := (h.watches hnonneg).mp ⟨before, List.mem_of_getElem? hbefore, hfd', rfl⟩
    have heq : ch = ch' := h.inv.distinct (by simpa only [h.descriptor] using hch')
    exact ⟨_, heq ▸ hwatches⟩
  · rintro ⟨⟨mask, hwatches⟩, rfl, hready'⟩
    obtain ⟨before, hmem, hfd, _⟩ := (h.watches hnonneg).mpr ⟨ch, rfl, hwatches⟩
    obtain ⟨k, hk⟩ := List.mem_iff_getElem?.mp hmem
    obtain ⟨hlt, _⟩ := List.getElem?_eq_some_iff.mp hk
    have hlt' : k < slots.length := by
      have := hanswer.slots.length_eq
      omega
    have hafter := List.getElem?_eq_getElem hlt'
    obtain ⟨before', hbefore, hsame, _, hchan⟩ := hanswer.slot hafter
    obtain rfl : before = before' := Option.some.inj (hk.symm.trans hbefore)
    have hrev := hchan ch (by rw [h.descriptor, hfd])
    refine ⟨_, List.mem_of_getElem? hafter, ?_, hsame.trans hfd, ?_⟩
    · rw [hrev, toInt_short (hready ch)]
      have := hne.mpr hready'
      omega
    · rw [hrev, signExtend_short (hready ch)]

omit [DecidableEq ι] in
theorem Refines.answered (h : Refines fd s i) (hready : ∀ ch, (ready ch).toNat < 2 ^ 15)
    (hanswer : PollAnswered s ready slots) :
    ∃ active, s.poller.fillActiveChannels slots (slots.countP fun pfd => pfd.revents != 0) = .ok active ∧
      (active.map Prod.fst).Nodup ∧
      ∀ ch revents, (ch, revents) ∈ active ↔ (∃ mask, i.Watches ch mask) ∧ revents = ready ch ∧ ready ch ≠ 0 := by
  obtain ⟨active, hactive, hmap⟩ := h.inv.rep.dispatches h.inv.nonneg slots (h.inv.pollAnswer hready hanswer)
  rw [← h.inv.countP_revents hready hanswer] at hactive
  refine ⟨active, hactive, ?_, fun ch revents => ?_⟩
  · -- distinct slots have distinct descriptors
    apply List.Nodup.of_map fun ch => (s.chan ch).fd
    have hfds := congrArg (List.map Prod.fst) hmap
    simp only [List.map_map, Function.comp_def] at hfds
    rw [List.map_map, Function.comp_def, hfds, List.Nodup, List.pairwise_map]
    rw [List.pairwise_filter, List.pairwise_iff_getElem]
    intro j k hj hk hlt hposj hposk heq
    have hj' := List.getElem?_eq_getElem hj
    obtain ⟨before, hbefore, hfd, _⟩ := hanswer.slot hj'
    obtain ⟨before', hbefore', hfd', _⟩ := hanswer.slot (List.getElem?_eq_getElem hk)
    have hneg := (h.inv.revents hready hanswer hj').2
    have hpos : 0 ≤ before.fd := by
      simp only [decide_eq_true_eq] at hposj
      rw [hfd] at hneg
      omega
    have := h.inv.slots_nodup hbefore hbefore' hpos (by rw [← hfd, ← hfd', heq])
    omega
  · rw [← h.reported hready hanswer]
    have hmem : (ch, revents) ∈ active ↔
        (fd ch, revents) ∈ active.map (fun x => ((s.chan x.1).fd, x.2)) := by
      rw [List.mem_map]
      constructor
      · intro hin
        exact ⟨_, hin, by rw [h.descriptor]⟩
      · rintro ⟨⟨ch', revents'⟩, hin, heq⟩
        obtain ⟨hfd, rfl⟩ := Prod.mk.inj heq
        have : ch' = ch := h.inv.distinct (by simpa only [h.descriptor] using hfd)
        exact this ▸ hin
    rw [hmem, hmap, List.mem_map]
    simp only [List.mem_filter, decide_eq_true_eq, Prod.mk.injEq, and_assoc]

end PollSystem

/-! ### Side by side -/

/-- The two pollers on the channels of one loop. -/
structure Pollers (ι : Type) where
  interface : Interface ι
  epoll : EpollSystem ι
  poll : PollSystem ι

namespace Pollers

def init (fd : ι → Int) : Pollers ι := ⟨.init, .init fd, .init fd⟩

def step (s : Pollers ι) (a : PollerOp ι) : Except Abort (Pollers ι) := do
  let epoll ← EpollSystem.step s.epoll a
  let poll ← PollSystem.step s.poll a
  return ⟨s.interface.step a, epoll, poll⟩

/-- The operation is one that both pollers support. -/
def Supported (s : Pollers ι) (a : PollerOp ι) : Prop :=
  s.interface.Pre a ∧ EpollSystem.NotRedundant s.epoll a ∧ PollSystem.NotIgnored s.poll a

instance (s : Pollers ι) (a : PollerOp ι) : Decidable (Supported s a) := inferInstanceAs (Decidable (_ ∧ _ ∧ _))

/-- The pollers have the same channels, watch the same descriptors for the same events and report the same channels with
the same events; `EpollPoller` reports fewer of them only when `events_` is full. -/
structure Agree (fd : ι → Int) (s : Pollers ι) : Prop where
  hasChannel : ∀ ch, Poller.hasChannel s.epoll.poller.channels ch (s.epoll.chan ch) =
    Poller.hasChannel s.poll.poller.channels ch (s.poll.chan ch)
  watches : ∀ ch mask, s.epoll.poller.epollSet (fd ch) = some (mask, ch) ↔
    ∃ pfd ∈ s.poll.poller.pollfds, pfd.fd = fd ch ∧ pfd.events.signExtend 32 = mask
  active : ∀ ready size answer slots, (∀ ch, (ready ch).toNat < 2 ^ 15) →
    EpollSystem.EpollAnswer s.epoll ready size answer → PollSystem.PollAnswered s.poll ready slots →
    ∃ active, s.poll.poller.fillActiveChannels slots (slots.countP fun pfd => pfd.revents != 0) = .ok active ∧
      (EpollPoller.poll size answer).1.Subperm active ∧
      (answer.length < size → (EpollPoller.poll size answer).1.Perm active)

/-- Both pollers refine the interface. -/
structure Inv (fd : ι → Int) (s : Pollers ι) : Prop where
  epoll : s.epoll.Refines fd s.interface
  poll : s.poll.Refines fd s.interface

variable {fd : ι → Int} {s : Pollers ι}

omit [DecidableEq ι] in
theorem Inv.init (hfd : Function.Injective fd) (hpos : ∀ ch, 0 ≤ fd ch) : Inv fd (init fd) :=
  ⟨.init hfd, .init hfd hpos⟩

theorem Inv.step (h : Inv fd s) {a : PollerOp ι} (hsup : Supported s a) : ∃ t, step s a = .ok t ∧ Inv fd t := by
  obtain ⟨hpre, hredundant, hignored⟩ := hsup
  obtain ⟨epoll, hepoll, hrefines⟩ := h.epoll.step hpre hredundant
  obtain ⟨poll, hpoll, hrefines'⟩ := h.poll.step hpre hignored
  refine ⟨⟨s.interface.step a, epoll, poll⟩, ?_, hrefines, hrefines'⟩
  simp [Pollers.step, hepoll, hpoll]

omit [DecidableEq ι] in
theorem Inv.watches (h : Inv fd s) (ch : ι) (mask : Events) :
    s.epoll.poller.epollSet (fd ch) = some (mask, ch) ↔
      ∃ pfd ∈ s.poll.poller.pollfds, pfd.fd = fd ch ∧ pfd.events.signExtend 32 = mask := by
  have hnonneg : 0 ≤ fd ch := h.poll.descriptor ch ▸ h.poll.inv.nonneg ch
  rw [h.epoll.watches, h.poll.watches hnonneg]
  constructor
  · rintro ⟨_, hwatches⟩
    exact ⟨ch, rfl, hwatches⟩
  · rintro ⟨ch', hch, hwatches⟩
    have : ch = ch' := h.poll.inv.distinct (by simpa only [h.poll.descriptor] using hch)
    exact ⟨rfl, this ▸ hwatches⟩

omit [DecidableEq ι] in
/-- What `epoll_wait` answers is watched and ready, and that is all of it when `events_` is not full. -/
theorem Inv.epollAnswer (h : Inv fd s) {ready : ι → Events} {size : Nat} {answer : List (Events × ι)}
    (hanswer : EpollSystem.EpollAnswer s.epoll ready size answer) :
    (∀ ch revents, (ch, revents) ∈ (EpollPoller.poll size answer).1 →
      (∃ mask, s.interface.Watches ch mask) ∧ revents = ready ch ∧ ready ch ≠ 0) ∧
    (answer.length < size → ∀ ch mask, s.interface.Watches ch mask → ready ch ≠ 0 →
      (ch, ready ch) ∈ (EpollPoller.poll size answer).1) := by
  constructor
  · intro ch revents hmem
    obtain ⟨x, hx, heq⟩ := List.mem_map.mp hmem
    obtain ⟨rfl, rfl⟩ := Prod.mk.inj heq
    obtain ⟨⟨fd', mask, hset⟩, hready⟩ := hanswer.sound x hx
    exact ⟨⟨mask, (h.epoll.watches.mp hset).2⟩, hready⟩
  · intro hlt ch mask hwatches hready
    exact List.mem_map.mpr ⟨_, hanswer.complete hlt _ _ ch (h.epoll.watches.mpr ⟨rfl, hwatches⟩) hready, rfl⟩

theorem Inv.agree (h : Inv fd s) : Agree fd s where
  hasChannel ch := by
    rw [Bool.eq_iff_iff, Poller.hasChannel_eq_true, Poller.hasChannel_eq_true, h.epoll.descriptor, h.poll.descriptor]
    exact (h.epoll.hasChannel ch).trans (h.poll.hasChannel ch).symm
  watches := h.watches
  active ready size answer slots hready hepoll hpoll := by
    obtain ⟨active, hactive, hnodup, hmem⟩ := h.poll.answered hready hpoll
    obtain ⟨hsound, hcomplete⟩ := h.epollAnswer hepoll
    have hnodup' : (EpollPoller.poll size answer).1.Nodup := by
      apply List.Nodup.of_map Prod.fst
      rw [EpollPoller.poll, List.map_map]
      exact hepoll.nodup
    refine ⟨active, hactive, List.subperm_of_subset hnodup' ?_, fun hlt => ?_⟩
    · rintro ⟨ch, revents⟩ hin
      exact (hmem ch revents).mpr (hsound ch revents hin)
    · rw [List.perm_ext_iff_of_nodup hnodup' (List.Nodup.of_map _ hnodup)]
      rintro ⟨ch, revents⟩
      rw [hmem]
      constructor
      · exact hsound ch revents
      · rintro ⟨⟨mask, hwatches⟩, rfl, hready'⟩
        exact hcomplete hlt ch mask hwatches hready'

/-- **The pollers are interchangeable.** For every number of channels on distinct descriptors and every sequence of
operations that both pollers support: neither fails, and after every operation they have the same channels, watch the
same descriptors for the same events, and for every readiness of the descriptors `poll` hands over what `epoll_wait`
does, or more when `epoll_wait` filled `events_`. -/
theorem agree_of_along (fd : ι → Int) (hfd : Function.Injective fd) (hpos : ∀ ch, 0 ≤ fd ch) (ops : List (PollerOp ι))
    (hops : Along step Supported (init fd) ops) :
    Holds step noError (fun _ _ t => Agree fd t) (init fd) ops := by
  refine holds_of_along (I := Inv fd) (fun s a h hsup => ?_) (.init hfd hpos) hops
  obtain ⟨t, ht, hinv⟩ := h.step hsup
  exact .of_ok ht ⟨hinv.agree, hinv⟩

/-- Three channels: the middle one is removed, and registered again on another slot. -/
theorem agree_of_along_run :
    Holds step noError (fun _ _ t => Agree (fun ch : Fin 3 => 5 + (ch.val : Int)) t) (init fun ch => 5 + (ch.val : Int))
      [.update 0 .enableReadEvent, .update 1 .enableReadEvent, .update 2 .enableReadEvent, .update 1 .disableAllEvent,
        .update 2 .enableWriteEvent, .remove 1, .update 2 .disableReadEvent, .update 1 .enableWriteEvent] :=
  agree_of_along (fun ch : Fin 3 => 5 + (ch.val : Int)) (by decide) (by decide)
    [.update 0 .enableReadEvent, .update 1 .enableReadEvent, .update 2 .enableReadEvent, .update 1 .disableAllEvent,
      .update 2 .enableWriteEvent, .remove 1, .update 2 .disableReadEvent, .update 1 .enableWriteEvent]
    (by decide +kernel)

end Pollers

end OulaServer
