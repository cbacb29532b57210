import OulaServer.TcpConnection.Endpoint

/-!
# The functors on their way

An account of the functors between their insertion and their call, over all steps of a connection's loop and of the
other threads: `pending_step` says that a functor is pending after a step as often as before, plus the functor that a
call hands to the loop and those that the connection's functions queue, less the one that the step calls. Nothing
else makes or loses one.
-/

namespace OulaServer

namespace ConnLoop

open TcpConnection

/-- The functor that the step takes from the pending ones and calls. -/
def called (s : State) : Event → Option ConnFunctor
  | .callFunctor _ _ => s.loop.phase.nextFunctor
  | .establish => some .connectEstablished
  | _ => none

/-- The functor that a call, or the owner of a closed connection, hands to the loop. -/
def handed (s : State) : Event → Option ConnFunctor
  | .otherCall c => (s.conn.call c).2.map ToLoop.functor
  | .call c _ _ =>
      match (s.conn.call c).2 with
      | some (.queueInLoop f) => some f
      | some (.runInLoop _) | none => none
  | .userCode => if s.rest.head? = some .closeCallback then some .connectDestoryed else none
  | _ => none

variable {s t : State} {e : Event}

/-- The account of one step for one functor, with `new` for what the connection's functions queue. -/
def Accounts (s : State) (e : Event) (t : State) (new : List ConnFunctor) : Prop :=
  ∀ f, (pending t).count f + (called s e).toList.count f =
    (pending s).count f + (handed s e).toList.count f + new.count f

theorem accounts_of_same (hcalled : called s e = none) (hhanded : handed s e = none)
    (hpending : pending t = pending s) : Accounts s e t [] := by
  intro f
  simp only [hcalled, hhanded, hpending, Option.toList_none, List.count_nil]

/-- The state in which a function of the connection returns: the step took what it calls from the pending functors and
the timers, and may have accepted a message. -/
structure Before (s : State) (e : Event) (s₀ : State) : Prop where
  rest : s₀.rest = s.rest
  pending : ∀ f, (pending s₀).count f + (called s e).toList.count f = (pending s).count f
  timers : e ≠ .timerCallback → s₀.timers = s.timers
  log : s.log <+: s₀.log

theorem before_same {s₀ : State} (hcalled : called s e = none) (hrest : s₀.rest = s.rest)
    (hpending : pending s₀ = pending s) (htimers : e ≠ .timerCallback → s₀.timers = s.timers)
    (hlog : s.log <+: s₀.log) : Before s e s₀ :=
  ⟨hrest, fun f => by rw [hcalled, hpending]; rfl, htimers, hlog⟩

theorem step_finish {k : Task} (hen : Enabled s e) (hk : task s e = some k) (ht : step s e = .ok t) :
    handed s e = none ∧ ∃ o s₀, k.run (caller s e) = .ok o ∧ t = finish s₀ o ∧ Before s e s₀ := by
  cases e with
  | handleCallback r w =>
      obtain ⟨cb, hhead, rfl⟩ := Option.map_eq_some_iff.mp hk
      obtain ⟨callbacks, hcbs⟩ := List.head?_eq_some_iff.mp hhead
      simp only [step, hcbs] at ht
      obtain ⟨o, ho, ht⟩ := bind_eq_ok.mp ht
      cases ht
      exact ⟨rfl, o, _, ho, rfl, before_same rfl rfl rfl (fun _ => rfl) (List.prefix_refl _)⟩
  | timerCallback =>
      cases hk
      obtain ⟨o, ho, ht⟩ := bind_eq_ok.mp ht
      cases ht
      exact ⟨rfl, o, _, ho, rfl, before_same rfl rfl rfl (fun h => absurd rfl h) (List.prefix_refl _)⟩
  | callFunctor mem w =>
      obtain ⟨f, hnext, rfl⟩ := Option.map_eq_some_iff.mp hk
      obtain ⟨rest, hphase⟩ := Phase.nextFunctor_eq_some.mp hnext
      simp only [step, hphase] at ht
      obtain ⟨o, ho, ht⟩ := bind_eq_ok.mp ht
      cases ht
      refine ⟨rfl, o, _, ho, rfl, rfl, fun g => ?_, fun _ => rfl, List.prefix_refl _⟩
      have hqueued := EventLoop.queued_calling hphase
      simp only [called, hnext, pending, EventLoop.queued_callRest, hqueued, List.count_append, List.count_cons,
        Option.toList_some, List.count_nil]
      omega
  | call c mem w =>
      simp only [task] at hk
      simp only [step] at ht
      rcases hcall : s.conn.call c with ⟨conn, _ | f | f⟩
      all_goals rw [hcall] at hk ht
      · cases hk
      · cases hk
        obtain ⟨o, ho, ht⟩ := bind_eq_ok.mp ht
        cases ht
        have hcaller : caller s (.call c mem w) = conn := by simp only [caller, hcall]
        exact ⟨by simp [handed, hcall], o, _, by rw [hcaller]; exact ho, rfl,
          before_same rfl rfl rfl (fun _ => rfl) (List.prefix_append _ _)⟩
      · cases hk
  | establish =>
      cases hk
      obtain ⟨o, ho, ht⟩ := bind_eq_ok.mp ht
      cases ht
      refine ⟨rfl, o, _, ho, rfl, rfl, fun f => ?_, fun _ => rfl, List.prefix_refl _⟩
      have hcount := (List.perm_cons_erase hen.2.2).count_eq f
      simp only [called, pending, List.count_append, Option.toList_some, List.count_nil, List.count_cons] at hcount ⊢
      omega
  | enterLoop => cases hk
  | poll active => cases hk
  | handleEvent => cases hk
  | swapFunctors => cases hk
  | endFunctors => cases hk
  | userCode => cases hk
  | retrieve len => cases hk
  | otherCall c => cases hk
  | otherPush i => cases hk

theorem accounts_idle (hs : Buffers s) (hen : Enabled s e) (hk : task s e = none) (ht : step s e = .ok t) :
    Accounts s e t [] := by
  cases e with
  | handleCallback r w =>
      simp only [task, Option.map_eq_none_iff, List.head?_eq_none_iff] at hk
      exact absurd hk hen.2
  | timerCallback => cases hk
  | callFunctor mem w => simp [task] at hk; exact absurd hk hen.2
  | call c mem w =>
      simp only [task] at hk
      simp only [step] at ht
      rcases hcall : s.conn.call c with ⟨conn, _ | f | f⟩
      all_goals rw [hcall] at hk ht
      · cases ht
        exact accounts_of_same rfl (by simp [handed, hcall]) rfl
      · cases hk
      · cases ht
        intro g
        simp only [called, handed, hcall, pending, EventLoop.queued_queueInLoop, List.count_append,
          Option.toList_some, Option.toList_none, List.count_nil]
        omega
  | establish => cases hk
  | enterLoop =>
      cases ht
      exact accounts_of_same rfl rfl (congrArg (· ++ s.inflight) (EventLoop.queued_beforeLoop hen).symm)
  | poll active =>
      cases ht
      exact accounts_of_same rfl rfl (congrArg (· ++ s.inflight) (EventLoop.queued_polling hen.1).symm)
  | handleEvent =>
      obtain ⟨a, ha⟩ := Option.ne_none_iff_exists'.mp hen.2.2
      obtain ⟨active, hphase⟩ := Phase.nextChannel_eq_some.mp ha
      have hqueued := EventLoop.queued_dispatching hphase
      have hpending : pending t = pending s := by
        cases a <;> simp only [step, hphase] at ht <;> cases ht <;>
          exact congrArg (· ++ s.inflight) hqueued.symm
      exact accounts_of_same rfl rfl hpending
  | swapFunctors =>
      cases ht
      have hqueued := (EventLoop.queued_swapFunctors (l := s.loop)).trans (EventLoop.queued_dispatching hen.2.2).symm
      exact accounts_of_same rfl rfl (congrArg (· ++ s.inflight) hqueued)
  | endFunctors =>
      cases ht
      have hqueued := EventLoop.queued_calling hen.2
      exact accounts_of_same rfl rfl (congrArg (· ++ s.inflight) hqueued.symm)
  | userCode =>
      simp only [step] at ht
      split at ht
      next rest hrest =>
        cases ht
        intro g
        simp only [called, handed, hrest, pending, List.head?_cons, if_true, List.count_append, Option.toList_some,
          Option.toList_none, List.count_nil]
        omega
      next r rest hne hrest =>
        cases ht
        have hr : r ≠ .closeCallback := hne
        exact accounts_of_same rfl (by simp [handed, hrest, hr]) rfl
      next hrest =>
        cases ht
        exact absurd hrest hen
  | retrieve len =>
      obtain ⟨b, _, _, rfl⟩ := retrieve_ok hs.input ht
      exact accounts_of_same rfl rfl rfl
  | otherCall c =>
      simp only [step] at ht
      rcases hcall : s.conn.call c with ⟨conn, _ | f | f⟩
      all_goals rw [hcall] at ht
      · cases ht
        exact accounts_of_same rfl (by simp [handed, hcall]) rfl
      all_goals
        cases ht
        intro g
        simp only [called, handed, hcall, pending, List.count_append, Option.map_some, ToLoop.functor,
          Option.toList_some, Option.toList_none, List.count_nil]
        omega
  | otherPush i =>
      have hlt : i < s.inflight.length := hen
      have hperm := List.getElem_cons_eraseIdx_perm hlt
      have hsome : s.inflight[i]? = some s.inflight[i] := List.getElem?_eq_getElem hlt
      simp only [step, hsome] at ht
      cases ht
      intro g
      have hcount := hperm.count_eq g
      simp only [called, handed, pending, EventLoop.queued_queueInLoop, List.count_append, List.count_cons,
        Option.toList_none, List.count_nil] at hcount ⊢
      omega

/-- **The account of the functors**, for every step. -/
theorem pending_step (hs : Buffers s) (hen : Enabled s e) (ht : step s e = .ok t) :
    ∃ new, (∀ f ∈ new, ConnFunctor.IsUser f) ∧ Accounts s e t new := by
  cases hk : task s e with
  | none => exact ⟨[], nofun, accounts_idle hs hen hk ht⟩
  | some k =>
      obtain ⟨hin, hout⟩ := hs.caller e
      obtain ⟨hhanded, o, s₀, ho, rfl, hbefore⟩ := step_finish hen hk ht
      refine ⟨functors o.effects, functors_task hin hout ho, fun f => ?_⟩
      rw [hhanded, ← hbefore.pending f]
      simp only [pending, finish_queued, finish_inflight, List.count_append, Option.toList_none, List.count_nil]
      omega

/-- What is left of the functions that run: a step adds the rest of the function that it runs. -/
theorem rest_of_task {k : Task} (hen : Enabled s e) (hk : task s e = some k) (ht : step s e = .ok t) :
    ∃ o, k.run (caller s e) = .ok o ∧ t.conn = o.conn ∧ t.rest = o.rest ++ s.rest := by
  obtain ⟨_, o, s₀, ho, rfl, hbefore⟩ := step_finish hen hk ht
  exact ⟨o, ho, finish_conn, by rw [finish_rest, hbefore.rest]⟩

end ConnLoop

end OulaServer
