import OulaServer.TcpConnection.Close
import OulaServer.TcpConnection.Pending

/-!
# Requests to close are never forgotten

`shutdown`, `forceClose` and `forceCloseWithDelay` only check and set the state; what they ask for happens later on the
loop's thread. `Remembered` says of an accepted call what stands for it until then: a functor on its way, a timer, or,
for `shutdown`, the write interest under which `handleWirte` shuts down after the last byte.

No step of any run loses it: a functor stays pending until it is called (`pending_step`), and what it leaves behind when
it is called is the next link of the chain. So when nothing is pending and nothing is buffered any more, every request
has been served.
-/

namespace OulaServer

namespace ConnLoop

open Run TcpConnection

/-- The call that the step makes, unless it is turned down. -/
def accepted (s : State) : Event → Option Call
  | .call c _ _ | .otherCall c => if (s.conn.call c).2.isSome then some c else none
  | _ => none

/-- What stands for an accepted call: a functor, a timer, or the write interest under which `handleWirte` will shut
down. -/
def Waits (s : State) : Call → Prop
  | .send _ _ => True
  | .shutdown => .shutdownInLoop ∈ pending s ∨ s.conn.channel.isEnableWriteEvent = true ∨
      .effect .shutdownWrite ∈ s.log
  | .forceClose => .forceCloseInLoop ∈ pending s
  | .forceCloseWithDelay => .addTimerInLoop ∈ pending s ∨ 0 < s.timers

/-- Something stands for an accepted call until the connection is closed. -/
def Remembered (s : State) (k : Call) : Prop :=
  s.conn.state = .kDisconnected ∨ s.conn.state = .kDisconnecting ∧ Waits s k

/-- The connection is closed, or its writing side is shut down where that was all that was asked for. -/
def Served (s : State) : Call → Prop
  | .send _ _ => True
  | .shutdown => s.conn.state = .kDisconnected ∨ .effect .shutdownWrite ∈ s.log
  | .forceClose | .forceCloseWithDelay => s.conn.state = .kDisconnected

/-- Nothing is on its way to the loop, no timer waits and the connection does not wait for the socket. -/
def Settled (s : State) : Prop := pending s = [] ∧ s.timers = 0 ∧ s.conn.channel.isEnableWriteEvent = false

theorem Remembered.served {s : State} {k : Call} (h : Remembered s k) (hsettled : Settled s) : Served s k := by
  obtain ⟨hpending, htimers, hwrite⟩ := hsettled
  rcases h with hdown | ⟨_, hwaits⟩
  · cases k with
    | send data len => trivial
    | shutdown => exact Or.inl hdown
    | forceClose => exact hdown
    | forceCloseWithDelay => exact hdown
  · cases k with
    | send data len => trivial
    | shutdown =>
        rcases hwaits with hin | hw | hlog
        · rw [hpending] at hin
          cases hin
        · rw [hwrite] at hw
          cases hw
        · exact Or.inr hlog
    | forceClose =>
        rw [Waits, hpending] at hwaits
        cases hwaits
    | forceCloseWithDelay =>
        rcases hwaits with hin | ht
        · rw [hpending] at hin
          cases hin
        · exact absurd htimers ht.ne'

/-! ### The links of the chain -/

section

variable {s : State} {c : TcpConnection} {o : Outcome}

theorem foldl_perform_timers (effects : List Effect) (s : State) :
    s.timers ≤ (effects.foldl perform s).timers ∧ (.addTimer ∈ effects → 0 < (effects.foldl perform s).timers) := by
  induction effects generalizing s with
  | nil => exact ⟨Nat.le_refl _, nofun⟩
  | cons e effects ih =>
      obtain ⟨hle, hadd⟩ := ih (perform s e)
      rw [List.foldl_cons]
      have hperform : s.timers ≤ (perform s e).timers ∧ (e = .addTimer → 0 < (perform s e).timers) := by
        cases e <;> simp [perform]
      refine ⟨hperform.1.trans hle, fun hmem => ?_⟩
      rcases List.mem_cons.mp hmem with heq | hmem
      · exact (hperform.2 heq.symm).trans_le hle
      · exact hadd hmem

theorem finish_timers (s : State) (o : Outcome) :
    s.timers ≤ (finish s o).timers ∧ (.addTimer ∈ o.effects → 0 < (finish s o).timers) :=
  foldl_perform_timers o.effects { s with conn := o.conn, rest := o.rest ++ s.rest }

theorem forceCloseInLoop_closes (hne : c.state ≠ .kConnecting) (ho : c.forceCloseInLoop true = .ok o) :
    o.conn.state = .kDisconnected := by
  by_cases hopen : c.Open
  · rw [forceCloseInLoop_open hopen, handleClose_ok hopen] at ho
    cases ho
    rfl
  · rw [forceCloseInLoop_keep hopen] at ho
    cases ho
    exact (not_open_cases hopen).resolve_left hne

/-- Who waits for the socket after `shutdown` goes on waiting, is closed, or shuts down. -/
theorem shuts_of_task {k : Task} (hin : c.inputBuffer.Valid) (hout : c.outputBuffer.Valid)
    (hw : c.channel.isEnableWriteEvent = true) (hstate : c.state = .kDisconnecting) (ho : k.run c = .ok o) :
    o.conn.state = .kDisconnected ∨ o.conn.channel.isEnableWriteEvent = true ∨ .shutdownWrite ∈ o.effects := by
  have hstill : Still c o → o.conn.state = .kDisconnected ∨ o.conn.channel.isEnableWriteEvent = true ∨
      .shutdownWrite ∈ o.effects := by
    rintro ⟨⟨state, channel, hconn, hdown | ⟨_, hsame⟩⟩, _⟩
    · exact Or.inl (by rw [hconn]; exact hdown)
    · exact Or.inr (Or.inl (by rw [hconn]; exact hsame.trans hw))
  cases k with
  | callback r w cb =>
      cases cb with
      | close => exact hstill (still_handleClose ho)
      | read =>
          obtain ⟨b, _, hread | hclose⟩ := handleRead_cases hin r
          · cases ho.symm.trans hread
            exact Or.inr (Or.inl hw)
          · obtain ⟨state, channel, hconn, hdown | ⟨_, hsame⟩⟩ := (still_handleClose (hclose.symm.trans ho)).conn
            · exact Or.inl (by rw [hconn]; exact hdown)
            · exact Or.inr (Or.inl (by rw [hconn]; exact hsame.trans hw))
      | write =>
          by_cases hdrains : c.Drains w
          · obtain ⟨b, _, _, hdrained⟩ := handleWirte_drained hout hdrains.1 hdrains.2.1 hdrains.2.2
            cases ho.symm.trans hdrained
            refine Or.inr (Or.inr ?_)
            simp [drainEffects, hstate]
          · obtain ⟨b, effects, _, _, _, _, hkeep⟩ := handleWirte_undrained hout hdrains
            cases ho.symm.trans hkeep
            exact Or.inr (Or.inl hw)
  | functor mem w f =>
      by_cases hf : f.IsLifecycle
      · exact hstill (still_lifecycle hf ho)
      · cases f with
        | sendInLoop data len =>
            have ho' : c.sendInLoop true mem data len w = .ok o := ho
            have hne : c.state ≠ .kDisconnected := by simp [hstate]
            by_cases hkeep : c.errorOccurs w = true ∨ c.remaining len w = 0
            · rw [sendInLoop_keep hne hkeep] at ho'
              cases ho'
              exact Or.inr (Or.inl hw)
            · rw [not_or, Bool.not_eq_true] at hkeep
              obtain ⟨b, _, _, hsend⟩ := sendInLoop_append mem data hout hne hkeep.1 (Nat.pos_of_ne_zero hkeep.2)
              cases ho'.symm.trans hsend
              exact Or.inr (Or.inl c.waitWritable_enabled)
        | shutdownInLoop =>
            obtain ⟨_, _, ho⟩ := bind_eq_ok.mp ho
            cases ho
            exact Or.inr (Or.inl hw)
        | addTimerInLoop => cases ho; exact Or.inr (Or.inl hw)
        | writeCompleteCallback => cases ho; exact Or.inr (Or.inl hw)
        | highWaterMarkCallback len => cases ho; exact Or.inr (Or.inl hw)
        | connectEstablished => exact absurd trivial hf
        | connectDestoryed => exact absurd trivial hf
        | forceCloseInLoop => exact absurd trivial hf

end

/-! ### Steps -/

variable {s t : State} {e : Event}

theorem pending_stays (hs : Buffers s) (hen : Enabled s e) (ht : step s e = .ok t) {f : ConnFunctor}
    (hf : f ∈ pending s) (hnot : called s e ≠ some f) : f ∈ pending t := by
  obtain ⟨new, _, haccounts⟩ := pending_step hs hen ht
  have hpos : 0 < (pending s).count f := List.count_pos_iff.mpr hf
  have hzero : (called s e).toList.count f = 0 :=
    List.count_eq_zero.mpr fun hmem => hnot (Option.mem_toList.mp hmem)
  have := haccounts f
  exact List.count_pos_iff.mp (by omega)

theorem pending_of_handed (hs : Buffers s) (hen : Enabled s e) (ht : step s e = .ok t) {f : ConnFunctor}
    (hf : handed s e = some f) (hcalled : called s e = none) : f ∈ pending t := by
  obtain ⟨new, _, haccounts⟩ := pending_step hs hen ht
  have := haccounts f
  rw [hf, hcalled] at this
  simp only [Option.toList_some, Option.toList_none, List.count_singleton_self, List.count_nil] at this
  exact List.count_pos_iff.mp (by omega)

theorem log_step (hen : Enabled s e) (ht : step s e = .ok t) : s.log <+: t.log := by
  cases hk : task s e with
  | some k =>
      obtain ⟨_, o, s₀, _, rfl, hbefore⟩ := step_finish hen hk ht
      rw [finish_log]
      exact hbefore.log.trans (List.prefix_append _ _)
  | none => exact (step_noTask hk ht).log_grows

theorem timers_step (hen : Enabled s e) (hne : e ≠ .timerCallback) (ht : step s e = .ok t) : s.timers ≤ t.timers := by
  cases hk : task s e with
  | some k =>
      obtain ⟨_, o, s₀, _, rfl, hbefore⟩ := step_finish hen hk ht
      rw [← hbefore.timers hne]
      exact (finish_timers s₀ o).1
  | none => exact (step_noTask hk ht).timers.ge

theorem task_of_called {f : ConnFunctor} (hf : called s e = some f) (hne : f ≠ .connectEstablished) :
    ∃ mem w, task s e = some (.functor mem w f) ∧ caller s e = s.conn := by
  cases e with
  | callFunctor mem w =>
      have hnext : s.loop.phase.nextFunctor = some f := hf
      exact ⟨mem, w, by simp only [task, hnext, Option.map_some], rfl⟩
  | establish => cases hf; exact absurd rfl hne
  | enterLoop => cases hf
  | poll active => cases hf
  | handleEvent => cases hf
  | handleCallback r w => cases hf
  | timerCallback => cases hf
  | swapFunctors => cases hf
  | endFunctors => cases hf
  | userCode => cases hf
  | call c mem w => cases hf
  | retrieve len => cases hf
  | otherCall c => cases hf
  | otherPush i => cases hf

theorem from_kDisconnecting {a : StateE} (hle : .kDisconnecting ≤ a) : a = .kDisconnected ∨ a = .kDisconnecting := by
  cases a with
  | kDisconnected => exact Or.inl rfl
  | kDisconnecting => exact Or.inr rfl
  | kConnecting => exact absurd hle (by decide)
  | kConnected => exact absurd hle (by decide)

theorem caller_of_kDisconnecting (h : s.conn.state = .kDisconnecting) : (caller s e).state = .kDisconnecting := by
  obtain ⟨state, hcaller, rfl | ⟨_, rfl⟩⟩ := caller_state s e
  · rw [hcaller]
    exact h
  · rw [hcaller]

/-- Each link of the chain leads to the next. -/
theorem waits_step (hs : Buffers s) (hen : Enabled s e) (ht : step s e = .ok t)
    (hstate : s.conn.state = .kDisconnecting) {k : Call} (hk : Waits s k) :
    t.conn.state = .kDisconnected ∨ Waits t k := by
  have hcloses : ∀ o, s.conn.forceCloseInLoop true = .ok o → o.conn.state = .kDisconnected :=
    fun o => forceCloseInLoop_closes (by simp [hstate])
  cases k with
  | send data len => exact Or.inr trivial
  | forceClose =>
      by_cases hcalled : called s e = some .forceCloseInLoop
      · obtain ⟨mem, w, hk, hcaller⟩ := task_of_called hcalled (by simp)
        obtain ⟨o, ho, hconn, _⟩ := rest_of_task hen hk ht
        rw [hcaller] at ho
        exact Or.inl (by rw [hconn]; exact hcloses o ho)
      · exact Or.inr (pending_stays hs hen ht hk hcalled)
  | forceCloseWithDelay =>
      rcases hk with hin | htimers
      · by_cases hcalled : called s e = some .addTimerInLoop
        · obtain ⟨mem, w, hk, _⟩ := task_of_called hcalled (by simp)
          obtain ⟨_, o, s₀, ho, rfl, _⟩ := step_finish hen hk ht
          cases ho
          exact Or.inr (Or.inr ((finish_timers s₀ _).2 List.mem_cons_self))
        · exact Or.inr (Or.inl (pending_stays hs hen ht hin hcalled))
      · by_cases hexpires : e = .timerCallback
        · subst hexpires
          obtain ⟨o, ho, hconn, _⟩ := rest_of_task hen rfl ht
          exact Or.inl (by rw [hconn]; exact hcloses o ho)
        · exact Or.inr (Or.inr (htimers.trans_le (timers_step hen hexpires ht)))
  | shutdown =>
      rcases hk with hin | hw | hlog
      · by_cases hcalled : called s e = some .shutdownInLoop
        · obtain ⟨mem, w, hk, hcaller⟩ := task_of_called hcalled (by simp)
          obtain ⟨_, o, s₀, ho, rfl, _⟩ := step_finish hen hk ht
          rw [hcaller] at ho
          obtain ⟨_, _, ho⟩ := bind_eq_ok.mp ho
          cases ho
          refine Or.inr (Or.inr ?_)
          rw [finish_conn, finish_log]
          by_cases hw : s.conn.channel.isEnableWriteEvent = true
          · exact Or.inl hw
          · rw [if_neg hw]
            exact Or.inr (List.mem_append_right _ List.mem_cons_self)
        · exact Or.inr (Or.inl (pending_stays hs hen ht hin hcalled))
      · cases hk : task s e with
        | some k =>
            obtain ⟨hin, hout⟩ := hs.caller e
            obtain ⟨_, o, s₀, ho, rfl, _⟩ := step_finish hen hk ht
            obtain ⟨state, hcaller, _⟩ := caller_state s e
            have hw' : (caller s e).channel.isEnableWriteEvent = true := by rw [hcaller]; exact hw
            rw [Waits, finish_conn, finish_log]
            rcases shuts_of_task hin hout hw' (caller_of_kDisconnecting hstate) ho with hdown | hwait | hshut
            · exact Or.inl hdown
            · exact Or.inr (Or.inr (Or.inl hwait))
            · exact Or.inr (Or.inr (Or.inr (List.mem_append_right _ (List.mem_map_of_mem hshut))))
        | none =>
            have hsame : t.conn.channel = s.conn.channel := by
              obtain ⟨state, b, hconn, _⟩ := (step_noTask hk ht).conn
              rw [hconn]
            exact Or.inr (Or.inr (Or.inl (by rw [hsame]; exact hw)))
      · exact Or.inr (Or.inr (Or.inr ((log_step hen ht).subset hlog)))

theorem remembered_step (hs : Buffers s) (hen : Enabled s e) (ht : step s e = .ok t)
    (hle : s.conn.state ≤ t.conn.state) {k : Call} (hk : Remembered s k) : Remembered t k := by
  rcases hk with hdown | ⟨hstate, hwaits⟩
  · rw [hdown] at hle
    refine Or.inl ((from_kDisconnecting (Nat.le_trans (by decide) hle)).resolve_right fun h => ?_)
    rw [h] at hle
    exact absurd hle (by decide)
  · rw [hstate] at hle
    rcases from_kDisconnecting hle with hdown | hstate'
    · exact Or.inl hdown
    · exact (waits_step hs hen ht hstate hwaits).imp_right fun h => ⟨hstate', h⟩

theorem remembered_of_otherCall (hs : Buffers s) {k : Call} (ht : step s (.otherCall k) = .ok t) {conn : TcpConnection}
    {l : ToLoop} (hcall : s.conn.call k = (conn, some l)) (hstate : conn.state = .kDisconnecting)
    (hwaits : l.functor ∈ pending t → Waits t k) : Remembered t k := by
  have hhanded : handed s (.otherCall k) = some l.functor := by simp only [handed, hcall, Option.map_some]
  have hconn : t.conn = conn := by
    cases l with
    | runInLoop f =>
        simp only [step, hcall] at ht
        cases ht
        rfl
    | queueInLoop f =>
        simp only [step, hcall] at ht
        cases ht
        rfl
  have hen : Enabled s (.otherCall k) := trivial
  exact Or.inr ⟨by rw [hconn]; exact hstate, hwaits (pending_of_handed hs hen ht hhanded rfl)⟩

theorem remembered_of_runInLoop {k : Call} {mem : Memory} {w : WriteResult} (ht : step s (.call k mem w) = .ok t)
    {conn : TcpConnection} {f : ConnFunctor} (hcall : s.conn.call k = (conn, some (.runInLoop f)))
    (hstate : conn.state = .kDisconnecting) {o : Outcome} (ho : conn.runFunctor true mem w f = .ok o)
    (hconn : o.conn = conn) (hwaits : ∀ s₀ : State, Waits (finish s₀ o) k) : Remembered t k := by
  simp only [step, hcall, ho, ok_bind] at ht
  cases ht
  refine Or.inr ⟨?_, hwaits _⟩
  rw [finish_conn, hconn]
  exact hstate

theorem remembered_of_accepted (hs : Buffers s) (hen : Enabled s e) (ht : step s e = .ok t) {k : Call}
    (hk : accepted s e = some k) (hsend : ∀ data len, k ≠ .send data len) : Remembered t k := by
  have hshutdown : (s.conn.call .shutdown).2.isSome → s.conn.call .shutdown =
      ({ s.conn with state := .kDisconnecting }, some (.runInLoop .shutdownInLoop)) := by
    simp only [TcpConnection.call, TcpConnection.shutdown]
    split_ifs <;> simp
  have hforce : (s.conn.call .forceClose).2.isSome → s.conn.call .forceClose =
      ({ s.conn with state := .kDisconnecting }, some (.queueInLoop .forceCloseInLoop)) := by
    simp only [TcpConnection.call, TcpConnection.forceClose]
    split_ifs <;> simp
  have hdelay : (s.conn.call .forceCloseWithDelay).2.isSome → s.conn.call .forceCloseWithDelay =
      ({ s.conn with state := .kDisconnecting }, some (.runInLoop .addTimerInLoop)) := by
    simp only [TcpConnection.call, TcpConnection.forceCloseWithDelay]
    split_ifs <;> simp
  cases e with
  | otherCall c =>
      simp only [accepted] at hk
      split_ifs at hk with hsome
      cases hk
      cases k with
      | send data len => exact absurd rfl (hsend data len)
      | shutdown => exact remembered_of_otherCall hs ht (hshutdown hsome) rfl Or.inl
      | forceClose => exact remembered_of_otherCall hs ht (hforce hsome) rfl fun h => h
      | forceCloseWithDelay => exact remembered_of_otherCall hs ht (hdelay hsome) rfl Or.inl
  | call c mem w =>
      simp only [accepted] at hk
      split_ifs at hk with hsome
      cases hk
      cases k with
      | send data len => exact absurd rfl (hsend data len)
      | shutdown =>
          refine remembered_of_runInLoop ht (hshutdown hsome) rfl rfl rfl fun s₀ => ?_
          rw [Waits, finish_conn, finish_log]
          by_cases hw : s.conn.channel.isEnableWriteEvent = true
          · exact Or.inr (Or.inl hw)
          · refine Or.inr (Or.inr (List.mem_append_right _ ?_))
            rw [if_neg hw]
            exact List.mem_cons_self
      | forceClose =>
          have hcall := hforce hsome
          have hhanded : handed s (.call .forceClose mem w) = some .forceCloseInLoop := by simp only [handed, hcall]
          have hin := pending_of_handed hs hen ht hhanded rfl
          simp only [step, hcall] at ht
          cases ht
          exact Or.inr ⟨rfl, hin⟩
      | forceCloseWithDelay =>
          refine remembered_of_runInLoop ht (hdelay hsome) rfl rfl rfl fun s₀ => ?_
          exact Or.inr ((finish_timers s₀ _).2 List.mem_cons_self)
  | enterLoop => cases hk
  | poll active => cases hk
  | handleEvent => cases hk
  | handleCallback r w => cases hk
  | timerCallback => cases hk
  | swapFunctors => cases hk
  | callFunctor mem w => cases hk
  | endFunctors => cases hk
  | userCode => cases hk
  | retrieve len => cases hk
  | establish => cases hk
  | otherPush i => cases hk

end ConnLoop

/-! ### Runs -/

namespace Requests

open Run TcpConnection ConnLoop

/-- A connection on its loop and the calls that were accepted so far, other than `send`. -/
structure State where
  sys : ConnLoop.State
  asked : List Call

def isSend : Call → Bool
  | .send _ _ => true
  | .shutdown | .forceClose | .forceCloseWithDelay => false

def init (c : TcpConnection) : State := ⟨ConnLoop.init c, []⟩

def step (s : State) (e : Event) : Except Abort State := do
  let sys ← ConnLoop.step s.sys e
  return { sys, asked := s.asked ++ (accepted s.sys e).toList.filter fun k => !isSend k }

def Enabled (s : State) (e : Event) : Prop := ConnLoop.Enabled s.sys e

def NoEventAfterClose (s : State) (e : Event) : Prop := ConnLoop.NoEventAfterClose s.sys e

instance (s : State) (e : Event) : Decidable (Enabled s e) := inferInstanceAs (Decidable (ConnLoop.Enabled s.sys e))

instance (s : State) (e : Event) : Decidable (NoEventAfterClose s e) :=
  inferInstanceAs (Decidable (ConnLoop.NoEventAfterClose s.sys e))

/-- Every accepted request is remembered, and served once nothing is under way. -/
def Kept (s : State) : Prop := ∀ k ∈ s.asked, Remembered s.sys k ∧ (Settled s.sys → Served s.sys k)

structure Inv (s : State) : Prop where
  loop : ConnLoop.Inv s.sys
  remembered : ∀ k ∈ s.asked, Remembered s.sys k

theorem step_inv (s : State) (e : Event) (h : Inv s) (hen : Enabled s e) (hclose : NoEventAfterClose s e) :
    ∃ t, step s e = .ok t ∧ Inv t := by
  obtain ⟨sys, hsys, hle, hinv⟩ := step_keeps s.sys e h.loop hen hclose
  have hs : Buffers s.sys := ⟨h.loop.validIn, h.loop.validOut⟩
  refine ⟨⟨sys, s.asked ++ (accepted s.sys e).toList.filter fun k => !isSend k⟩, ?_, hinv, fun k hk => ?_⟩
  · simp only [step, hsys, ok_bind]
    rfl
  rcases List.mem_append.mp hk with hold | hnew
  · exact remembered_step hs hen hsys hle (h.remembered k hold)
  · obtain ⟨hmem, hnot⟩ := List.mem_filter.mp hnew
    refine remembered_of_accepted hs hen hsys (Option.mem_toList.mp hmem) ?_
    rintro data len rfl
    cases hnot

/-- **No request is forgotten.** For every new connection and every run of its loop, with user code and calls of other
threads, in which no event reaches the closed connection: after each step, for every call of `shutdown`, `forceClose`
or `forceCloseWithDelay` that was accepted so far, the connection is closed, or something that will serve the call is
under way; and when nothing is, the call has been served. -/
theorem kept_of_along (c : TcpConnection) (hin : c.inputBuffer.Valid) (hout : c.outputBuffer.Valid)
    (hstate : c.state = .kConnecting) (hnone : c.channel.events = kNoneEvent) (es : List Event)
    (hes : Along step Enabled (init c) es) (hclose : Along step NoEventAfterClose (init c) es) :
    Holds step noError (fun _ _ t => Kept t) (init c) es := by
  have hinit : Inv (init c) := ⟨ConnLoop.init_inv hin hout hstate hnone, nofun⟩
  refine holds_of_along (I := Inv) (fun s e h hG => ?_) hinit (along_and.mpr ⟨hes, hclose⟩)
  obtain ⟨t, ht, hinv⟩ := step_inv s e h hG.1 hG.2
  exact StepHolds.of_ok ht ⟨fun k hk => ⟨hinv.remembered k hk, (hinv.remembered k hk).served⟩, hinv⟩

/-- `shutdown` finds a byte buffered, and `handleWirte` shuts down after it; then another thread forces the close with
a delay, and the timer closes. -/
def shutThenForced : List Event :=
  [.establish, .userCode, .call (.send 0 2) (fun _ => 7) (.ok 1), .call .shutdown (fun _ => 0) (.ok 0), .enterLoop,
    .poll [.channel pollOut], .handleEvent, .handleCallback none (.ok 1), .otherCall .forceCloseWithDelay,
    .otherPush 0, .swapFunctors, .callFunctor (fun _ => 0) (.ok 0), .callFunctor (fun _ => 0) (.ok 0), .endFunctors,
    .poll [.timerfd], .timerCallback, .userCode, .userCode]

theorem kept_of_along_run : Holds step noError (fun _ _ t => Kept t) (init fresh) shutThenForced :=
  kept_of_along fresh (Buffer.new_valid (by decide)) (Buffer.new_valid (by decide)) rfl rfl shutThenForced
    (by decide +kernel) (by decide +kernel)

end Requests

end OulaServer
