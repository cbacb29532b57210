import OulaServer.TcpConnection.Close
import OulaServer.TcpConnection.Pending

/-!
# The default callbacks echo

A connection of a server that sets no callbacks of its own: `defaultMessageCallback` takes all that was received and
sends it back. Other threads may call `shutdown`, `forceClose` and `forceCloseWithDelay` at any time, also between the
two halves of the callback; nobody else sends.

`Echoes` accounts for every byte that was received, in order: it was written, or waits in `outputBuffer_`, or was turned
down by `send`, or is held by the callback, or was not read yet. Between callbacks everything is read, and while the
connection is up nothing was turned down, so that what was written and what is buffered make up what was received.
-/

namespace OulaServer

namespace Echo

open Run TcpConnection ConnLoop

structure State where
  endpoint : Endpoint.State
  /-- The string that `defaultMessageCallback` took and has yet to send. -/
  str : Option (List UInt8)
  /-- The bytes that `send` turned down. -/
  dropped : List UInt8

inductive Event where
  -- a step of the loop or of another thread
  | loop (e : ConnLoop.Event)
  -- the next user code of the function that runs; `defaultMessageCallback` up to its `send`
  | userCode
  -- `conn->send(str)`, with `str` at `data`
  | send (mem : Memory) (data : Int) (w : WriteResult)

def init (c : TcpConnection) : State := ⟨Endpoint.init c, none, []⟩

def step (s : State) : Event → Except Abort State
  | .loop e => do
      let endpoint ← Endpoint.step s.endpoint e
      return { s with endpoint }
  | .userCode =>
      match s.endpoint.sys.rest with
      | .messageCallback :: _ => do
          let (_, str) ← s.endpoint.sys.conn.inputBuffer.retrieveAllAsString
          let endpoint ← Endpoint.step s.endpoint .userCode
          let endpoint ← Endpoint.step endpoint (.retrieve str.length)
          return { s with endpoint, str := some str }
      | _ => do
          let endpoint ← Endpoint.step s.endpoint .userCode
          return { s with endpoint }
  | .send mem data w =>
      match s.str with
      | some str => do
          let endpoint ← Endpoint.step s.endpoint (.call (.send data str.length) mem w)
          return {
            endpoint
            str := none
            dropped := if s.endpoint.sys.conn.state = .kConnected then s.dropped else s.dropped ++ str }
      | none => .ok s

/-- The steps that are left to the loop and to other threads: the user code is that of the default callbacks. -/
def Internal : ConnLoop.Event → Prop
  | .userCode | .call _ _ _ | .retrieve _ | .otherCall (.send _ _) => False
  | .enterLoop | .poll _ | .handleEvent | .handleCallback _ _ | .timerCallback | .swapFunctors | .callFunctor _ _
  | .endFunctors | .establish | .otherCall .shutdown | .otherCall .forceClose | .otherCall .forceCloseWithDelay
  | .otherPush _ => True

/-- The steps of other threads. -/
def OtherThread : ConnLoop.Event → Prop
  | .otherCall _ | .otherPush _ => True
  | _ => False

/-- When each step can be taken; the loop's thread is in the callback as long as it holds the string. -/
def Enabled (s : State) : Event → Prop
  | .loop e => Internal e ∧ ConnLoop.Enabled s.endpoint.sys e ∧ FitsSsize s.endpoint.sys e ∧
      (s.str = none ∨ OtherThread e)
  | .userCode => s.str = none ∧ s.endpoint.sys.rest ≠ [] ∧ s.endpoint.sys.loop.phase ≠ .polling
  | .send mem data _ => s.endpoint.sys.loop.phase ≠ .polling ∧
      ∃ str ∈ s.str, bytesAt mem data str.length = str

/-- As for the connection on its loop. -/
def NoEventAfterClose (s : State) : Event → Prop
  | .loop e => ConnLoop.NoEventAfterClose s.endpoint.sys e
  | .userCode | .send _ _ _ => True

/-- The direct `::write` of an echo does not return `-1`. -/
def NoFailedSend (s : State) : Event → Prop
  | .send _ _ w => s.endpoint.sys.conn.writesDirect = true → s.str.getD [] ≠ [] → w.isOk = true
  | .loop _ | .userCode => True

instance : (e : ConnLoop.Event) → Decidable (Internal e)
  | .userCode | .call _ _ _ | .retrieve _ | .otherCall (.send _ _) => .isFalse id
  | .enterLoop | .poll _ | .handleEvent | .handleCallback _ _ | .timerCallback | .swapFunctors | .callFunctor _ _
  | .endFunctors | .establish | .otherCall .shutdown | .otherCall .forceClose | .otherCall .forceCloseWithDelay
  | .otherPush _ => .isTrue trivial

instance : (e : ConnLoop.Event) → Decidable (OtherThread e)
  | .otherCall _ | .otherPush _ => .isTrue trivial
  | .enterLoop | .poll _ | .handleEvent | .handleCallback _ _ | .timerCallback | .swapFunctors | .callFunctor _ _
  | .endFunctors | .userCode | .call _ _ _ | .retrieve _ | .establish => .isFalse id

instance (s : State) : (e : Event) → Decidable (Enabled s e)
  | .loop e => inferInstanceAs (Decidable (Internal e ∧ ConnLoop.Enabled s.endpoint.sys e ∧
      FitsSsize s.endpoint.sys e ∧ (s.str = none ∨ OtherThread e)))
  | .userCode => inferInstanceAs (Decidable (_ ∧ _ ∧ _))
  | .send mem data _ => inferInstanceAs (Decidable (_ ∧ ∃ str ∈ s.str, bytesAt mem data str.length = str))

instance (s : State) : (e : Event) → Decidable (NoEventAfterClose s e)
  | .loop e => inferInstanceAs (Decidable (ConnLoop.NoEventAfterClose s.endpoint.sys e))
  | .userCode | .send _ _ _ => .isTrue trivial

instance (s : State) : (e : Event) → Decidable (NoFailedSend s e)
  | .send _ _ _ => inferInstanceAs (Decidable (_ → _ → _))
  | .loop _ | .userCode => .isTrue trivial

/-- Where every received byte is. -/
structure Echoes (s : State) : Prop where
  bytes : s.endpoint.written ++ s.endpoint.sys.conn.outputBuffer.readable ++ s.dropped ++ s.str.getD [] ++
    s.endpoint.sys.conn.inputBuffer.readable = s.endpoint.received
  read : .messageCallback ∉ s.endpoint.sys.rest → s.endpoint.sys.conn.inputBuffer.readable = []
  up : s.endpoint.sys.conn.state = .kConnected → s.dropped = []
  interest : s.endpoint.sys.conn.Open → s.endpoint.sys.conn.Watches

/-! ### A step of the connection -/

/-- What holds of the connection whatever its user code does, as long as it sends on the loop's thread only. -/
structure Core (s : Endpoint.State) : Prop where
  loop : ConnLoop.Inv s.sys
  waiting : Waiting s.sys
  balanced : Endpoint.Balanced s
  noSends : ∀ data len, .sendInLoop data len ∉ pending s.sys

theorem Core.step {s : Endpoint.State} {e : ConnLoop.Event} (h : Core s) (hen : ConnLoop.Enabled s.sys e)
    (hclose : ConnLoop.NoEventAfterClose s.sys e) (hsend : Endpoint.NoFailedSend s e)
    (hhanded : ∀ data len, handed s.sys e ≠ some (.sendInLoop data len)) :
    ∃ sys, ConnLoop.step s.sys e = .ok sys ∧ Endpoint.step s e = .ok (s.after e sys) ∧
      s.sys.conn.state ≤ sys.conn.state ∧ Core (s.after e sys) := by
  obtain ⟨sys, hsys, hle, hinv⟩ := step_keeps s.sys e h.loop hen hclose
  have hstep : Endpoint.step s e = .ok (s.after e sys) := Endpoint.step_eq_ok.mpr ⟨sys, hsys, rfl⟩
  refine ⟨sys, hsys, hstep, hle, hinv, ((step_notified s.sys e h.waiting).2 sys hsys).2,
    Endpoint.step_balanced h.balanced hsend hstep, fun data len hmem => ?_⟩
  obtain ⟨new, huser, hcount⟩ := pending_step h.balanced.buffers hen hsys
  have hnew : new.count (.sendInLoop data len) = 0 := by
    refine List.count_eq_zero.mpr fun hf => ?_
    rcases huser _ hf with hf | ⟨_, hf⟩ <;> cases hf
  have hold : (pending s.sys).count (.sendInLoop data len) = 0 := List.count_eq_zero.mpr (h.noSends data len)
  have hhand : (handed s.sys e).toList.count (.sendInLoop data len) = 0 := by
    refine List.count_eq_zero.mpr fun hf => hhanded data len ?_
    exact Option.mem_toList.mp hf
  have hpos : 0 < (pending sys).count (.sendInLoop data len) := List.count_pos_iff.mpr hmem
  have := hcount (.sendInLoop data len)
  omega

/-! ### The invariant -/

structure Inv (s : State) : Prop where
  core : Core s.endpoint
  account : s.endpoint.passed ++ s.dropped ++ s.str.getD [] = s.endpoint.taken
  late : s.dropped ≠ [] → .kDisconnecting ≤ s.endpoint.sys.conn.state
  rest : .messageCallback ∈ s.endpoint.sys.rest → s.endpoint.sys.rest = [.messageCallback]
  read : .messageCallback ∉ s.endpoint.sys.rest → s.endpoint.sys.conn.inputBuffer.readable = []
  started : .messageCallback ∈ s.endpoint.sys.rest ∨ s.str ≠ none → s.endpoint.sys.conn.state ≠ .kConnecting

theorem Inv.echoes {s : State} (h : Inv s) : Echoes s where
  bytes := by rw [h.core.balanced.output, h.account, h.core.balanced.input]
  read := h.read
  up hstate := by
    by_contra hne
    have hle := h.late hne
    rw [hstate] at hle
    exact absurd hle (by decide)
  interest hopen := h.core.waiting.interest hopen

theorem init_inv {c : TcpConnection} (hin : c.inputBuffer.Valid) (hout : c.outputBuffer.Valid)
    (hinEmpty : c.inputBuffer.readable = []) (houtEmpty : c.outputBuffer.readable = [])
    (hstate : c.state = .kConnecting) (hnone : c.channel.events = kNoneEvent) : Inv (init c) where
  core := {
    loop := ConnLoop.init_inv hin hout hstate hnone
    waiting := by
      refine ⟨hout, fun _ => iff_of_false ?_ (not_not.mpr houtEmpty)⟩
      show ¬ c.channel.isEnableWriteEvent = true
      rw [Channel.isEnableWriteEvent, hnone]
      decide
    balanced := Endpoint.init_balanced hin hout hinEmpty houtEmpty hstate
    noSends := by simp [init, Endpoint.init, ConnLoop.init, pending, EventLoop.new, EventLoop.queued] }
  account := rfl
  late h := absurd rfl h
  rest := nofun
  read _ := hinEmpty
  started h := by simp [init, Endpoint.init, ConnLoop.init] at h

variable {s : State} {e : ConnLoop.Event}

theorem ne_kConnecting_of_le {a b : StateE} (hle : a ≤ b) (hne : a ≠ .kConnecting) : b ≠ .kConnecting := by
  rintro rfl
  cases a with
  | kConnecting => exact hne rfl
  | kConnected => exact absurd hle (by decide)
  | kDisconnecting => exact absurd hle (by decide)
  | kDisconnected => exact absurd hle (by decide)

theorem plain_of_ne {k : Task} (h : ∀ mem w data len, k ≠ .functor mem w (.sendInLoop data len)) (c : TcpConnection) :
    k.passed c = [] ∧ k.WritesWell c := by
  cases k with
  | callback r w cb => exact ⟨rfl, trivial⟩
  | functor mem w f =>
      cases f with
      | sendInLoop data len => exact absurd rfl (h mem w data len)
      | _ => exact ⟨rfl, trivial⟩

/-- What runs without the user's calls is not `sendInLoop`, and starts with nothing left of another function. -/
theorem task_of_internal (h : Core s.endpoint) (hint : Internal e) (hen : ConnLoop.Enabled s.endpoint.sys e) {k : Task}
    (hk : task s.endpoint.sys e = some k) : (∀ mem w data len, k ≠ .functor mem w (.sendInLoop data len)) ∧
      s.endpoint.sys.rest = [] ∧ caller s.endpoint.sys e = s.endpoint.sys.conn := by
  cases e with
  | handleCallback r w =>
      obtain ⟨cb, _, rfl⟩ := Option.map_eq_some_iff.mp hk
      exact ⟨nofun, hen.1, rfl⟩
  | timerCallback => cases hk; exact ⟨nofun, hen.1, rfl⟩
  | establish => cases hk; exact ⟨nofun, hen.1, rfl⟩
  | callFunctor mem w =>
      obtain ⟨f, hf, rfl⟩ := Option.map_eq_some_iff.mp hk
      refine ⟨?_, hen.1, rfl⟩
      rintro _ _ data len ⟨⟩
      obtain ⟨rest, hphase⟩ := Phase.nextFunctor_eq_some.mp hf
      refine h.noSends data len (List.mem_append_left _ ?_)
      rw [EventLoop.queued_calling hphase]
      exact List.mem_append_left _ List.mem_cons_self
  | call c mem w => exact hint.elim
  | enterLoop => cases hk
  | poll active => cases hk
  | handleEvent => cases hk
  | swapFunctors => cases hk
  | endFunctors => cases hk
  | userCode => cases hk
  | retrieve len => cases hk
  | otherCall c => cases hk
  | otherPush i => cases hk

/-- A function that finds nothing unread leaves something unread only to a callback that it calls. -/
theorem read_of_task {c : TcpConnection} {o : Outcome} {k : Task} (hin : c.inputBuffer.Valid)
    (hout : c.outputBuffer.Valid) (hempty : c.inputBuffer.readable = [])
    (hfits : ∀ bytes w, k = .callback (some bytes) w .read → bytes.length < 2 ^ 63) (ho : k.run c = .ok o) :
    (.messageCallback ∈ o.rest → o.rest = [.messageCallback]) ∧
      (.messageCallback ∉ o.rest → o.conn.inputBuffer.readable = []) := by
  by_cases hread : ∃ r w, k = .callback r w .read
  · obtain ⟨r, w, rfl⟩ := hread
    have ho' : c.handleRead true r = .ok o := ho
    rcases r with _ | _ | ⟨byte, bytes⟩
    · rw [handleRead_failed hin] at ho'
      cases ho'
      exact ⟨fun _ => rfl, fun h => absurd List.mem_cons_self h⟩
    · obtain ⟨b, _, hb, hclose⟩ := handleRead_eof hin
      have hstill := still_handleClose (hclose.symm.trans ho')
      obtain ⟨state, channel, hconn, _⟩ := hstill.conn
      refine ⟨fun h => absurd h hstill.silent, fun _ => ?_⟩
      rw [hconn]
      exact hb.trans hempty
    · obtain ⟨b, _, _, hdeliver⟩ := handleRead_received hin (List.cons_ne_nil byte bytes) (hfits _ w rfl)
      cases ho'.symm.trans hdeliver
      exact ⟨fun _ => rfl, fun h => absurd List.mem_cons_self h⟩
  · have hno := noRead_of_task hout (fun r w hk => hread ⟨r, w, hk⟩) ho
    exact ⟨fun h => absurd h hno.silent, fun _ => by rw [hno.input, hempty]⟩

theorem started_of_task (h : Core s.endpoint) (hen : ConnLoop.Enabled s.endpoint.sys e) {k : Task} {o : Outcome}
    (hk : task s.endpoint.sys e = some k) (ho : k.run s.endpoint.sys.conn = .ok o) (hmem : .messageCallback ∈ o.rest) :
    s.endpoint.sys.conn.state ≠ .kConnecting := by
  intro hstate
  by_cases hread : ∃ r w, k = .callback r w .read
  · obtain ⟨r, w, rfl⟩ := hread
    cases e with
    | handleCallback r' w' => exact hen.2 (h.loop.connecting hstate).callbacks
    | callFunctor mem w' => simp [task] at hk
    | call c mem w' =>
        simp only [task] at hk
        split at hk <;> cases hk
    | timerCallback => cases hk
    | establish => cases hk
    | _ => cases hk
  · exact (noRead_of_task h.balanced.buffers.output (fun r w hk => hread ⟨r, w, hk⟩) ho).silent hmem

theorem handed_of_internal (hint : Internal e) (data : Int) (len : Nat) :
    handed s.endpoint.sys e ≠ some (.sendInLoop data len) := by
  cases e with
  | otherCall c =>
      cases c with
      | send data' len' => exact hint.elim
      | shutdown =>
          simp only [handed, TcpConnection.call, TcpConnection.shutdown]
          split_ifs <;> simp [ToLoop.functor]
      | forceClose =>
          simp only [handed, TcpConnection.call, TcpConnection.forceClose]
          split_ifs <;> simp [ToLoop.functor]
      | forceCloseWithDelay =>
          simp only [handed, TcpConnection.call, TcpConnection.forceCloseWithDelay]
          split_ifs <;> simp [ToLoop.functor]
  | userCode => exact hint.elim
  | call c mem w => exact hint.elim
  | _ => simp [handed]

theorem Inv.loop (h : Inv s) (hint : Internal e) (hen : ConnLoop.Enabled s.endpoint.sys e)
    (hfits : FitsSsize s.endpoint.sys e) (hclose : ConnLoop.NoEventAfterClose s.endpoint.sys e) :
    ∃ t, step s (.loop e) = .ok t ∧ Inv t := by
  have hplain : ∀ k, task s.endpoint.sys e = some k → ∀ c, k.passed c = [] ∧ k.WritesWell c :=
    fun k hk => plain_of_ne (task_of_internal h.core hint hen hk).1
  obtain ⟨sys, hsys, hstep, hle, hcore⟩ := h.core.step hen hclose (fun k hk => (hplain k hk _).2)
    (handed_of_internal hint)
  refine ⟨{ s with endpoint := s.endpoint.after e sys }, ?_, ?_⟩
  · simp only [step, hstep, ok_bind]
    rfl
  have hpasses : Endpoint.passes s.endpoint.sys e = [] := by
    cases hk : task s.endpoint.sys e with
    | none => rw [Endpoint.passes, hk]; rfl
    | some k =>
        rw [Endpoint.passes, hk]
        exact (hplain k hk _).1
  have hretrieve : ∀ len, e ≠ .retrieve len := by
    rintro len rfl
    exact hint
  have huser : e ≠ .userCode := by
    rintro rfl
    exact hint
  have htakes : Endpoint.takes s.endpoint.sys e = [] := by
    cases e with
    | retrieve len => exact absurd rfl (hretrieve len)
    | _ => rfl
  have hread : (.messageCallback ∈ sys.rest → sys.rest = [.messageCallback]) ∧
      (.messageCallback ∉ sys.rest → sys.conn.inputBuffer.readable = []) ∧
      (.messageCallback ∈ sys.rest → s.endpoint.sys.conn.state ≠ .kConnecting) := by
    cases hk : task s.endpoint.sys e with
    | none =>
        have hidle := step_noTask hk hsys
        obtain ⟨state, hconn, _⟩ := hidle.only_called hretrieve
        rw [hidle.rest huser, hconn]
        exact ⟨h.rest, h.read, fun hmem => h.started (Or.inl hmem)⟩
    | some k =>
        obtain ⟨_, hrest, hcaller⟩ := task_of_internal h.core hint hen hk
        obtain ⟨o, ho, hconn, hrest'⟩ := rest_of_task hen hk hsys
        rw [hcaller] at ho
        rw [hrest', hrest, List.append_nil, hconn]
        have hempty := h.read (by rw [hrest]; exact List.not_mem_nil)
        have hboth := read_of_task h.core.balanced.buffers.input h.core.balanced.buffers.output hempty (by
          rintro bytes w rfl
          exact hfits bytes (readv_eq_some.mpr ⟨w, hk⟩)) ho
        exact ⟨hboth.1, hboth.2, started_of_task h.core hen hk ho⟩
  refine ⟨hcore, ?_, fun hne => Nat.le_trans (h.late hne) hle, hread.1, hread.2.1, fun hor => ?_⟩
  · show s.endpoint.passed ++ Endpoint.passes s.endpoint.sys e ++ s.dropped ++ s.str.getD [] =
      s.endpoint.taken ++ Endpoint.takes s.endpoint.sys e
    rw [hpasses, htakes, List.append_nil, List.append_nil, h.account]
  · exact ne_kConnecting_of_le hle (hor.elim hread.2.2 fun hstr => h.started (Or.inr hstr))

theorem retrieveAllAsString_ok {b : Buffer} (h : b.Valid) :
    ∃ b', b.retrieveAllAsString = .ok (b', b.readable) ∧ b.readable.length = b.readableBytes := by
  obtain ⟨b', hb', _, _⟩ := Buffer.retrieveAsString_spec h (Nat.le_refl b.readableBytes)
  have hlen := Buffer.length_readable h
  rw [List.take_of_length_le hlen.le] at hb'
  exact ⟨b', hb', hlen⟩

theorem Inv.otherUserCode (h : Inv s) {r : Rest} {rest : List Rest} (hrest : s.endpoint.sys.rest = r :: rest)
    (hr : r ≠ .messageCallback) : ∃ t, step s .userCode = .ok t ∧ Inv t := by
  have hnot : .messageCallback ∉ s.endpoint.sys.rest := by
    intro hmem
    have := h.rest hmem
    rw [hrest] at this
    exact hr (List.cons.inj this).1
  have hen : ConnLoop.Enabled s.endpoint.sys .userCode := by
    rw [ConnLoop.Enabled, hrest]
    exact List.cons_ne_nil _ _
  obtain ⟨sys, hsys, hstep, hle, hcore⟩ := h.core.step hen trivial (fun k hk => by cases hk) (fun data len => by
    simp only [handed]
    split_ifs <;> simp)
  obtain ⟨hconn, hrest'⟩ : sys.conn = s.endpoint.sys.conn ∧ sys.rest = rest := by
    simp only [ConnLoop.step, hrest] at hsys
    split at hsys
    · cases hsys
      rename_i heq
      cases heq
      exact ⟨rfl, rfl⟩
    · cases hsys
      rename_i heq
      cases heq
      exact ⟨rfl, rfl⟩
    · rename_i heq
      cases heq
  have hnot' : .messageCallback ∉ sys.rest := by
    rw [hrest']
    intro hmem
    rw [hrest] at hnot
    exact hnot (List.mem_cons_of_mem _ hmem)
  refine ⟨{ s with endpoint := s.endpoint.after .userCode sys }, ?_, hcore, ?_, ?_, fun hmem => absurd hmem hnot', ?_,
    ?_⟩
  · cases r with
    | messageCallback => exact absurd rfl hr
    | _ =>
        simp only [step, hrest, hstep, ok_bind]
        rfl
  · show s.endpoint.passed ++ [] ++ s.dropped ++ s.str.getD [] = s.endpoint.taken ++ []
    rw [List.append_nil, List.append_nil, h.account]
  · exact fun hne => Nat.le_trans (h.late hne) hle
  · show .messageCallback ∉ sys.rest → sys.conn.inputBuffer.readable = []
    rw [hconn]
    exact fun _ => h.read hnot
  · exact fun hor => ne_kConnecting_of_le hle (h.started (Or.inr (hor.resolve_left hnot')))

theorem Inv.messageCallback (h : Inv s) (hstr : s.str = none) (hphase : s.endpoint.sys.loop.phase ≠ .polling)
    (hmem : .messageCallback ∈ s.endpoint.sys.rest) : ∃ t, step s .userCode = .ok t ∧ Inv t := by
  have hrest := h.rest hmem
  have hen : ConnLoop.Enabled s.endpoint.sys .userCode := by
    rw [ConnLoop.Enabled, hrest]
    exact List.cons_ne_nil _ _
  obtain ⟨b, hb, hlen⟩ := retrieveAllAsString_ok h.core.balanced.buffers.input
  obtain ⟨sys₁, hsys₁, hstep₁, _, hcore₁⟩ := h.core.step hen trivial (fun k hk => by cases hk) (fun data len => by
    simp [handed, hrest])
  have heq₁ : sys₁ = { s.endpoint.sys with
      rest := [], log := s.endpoint.sys.log ++ [.user .messageCallback] } := by
    simp only [ConnLoop.step, hrest] at hsys₁
    cases hsys₁
    rfl
  subst heq₁
  obtain ⟨sys₂, hsys₂, hstep₂, hle₂, hcore₂⟩ := hcore₁.step
    (e := .retrieve s.endpoint.sys.conn.inputBuffer.readable.length) ⟨hphase, hlen.le⟩ trivial
    (fun k hk => by cases hk) (fun data len => by simp [handed])
  obtain ⟨b₂, _, hb₂, rfl⟩ := retrieve_ok hcore₁.balanced.buffers.input hsys₂
  refine ⟨⟨(s.endpoint.after .userCode _).after (.retrieve _) _, some s.endpoint.sys.conn.inputBuffer.readable,
    s.dropped⟩, ?_, hcore₂, ?_, fun hne => Nat.le_trans (h.late hne) hle₂,
    fun hmem => absurd hmem List.not_mem_nil, fun _ => ?_, fun _ => h.started (Or.inl hmem)⟩
  · simp only [step, hrest, hb, ok_bind, hstep₁, hstep₂]
    rfl
  · have haccount : s.endpoint.passed ++ s.dropped = s.endpoint.taken := by simpa [hstr] using h.account
    show s.endpoint.passed ++ [] ++ [] ++ s.dropped ++ s.endpoint.sys.conn.inputBuffer.readable =
      s.endpoint.taken ++ [] ++ s.endpoint.sys.conn.inputBuffer.readable.take _
    simp only [List.take_length, List.append_nil, haccount]
  · show b₂.readable = []
    rw [hb₂]
    exact List.drop_length

/-- What the `send` of the callback does to the connection: nothing to what was received, and the string is passed on
as long as the connection is up. -/
theorem sends_str (h : Core s.endpoint) {mem : Memory} {data : Int} {w : WriteResult} {str : List UInt8}
    {sys : ConnLoop.State} (hphase : s.endpoint.sys.loop.phase ≠ .polling) (hplace : bytesAt mem data str.length = str)
    (hsys : ConnLoop.step s.endpoint.sys (.call (.send data str.length) mem w) = .ok sys) :
    sys.rest = s.endpoint.sys.rest ∧ sys.conn.inputBuffer = s.endpoint.sys.conn.inputBuffer ∧
      Endpoint.passes s.endpoint.sys (.call (.send data str.length) mem w) =
        if s.endpoint.sys.conn.state = .kConnected then str else [] := by
  have hen : ConnLoop.Enabled s.endpoint.sys (.call (.send data str.length) mem w) := hphase
  by_cases hstate : s.endpoint.sys.conn.state = .kConnected
  · have hcall : s.endpoint.sys.conn.call (.send data str.length) =
        (s.endpoint.sys.conn, some (.runInLoop (.sendInLoop data str.length))) := if_pos hstate
    have hk : task s.endpoint.sys (.call (.send data str.length) mem w) =
        some (.functor mem w (.sendInLoop data str.length)) := by simp only [task, hcall]
    have hcaller : caller s.endpoint.sys (.call (.send data str.length) mem w) = s.endpoint.sys.conn := by
      simp only [caller, hcall]
    obtain ⟨o, ho, hconn, hrest⟩ := rest_of_task hen hk hsys
    rw [hcaller] at ho
    have hquiet : Quiet s.endpoint.sys.conn o := quiet_of_sendInLoop h.balanced.buffers.output ho
    refine ⟨by rw [hrest, hquiet.rest, List.nil_append], by rw [hconn, hquiet.inputBuffer], ?_⟩
    simp only [Endpoint.passes, hk, hcaller, Option.elim_some, Task.passed, hstate, if_true, hplace]
    rfl
  · have hk : task s.endpoint.sys (.call (.send data str.length) mem w) = none := by
      simp [task, TcpConnection.call, TcpConnection.send, hstate]
    have hidle := step_noTask hk hsys
    obtain ⟨state, hconn, _⟩ := hidle.only_called (by simp)
    refine ⟨hidle.rest (by simp), by rw [hconn], ?_⟩
    rw [Endpoint.passes, hk, if_neg hstate]
    rfl

theorem noFailedSend_str {mem : Memory} {data : Int} {w : WriteResult} {str : List UInt8} (hstr : s.str = some str)
    (hsend : NoFailedSend s (.send mem data w)) :
    Endpoint.NoFailedSend s.endpoint (.call (.send data str.length) mem w) := by
  intro k hk
  by_cases hstate : s.endpoint.sys.conn.state = .kConnected
  · have hcall : s.endpoint.sys.conn.call (.send data str.length) =
        (s.endpoint.sys.conn, some (.runInLoop (.sendInLoop data str.length))) := if_pos hstate
    simp only [task, hcall] at hk
    cases hk
    simp only [caller, hcall]
    intro hdirect hlen
    refine hsend hdirect ?_
    rw [hstr]
    exact List.length_pos_iff.mp hlen
  · simp [task, TcpConnection.call, TcpConnection.send, hstate] at hk

theorem Inv.send (h : Inv s) {mem : Memory} {data : Int} {w : WriteResult} (hen : Enabled s (.send mem data w))
    (hsend : NoFailedSend s (.send mem data w)) : ∃ t, step s (.send mem data w) = .ok t ∧ Inv t := by
  obtain ⟨hphase, str, hstr, hplace⟩ := hen
  have hsome : s.str = some str := hstr
  have haccount := h.account
  rw [hsome, Option.getD_some] at haccount
  have hup := h.started (Or.inr (by rw [hsome]; exact Option.some_ne_none str))
  have hcall : ConnLoop.Enabled s.endpoint.sys (.call (.send data str.length) mem w) := hphase
  obtain ⟨sys, hsys, hstep, hle, hcore⟩ := h.core.step hcall trivial (noFailedSend_str hsome hsend)
    (fun data len => by
      simp only [handed, TcpConnection.call, TcpConnection.send]
      split_ifs <;> simp)
  obtain ⟨hrest, hinput, hpassed⟩ := sends_str h.core hphase hplace hsys
  refine ⟨⟨s.endpoint.after _ sys, none, if s.endpoint.sys.conn.state = .kConnected then s.dropped else
    s.dropped ++ str⟩, ?_, hcore, ?_, ?_, ?_, ?_, fun _ => ne_kConnecting_of_le hle hup⟩
  · simp only [step, hsome, hstep, ok_bind]
    rfl
  · show s.endpoint.passed ++ Endpoint.passes s.endpoint.sys (.call (.send data str.length) mem w) ++
      (if s.endpoint.sys.conn.state = .kConnected then s.dropped else s.dropped ++ str) ++ [] = s.endpoint.taken ++ []
    rw [hpassed, List.append_nil, List.append_nil, ← haccount]
    split_ifs with hstate
    · rw [h.echoes.up hstate, List.append_nil, List.append_nil]
    · rw [List.append_nil, List.append_assoc]
  · show (if s.endpoint.sys.conn.state = .kConnected then s.dropped else s.dropped ++ str) ≠ [] →
      .kDisconnecting ≤ sys.conn.state
    split_ifs with hstate
    · exact fun hne => absurd (h.echoes.up hstate) hne
    · refine fun _ => Nat.le_trans ?_ hle
      cases hs : s.endpoint.sys.conn.state with
      | kConnecting => exact absurd hs hup
      | kConnected => exact absurd hs hstate
      | kDisconnecting => decide
      | kDisconnected => decide
  · show .messageCallback ∈ sys.rest → sys.rest = [.messageCallback]
    rw [hrest]
    exact h.rest
  · show .messageCallback ∉ sys.rest → sys.conn.inputBuffer.readable = []
    rw [hrest, hinput]
    exact h.read

/-! ### Runs -/

theorem step_inv (s : State) (e : Event) (h : Inv s) (hen : Enabled s e) (hclose : NoEventAfterClose s e)
    (hsend : NoFailedSend s e) : ∃ t, step s e = .ok t ∧ Inv t := by
  cases e with
  | loop e => exact h.loop hen.1 hen.2.1 hen.2.2.1 hclose
  | userCode =>
      obtain ⟨hstr, hne, hphase⟩ := hen
      by_cases hmem : .messageCallback ∈ s.endpoint.sys.rest
      · exact h.messageCallback hstr hphase hmem
      · obtain ⟨r, rest, hrest⟩ := List.exists_cons_of_ne_nil hne
        refine h.otherUserCode hrest ?_
        rintro rfl
        rw [hrest] at hmem
        exact hmem List.mem_cons_self
  | send mem data w => exact h.send hen hsend

/-- **The echo.** For every new connection with the default callbacks and every run of its loop and of the calls
`shutdown`, `forceClose` and `forceCloseWithDelay` of other threads, over all answers of `readv` and of `::write` but a
direct `::write` that fails, and in which no event reaches the closed connection: no assertion fails, and after each
step every received byte was written, waits in `outputBuffer_`, was turned down by `send`, is held by the callback or
was not read yet, in this order. -/
theorem echoes_of_along (c : TcpConnection) (hin : c.inputBuffer.Valid) (hout : c.outputBuffer.Valid)
    (hinEmpty : c.inputBuffer.readable = []) (houtEmpty : c.outputBuffer.readable = [])
    (hstate : c.state = .kConnecting) (hnone : c.channel.events = kNoneEvent) (es : List Event)
    (hes : Along step Enabled (init c) es) (hclose : Along step NoEventAfterClose (init c) es)
    (hsend : Along step NoFailedSend (init c) es) : Holds step noError (fun _ _ t => Echoes t) (init c) es := by
  refine holds_of_along (I := Inv) (fun s e h hG => ?_) (init_inv hin hout hinEmpty houtEmpty hstate hnone)
    (along_and.mpr ⟨hes, along_and.mpr ⟨hclose, hsend⟩⟩)
  obtain ⟨t, ht, hinv⟩ := step_inv s e h hG.1 hG.2.1 hG.2.2
  exact StepHolds.of_ok ht ⟨hinv.echoes, hinv⟩

/-- Three bytes are echoed, the first of them directly; then another thread calls `shutdown` while the callback holds
two more, which `send` turns down. -/
def echoThenShutdown : List Event :=
  [.loop .establish, .userCode, .loop .enterLoop, .loop (.poll [.channel pollIn]), .loop .handleEvent,
    .loop (.handleCallback (some [1, 2, 3]) (.ok 0)), .userCode, .send (fun p => .ofNat p.toNat) 1 (.ok 1),
    .loop .swapFunctors, .loop .endFunctors, .loop (.poll [.channel (pollIn ||| pollOut)]), .loop .handleEvent,
    .loop (.handleCallback (some [4, 5]) (.ok 0)), .userCode, .loop (.otherCall .shutdown),
    .send (fun p => .ofNat p.toNat) 4 (.ok 0), .loop (.handleCallback none (.ok 2))]

theorem echoes_of_along_run : Holds step noError (fun _ _ t => Echoes t) (init fresh) echoThenShutdown :=
  echoes_of_along fresh (Buffer.new_valid (by decide)) (Buffer.new_valid (by decide)) (Buffer.readable_new 4)
    (Buffer.readable_new 4) rfl rfl echoThenShutdown (by decide +kernel) (by decide +kernel) (by decide +kernel)

end Echo

end OulaServer
