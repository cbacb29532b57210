import OulaServer.TcpConnection.Tasks

/-!
# Write interest and notifications

Over every run of the loop the channel of an open connection waits for the socket exactly while bytes are
buffered. The user is told that everything was written only when nothing is buffered, and once each time
`handleWirte` takes the last byte; and the user is told of `highWaterMark_` when the buffered length passes it from
below, so that the length is below the mark between two such notices.

`Notifies` says this of one function of the connection, `Notified` of one step of the loop.
-/

namespace OulaServer

/-- The length that a notice of the high water mark carries. -/
def ConnFunctor.mark : ConnFunctor → Option Nat
  | highWaterMarkCallback len => some len
  | _ => none

/-- The notices of the high water mark among the functors. -/
def marks (fs : List ConnFunctor) : List Nat := fs.filterMap ConnFunctor.mark

@[simp] theorem marks_append (fs fs' : List ConnFunctor) : marks (fs ++ fs') = marks fs ++ marks fs' :=
  List.filterMap_append

@[simp] theorem marks_nil : marks [] = [] := rfl

/-- How often the functors tell the user that everything was written. -/
def completions (fs : List ConnFunctor) : Nat := fs.count .writeCompleteCallback

@[simp] theorem completions_append (fs fs' : List ConnFunctor) :
    completions (fs ++ fs') = completions fs + completions fs' := List.count_append

@[simp] theorem completions_nil : completions [] = 0 := rfl

namespace TcpConnection

variable {c : TcpConnection} {o : Outcome} {mem : Memory} {data : Int} {len : Nat} {w : WriteResult}

/-- The buffered length. -/
def buffered (c : TcpConnection) : Nat := c.outputBuffer.readableBytes

/-- The buffered length passes the mark from below. -/
def Crosses (c : TcpConnection) (after : Nat) : Prop := c.buffered < c.highWaterMark ∧ c.highWaterMark ≤ after

instance (c : TcpConnection) (after : Nat) : Decidable (c.Crosses after) := inferInstanceAs (Decidable (_ ∧ _))

/-- The notice that is due when the buffered length becomes `after`. -/
def dueMarks (c : TcpConnection) (after : Nat) : List Nat :=
  if c.highWaterMarkCallback = true ∧ c.Crosses after then [after] else []

theorem dueMarks_of_le {after : Nat} (h : after ≤ c.buffered) : c.dueMarks after = [] := by
  refine if_neg ?_
  rintro ⟨_, hlt, hle⟩
  omega

/-! ### The functors of each function -/

theorem completions_completes (c : TcpConnection) :
    completions (functors c.completes) = if c.writeCompleteCallback then 1 else 0 := by
  unfold completes
  split_ifs <;> rfl

theorem marks_completes (c : TcpConnection) : marks (functors c.completes) = [] := by
  unfold completes
  split_ifs <;> rfl

theorem completions_highWater (c : TcpConnection) (oldLen remaining : Nat) :
    completions (functors (c.highWater oldLen remaining)) = 0 := by
  unfold highWater
  split_ifs <;> rfl

theorem marks_highWater (c : TcpConnection) (remaining : Nat) :
    marks (functors (c.highWater c.buffered remaining)) = c.dueMarks (c.buffered + remaining) := by
  unfold highWater dueMarks Crosses
  by_cases h : (c.highWaterMark ≤ c.buffered + remaining ∧ c.buffered < c.highWaterMark) ∧ c.highWaterMarkCallback
  · rw [if_pos h, if_pos ⟨h.2, h.1.2, h.1.1⟩]
    rfl
  · rw [if_neg h, if_neg fun h' => h ⟨⟨h'.2.2, h'.2.1⟩, h'.1⟩]
    rfl

theorem marks_directWrite : marks (functors (c.directWrite mem data len w)) = [] := by
  unfold directWrite
  split_ifs
  · exact marks_completes c
  · rfl
  · rfl

/-- A direct write reports that everything was written only when it took the whole message. -/
theorem completions_directWrite_le : completions (functors (c.directWrite mem data len w)) ≤
    if c.writesDirect = true ∧ c.remaining len w = 0 then 1 else 0 := by
  unfold directWrite
  by_cases hdirect : c.writesDirect = true
  · rw [if_pos hdirect]
    by_cases hall : 0 ≤ c.nWrote len w ∧ c.remaining len w = 0
    · rw [if_pos hall, if_pos ⟨hdirect, hall.2⟩]
      show completions (functors c.completes) ≤ 1
      rw [completions_completes]
      split_ifs <;> omega
    · rw [if_neg hall]
      exact Nat.zero_le _
  · rw [if_neg hdirect]
    exact Nat.zero_le _

theorem functors_drainEffects (c : TcpConnection) : functors c.drainEffects = functors c.completes := by
  unfold drainEffects drainWrites
  split_ifs <;> simp [functors_cons, Effect.functor]

theorem functors_of_writes {effects : List Effect} (h : ∀ e ∈ effects, ∃ bytes, e = .write bytes) :
    functors effects = [] := by
  refine List.filterMap_eq_nil_iff.mpr fun e he => ?_
  obtain ⟨bytes, rfl⟩ := h e he
  rfl

/-! ### One function -/

/-- What a function of the connection does to the interest and tells the user. -/
structure Notifies (c : TcpConnection) (o : Outcome) : Prop where
  output : o.conn.outputBuffer.Valid
  highWaterMark : o.conn.highWaterMark = c.highWaterMark
  highWaterMarkCallback : o.conn.highWaterMarkCallback = c.highWaterMarkCallback
  writeCompleteCallback : o.conn.writeCompleteCallback = c.writeCompleteCallback
  watches : o.conn.state = .kDisconnected ∨ c.state ≠ .kDisconnected ∧ (c.Watches → o.conn.Watches)
  once : completions (functors o.effects) ≤ 1
  empty : completions (functors o.effects) ≠ 0 → o.conn.outputBuffer.readable = []
  marks : marks (functors o.effects) = c.dueMarks o.conn.buffered

theorem keeps_watching {c' : TcpConnection} (hstate : c'.state = c.state) (h : c.Watches → c'.Watches) :
    c'.state = .kDisconnected ∨ c.state ≠ .kDisconnected ∧ (c.Watches → c'.Watches) := by
  by_cases hdown : c.state = .kDisconnected
  · exact Or.inl (hstate.trans hdown)
  · exact Or.inr ⟨hdown, h⟩

theorem notifies_same (hvalid : c.outputBuffer.Valid) {effects : List Effect} {rest : List Rest}
    (h : functors effects = []) : Notifies c { conn := c, effects, rest } where
  output := hvalid
  highWaterMark := rfl
  highWaterMarkCallback := rfl
  writeCompleteCallback := rfl
  watches := keeps_watching rfl fun hw => hw
  once := by simp [h]
  empty := by simp [h]
  marks := by
    rw [h, dueMarks_of_le (Nat.le_refl _)]
    rfl

theorem notifies_still (hvalid : c.outputBuffer.Valid) (h : ConnLoop.Still c o) : Notifies c o := by
  obtain ⟨state, channel, hconn, hstate⟩ := h.conn
  refine ⟨?_, ?_, ?_, ?_, ?_, ?_, ?_, ?_⟩
  · rw [hconn]
    exact hvalid
  · rw [hconn]
  · rw [hconn]
  · rw [hconn]
  · rw [hconn]
    rcases hstate with hdown | ⟨hup, hwrite⟩
    · exact Or.inl hdown
    · refine Or.inr ⟨hup, fun hw => ?_⟩
      show channel.isEnableWriteEvent = true ↔ c.outputBuffer.readable ≠ []
      rw [hwrite]
      exact hw
  · simp [h.functors]
  · simp [h.functors]
  · rw [h.functors, hconn]
    exact (dueMarks_of_le (Nat.le_refl c.buffered)).symm

theorem notifies_sendInLoop (hvalid : c.outputBuffer.Valid) (ho : c.sendInLoop true mem data len w = .ok o) :
    Notifies c o := by
  by_cases hstate : c.state = .kDisconnected
  · rw [sendInLoop_disconnected hstate] at ho
    cases ho
    exact notifies_same hvalid rfl
  have hwatches : ∀ o', c.sendInLoop true mem data len w = .ok o' → c.Watches → o'.conn.Watches :=
    fun o' ho' hw => hw.sendInLoop hvalid ho'
  have hdirect : completions (functors (c.directWrite mem data len w)) ≤
      if c.writesDirect = true ∧ c.remaining len w = 0 then 1 else 0 := completions_directWrite_le
  by_cases hkeep : c.errorOccurs w = true ∨ c.remaining len w = 0
  · rw [sendInLoop_keep hstate hkeep] at ho
    cases ho
    refine ⟨hvalid, rfl, rfl, rfl, keeps_watching rfl fun hw => hw, ?_, fun hne => ?_, ?_⟩
    · refine hdirect.trans ?_
      split_ifs <;> omega
    · -- the message went out directly, so that nothing was buffered before either
      by_cases hall : c.writesDirect = true ∧ c.remaining len w = 0
      · have hempty := hall.1
        simp only [writesDirect, Bool.and_eq_true, beq_iff_eq] at hempty
        exact (Buffer.readable_eq_nil hvalid).mpr hempty.2
      · rw [if_neg hall] at hdirect
        exact absurd (Nat.le_zero.mp hdirect) hne
    · rw [marks_directWrite, dueMarks_of_le (Nat.le_refl _)]
  · rw [not_or, Bool.not_eq_true] at hkeep
    obtain ⟨b, hvalid', hread, hsend⟩ := sendInLoop_append mem data hvalid hstate hkeep.1
      (Nat.pos_of_ne_zero hkeep.2)
    have hw := hwatches _ hsend
    rw [hsend] at ho
    cases ho
    have hlen : b.readableBytes = c.buffered + c.remaining len w := by
      rw [← Buffer.length_readable hvalid', hread, List.length_append, Buffer.length_readable hvalid, length_bytesAt,
        buffered]
    have hupdate : functors (if c.channel.isEnableWriteEvent then [] else [.update]) = [] := by
      split_ifs <;> rfl
    have hnone : completions (functors (c.directWrite mem data len w)) = 0 := by
      rw [if_neg fun h => hkeep.2 h.2] at hdirect
      exact Nat.le_zero.mp hdirect
    have hcount : completions (functors (c.directWrite mem data len w ++
        c.highWater c.outputBuffer.readableBytes (c.remaining len w) ++
          if c.channel.isEnableWriteEvent then [] else [.update])) = 0 := by
      rw [functors_append, functors_append, completions_append, completions_append, hnone, completions_highWater,
        hupdate]
      rfl
    refine ⟨hvalid', rfl, rfl, rfl, Or.inr ⟨hstate, hw⟩, ?_, fun hne => absurd hcount hne, ?_⟩
    · rw [hcount]
      exact Nat.zero_le 1
    · show OulaServer.marks (functors (c.directWrite mem data len w ++ c.highWater c.buffered (c.remaining len w) ++
        if c.channel.isEnableWriteEvent then [] else [.update])) = c.dueMarks b.readableBytes
      rw [functors_append, functors_append, marks_append, marks_append, marks_directWrite, marks_highWater, hupdate,
        hlen, List.nil_append]
      exact List.append_nil _

theorem notifies_handleWirte (hvalid : c.outputBuffer.Valid) (ho : c.handleWirte true w = .ok o) : Notifies c o := by
  by_cases hdrains : c.Drains w
  · obtain ⟨hw, hpos, hall⟩ := hdrains
    obtain ⟨b, hvalid', hnil, hstep⟩ := handleWirte_drained hvalid hw hpos hall
    rw [hstep] at ho
    cases ho
    have hle : b.readableBytes ≤ c.buffered := by
      rw [(Buffer.readable_eq_nil hvalid').mp hnil]
      exact Nat.zero_le _
    refine ⟨hvalid', rfl, rfl, rfl, keeps_watching rfl fun _ => ?_, ?_, fun _ => hnil, ?_⟩
    · refine iff_of_false ?_ (not_not.mpr hnil)
      rw [isEnableWriteEvent_disable]
      nofun
    · rw [functors_drainEffects, completions_completes]
      split_ifs <;> omega
    · rw [functors_drainEffects, marks_completes]
      exact (dueMarks_of_le hle).symm
  · obtain ⟨b, effects, hvalid', hne, hwrites, hstream, hstep⟩ := handleWirte_undrained hvalid hdrains
    rw [hstep] at ho
    cases ho
    have hle : b.readableBytes ≤ c.buffered := by
      rw [← Buffer.length_readable hvalid', buffered, ← Buffer.length_readable hvalid, ← hstream, List.length_append]
      omega
    have hnone := functors_of_writes hwrites
    refine ⟨hvalid', rfl, rfl, rfl, keeps_watching rfl fun hw => hw.trans hne.symm, ?_, ?_, ?_⟩
    · simp [hnone]
    · simp [hnone]
    · rw [hnone]
      exact (dueMarks_of_le hle).symm

theorem completions_handleWirte (hvalid : c.outputBuffer.Valid) (hset : c.writeCompleteCallback = true)
    (ho : c.handleWirte true w = .ok o) : completions (functors o.effects) =
      if c.outputBuffer.readable ≠ [] ∧ o.conn.outputBuffer.readable = [] then 1 else 0 := by
  by_cases hdrains : c.Drains w
  · obtain ⟨hw, hpos, hall⟩ := hdrains
    obtain ⟨b, hvalid', hnil, hstep⟩ := handleWirte_drained hvalid hw hpos hall
    rw [hstep] at ho
    cases ho
    have hne : c.outputBuffer.readable ≠ [] := by
      intro hempty
      rw [Buffer.readable_eq_nil hvalid] at hempty
      omega
    rw [if_pos ⟨hne, hnil⟩, functors_drainEffects, completions_completes, if_pos hset]
  · obtain ⟨b, effects, hvalid', hne, hwrites, _, hstep⟩ := handleWirte_undrained hvalid hdrains
    rw [hstep] at ho
    cases ho
    rw [functors_of_writes hwrites, if_neg fun h => hne.mpr h.1 h.2]
    rfl

/-- No direct write overtakes buffered bytes. -/
theorem written_sendInLoop (hvalid : c.outputBuffer.Valid) (hne : c.outputBuffer.readable ≠ [])
    (ho : c.sendInLoop true mem data len w = .ok o) : written o.effects = [] := by
  have hdirect : written (c.directWrite mem data len w) = [] := by
    have hwrites : ¬ c.writesDirect = true := by
      intro h
      simp only [writesDirect, Bool.and_eq_true, beq_iff_eq] at h
      exact hne ((Buffer.readable_eq_nil hvalid).mpr h.2)
    rw [directWrite, if_neg hwrites]
    rfl
  by_cases hstate : c.state = .kDisconnected
  · rw [sendInLoop_disconnected hstate] at ho
    cases ho
    rfl
  by_cases hkeep : c.errorOccurs w = true ∨ c.remaining len w = 0
  · rw [sendInLoop_keep hstate hkeep] at ho
    cases ho
    exact hdirect
  · rw [not_or, Bool.not_eq_true] at hkeep
    obtain ⟨b, _, _, hsend⟩ := sendInLoop_append mem data hvalid hstate hkeep.1 (Nat.pos_of_ne_zero hkeep.2)
    rw [hsend] at ho
    cases ho
    rw [written_append, written_append, hdirect, written_highWater]
    split_ifs <;> rfl

end TcpConnection

namespace ConnLoop

open Run TcpConnection

/-! ### One step -/

variable {s t : State} {e : Event} {c : TcpConnection} {o : Outcome}

theorem notifies_handleRead {b : Bool} {r : Option (List UInt8)} (hvalid : c.outputBuffer.Valid)
    (ho : c.handleRead b r = .ok o) : Notifies c o := by
  obtain ⟨⟨inputBuffer, n⟩, _, ho⟩ := bind_eq_ok.mp ho
  have h : Notifies { c with inputBuffer } o := by
    dsimp only at ho
    split at ho
    · cases ho
      exact notifies_same (c := { c with inputBuffer }) hvalid rfl
    · split at ho
      · exact notifies_still (c := { c with inputBuffer }) hvalid (still_handleClose ho)
      · cases ho
        exact notifies_same (c := { c with inputBuffer }) hvalid rfl
  exact { h with }

theorem notifies_task {k : Task} (hvalid : c.outputBuffer.Valid) (ho : k.run c = .ok o) : Notifies c o := by
  cases k with
  | callback r w cb =>
      cases cb with
      | close => exact notifies_still hvalid (still_handleClose ho)
      | read => exact notifies_handleRead hvalid ho
      | write => exact notifies_handleWirte hvalid ho
  | functor mem w f =>
      cases f with
      | connectEstablished => exact notifies_still hvalid (still_connectEstablished ho)
      | connectDestoryed => exact notifies_still hvalid (still_connectDestoryed ho)
      | forceCloseInLoop => exact notifies_still hvalid (still_forceCloseInLoop ho)
      | sendInLoop data len => exact notifies_sendInLoop hvalid ho
      | shutdownInLoop =>
          cases ho
          refine notifies_same hvalid ?_
          split_ifs <;> rfl
      | addTimerInLoop =>
          cases ho
          exact notifies_same hvalid rfl
      | writeCompleteCallback =>
          cases ho
          exact notifies_same hvalid rfl
      | highWaterMarkCallback len =>
          cases ho
          exact notifies_same hvalid rfl

/-- The step runs `handleWirte`. -/
def Writes (s : State) (e : Event) : Prop := ∃ r w, task s e = some (.callback r w .write)

/-- Only `handleWirte` writes while something is buffered. -/
theorem written_task {k : Task} (hvalid : c.outputBuffer.Valid) (hne : c.outputBuffer.readable ≠ [])
    (hk : ∀ r w, k ≠ .callback r w .write) (ho : k.run c = .ok o) : written o.effects = [] := by
  cases k with
  | callback r w cb =>
      cases cb with
      | close => exact (still_handleClose ho).written
      | read =>
          obtain ⟨⟨inputBuffer, n⟩, _, ho⟩ := bind_eq_ok.mp ho
          dsimp only at ho
          split at ho
          · cases ho
            rfl
          · split at ho
            · exact (still_handleClose ho).written
            · cases ho
              rfl
      | write => exact absurd rfl (hk r w)
  | functor mem w f =>
      cases f with
      | connectEstablished => exact (still_connectEstablished ho).written
      | connectDestoryed => exact (still_connectDestoryed ho).written
      | forceCloseInLoop => exact (still_forceCloseInLoop ho).written
      | sendInLoop data len => exact written_sendInLoop hvalid hne ho
      | shutdownInLoop =>
          cases ho
          dsimp only
          split_ifs <;> rfl
      | addTimerInLoop =>
          cases ho
          rfl
      | writeCompleteCallback =>
          cases ho
          rfl
      | highWaterMarkCallback len =>
          cases ho
          rfl

/-- A step keeps the interest of an open connection in line with its buffer. It reports at most once that everything
was written, only when nothing is buffered, and once when `handleWirte` takes the last byte; it gives the notice of
the high water mark that is due; and it writes past the buffer only when that is empty. -/
structure Notified (s : State) (e : Event) (t : State) : Prop where
  interest : t.conn.Open → t.conn.Watches
  once : completions (queuedLog t.log) ≤ completions (queuedLog s.log) + 1
  empty : completions (queuedLog t.log) ≠ completions (queuedLog s.log) → t.conn.outputBuffer.readable = []
  drained : Writes s e → s.conn.writeCompleteCallback = true →
    completions (queuedLog t.log) = completions (queuedLog s.log) +
      if s.conn.outputBuffer.readable ≠ [] ∧ t.conn.outputBuffer.readable = [] then 1 else 0
  marks : marks (queuedLog t.log) = marks (queuedLog s.log) ++ s.conn.dueMarks t.conn.buffered
  direct : ¬ Writes s e → s.conn.outputBuffer.readable ≠ [] → writtenLog t.log = writtenLog s.log
  highWaterMark : t.conn.highWaterMark = s.conn.highWaterMark
  highWaterMarkCallback : t.conn.highWaterMarkCallback = s.conn.highWaterMarkCallback
  writeCompleteCallback : t.conn.writeCompleteCallback = s.conn.writeCompleteCallback

/-- A connection that is not closed waits for the socket exactly while bytes are buffered. -/
structure Waiting (s : State) : Prop where
  output : s.conn.outputBuffer.Valid
  watches : s.conn.state ≠ .kDisconnected → s.conn.Watches

theorem Waiting.interest (h : Waiting t) (hopen : t.conn.Open) : t.conn.Watches := by
  refine h.watches ?_
  rcases hopen with hc | hc <;> simp [hc]

theorem ne_kDisconnected_of_open (h : c.Open) : c.state ≠ .kDisconnected := by
  rcases h with hc | hc <;> simp [hc]

theorem notified_idle (h : Waiting s) (hk : task s e = none) (hidle : Idle s e t) : Notified s e t ∧ Waiting t := by
  obtain ⟨state, inputBuffer, hconn, hstate, _⟩ := hidle.conn
  have hwaiting : Waiting t := by
    constructor
    · rw [hconn]
      exact h.output
    · rw [hconn]
      intro hup
      have hup' : s.conn.state ≠ .kDisconnected := by
        rcases hstate with rfl | ⟨hopen, _⟩
        · exact hup
        · exact ne_kDisconnected_of_open hopen
      exact h.watches hup'
  have hlen : t.conn.buffered = s.conn.buffered := by
    rw [hconn]
    rfl
  refine ⟨⟨hwaiting.interest, ?_, ?_, ?_, ?_, fun _ _ => hidle.written, ?_, ?_, ?_⟩, hwaiting⟩
  · rw [hidle.queued]
    omega
  · intro hne
    exact absurd (by rw [hidle.queued]) hne
  · rintro ⟨r, w, hw⟩
    cases hk.symm.trans hw
  · rw [hidle.queued, hlen, dueMarks_of_le (Nat.le_refl _), List.append_nil]
  · rw [hconn]
  · rw [hconn]
  · rw [hconn]

theorem notified_ran (h : Waiting s) {k : Task} (hk : task s e = some k) (ho : k.run (caller s e) = .ok o)
    (hran : Ran s t o) : Notified s e t ∧ Waiting t := by
  obtain ⟨state, hcaller, hstate⟩ := caller_state s e
  rw [hcaller] at ho
  have hnotifies : Notifies { s.conn with state } o := notifies_task h.output ho
  have hwaiting : Waiting t := by
    constructor
    · rw [hran.conn]
      exact hnotifies.output
    · rw [hran.conn]
      intro hup
      rcases hnotifies.watches with hdown | ⟨hup', hwatches⟩
      · exact absurd hdown hup
      · have hs : s.conn.state ≠ .kDisconnected := by
          rcases hstate with rfl | hopen
          · exact hup'
          · exact ne_kDisconnected_of_open hopen.1
        exact hwatches (h.watches hs)
  refine ⟨⟨hwaiting.interest, ?_, ?_, ?_, ?_, ?_, ?_, ?_, ?_⟩, hwaiting⟩
  · rw [hran.queued, completions_append]
    exact Nat.add_le_add_left hnotifies.once _
  · rw [hran.queued, completions_append, hran.conn]
    intro hne
    exact hnotifies.empty fun hzero => hne (by rw [hzero, Nat.add_zero])
  · rintro ⟨r, w, hw⟩ hset
    cases hk.symm.trans hw
    rw [hran.queued, completions_append, hran.conn]
    congr 1
    exact completions_handleWirte (c := { s.conn with state }) h.output hset ho
  · rw [hran.queued, marks_append, hran.conn, hnotifies.marks]
    rfl
  · intro hnot hne
    have hk' : ∀ r w, k ≠ .callback r w .write := by
      rintro r w rfl
      exact hnot ⟨r, w, hk⟩
    have hnone : written o.effects = [] := written_task (c := { s.conn with state }) h.output hne hk' ho
    rw [hran.written, hnone, List.append_nil]
  · rw [hran.conn]
    exact hnotifies.highWaterMark
  · rw [hran.conn]
    exact hnotifies.highWaterMarkCallback
  · rw [hran.conn]
    exact hnotifies.writeCompleteCallback

theorem step_notified (s : State) (e : Event) (h : Waiting s) :
    StepHolds step anyError (fun s e t => Notified s e t ∧ Waiting t) s e := by
  refine ⟨fun _ _ => trivial, fun t ht => ?_⟩
  cases hk : task s e with
  | none => exact notified_idle h hk (step_noTask hk ht)
  | some k =>
      obtain ⟨o, ho, hran⟩ := step_task hk ht
      exact notified_ran h hk ho hran

/-! ### Runs -/

/-- The step gives a notice of the high water mark. -/
def Marks (s : State) (_ : Event) (t : State) : Prop := marks (queuedLog t.log) ≠ marks (queuedLog s.log)

def BelowMark (s : State) : Prop := s.conn.buffered < s.conn.highWaterMark

/-- **Write interest and notifications.** For every connection that has nothing buffered and does not wait for the
socket, and every sequence of steps of its loop with all answers of `::write`: every step is as `Notified` says, and
between two notices of the high water mark the buffered length is below the mark. -/
theorem notified_of_run (s : State) (hvalid : s.conn.outputBuffer.Valid) (hempty : s.conn.outputBuffer.readable = [])
    (hw : s.conn.channel.isEnableWriteEvent = false) (es : List Event) :
    Holds step anyError Notified s es ∧ Separated step Marks BelowMark s es := by
  have hwaiting : Waiting s := by
    refine ⟨hvalid, fun _ => iff_of_false ?_ (not_not.mpr hempty)⟩
    rw [hw]
    nofun
  have hany : Along step (fun _ _ => True) s es := along_of_forall (fun _ _ => trivial) s
  have hholds : Holds step anyError Notified s es := holds_of_along (fun s e h _ => step_notified s e h) hwaiting hany
  refine ⟨hholds, separated_of_holds (fun s e t hnotified hmarks => ?_) hholds⟩
  by_contra hnot
  refine hmarks ?_
  rw [hnotified.marks, dueMarks, if_neg fun h => hnot h.2.1, List.append_nil]

/-- Two messages on a slow socket with a mark of 4 bytes, of which the second passes the mark, and the writable
events that drain them in two parts. -/
def slowSocket : List Event :=
  [.establish, .userCode, .call (.send 0 3) (fun _ => 7) (.error EWOULDBLOCK), .call (.send 0 3) (fun _ => 8) (.ok 3),
    .enterLoop, .poll [.channel pollOut], .handleEvent, .handleCallback none (.ok 4), .swapFunctors,
    .callFunctor (fun _ => 0) (.ok 0), .endFunctors, .poll [.channel pollOut], .handleEvent,
    .handleCallback none (.ok 2)]

/-- A new connection with a mark of 4 bytes and small buffers. -/
def slow : State :=
  init { TcpConnection.new 7 4 true true with inputBuffer := Buffer.new 4, outputBuffer := Buffer.new 4 }

theorem notified_of_slowSocket :
    (Holds step anyError Notified slow slowSocket ∧ Separated step Marks BelowMark slow slowSocket) ∧
    (slowSocket.foldlM step slow).map (fun t => (marks (queuedLog t.log), completions (queuedLog t.log),
      t.conn.buffered)) = .ok ([6], 1, 0) := by
  constructor
  · exact notified_of_run slow (Buffer.new_valid (by decide)) (Buffer.readable_new 4) (by decide) slowSocket
  · rfl

end ConnLoop

end OulaServer
