import OulaServer.TcpConnection.Tasks

/-!
# Reading

What `handleRead` makes of the answers of `readv`. Received bytes are appended and the user is called, and an end
of file closes the connection. But the `ssize_t` of `readFd` is kept in a `size_t`, so that `-1` counts as a
positive number of bytes: the branch for errors is dead, and a failed `readv` calls the user as well.
-/

namespace OulaServer

namespace ConnLoop

open Run TcpConnection

/-- The answer of the `readv` that a step makes, if it makes one: `none` is `-1`. -/
def readv (s : State) : Event → Option (Option (List UInt8))
  | .handleCallback r _ => if s.callbacks.head? = some .read then some r else none
  | _ => none

/-- The count is one of `ssize_t`. -/
def FitsSsize (s : State) (e : Event) : Prop := ∀ bytes, readv s e = some (some bytes) → bytes.length < 2 ^ 63

/-- `handleRead` as the result of `readv` demands: received bytes are appended before the user is called, nothing
received is the end of file, and an error changes nothing. -/
def Classifies (c : TcpConnection) : Option (List UInt8) → Prop
  | some [] => ∃ b, b.Valid ∧ b.readable = c.inputBuffer.readable ∧
      c.handleRead true (some []) = { c with inputBuffer := b }.handleClose true
  | some (byte :: bytes) => ∃ b, b.Valid ∧ b.readable = c.inputBuffer.readable ++ byte :: bytes ∧
      c.handleRead true (some (byte :: bytes)) =
        .ok { conn := { c with inputBuffer := b }, rest := [.messageCallback] }
  | none => c.handleRead true none = .ok { conn := c }

/-- A step that reads does as the result of `readv` demands. -/
def ReadExact (s : State) (e : Event) : Prop := ∀ r, readv s e = some r → Classifies s.conn r

/-- `readv` received something. -/
def received : Option (Option (List UInt8)) → Bool
  | some (some (_ :: _)) => true
  | some (some []) | some none | none => false

/-- `messageCallback_` is called once for a step that received something, and for no other. -/
def Delivers (s : State) (e : Event) (t : State) : Prop :=
  invoked .messageCallback t = invoked .messageCallback s + (received (readv s e)).toNat

instance (s : State) (e : Event) (t : State) : Decidable (Delivers s e t) := inferInstanceAs (Decidable (_ = _))

/-- `readv` does not return `-1`. -/
def NoFailedReadv (s : State) (e : Event) : Prop := readv s e ≠ some none

instance (s : State) (e : Event) : Decidable (FitsSsize s e) :=
  match h : readv s e with
  | some (some bytes) => decidable_of_iff (bytes.length < 2 ^ 63)
      ⟨fun hlt b hb => by rw [h] at hb; cases hb; exact hlt, fun hall => hall bytes h⟩
  | some none => .isTrue fun b hb => by rw [h] at hb; cases hb
  | none => .isTrue fun b hb => by rw [h] at hb; cases hb

instance (s : State) (e : Event) : Decidable (NoFailedReadv s e) := inferInstanceAs (Decidable (_ ≠ _))

/-! ### `handleRead` -/

section

variable {c : TcpConnection}

theorem sizeT_ofNat {n : Nat} (h : n < 2 ^ 63) : sizeT n = n := by
  unfold sizeT
  omega

theorem sizeT_neg : 0 < sizeT (-1) := by decide

theorem handleRead_received (hvalid : c.inputBuffer.Valid) {bytes : List UInt8} (hne : bytes ≠ [])
    (hlen : bytes.length < 2 ^ 63) : ∃ b, b.Valid ∧ b.readable = c.inputBuffer.readable ++ bytes ∧
      c.handleRead true (some bytes) = .ok { conn := { c with inputBuffer := b }, rest := [.messageCallback] } := by
  obtain ⟨b, hb, hvalid', hread⟩ := Buffer.readFd_some hvalid bytes
  refine ⟨b, hvalid', hread, ?_⟩
  have hpos : 0 < sizeT bytes.length := by
    rw [sizeT_ofNat hlen]
    exact List.length_pos_iff.mpr hne
  simp only [handleRead, hb, ok_bind, if_pos hpos]
  rfl

theorem handleRead_eof (hvalid : c.inputBuffer.Valid) : ∃ b, b.Valid ∧ b.readable = c.inputBuffer.readable ∧
    c.handleRead true (some []) = { c with inputBuffer := b }.handleClose true := by
  obtain ⟨b, hb, hvalid', hread⟩ := Buffer.readFd_some hvalid []
  refine ⟨b, hvalid', by rw [hread, List.append_nil], ?_⟩
  have hzero : sizeT (([] : List UInt8).length : Nat) = 0 := rfl
  simp only [handleRead, hb, ok_bind, hzero, lt_irrefl, if_false, if_true]

/-- A failed `readv` calls the user like one that received bytes. -/
theorem handleRead_failed (hvalid : c.inputBuffer.Valid) :
    c.handleRead true none = .ok { conn := c, rest := [.messageCallback] } := by
  simp only [handleRead, Buffer.readFd_none hvalid, ok_bind, if_pos sizeT_neg]
  rfl

theorem classifies_some (hvalid : c.inputBuffer.Valid) {bytes : List UInt8} (hlen : bytes.length < 2 ^ 63) :
    Classifies c (some bytes) := by
  cases bytes with
  | nil => exact handleRead_eof hvalid
  | cons byte bytes => exact handleRead_received hvalid (List.cons_ne_nil _ _) hlen

theorem not_classifies_none (hvalid : c.inputBuffer.Valid) : ¬ Classifies c none := by
  intro h
  rw [Classifies, handleRead_failed hvalid] at h
  cases h

end

/-! ### The invariant -/

/-- The buffers are well formed. -/
structure Buffers (s : State) : Prop where
  input : s.conn.inputBuffer.Valid
  output : s.conn.outputBuffer.Valid

variable {s t : State} {e : Event} {c : TcpConnection} {o : Outcome}

theorem Buffers.caller (h : Buffers s) (e : Event) :
    (caller s e).inputBuffer.Valid ∧ (caller s e).outputBuffer.Valid := by
  cases e with
  | call k mem w =>
      obtain ⟨state, hcall, _⟩ := call_state s.conn k
      rw [ConnLoop.caller, hcall]
      exact ⟨h.input, h.output⟩
  | _ => exact ⟨h.input, h.output⟩

/-- Only `handleRead` touches what was received or calls the user with it. -/
structure NoRead (c : TcpConnection) (o : Outcome) : Prop where
  input : o.conn.inputBuffer = c.inputBuffer
  output : o.conn.outputBuffer.Valid
  silent : .messageCallback ∉ o.rest

theorem noRead_of_quiet (h : Quiet c o) : NoRead c o := by
  refine ⟨h.inputBuffer, h.valid, ?_⟩
  rw [h.rest]
  exact List.not_mem_nil

theorem noRead_of_still (hout : c.outputBuffer.Valid) (h : Still c o) : NoRead c o := by
  obtain ⟨state, channel, hconn, _⟩ := h.conn
  refine ⟨by rw [hconn], ?_, h.silent⟩
  rw [hconn]
  exact hout

theorem noRead_of_task {k : Task} (hout : c.outputBuffer.Valid) (hk : ∀ r w, k ≠ .callback r w .read)
    (ho : k.run c = .ok o) : NoRead c o := by
  cases k with
  | callback r w cb =>
      cases cb with
      | close => exact noRead_of_still hout (still_handleClose ho)
      | read => exact absurd rfl (hk r w)
      | write =>
          obtain ⟨o', ho', hquiet⟩ := handleWirte_quiet (w := w) hout
          cases ho.symm.trans ho'
          exact noRead_of_quiet hquiet
  | functor mem w f =>
      by_cases hf : f.IsLifecycle
      · exact noRead_of_still hout (still_lifecycle hf ho)
      · obtain ⟨o', ho', hquiet⟩ := runFunctor_quiet mem w hout hf
        cases ho.symm.trans ho'
        exact noRead_of_quiet hquiet

theorem readv_eq_some {r : Option (List UInt8)} :
    readv s e = some r ↔ ∃ w, task s e = some (.callback r w .read) := by
  cases e with
  | handleCallback r' w =>
      cases hcbs : s.callbacks with
      | nil => simp [readv, task, hcbs]
      | cons cb callbacks => cases cb <;> simp [readv, task, hcbs]
  | call k mem w => simp only [readv, task]; split <;> simp
  | callFunctor mem w => simp [readv, task]
  | _ => simp [readv, task]

theorem task_of_readv_none (h : readv s e = none) {k : Task} (hk : task s e = some k) :
    ∀ r w, k ≠ .callback r w .read := by
  rintro r w rfl
  rw [readv_eq_some.mpr ⟨w, hk⟩] at h
  cases h

theorem caller_of_readv {r : Option (List UInt8)} (h : readv s e = some r) : caller s e = s.conn := by
  cases e with
  | call k mem w => cases h
  | _ => rfl

theorem handleRead_valid (hin : c.inputBuffer.Valid) (hout : c.outputBuffer.Valid) {r : Option (List UInt8)}
    (ho : c.handleRead true r = .ok o) : o.conn.inputBuffer.Valid ∧ o.conn.outputBuffer.Valid := by
  obtain ⟨b, hb, hread | hclose⟩ := handleRead_cases hin r
  · cases ho.symm.trans hread
    exact ⟨hb, hout⟩
  · obtain ⟨state, channel, hconn, _⟩ := (still_handleClose (hclose.symm.trans ho)).conn
    rw [hconn]
    exact ⟨hb, hout⟩

theorem Buffers.step (h : Buffers s) (ht : ConnLoop.step s e = .ok t) : Buffers t := by
  cases hk : task s e with
  | none =>
      obtain ⟨state, b, hconn, _, hb⟩ := (step_noTask hk ht).conn
      refine ⟨?_, ?_⟩
      · rw [hconn]
        exact hb h.input
      · rw [hconn]
        exact h.output
  | some k =>
      obtain ⟨o, ho, hran⟩ := step_task hk ht
      obtain ⟨hin, hout⟩ := h.caller e
      have hvalid : o.conn.inputBuffer.Valid ∧ o.conn.outputBuffer.Valid := by
        cases hr : readv s e with
        | none =>
            have hno := noRead_of_task hout (task_of_readv_none hr hk) ho
            refine ⟨?_, hno.output⟩
            rw [hno.input]
            exact hin
        | some r =>
            obtain ⟨w, hw⟩ := readv_eq_some.mp hr
            cases hk.symm.trans hw
            exact handleRead_valid hin hout ho
      rw [← hran.conn] at hvalid
      exact ⟨hvalid.1, hvalid.2⟩

/-! ### Steps -/

theorem readExact_iff (h : Buffers s) (hfits : FitsSsize s e) : ReadExact s e ↔ NoFailedReadv s e := by
  constructor
  · intro hexact hfailed
    exact not_classifies_none h.input (hexact none hfailed)
  · intro hno r hr
    cases r with
    | none => exact absurd hr hno
    | some bytes => exact classifies_some h.input (hfits bytes hr)

theorem count_of_classifies {r : Option (List UInt8)} (hr : r ≠ none) (hclass : Classifies c r)
    (ho : c.handleRead true r = .ok o) : o.rest.count .messageCallback = (received (some r)).toNat := by
  rcases r with _ | _ | ⟨byte, bytes⟩
  · exact absurd rfl hr
  · obtain ⟨b, _, _, hclose⟩ := hclass
    exact List.count_eq_zero.mpr (still_handleClose (hclose.symm.trans ho)).silent
  · obtain ⟨b, _, _, hdeliver⟩ := hclass
    cases ho.symm.trans hdeliver
    rfl

theorem delivers_of_noFailedReadv (h : Buffers s) (hfits : FitsSsize s e) (hno : NoFailedReadv s e)
    (ht : step s e = .ok t) : Delivers s e t := by
  unfold Delivers
  cases hk : task s e with
  | none =>
      have hr : readv s e = none := by
        by_contra hne
        obtain ⟨r, hr⟩ := Option.ne_none_iff_exists'.mp hne
        obtain ⟨w, hw⟩ := readv_eq_some.mp hr
        cases hk.symm.trans hw
      rw [(step_noTask hk ht).invoked, hr]
      rfl
  | some k =>
      obtain ⟨o, ho, hran⟩ := step_task hk ht
      rw [hran.invoked]
      congr 1
      cases hr : readv s e with
      | none =>
          exact List.count_eq_zero.mpr (noRead_of_task (h.caller e).2 (task_of_readv_none hr hk) ho).silent
      | some r =>
          obtain ⟨w, hw⟩ := readv_eq_some.mp hr
          cases hk.symm.trans hw
          rw [caller_of_readv hr] at ho
          have hr' : r ≠ none := by
            rintro rfl
            exact hno hr
          exact count_of_classifies hr' ((readExact_iff h hfits).mpr hno r hr) ho

/-! ### Runs -/

/-- **When reads are classified well.** For every connection with well-formed buffers and every sequence of steps
of its loop, with all answers of `readv` whose counts `ssize_t` holds: each `handleRead` does as the result of
`readv` demands, and the user is called once for each that received something and not otherwise, if and only if no
`readv` returns `-1`. -/
theorem readExact_iff_along (s : State) (h : Buffers s) (es : List Event) (hes : Along step FitsSsize s es) :
    (Along step ReadExact s es ∧ Holds step anyError Delivers s es) ↔ Along step NoFailedReadv s es := by
  have hiff : Along step ReadExact s es ↔ Along step NoFailedReadv s es :=
    along_congr (fun s e t hs _ ht => Buffers.step hs ht) (fun s e hs hfits => readExact_iff hs hfits) h hes
  constructor
  · rintro ⟨hexact, _⟩
    exact hiff.mp hexact
  · intro hno
    refine ⟨hiff.mpr hno, ?_⟩
    have hboth := along_and.mpr ⟨hes, hno⟩
    refine holds_of_along (I := Buffers) (fun s e hs hG => ?_) h hboth
    exact ⟨fun _ _ => trivial, fun t ht => ⟨delivers_of_noFailedReadv hs hG.1 hG.2 ht, hs.step ht⟩⟩

/-- A new connection with a small input buffer. -/
def unread : State := init { TcpConnection.new 7 64 false false with inputBuffer := Buffer.new 4 }

theorem unread_buffers : Buffers unread := ⟨Buffer.new_valid (by decide), Buffer.new_valid (by decide)⟩

/-- More bytes than the buffer has room for, and the end of file in the next round. -/
def readsUntilEnd : List Event :=
  [.establish, .userCode, .enterLoop, .poll [.channel pollIn], .handleEvent,
    .handleCallback (some [1, 2, 3, 4, 5, 6]) (.ok 0), .userCode, .swapFunctors, .endFunctors,
    .poll [.channel pollIn], .handleEvent, .handleCallback (some []) (.ok 0)]

theorem readExact_iff_along_run :
    Along step ReadExact unread readsUntilEnd ∧ Holds step anyError Delivers unread readsUntilEnd :=
  (readExact_iff_along unread unread_buffers readsUntilEnd (by decide +kernel)).mpr (by decide +kernel)

/-- `readv` returns `-1` for a readable descriptor. -/
def failsToRead : List Event :=
  [.establish, .userCode, .enterLoop, .poll [.channel pollIn], .handleEvent, .handleCallback none (.ok 0)]

/-- The user is called with nothing new in `inputBuffer_`. -/
theorem failed_readv_delivers :
    Along step Enabled unread failsToRead ∧ Along step FitsSsize unread failsToRead ∧
      ¬ (Along step ReadExact unread failsToRead ∧ Holds step anyError Delivers unread failsToRead) := by
  refine ⟨by decide +kernel, by decide +kernel, ?_⟩
  rintro ⟨_, hdelivers⟩
  exact absurd hdelivers (by decide +kernel)

end ConnLoop

end OulaServer
