import OulaServer.TcpClient.Spec

/-!
# Where a client's functions fail

The functions of a client may end in the failed assertions of the poller and of its connections. Those of
`Connector::startInLoop`, `connecting` and `handleWrite` and of `removeConnection` itself are left aside here
(`Elsewhere`): which function can fail one of these is said where it is called.
-/

namespace OulaServer

namespace TcpClient

open TcpConnection World

/-- The assertion is none of `startInLoop`, `connecting`, `handleWrite` and `removeConnection`. -/
def Elsewhere (a : Abort) : Prop :=
  a ≠ .startInLoop ∧ a ≠ .connecting ∧ a ≠ .connectorHandleWrite ∧ a ≠ .removeConnection

instance (a : Abort) : Decidable (Elsewhere a) := inferInstanceAs (Decidable (_ ∧ _ ∧ _ ∧ _))

variable {α β : Type} {x : Except Abort α} {f : α → Except Abort β}

def FailsElsewhere (x : Except Abort α) : Prop := ∀ a, x = .error a → Elsewhere a

theorem FailsElsewhere.ok (y : α) : FailsElsewhere (.ok y : Except Abort α) := nofun

theorem FailsElsewhere.of_ok {y : α} (h : x = .ok y) : FailsElsewhere x := h ▸ .ok y

theorem FailsElsewhere.error {a : Abort} (h : Elsewhere a) : FailsElsewhere (.error a : Except Abort α) := by
  rintro _ ⟨⟩
  exact h

theorem FailsElsewhere.bind (hx : FailsElsewhere x) (hf : ∀ y, x = .ok y → FailsElsewhere (f y)) :
    FailsElsewhere (x >>= f) := by
  cases x with
  | error a => exact .error (hx a rfl)
  | ok y => exact hf y rfl

theorem FailsElsewhere.check {p : Prop} [Decidable p] {a : Abort} (h : Elsewhere a) :
    FailsElsewhere (OulaServer.check p a) := by
  unfold OulaServer.check
  split_ifs
  · exact .ok ()
  · exact .error h

theorem FailsElsewhere.foldlM {g : β → α → Except Abort β} (hg : ∀ b a, FailsElsewhere (g b a)) (as : List α) (b : β) :
    FailsElsewhere (as.foldlM g b) := by
  induction as generalizing b with
  | nil => exact .ok b
  | cons a as ih =>
      rw [List.foldlM_cons]
      exact (hg b a).bind fun b' _ => ih b'

/-! ### The poller -/

variable {ι : Type} [DecidableEq ι] {p : EpollPoller ι} {ch : ι} {ch' : Channel}

theorem updateChannel_fails : FailsElsewhere (p.updateChannel ch ch') := by
  unfold EpollPoller.updateChannel
  split
  · exact .ok _
  · exact (FailsElsewhere.check (by decide)).bind fun _ _ => (FailsElsewhere.check (by decide)).bind fun _ _ => .ok _
  · refine (FailsElsewhere.check (by decide)).bind fun _ _ => (FailsElsewhere.check (by decide)).bind fun _ _ => ?_
    split_ifs
    · exact .ok _
    · exact .ok _

theorem removeChannel_fails : FailsElsewhere (p.removeChannel ch ch') :=
  (FailsElsewhere.check (by decide)).bind fun _ _ => (FailsElsewhere.check (by decide)).bind fun _ _ =>
    (FailsElsewhere.check (by decide)).bind fun _ _ => (FailsElsewhere.check (by decide)).bind fun _ _ => .ok _

/-! ### Connections -/

variable {c : TcpConnection} {r : Option (List UInt8)} {wr : WriteResult} {mem : Memory}

theorem handleClose_fails : FailsElsewhere (c.handleClose true) :=
  (FailsElsewhere.check (by decide)).bind fun _ _ => (FailsElsewhere.check (by decide)).bind fun _ _ => .ok _

theorem forceCloseInLoop_fails : FailsElsewhere (c.forceCloseInLoop true) := by
  refine (FailsElsewhere.check (by decide)).bind fun _ _ => ?_
  split_ifs
  · exact handleClose_fails
  · exact .ok _

theorem handleCallback_fails (hin : c.inputBuffer.Valid) (hout : c.outputBuffer.Valid) (cb : EventCallback) :
    FailsElsewhere (c.handleCallback true r wr cb) := by
  cases cb with
  | close => exact handleClose_fails
  | read =>
      change FailsElsewhere (c.handleRead true r)
      obtain ⟨b, _, hread | hread⟩ := handleRead_cases hin r
      · exact .of_ok hread
      · rw [hread]
        exact handleClose_fails
  | write =>
      obtain ⟨o, ho, _⟩ := handleWirte_quiet (w := wr) hout
      exact .of_ok ho

theorem runFunctor_fails (hout : c.outputBuffer.Valid) (f : ConnFunctor) :
    FailsElsewhere (c.runFunctor true mem wr f) := by
  by_cases hlife : f.IsLifecycle
  · cases f with
    | connectEstablished =>
        exact (FailsElsewhere.check (by decide)).bind fun _ _ =>
          (FailsElsewhere.check (by decide)).bind fun _ _ => .ok _
    | connectDestoryed =>
        refine (FailsElsewhere.check (by decide)).bind fun _ _ => ?_
        split_ifs
        · exact .ok _
        · exact .ok _
    | forceCloseInLoop => exact forceCloseInLoop_fails
    | _ => cases hlife
  · obtain ⟨o, ho, _⟩ := runFunctor_quiet mem wr hout hlife
    exact .of_ok ho

variable {w : World} {id : Nat}

theorem finish_fails {o : Outcome} : FailsElsewhere (w.finish id o) := by
  refine (FailsElsewhere.foldlM (fun w e => ?_) _ _).bind fun _ _ => .ok _
  cases e with
  | update => exact updateChannel_fails.bind fun _ _ => .ok _
  | _ => exact .ok _

theorem runConn_fails (hout : (w.conn id).tcp.outputBuffer.Valid) {f : ConnFunctor} :
    FailsElsewhere (w.runConn id mem wr f) :=
  (runFunctor_fails hout f).bind fun _ _ => finish_fails

theorem call_fails (hout : (w.conn id).tcp.outputBuffer.Valid) {k : TcpConnection.Call} :
    FailsElsewhere (w.call id k mem wr) := by
  rcases call_cases (w.conn id).tcp k with hcall | ⟨_, state, t, _, hcall, ht⟩
  · simp only [World.call, hcall]
    exact .ok _
  · rcases ht with rfl | ⟨f, rfl, _⟩
    · simp only [World.call, hcall]
      exact .ok _
    · simp only [World.call, hcall]
      refine runConn_fails ?_
      rw [setTcp_conn_self]
      exact hout

/-! ### The connector -/

theorem onPoller_fails {g : EpollPoller Owner → Owner → Channel → Except Abort (EpollPoller Owner × Channel)}
    (hg : ∀ p ch c, FailsElsewhere (g p ch c)) : FailsElsewhere (w.onPoller g) := by
  unfold World.onPoller
  split
  · exact (hg _ _ _).bind fun _ _ => .ok _
  · exact .error (by decide)

theorem newConnection_fails {sockfd : Int} : FailsElsewhere (w.newConnection sockfd) :=
  (FailsElsewhere.check (by decide)).bind fun _ _ =>
    ((FailsElsewhere.check (by decide)).bind fun _ _ => (FailsElsewhere.check (by decide)).bind fun _ _ => .ok _).bind
      fun _ _ => finish_fails

theorem finishConnector_fails {o : Connector.Outcome} : FailsElsewhere (w.finishConnector o) := by
  refine FailsElsewhere.foldlM (fun w e => ?_) _ _
  cases e with
  | update => exact onPoller_fails fun _ _ _ => updateChannel_fails
  | remove => exact onPoller_fails fun _ _ _ => removeChannel_fails
  | newConnectionCallback sockfd => exact newConnection_fails
  | _ => exact .ok _

theorem releaseConnector_fails : FailsElsewhere w.releaseConnector :=
  (FailsElsewhere.check (by decide)).bind fun _ _ => .ok _

end TcpClient

end OulaServer
