import OulaServer.Abort
import OulaServer.Channel

/-!
# `Connector`

The functions of `net/Connector.cpp`. As for a connection, a function returns an `Outcome`: the connector
and the effects it has on the sockets, the poller and the loop, in order. `newConnectionCallback_` is the
last thing that `handleWrite` calls, so that what it does comes after the outcome.

`channel_` is kept with a name for the `Channel` object, which stands for its address: the number of the
socket that the object was made for.
-/

namespace OulaServer

def EINTR : Nat := 4
def EAGAIN : Nat := 11
def EADDRINUSE : Nat := 98
def EADDRNOTAVAIL : Nat := 99
def ENETUNREACH : Nat := 101
def EISCONN : Nat := 106
def ECONNREFUSED : Nat := 111
def EINPROGRESS : Nat := 115

namespace Connector

inductive States where
  | kDisconnected
  | kConnecting
  | kConnected
  deriving DecidableEq, Repr

/-- What `Connector::connect` gets from the kernel: the new socket, and `saveError` after `::connect`. -/
structure Connect where
  sockfd : Int
  saveError : Nat
  deriving DecidableEq, Repr

namespace Connect

/-- The connection is made, or under way. -/
def isConnecting (a : Connect) : Bool := a.saveError ∈ [0, EINPROGRESS, EINTR, EISCONN]

/-- The socket is given up and another one is tried later; after any other error it is given up for good. -/
def isRetry (a : Connect) : Bool :=
  a.saveError ∈ [EAGAIN, EADDRINUSE, EADDRNOTAVAIL, ECONNREFUSED, ENETUNREACH]

end Connect

/-- What the connector hands to its loop. `resetChannel` takes no argument; `queuedFor` is the channel that
`channel_` held when it was queued, for the statements about runs. -/
inductive Functor where
  | startInLoop
  | stopInLoop
  | resetChannel (queuedFor : Nat)
  deriving DecidableEq, Repr

inductive Effect where
  | socket (name : Nat) (sockfd : Int)
  -- `channel_->update()` and `channel_->remove()`
  | update
  | remove
  | close (sockfd : Int)
  | queueInLoop (f : Functor)
  -- `runAfter` of `startInLoop`
  | runAfter (delayMs : Nat)
  | newConnectionCallback (sockfd : Int)
  deriving DecidableEq, Repr

end Connector

structure Connector where
  enableConnect : Bool
  state : Connector.States
  retryDelayMs : Nat
  channel : Option (Nat × Channel)
  /-- Whether `newConnectionCallback_` is set. -/
  newConnectionCallback : Bool
  deriving DecidableEq, Repr

namespace Connector

structure Outcome where
  connector : Connector
  effects : List Effect := []
  deriving DecidableEq, Repr

def kMaxRetryDelayMs : Nat := 30 * 1000

def kInitRetryDelayMs : Nat := 500

def new (newConnectionCallback : Bool) : Connector :=
  ⟨false, .kDisconnected, kInitRetryDelayMs, none, newConnectionCallback⟩

/-- `retry`, after `before`. -/
def retry (c : Connector) (before : List Effect) (sockfd : Int) : Outcome :=
  if c.enableConnect then
    { connector := { c with
        state := .kDisconnected
        retryDelayMs := min (c.retryDelayMs * 2) kMaxRetryDelayMs }
      effects := before ++ [.close sockfd, .runAfter c.retryDelayMs] }
  else
    { connector := { c with state := .kDisconnected }, effects := before ++ [.close sockfd] }

/-- `connecting`, after `before`. -/
def connecting (c : Connector) (before : List Effect) (name : Nat) (sockfd : Int) : Except Abort Outcome := do
  check (c.channel = none) .connecting
  return {
    connector := { c with
      state := .kConnecting
      channel := some (name, (Channel.new sockfd).declare .enableWriteEvent) }
    effects := before ++ [.update] }

def connect (c : Connector) (name : Nat) (a : Connect) : Except Abort Outcome :=
  if a.isConnecting then c.connecting [.socket name a.sockfd] name a.sockfd
  else if a.isRetry then .ok (c.retry [.socket name a.sockfd] a.sockfd)
  else .ok { connector := c, effects := [.socket name a.sockfd, .close a.sockfd] }

def startInLoop (c : Connector) (inLoop : Bool) (name : Nat) (a : Connect) : Except Abort Outcome := do
  check inLoop .assertInLoopThread
  check (c.state = .kDisconnected) .startInLoop
  if c.enableConnect then c.connect name a else return { connector := c }

/-- `removeAndResetChannel`: the connector, the effects and the socket. -/
def removeAndResetChannel (c : Connector) : Except Abort (Connector × List Effect × Int) :=
  match c.channel with
  | some (name, channel) => .ok ({ c with channel := some (name, channel.declare .disableAllEvent) },
      [.update, .remove, .queueInLoop (.resetChannel name)], channel.fd)
  | none => .error .channelNull

def resetChannel (c : Connector) : Connector := { c with channel := none }

/-- `handleWrite`, with the `SO_ERROR` of the socket and whether it is connected to itself. -/
def handleWrite (c : Connector) (err : Nat) (isSelfConnect : Bool) : Except Abort Outcome := do
  if c.state = .kConnecting then
    let (c, effects, sockfd) ← c.removeAndResetChannel
    if err ≠ 0 then
      return c.retry effects sockfd
    else if isSelfConnect then
      return c.retry effects sockfd
    else
      let c := { c with state := .kConnected }
      if c.enableConnect then
        let call := if c.newConnectionCallback then [.newConnectionCallback sockfd] else []
        return { connector := c, effects := effects ++ call }
      else
        return { connector := c, effects := effects ++ [.close sockfd] }
  else
    check (c.state = .kDisconnected) .connectorHandleWrite
    return { connector := c }

def restart (c : Connector) (inLoop : Bool) (name : Nat) (a : Connect) : Except Abort Outcome := do
  check inLoop .assertInLoopThread
  let c := { c with state := .kDisconnected, retryDelayMs := kInitRetryDelayMs, enableConnect := true }
  c.startInLoop inLoop name a

def stopInLoop (c : Connector) (inLoop : Bool) : Except Abort Outcome := do
  check inLoop .assertInLoopThread
  if c.state = .kConnecting then
    let (c, effects, sockfd) ← { c with state := .kDisconnected }.removeAndResetChannel
    return c.retry effects sockfd
  else
    return { connector := c }

/-! ### Calls from any thread -/

/-- `start` sets the flag and hands `startInLoop` to `runInLoop`. -/
def start (c : Connector) : Connector × Functor := ({ c with enableConnect := true }, .startInLoop)

/-- `stop` resets the flag and hands `stopInLoop` to `queueInLoop`. -/
def stop (c : Connector) : Connector × Functor := ({ c with enableConnect := false }, .stopInLoop)

/-- Running a functor on the loop's thread. -/
def runFunctor (c : Connector) (inLoop : Bool) (name : Nat) (a : Connect) : Functor → Except Abort Outcome
  | .startInLoop => c.startInLoop inLoop name a
  | .stopInLoop => c.stopInLoop inLoop
  | .resetChannel _ => .ok { connector := c.resetChannel }

/-- The callbacks of `channel_`: only the one for writing is set. -/
def handleCallback (c : Connector) (err : Nat) (isSelfConnect : Bool) : EventCallback → Except Abort Outcome
  | .write => c.handleWrite err isSelfConnect
  | .close | .read => .ok { connector := c }

/-! ### What the functions do -/

variable {c : Connector} {name : Nat} {a : Connect} {ch : Channel} {err : Nat} {isSelfConnect : Bool}

theorem retry_on (hon : c.enableConnect = true) (before : List Effect) (sockfd : Int) : c.retry before sockfd = {
    connector := { c with
      state := .kDisconnected
      retryDelayMs := min (c.retryDelayMs * 2) kMaxRetryDelayMs }
    effects := before ++ [.close sockfd, .runAfter c.retryDelayMs] } :=
  if_pos hon

theorem retry_off (hoff : c.enableConnect = false) (before : List Effect) (sockfd : Int) : c.retry before sockfd =
    { connector := { c with state := .kDisconnected }, effects := before ++ [.close sockfd] } := by
  simp only [retry, hoff]
  rfl

/-- The connector of an attempt in progress. -/
def attempting (c : Connector) (name : Nat) (sockfd : Int) : Connector :=
  { c with state := .kConnecting, channel := some (name, (Channel.new sockfd).declare .enableWriteEvent) }

theorem startInLoop_busy (h : c.state ≠ .kDisconnected) : c.startInLoop true name a = .error .startInLoop := by
  simp only [startInLoop, check_pos, ok_bind, check_neg h]
  rfl

theorem startInLoop_disabled (h : c.state = .kDisconnected) (hoff : c.enableConnect = false) :
    c.startInLoop true name a = .ok { connector := c } := by
  simp only [startInLoop, check_pos, ok_bind, check_pos h, hoff]
  rfl

theorem startInLoop_connect (h : c.state = .kDisconnected) (hon : c.enableConnect = true) :
    c.startInLoop true name a = c.connect name a := by
  simp only [startInLoop, check_pos, ok_bind, check_pos h, hon]
  rfl

theorem connect_unreleased (ha : a.isConnecting = true) (hch : c.channel ≠ none) :
    c.connect name a = .error .connecting := by
  simp only [connect, if_pos ha, connecting, check_neg hch]
  rfl

theorem connect_connecting (ha : a.isConnecting = true) (hch : c.channel = none) :
    c.connect name a = .ok {
      connector := c.attempting name a.sockfd
      effects := [.socket name a.sockfd, .update] } := by
  simp only [connect, if_pos ha, connecting, check_pos hch, ok_bind]
  rfl

theorem connect_retry (ha : a.isConnecting = false) (hretry : a.isRetry = true) :
    c.connect name a = .ok (c.retry [.socket name a.sockfd] a.sockfd) := by
  simp only [connect, ha, hretry]
  rfl

theorem connect_fails (ha : a.isConnecting = false) (hretry : a.isRetry = false) :
    c.connect name a = .ok { connector := c, effects := [.socket name a.sockfd, .close a.sockfd] } := by
  simp only [connect, ha, hretry]
  rfl

/-- The connector after `removeAndResetChannel`. -/
def removed (c : Connector) (name : Nat) (ch : Channel) : Connector :=
  { c with channel := some (name, ch.declare .disableAllEvent) }

/-- The effects of `removeAndResetChannel`. -/
def removal (name : Nat) : List Effect := [.update, .remove, .queueInLoop (.resetChannel name)]

theorem removeAndResetChannel_ok (hch : c.channel = some (name, ch)) :
    c.removeAndResetChannel = .ok (c.removed name ch, removal name, ch.fd) := by
  simp only [removeAndResetChannel, hch]
  rfl

theorem handleWrite_connecting (h : c.state = .kConnecting) (hch : c.channel = some (name, ch)) :
    c.handleWrite err isSelfConnect = .ok (
      if err ≠ 0 ∨ isSelfConnect = true then (c.removed name ch).retry (removal name) ch.fd
      else {
        connector := { c.removed name ch with state := .kConnected }
        effects := removal name ++
          if c.enableConnect then
            if c.newConnectionCallback then [.newConnectionCallback ch.fd] else []
          else [.close ch.fd] }) := by
  simp only [handleWrite, if_pos h, removeAndResetChannel_ok hch, ok_bind]
  by_cases herr : err = 0
  · cases hself : isSelfConnect with
    | true =>
        simp only [herr]
        rfl
    | false =>
        simp only [herr]
        cases hon : c.enableConnect with
        | true => simp [removed, hon]; rfl
        | false => simp [removed, hon]; rfl
  · simp [herr]
    rfl

theorem stopInLoop_connecting (h : c.state = .kConnecting) (hch : c.channel = some (name, ch)) :
    c.stopInLoop true = .ok (({ c with state := .kDisconnected }.removed name ch).retry (removal name) ch.fd) := by
  have hrem : removeAndResetChannel { c with state := .kDisconnected } =
      .ok ({ c with state := .kDisconnected }.removed name ch, removal name, ch.fd) := removeAndResetChannel_ok hch
  simp only [stopInLoop, check_pos, ok_bind, if_pos h, hrem]
  rfl

theorem stopInLoop_keep (h : c.state ≠ .kConnecting) : c.stopInLoop true = .ok { connector := c } := by
  simp only [stopInLoop, check_pos, ok_bind, if_neg h]
  rfl

theorem restart_eq : c.restart true name a = startInLoop
    { c with state := .kDisconnected, retryDelayMs := kInitRetryDelayMs, enableConnect := true } true name a := by
  simp only [restart, check_pos, ok_bind]

/-! ### Outcomes, by what can be observed of them -/

variable {o : Outcome} {e : Abort}

@[simp] theorem retry_state {before : List Effect} {sockfd : Int} :
    (c.retry before sockfd).connector.state = .kDisconnected := by
  unfold retry
  split_ifs <;> rfl

@[simp] theorem retry_enableConnect {before : List Effect} {sockfd : Int} :
    (c.retry before sockfd).connector.enableConnect = c.enableConnect := by
  unfold retry
  split_ifs <;> rfl

@[simp] theorem retry_channel {before : List Effect} {sockfd : Int} :
    (c.retry before sockfd).connector.channel = c.channel := by
  unfold retry
  split_ifs <;> rfl

theorem retry_effects {before : List Effect} {sockfd : Int} : (c.retry before sockfd).effects =
    before ++ .close sockfd :: if c.enableConnect then [.runAfter c.retryDelayMs] else [] := by
  unfold retry
  split_ifs <;> rfl

/-- How `startInLoop` goes on from `kDisconnected`. -/
inductive Started (c : Connector) (name : Nat) (a : Connect) : Outcome → Prop where
  | disabled (hoff : c.enableConnect = false) : Started c name a { connector := c }
  | connecting (hon : c.enableConnect = true) (ha : a.isConnecting = true) (hch : c.channel = none) :
      Started c name a {
        connector := c.attempting name a.sockfd
        effects := [.socket name a.sockfd, .update] }
  | retry (hon : c.enableConnect = true) (ha : a.isConnecting = false) (hretry : a.isRetry = true) :
      Started c name a (c.retry [.socket name a.sockfd] a.sockfd)
  | fails (hon : c.enableConnect = true) (ha : a.isConnecting = false) (hretry : a.isRetry = false) :
      Started c name a { connector := c, effects := [.socket name a.sockfd, .close a.sockfd] }

/-- `startInLoop` fails on a connector that is not at rest, and on one whose last channel was not released. -/
theorem startInLoop_cases (c : Connector) (name : Nat) (a : Connect) :
    c.state ≠ .kDisconnected ∧ c.startInLoop true name a = .error .startInLoop ∨
      c.state = .kDisconnected ∧ (c.enableConnect = true ∧ a.isConnecting = true ∧ c.channel ≠ none) ∧
        c.startInLoop true name a = .error .connecting ∨
      c.state = .kDisconnected ∧ ∃ o, Started c name a o ∧ c.startInLoop true name a = .ok o := by
  by_cases hstate : c.state = .kDisconnected
  · refine Or.inr ?_
    cases hon : c.enableConnect with
    | false => exact Or.inr ⟨hstate, _, .disabled hon, startInLoop_disabled hstate hon⟩
    | true =>
        rw [startInLoop_connect hstate hon]
        cases ha : a.isConnecting with
        | true =>
            by_cases hch : c.channel = none
            · exact Or.inr ⟨hstate, _, .connecting hon ha hch, connect_connecting ha hch⟩
            · exact Or.inl ⟨hstate, ⟨rfl, rfl, hch⟩, connect_unreleased ha hch⟩
        | false =>
            cases hretry : a.isRetry with
            | true => exact Or.inr ⟨hstate, _, .retry hon ha hretry, connect_retry ha hretry⟩
            | false => exact Or.inr ⟨hstate, _, .fails hon ha hretry, connect_fails ha hretry⟩
  · exact Or.inl ⟨hstate, startInLoop_busy hstate⟩

theorem startInLoop_ok (ho : c.startInLoop true name a = .ok o) : c.state = .kDisconnected ∧ Started c name a o := by
  rcases startInLoop_cases c name a with ⟨_, herr⟩ | ⟨_, _, herr⟩ | ⟨hstate, o', hstarted, hok⟩
  · cases herr.symm.trans ho
  · cases herr.symm.trans ho
  · cases hok.symm.trans ho
    exact ⟨hstate, hstarted⟩

/-- The effects do not call `newConnectionCallback_`. -/
def MakesNone (effects : List Effect) : Prop := ∀ fd, .newConnectionCallback fd ∉ effects

theorem retry_makesNone {before : List Effect} (h : MakesNone before) (sockfd : Int) :
    MakesNone (c.retry before sockfd).effects := by
  intro fd hmem
  rw [retry_effects, List.mem_append, List.mem_cons] at hmem
  rcases hmem with hmem | hmem | hmem
  · exact h fd hmem
  · cases hmem
  · split_ifs at hmem <;> simp at hmem

theorem removal_makesNone (name : Nat) : MakesNone (removal name) := fun fd hmem => by simp [removal] at hmem

theorem Started.makesNone (h : Started c name a o) : MakesNone o.effects := by
  cases h with
  | disabled => exact fun fd hmem => by simp at hmem
  | connecting => exact fun fd hmem => by simp at hmem
  | retry => exact retry_makesNone (fun fd hmem => by simp at hmem) _
  | fails => exact fun fd hmem => by simp at hmem

theorem stopInLoop_ok (ho : c.stopInLoop true = .ok o) :
    c.state ≠ .kConnecting ∧ o = { connector := c } ∨ c.state = .kConnecting ∧ ∃ name ch, c.channel = some (name, ch) ∧
      o = ({ c with state := .kDisconnected }.removed name ch).retry (removal name) ch.fd := by
  by_cases hstate : c.state = .kConnecting
  · refine Or.inr ⟨hstate, ?_⟩
    cases hch : c.channel with
    | none =>
        simp only [stopInLoop, check_pos, ok_bind, if_pos hstate, removeAndResetChannel, hch] at ho
        cases ho
    | some c' =>
        obtain ⟨name, ch⟩ := c'
        rw [stopInLoop_connecting hstate hch] at ho
        cases ho
        exact ⟨name, ch, rfl, rfl⟩
  · rw [stopInLoop_keep hstate] at ho
    cases ho
    exact Or.inl ⟨hstate, rfl⟩

/-- `handleWrite` finds a connector at rest, or it ends the attempt: it fails, or its socket is handed over, or
it was stopped meanwhile. -/
theorem handleWrite_ok (ho : c.handleWrite err isSelfConnect = .ok o) :
    c.state = .kDisconnected ∧ o = { connector := c } ∨
      c.state = .kConnecting ∧ ∃ name ch, c.channel = some (name, ch) ∧
        (o = (c.removed name ch).retry (removal name) ch.fd ∨
          ∃ tail, o = { connector := { c.removed name ch with state := .kConnected }, effects := removal name ++ tail } ∧
            (tail = [.newConnectionCallback ch.fd] ∧ c.enableConnect = true ∨ tail = [] ∨ tail = [.close ch.fd])) := by
  by_cases hstate : c.state = .kConnecting
  · refine Or.inr ⟨hstate, ?_⟩
    cases hch : c.channel with
    | none =>
        simp only [handleWrite, if_pos hstate, removeAndResetChannel, hch] at ho
        cases ho
    | some c' =>
        obtain ⟨name, ch⟩ := c'
        rw [handleWrite_connecting hstate hch] at ho
        refine ⟨name, ch, rfl, ?_⟩
        cases ho
        by_cases hfail : err ≠ 0 ∨ isSelfConnect = true
        · exact Or.inl (if_pos hfail)
        · rw [if_neg hfail]
          refine Or.inr ⟨_, rfl, ?_⟩
          cases hon : c.enableConnect with
          | true =>
              rw [if_pos rfl]
              cases hcb : c.newConnectionCallback with
              | true => exact Or.inl ⟨rfl, rfl⟩
              | false => exact Or.inr (Or.inl rfl)
          | false => exact Or.inr (Or.inr rfl)
  · simp only [handleWrite, if_neg hstate] at ho
    obtain ⟨_, hrest, ho⟩ := bind_eq_ok.mp ho
    cases ho
    exact Or.inl ⟨check_eq_ok.mp hrest, rfl⟩

end Connector

end OulaServer
