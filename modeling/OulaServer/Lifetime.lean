import OulaServer.TcpClient.Lifetime
import OulaServer.TcpServer.Lifetime

/-!
# Connections die closed

When the last reference to a connection of a server or of a client is dropped, the connection is closed and its
channel is not registered (`diesClosed_of_along`), if the server is destroyed with an empty `connections_` and the
client leaves no connection behind that nobody closes. `~TcpServer` closes no connection that `connections_` still
holds, and `~TcpClient` none that others hold too, so that these may die while they are up (`dies_open`).
-/

namespace OulaServer

namespace Lifetime

open Run

/-- **Connections die closed.** For every server and every client, and every run of their loops over all batches of
ready channels, answers of the sockets, functors, timers, user code, calls from other threads, copies and drops of
references and the destruction on the loop's thread: if the server is destroyed when `connections_` is empty and
the client's connection is settled, then every established connection is `kDisconnected` and not registered when
its last reference is dropped. -/
theorem diesClosed_of_along (ioLoops highWaterMark : Nat) (writeComplete highWater retry completes : Bool) :
    (∀ es : List ServerLifetime.Event,
      Along ServerLifetime.step (fun w e => ServerLifetime.Enabled w e ∧ ServerLifetime.ClosesOnDestroy w e)
        (ServerLifetime.init ioLoops highWaterMark writeComplete highWater) es →
      Holds ServerLifetime.step anyError ServerLifetime.DiesClosed
        (ServerLifetime.init ioLoops highWaterMark writeComplete highWater) es) ∧
    ∀ es : List TcpClient.Event,
      Along TcpClient.step (fun w e => TcpClient.Enabled w e ∧ TcpClient.Settled w e)
        (TcpClient.init retry completes) es →
      Holds TcpClient.step anyError TcpClient.DiesClosed (TcpClient.init retry completes) es := by
  constructor
  · intro es hes
    refine holds_of_along (I := fun w => ∃ stage, ServerLifetime.Inv w stage) (fun w e h hen => ?_)
      ⟨_, .init ioLoops highWaterMark writeComplete highWater⟩ hes
    obtain ⟨stage, h⟩ := h
    refine ⟨fun _ _ => trivial, fun w' hok => ?_⟩
    obtain ⟨stage', h'⟩ := h.step hen.1 hen.2 hok
    exact ⟨fun id hestablished _ hrefs => h'.released hestablished hrefs, stage', h'⟩
  · intro es hes
    refine holds_of_along (I := TcpClient.Inv) (fun w e h hen => ?_) (.init retry completes) hes
    refine ⟨fun _ _ => trivial, fun w' hok => ?_⟩
    have h' := h.step hen.1 hen.2 hok
    exact ⟨fun id hmade _ hrefs => h'.released hmade hrefs, h'⟩

/-- The server's only connection was closed and destroyed when the server is. -/
def destroyedWithout : List ServerLifetime.Event :=
  [.server (.enterLoop 0), .server (.poll 0 [.acceptor]), .server (.acceptor (some 7)), .server (.userCode 0),
    .server (.call none 1 .forceClose (fun _ => 0) (.ok 0)), .server (.push 0), .server (.swapFunctors 0),
    .server (.callFunctor 0 (fun _ => 0) (.ok 0)), .server (.userCode 0), .server (.userCode 0),
    .server (.endFunctors 0), .server (.poll 0 [.other]), .server (.handleEvent 0), .server (.swapFunctors 0),
    .server (.callFunctor 0 (fun _ => 0) (.ok 0)), .server (.userCode 0), .server (.endFunctors 0),
    .server (.poll 0 [.other]), .destroy]

/-- The client is destroyed with the only reference to its connection, which `forceClose` closes. -/
def destroyedUnique : List TcpClient.Event :=
  [.connect ⟨7, EINPROGRESS⟩, .enterLoop, .poll [.channel (.connector 0) pollOut], .handleEvent,
    .handleCallback none (.ok 0) 0 false, .userCode ⟨8, 0⟩, .swapFunctors,
    .callFunctor (fun _ => 0) (.ok 0) ⟨8, 0⟩, .destroy, .endFunctors, .poll [.other], .handleEvent, .swapFunctors,
    .callFunctor (fun _ => 0) (.ok 0) ⟨8, 0⟩, .userCode ⟨8, 0⟩, .userCode ⟨8, 0⟩, .endFunctors, .poll [.other],
    .handleEvent, .swapFunctors, .callFunctor (fun _ => 0) (.ok 0) ⟨8, 0⟩, .userCode ⟨8, 0⟩, .endFunctors]

theorem diesClosed_of_along_run :
    Holds ServerLifetime.step anyError ServerLifetime.DiesClosed (ServerLifetime.init 0 64 true true) destroyedWithout ∧
      Holds TcpClient.step anyError TcpClient.DiesClosed (TcpClient.init false true) destroyedUnique :=
  ⟨(diesClosed_of_along 0 64 true true false true).1 destroyedWithout (by decide +kernel),
    (diesClosed_of_along 0 64 true true false true).2 destroyedUnique (by decide +kernel)⟩

/-- The server is destroyed while a connection is up. -/
def destroyedUp : List ServerLifetime.Event :=
  [.server (.enterLoop 0), .server (.poll 0 [.acceptor]), .server (.acceptor (some 7)), .server (.userCode 0), .destroy]

/-- User code holds a copy of the connection when the client is destroyed, and drops it later. -/
def destroyedShared : List TcpClient.Event :=
  [.connect ⟨7, EINPROGRESS⟩, .enterLoop, .poll [.channel (.connector 0) pollOut], .handleEvent,
    .handleCallback none (.ok 0) 0 false, .copy 1, .userCode ⟨8, 0⟩, .swapFunctors,
    .callFunctor (fun _ => 0) (.ok 0) ⟨8, 0⟩, .destroy, .drop 1]

theorem dies_open :
    (Along ServerLifetime.step ServerLifetime.Enabled (ServerLifetime.init 0 64 true true) destroyedUp ∧
      ¬ Holds ServerLifetime.step anyError ServerLifetime.DiesClosed (ServerLifetime.init 0 64 true true) destroyedUp) ∧
    Along TcpClient.step TcpClient.Enabled (TcpClient.init false true) destroyedShared ∧
      ¬ Holds TcpClient.step anyError TcpClient.DiesClosed (TcpClient.init false true) destroyedShared := by
  refine ⟨⟨by decide +kernel, fun h => ?_⟩, by decide +kernel, fun h => ?_⟩
  · have hstate := h.mono fun w _ w' (hdies : ServerLifetime.DiesClosed w _ w')
        (hid : (.established 0 : TcpServer.Life) ∈ w'.server.life 1) hpos hzero =>
      (hdies 1 ⟨_, hid, 0, rfl⟩ hpos hzero).1
    revert hstate
    decide +kernel
  · have hstate := h.mono fun w _ w' (hdies : TcpClient.DiesClosed w _ w') (hid : TcpClient.Made w' 1) hpos hzero =>
      (hdies 1 hid hpos hzero).1
    revert hstate
    decide +kernel

end Lifetime

end OulaServer
