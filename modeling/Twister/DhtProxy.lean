import Twister.Bencode.Entry

/-!
# DHT proxy request accounting

A node that serves as DHT proxy (dhtproxy.cpp) records, per target, the list of
peers with a pending `dhtgetreq` in `m_dhtgetPeersReq`, and per peer a
`PeerBanStats` whose `active` field is meant to count that peer's pending
requests. `checkForAbuse` refuses a peer with more than ten active requests or
too many recent requests. Start messages are checked by `checkForAbuse` and
add one list entry and one active request; stop messages bypass the check, erase
every entry of the peer from the target's list, and take one active request
away whenever the target has any entry at all.

Targets are keyed by the bencoded target dictionary that `dhtTargetHash` hashes;
peers are addresses. Time is a number of milliseconds supplied with each message.
-/

namespace Twister.DhtProxy

/-- `PeerBanStats`: active requests, a request counter and the time limit of the
current counting window. -/
structure PeerBanStats where
  active : Int32
  count : Int32
  limit : Nat
  deriving DecidableEq, Repr

/-- The proxy's state: `m_dhtgetPeersReq` and `m_peerBanStats`. -/
structure ProxyState where
  dhtgetPeersReq : List (Bytes × List Nat) := []
  peerBanStats : List (Nat × PeerBanStats) := []
  deriving Repr

/-- `m_peerBanStats[addr]`: an absent peer reads as fresh statistics whose limit
is the current time. -/
def ProxyState.stats (s : ProxyState) (addr now : Nat) : PeerBanStats :=
  OrdMap.findD addr ⟨0, 0, now⟩ s.peerBanStats

/-- Write back the statistics of a peer. -/
def ProxyState.setStats (s : ProxyState) (addr : Nat) (st : PeerBanStats) : ProxyState :=
  { s with peerBanStats := OrdMap.insert addr st s.peerBanStats }

/-- `dhtTargetHash(username, resource, type)` before hashing: the bencoded
dictionary `{n, r, t}`. -/
def dhtTargetKey (username resource type : Bytes) : Bytes :=
  Bencode.bencode (.dict [(bytesOf "n", .string username), (bytesOf "r", .string resource),
    (bytesOf "t", .string type)])

/-- `dhtgetPeerReqAdd(ih, pnode)`: append the peer to the target's list and count
one more active request. -/
def dhtgetPeerReqAdd (s : ProxyState) (ih : Bytes) (addr now : Nat) : ProxyState :=
  let st := s.stats addr now
  let s := { s with
    dhtgetPeersReq := OrdMap.insert ih (OrdMap.findD ih [] s.dhtgetPeersReq ++ [addr]) s.dhtgetPeersReq }
  s.setStats addr { st with active := st.active + 1 }

/-- `dhtgetPeerReqRemove(ih, pnode)`: when the target has a list, erase every entry
of the peer (`std::list::remove`), drop the list once it is empty, and count one
active request less. -/
def dhtgetPeerReqRemove (s : ProxyState) (ih : Bytes) (addr now : Nat) : ProxyState :=
  match OrdMap.find? ih s.dhtgetPeersReq with
  | none => s
  | some addrList =>
    let addrList := addrList.filter (· ≠ addr)
    let reqs := if addrList.isEmpty then OrdMap.erase ih s.dhtgetPeersReq
      else OrdMap.insert ih addrList s.dhtgetPeersReq
    let s := { s with dhtgetPeersReq := reqs }
    let st := s.stats addr now
    s.setStats addr { st with active := st.active - 1 }

/-- Five minutes, in milliseconds. -/
def fiveMinutes : Nat := 5 * 60 * 1000

/-- Five seconds, in milliseconds. -/
def fiveSeconds : Nat := 5 * 1000

/-- `checkForAbuse(pfrom, cost)`: charge the cost; past 500 requests inside the
window the peer is refused and the window extended, otherwise the counter
restarts; a peer with more than ten active requests is refused. -/
def checkForAbuse (s : ProxyState) (addr now : Nat) (cost : Int32) : ProxyState × Bool :=
  let st := s.stats addr now
  let st := { st with count := st.count + cost }
  if st.count ≥ 500 then
    if now < st.limit then (s.setStats addr { st with limit := now + fiveMinutes }, true)
    else
      let st := { st with count := 0, limit := now + fiveSeconds }
      (s.setStats addr st, st.active > 10)
  else (s.setStats addr st, st.active > 10)

/-- The messages a proxy receives: `dhtgetreq` (a start or a stop) and `dhtputreq`. -/
inductive ProxyMsg where
  | getReq (addr : Nat) (username resource : Bytes) (multi stopReq : Bool)
  | putReq (addr : Nat)
  deriving Repr

/-- `dhtgetRequestReceived` and `dhtputRequestReceived` on the proxy's state.
`fEnabled` (the node uses proxies itself) turns both away. The DHT lookups and
stores they start do not touch this state. -/
def receive (fEnabled : Bool) (s : ProxyState) (now : Nat) : ProxyMsg → ProxyState
  | .getReq addr username resource multi stopReq =>
    if fEnabled then s
    else
      let (s', abuse) := if stopReq then (s, false) else checkForAbuse s addr now 1
      if abuse then s'
      else
        let ih := dhtTargetKey username resource (bytesOf (if multi then "m" else "s"))
        if stopReq then dhtgetPeerReqRemove s' ih addr now else dhtgetPeerReqAdd s' ih addr now
  | .putReq addr => if fEnabled then s else (checkForAbuse s addr now 10).1

/-- A run of messages, each with its arrival time. -/
def receiveAll (fEnabled : Bool) (s : ProxyState) (msgs : List (Nat × ProxyMsg)) : ProxyState :=
  msgs.foldl (fun s (now, m) => receive fEnabled s now m) s

/-- The number of pending entries of a peer over all targets. -/
def pendingOf (s : ProxyState) (addr : Nat) : Nat :=
  (s.dhtgetPeersReq.map fun (_, l) => l.count addr).sum

end Twister.DhtProxy

namespace Twister.DhtProxy

/-- A start from peer 2 and then a stop from peer 1, which never asked, for the
same target. -/
def strayStop : List (Nat × ProxyMsg) :=
  [(0, .getReq 2 (bytesOf "alice") (bytesOf "status") false false),
    (0, .getReq 1 (bytesOf "alice") (bytesOf "status") false true)]

/-- Two starts and one stop from the same peer for one target. -/
def doubleStart : List (Nat × ProxyMsg) :=
  [(0, .getReq 1 (bytesOf "alice") (bytesOf "status") false false),
    (0, .getReq 1 (bytesOf "alice") (bytesOf "status") false false),
    (0, .getReq 1 (bytesOf "alice") (bytesOf "status") false true)]

/-- A stop decrements `active` whenever the target has any pending entry, and
`std::list::remove` erases all of the peer's entries at once: after `strayStop`
peer 1 has `active = -1` with no entry, and after `doubleStart` it has
`active = 1` with no entry. -/
theorem receiveAll_active_ne_pending :
    ((receiveAll false {} strayStop).stats 1 0).active = -1 ∧
      pendingOf (receiveAll false {} strayStop) 1 = 0 ∧
      ((receiveAll false {} doubleStart).stats 1 0).active = 1 ∧
      pendingOf (receiveAll false {} doubleStart) 1 = 0 := by
  decide

end Twister.DhtProxy
