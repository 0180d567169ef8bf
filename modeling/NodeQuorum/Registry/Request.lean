/-
  NodeQuorum.Registry.Request — asking peers for nodes and answering such requests.

  One node is asked for at most once per ping interval. On the main network the full list is asked of
  a host, and answered to a host, at most once in three hours; hosts on this machine or in a private
  network are not limited.
-/

import NodeQuorum.Registry.Basic

namespace NodeQuorum.Registry

/-- The time between two requests for the full list. -/
def listRequestSeconds : Int := 3 * 60 * 60

/-- The punishment for asking for the full list too soon. -/
def repeatedListRequestWeight : Nat := 34

/-- Whether something asked for until `till` has to wait. -/
def isWaiting (till : Option Int) (now : Int) : Bool :=
  match till with
  | some till => now < till
  | none => false

/-- Asks a peer for one node, unless that was done a short while ago. -/
def askForEntry (r : Registry) (peer : PeerId) (o : OutPoint) (now : Int) : Registry × List Outbound :=
  if isWaiting r.askedEntries[o]? now then (r, [])
  else
    ({ r with askedEntries := r.askedEntries.insert o (now + r.params.minPingSeconds) },
     [.push peer (.getList r.nodeClass (some o))])

/-- Asks a peer for the full list, unless its host was asked a short while ago. -/
def requestList (r : Registry) (peer : Peer) (now : Int) (mainnet : Bool) : Registry × List Outbound :=
  let ask : Outbound := .push peer.id (.getList r.nodeClass none)
  if mainnet ∧ ¬ peer.isLocal then
    if isWaiting r.askedThem[peer.address.ip]? now then (r, [])
    else ({ r with askedThem := r.askedThem.insert peer.address.ip (now + listRequestSeconds) }, [ask])
  else (r, [ask])

/-- Whether a node is told to others: enabled and reachable from outside. -/
def isListed (e : NodeEntry) : Bool := !e.address.ip.isLocal && e.isEnabled

/-- The announcements that answer a request for the list, or for one node. -/
def listed (r : Registry) (requested : Option OutPoint) : List Announcement :=
  (r.list.filter fun e => isListed e && requested.all fun o => o = e.outpoint).filterMap NodeEntry.announcement?

/-- Sends the listed announcements with their pings and remembers them as seen. -/
def serve (r : Registry) (peer : PeerId) (requested : Option OutPoint) : Registry × List Outbound :=
  let served := r.listed requested
  let pushes := served.flatMap fun a =>
    [Outbound.push peer (.announcement r.nodeClass a), .push peer (.ping r.nodeClass a.lastPing)]
  let count := if requested.isNone then [Outbound.push peer (.syncCount r.nodeClass .list served.length)] else []
  ({ r with seenAnnouncements := served.foldl (fun t a => t.insertIfNew a.hash a) r.seenAnnouncements },
   pushes ++ count)

/-- Answers a request for the list, or for one node. -/
def processListRequest (r : Registry) (peer : Peer) (requested : Option OutPoint) (now : Int) (mainnet : Bool) :
    Handled Registry :=
  let ip := peer.address.ip
  if requested.isNone ∧ mainnet ∧ ¬ peer.isLocal then
    if isWaiting r.askedUs[ip]? now then
      ⟨r, [], .error (.malformed "list requested again too soon" repeatedListRequestWeight)⟩
    else
      let (r, sent) := { r with askedUs := r.askedUs.insert ip (now + listRequestSeconds) }.serve peer.id requested
      ⟨r, sent, .ok .served⟩
  else
    let (r, sent) := r.serve peer.id requested
    ⟨r, sent, .ok .served⟩

end NodeQuorum.Registry
