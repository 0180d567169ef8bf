/-
  NodeQuorum.Registry.Announce — taking announcements and pings into the registry.

  Everything that comes in is remembered first, so that it is looked at once. A newer announcement
  under the same collateral key refreshes an enabled entry; any other has to show that its key owns a
  collateral output of the right amount, confirmed before the announcement was signed.
-/

import NodeQuorum.Registry.Request

namespace NodeQuorum

/-- What the handling of announcements looks at beside the registry. -/
structure AnnounceEnv where
  chain : Chain
  params : NetworkParams
  now : Int
  /-- Nodes below this protocol are not taken. -/
  minProtocol : Nat

namespace Registry

/-- How far a signing time may be from this node's time. -/
def maxSkew : Int := 60 * 60

/-- How far below the tip the block of a ping may be. -/
def pingMaxBlockAge : Nat := 24

def skewWeight : Nat := 1
def badPingSignatureWeight : Nat := 33
def badKeyWeight : Nat := 100

def checkPingTime (p : Ping) (now : Int) : Except Reject Unit := do
  demand (p.sigTime ≤ now + maxSkew)
    (.malformed ("ping from " ++ p.outpoint.text ++ " signed too far in the future") skewWeight)
  demand (now - maxSkew < p.sigTime)
    (.malformed ("ping from " ++ p.outpoint.text ++ " signed too far in the past") skewWeight)

def checkPingSignature (p : Ping) (operatorKey : PublicKey) : Except Reject Unit :=
  (operatorKey.verify p.signature (Ping.signedText p.outpoint p.blockHash p.sigTime)).mapError fun e =>
    .badSignature ("ping from " ++ p.outpoint.text ++ ": " ++ e.message) badPingSignatureWeight

/-! ## Announcements -/

/-- Whether the announced address may be used. -/
def checkAddress (r : Registry) (masternodes : Option Registry) (a : Announcement) (env : AnnounceEnv) :
    Except Reject Unit := do
  demand (a.address.isAnnounceable env.params.network)
    (.ignored (r.nodeClass.name ++ " broadcast with invalid address " ++ a.address.text))
  demand (masternodes.all fun m => !m.hasHost a.address.ip)
    (.ignored ("a masternode already uses " ++ a.address.ip.text))

def checkSignature (r : Registry) (a : Announcement) : Except Reject Unit :=
  let text := Announcement.signedText a.address a.sigTime a.collateralKey a.operatorKey a.protocol
  (a.collateralKey.verify a.signature text).mapError fun e =>
    .badSignature (r.nodeClass.name ++ " broadcast for " ++ a.outpoint.text ++ ": " ++ e.message) 0

/-- The key that the ping of an announcement is checked with: the one registered, else the announced. -/
def pingKey (r : Registry) (a : Announcement) : PublicKey :=
  match r.find? a.outpoint with
  | some e => e.operatorKey
  | none => a.operatorKey

/-- Whether an announcement is well made, whatever the chain says of its collateral. -/
def checkAnnouncement (r : Registry) (a : Announcement) (env : AnnounceEnv) : Except Reject Unit := do
  let name := r.nodeClass.name
  demand (a.sigTime ≤ env.now + maxSkew)
    (.malformed (name ++ " broadcast for " ++ a.outpoint.text ++ " signed too far in the future") skewWeight)
  demand (env.minProtocol ≤ a.protocol)
    (.ignored (name ++ " " ++ a.outpoint.text ++ " runs outdated protocol " ++ toString a.protocol))
  demand (a.collateralKey.isValid ∧ a.operatorKey.isValid)
    (.malformed (name ++ " broadcast with an invalid key") badKeyWeight)
  demand (a.lastPing.outpoint = a.outpoint) (.malformed (name ++ " broadcast carries a foreign ping") 0)
  checkPingTime a.lastPing env.now
  checkPingSignature a.lastPing (r.pingKey a)
  r.checkSignature a
  demand (env.params.isValidPort a.address.port.toNat)
    (.ignored (name ++ " broadcast on wrong port " ++ toString a.address.port.toNat))

/-- Refreshes an entry. One that was announced a short while ago is not announced on. -/
def refresh (r : Registry) (e : NodeEntry) (a : Announcement) (env : AnnounceEnv) : Handled Registry :=
  let e' := (e.update a).check env.chain r.params env.now true
  let relay := !e.isAnnouncedWithin r.params.minAnnouncementSeconds env.now && e'.isEnabled
  ⟨{ r with entries := r.entries.insert a.outpoint e' },
   if relay then [.relay ⟨.announcement r.nodeClass, a.hash⟩] else [],
   .ok .updated⟩

/-- The collateral output of an announcement, if its signer owns it and its amount is right. -/
def ownedCoin (r : Registry) (a : Announcement) (env : AnnounceEnv) : Except Reject Coin :=
  let collateral := r.nodeClass.name ++ " collateral " ++ a.outpoint.text
  match env.chain.coins[a.outpoint]? with
  | none => .error (.ignored (collateral ++ " is not unspent"))
  | some coin =>
    if coin.script ≠ Script.ofPublicKey a.collateralKey then
      .error (.ignored (collateral ++ " is not owned by the signer"))
    else if coin.value ≠ r.params.collateral then .error (.ignored (collateral ++ " has the wrong amount"))
    else .ok coin

/-- Whether the collateral of an announcement was confirmed before the announcement was signed. -/
def checkConfirmed (r : Registry) (a : Announcement) (coin : Coin) (env : AnnounceEnv) : Except Reject Unit :=
  match env.chain.timeAt? (coin.height + r.params.minConfirmations - 1) with
  | none => .ok ()
  | some confirmedAt =>
    demand (confirmedAt ≤ a.sigTime)
      (.ignored (r.nodeClass.name ++ " broadcast for " ++ a.outpoint.text ++ " signed at " ++ toString a.sigTime ++
        " before its collateral confirmed at " ++ toString confirmedAt))

/-- Puts the entry of an announcement in place of an older one. -/
def replace (r : Registry) (a : Announcement) (env : AnnounceEnv) : Handled Registry :=
  let r := r.remove a.outpoint
  match r.add ((NodeEntry.ofAnnouncement r.nodeClass a).check env.chain r.params env.now true) with
  | none => ⟨r, [], .error (.ignored (r.nodeClass.name ++ " " ++ a.outpoint.text ++ " is not enabled"))⟩
  | some r =>
    let hidden := env.params.network != .regtest && a.address.ip.isLocal
    ⟨r, if hidden then [] else [.relay ⟨.announcement r.nodeClass, a.hash⟩], .ok .added⟩

/-- Adds the entry of an announcement whose collateral is in order. If the collateral is too young, the
announcement is forgotten, so that it may come again. -/
def enter (r : Registry) (a : Announcement) (env : AnnounceEnv) : Handled Registry :=
  match r.ownedCoin a env with
  | .error e => ⟨r, [], .error e⟩
  | .ok coin =>
    let age := (env.chain.confirmations? a.outpoint).getD 0
    if age < r.params.minConfirmations then
      ⟨r.forgetAnnouncement a.hash, [], .error (.ignored (r.nodeClass.name ++ " collateral " ++ a.outpoint.text ++
        " has " ++ toString age ++ " of " ++ toString r.params.minConfirmations ++ " confirmations"))⟩
    else match r.checkConfirmed a coin env with
      | .error e => ⟨r, [], .error e⟩
      | .ok () => r.replace a env

/-- Decides on a well-made announcement. -/
def settle (r : Registry) (a : Announcement) (env : AnnounceEnv) : Handled Registry :=
  match r.find? a.outpoint with
  | none => r.enter a env
  | some e =>
    if a.sigTime ≤ e.sigTime then
      ⟨r, [], .error (.stale (r.nodeClass.name ++ " broadcast for " ++ a.outpoint.text ++ " is not newer"))⟩
    else if e.isEnabled ∧ e.collateralKey = a.collateralKey then r.refresh e a env
    -- a new collateral key has to show that it owns the output
    else r.enter a env

/-- Takes an announcement. `masternodes` are the masternodes if this registry holds systemnodes: those
may not use a masternode's host. -/
def processAnnouncement (r : Registry) (masternodes : Option Registry) (a : Announcement) (env : AnnounceEnv) :
    Handled Registry :=
  if r.seenAnnouncements.contains a.hash then
    ⟨r, [], .error (.stale (r.nodeClass.name ++ " broadcast " ++ a.hash.text ++ " already seen"))⟩
  else
    let r := r.rememberAnnouncement a
    match do r.checkAddress masternodes a env; r.checkAnnouncement a env with
    | .error e => ⟨r, [], .error e⟩
    | .ok () => r.settle a env

/-! ## Pings -/

/-- Whether a ping is in order for the entry it names. -/
def checkPing (r : Registry) (e : NodeEntry) (p : Ping) (env : AnnounceEnv) : Except Reject Unit := do
  let sender := r.nodeClass.name ++ " ping from " ++ p.outpoint.text
  demand (¬ e.isPingedWithin (r.params.minPingSeconds - 60) p.sigTime) (.ignored (sender ++ " arrived too early"))
  checkPingSignature p e.operatorKey
  match env.chain.heightOf? p.blockHash with
  | none => .error (.ignored (sender ++ " names an unknown block"))
  | some height =>
    demand (env.chain.tip?.getD 0 ≤ height + pingMaxBlockAge) (.ignored (sender ++ " names an old block"))

/-- Puts a ping into an entry and into the announcement that was seen for it. -/
def takePing (r : Registry) (e : NodeEntry) (p : Ping) (env : AnnounceEnv) : Registry :=
  let r := match e.announcement? with
    | some a => r.refreshAnnouncement a.hash p
    | none => r
  { r with
    entries := r.entries.insert p.outpoint ({ e with lastPing := some p }.check env.chain r.params env.now true) }

/-- Takes a ping. An unknown signer is to be asked for. -/
def processPing (r : Registry) (p : Ping) (env : AnnounceEnv) : Handled Registry :=
  if r.seenPings.contains p.hash then
    ⟨r, [], .error (.stale (r.nodeClass.name ++ " ping " ++ p.hash.text ++ " already seen"))⟩
  else
    let r := r.rememberPing p
    match checkPingTime p env.now with
    | .error e => ⟨r, [], .error e⟩
    | .ok () =>
      match r.find? p.outpoint with
      | none => ⟨r, [], .error (.unknownSigner p.outpoint)⟩
      | some entry =>
        if entry.protocol < env.minProtocol then ⟨r, [], .error (.unknownSigner p.outpoint)⟩
        else match r.checkPing entry p env with
          | .error e => ⟨r, [], .error e⟩
          | .ok () =>
            let r := r.takePing entry p env
            if (r.find? p.outpoint).any NodeEntry.isEnabled then
              ⟨r, [.relay ⟨.ping r.nodeClass, p.hash⟩], .ok .updated⟩
            else
              ⟨r, [], .error (.ignored
                (r.nodeClass.name ++ " " ++ p.outpoint.text ++ " is not enabled after ping"))⟩

end Registry
end NodeQuorum
