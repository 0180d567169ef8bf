/-
  NodeQuorum.Payment.Process — taking payment votes and casting this node's own.

  A voter is a reference node or is ranked among the first ten a hundred blocks below the height voted
  for. A vote is refused before it is counted unless it is new, in range, the voter's first for its
  height and signed with the voter's registered key. The program stops at a vote that makes the count of
  its payee run over (`process?`, `castVote?`).
-/

import NodeQuorum.Budget
import NodeQuorum.Payment.Votes
import NodeQuorum.Registry.Request

namespace NodeQuorum

/-- What the handling of payment votes looks at beside votes and registry. -/
structure PaymentEnv where
  chain : Chain
  budget : Budget
  params : NetworkParams
  sporks : Sporks
  now : Int
  /-- Whether lists and votes were synchronised; senders are punished only then. -/
  synced : Bool

/-- The votes of a class and its nodes. -/
structure PaymentState where
  payments : Payments
  registry : Registry

namespace Payments

/-- The lowest protocol of voters, and of peers that votes are taken from. -/
def minVoterProtocol : Nat := 70057

/-- The number of nodes that vote on a payee. -/
def voters : Nat := 10

def rankAbuseWeight : Nat := 20
def badVoteSignatureWeight : Nat := 20

/-- Whether a rank entitles to a vote. -/
def checkRank (v : PaymentVote) (rank : Option Nat) (synced : Bool) : Except Reject Unit :=
  match rank with
  | none => .error (.ignored (v.voter.text ++ " has no rank at " ++ toString (v.height - paymentRankOffset)))
  | some rank =>
    let reason := v.voter.text ++ " not in the top " ++ toString voters ++ " (" ++ toString rank ++ ")"
    if rank ≤ voters then .ok ()
    else if 2 * voters < rank ∧ synced then .error (.malformed reason rankAbuseWeight)
    else .error (.ignored reason)

/-- Whether a voter may vote; an unknown one is asked for. -/
def checkVoter (r : Registry) (peer : Peer) (v : PaymentVote) (env : PaymentEnv) :
    Registry × List Outbound × Except Reject Unit :=
  if env.params.isReference v.voter then (r, [], .ok ())
  else match r.find? v.voter with
    | none =>
      let (r, sent) := r.askForEntry peer.id v.voter env.now
      (r, sent, .error (.unknownSigner v.voter))
    | some e =>
      if e.protocol < minVoterProtocol then
        (r, [], .error (.ignored (v.voter.text ++ " runs protocol " ++ toString e.protocol)))
      else
        let r := r.checkAll env.chain env.now false
        let rank := r.rankOf? env.chain v.voter (v.height - paymentRankOffset) minVoterProtocol
        (r, [], checkRank v rank env.synced)

/-- Whether a vote is signed with the registered key of its voter. -/
def isSigned (r : Registry) (v : PaymentVote) : Bool :=
  match r.find? v.voter with
  | some e => decide (e.operatorKey.Signed v.signature (PaymentVote.signedText v.voter v.height v.payee))
  | none => false

/-- Whether a vote can be of use, before anything is known of its voter. -/
def checkVote (p : Payments) (r : Registry) (peer : Peer) (v : PaymentVote) (env : PaymentEnv) : Except Reject Unit := do
  let name := p.nodeClass.name
  demand (minVoterProtocol ≤ peer.protocol)
    (.ignored ("peer " ++ toString peer.id ++ " too old for " ++ name ++ " winners"))
  match env.chain.tip? with
  | none => .error (.ignored "no chain tip")
  | some tip =>
    demand (¬ p.votes.contains v.hash) (.stale (name ++ " winner " ++ v.hash.text ++ " already seen"))
    demand (tip - cycle (r.countEnabled 0) ≤ v.height ∧ v.height ≤ tip + lookahead)
      (.ignored (name ++ " winner height " ++ toString v.height ++ " out of range"))

/-- Counts a vote that is in order and announces it. -/
def count (p : Payments) (r : Registry) (v : PaymentVote) (env : PaymentEnv) : Handled PaymentState :=
  match p.addVote env.chain v (env.params.voteWeight v.voter) with
  | none =>
    ⟨⟨p, r⟩, [], .error (.ignored (p.nodeClass.name ++ " winner for unknown block " ++ toString v.height))⟩
  | some p' =>
    let reached := p.votesFor v.height v.payee < paymentVotesRequired ∧
      paymentVotesRequired ≤ p'.votesFor v.height v.payee
    ⟨⟨p', r⟩, [.relay ⟨.paymentVote p.nodeClass, v.hash⟩], .ok (if reached then .quorumReached else .added)⟩

/-- Takes a received vote. -/
def process (p : Payments) (r : Registry) (peer : Peer) (v : PaymentVote) (env : PaymentEnv) : Handled PaymentState :=
  match p.checkVote r peer v env with
  | .error e => ⟨⟨p, r⟩, [], .error e⟩
  | .ok () =>
    match checkVoter r peer v env with
    | (r, sent, .error e) => ⟨⟨p, r⟩, sent, .error e⟩
    | (r, sent, .ok ()) =>
      match p.canVote v.voter v.height with
      | (p, false) =>
        ⟨⟨p, r⟩, sent, .error (.stale (v.voter.text ++ " already voted for " ++ toString v.height))⟩
      | (p, true) =>
        if isSigned r v then
          let h := p.count r v env
          { h with sent := sent ++ h.sent }
        else
          let (r, asked) := r.askForEntry peer.id v.voter env.now
          let weight := if env.synced then badVoteSignatureWeight else 0
          ⟨⟨p, r⟩, sent ++ asked,
           .error (.badSignature (p.nodeClass.name ++ " winner from " ++ v.voter.text) weight)⟩

/-- Whether the program stops at a received vote: it is taken, and makes the count of its payee run over. -/
def stopsAt (p : Payments) (r : Registry) (peer : Peer) (v : PaymentVote) (env : PaymentEnv) : Bool :=
  p.overruns v (env.params.voteWeight v.voter) && (p.process r peer v env).verdict.isOk

/-- Takes a received vote as `process` does, unless the program stops there. -/
def process? (p : Payments) (r : Registry) (peer : Peer) (v : PaymentVote) (env : PaymentEnv) :
    Option (Handled PaymentState) :=
  if p.stopsAt r peer v env then none else some (p.process r peer v env)

/-! ## This node's own votes -/

/-- A node's vote of its own: what is left, what is sent, and the vote if one was cast. -/
structure Cast where
  state : PaymentState
  sent : List Outbound
  vote : Option PaymentVote

/-- The payee whose turn it is at a height. -/
def choosePayee? (p : Payments) (r : Registry) (enabled tip height : Nat) (env : PaymentEnv) : Option Script :=
  let rules : Registry.QueueRules :=
    { isScheduled := fun e => p.isScheduled e.payee tip height
      secondsSincePaid := fun e => p.secondsSincePayment env.chain e enabled env.now }
  let minProtocol := p.params.minPaymentProtocol env.sporks env.now
  match (r.nextInQueue env.chain height minProtocol env.now rules).1 with
  | none => none
  | some o => (r.find? o).map NodeEntry.payee

/-- Votes for the payee of a height, if this node is entitled to a vote that it has not cast. -/
def castVote (p : Payments) (r : Registry) (voter : OutPoint) (operator : KeyPair) (height : Nat) (env : PaymentEnv) :
    Cast :=
  let isReference := env.params.isReference voter
  let ranked := r.checkAll env.chain env.now false
  let rank := ranked.rankOf? env.chain voter (height - paymentRankOffset) minVoterProtocol
  let r := if isReference then r else ranked
  if ¬ isReference ∧ ¬ rank.any (· ≤ voters) then ⟨⟨p, r⟩, [], none⟩
  else if height ≤ p.lastOwnHeight ∨ env.budget.isPaymentBlock height then ⟨⟨p, r⟩, [], none⟩
  else match env.chain.tip? with
    | none => ⟨⟨p, r⟩, [], none⟩
    | some tip =>
      let enabled := r.countEnabled 0
      let r := r.checkAll env.chain env.now false
      match p.choosePayee? r enabled tip height env with
      | none => ⟨⟨p, r⟩, [], none⟩
      | some payee =>
        let v := PaymentVote.create operator voter height payee
        match p.addVote env.chain v (env.params.voteWeight voter) with
        | none => ⟨⟨p, r⟩, [], none⟩
        | some p =>
          ⟨⟨{ p with lastOwnHeight := height }, r⟩, [.relay ⟨.paymentVote p.nodeClass, v.hash⟩], some v⟩

/-- Whether the program stops at a vote of this node's own, if one is cast: it makes the count of its payee run over. -/
def stopsAtOwn (p : Payments) (net : NetworkParams) (cast : Option PaymentVote) : Bool :=
  cast.any fun v => p.overruns v (net.voteWeight v.voter)

/-- Votes as `castVote` does, unless the program stops there. -/
def castVote? (p : Payments) (r : Registry) (voter : OutPoint) (operator : KeyPair) (height : Nat)
    (env : PaymentEnv) : Option Cast :=
  let cast := p.castVote r voter operator height env
  if p.stopsAtOwn env.params cast.vote then none else some cast

end Payments
end NodeQuorum
