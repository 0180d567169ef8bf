/-
  NodeQuorum.Proofs.Payment.Forged — how a forged payment vote silences its voter.

  Of each voter the height heard last is remembered, and that is written before the signature of a vote is looked at. So
  a vote that anybody makes up in the name of an entitled voter is refused for its signature, but its height stays:
  - `process_of_forged`: that is all that such a vote leaves in the votes (`remembering`).
  - `step_remembering`: until the next vote of the voter is heard, nothing tells whether a height was written.
  - `fares_remembering`: the next vote of the voter is refused if it is for the forged height, whoever signed it.
  `a_forged_vote_takes_the_place_of_the_next_one_for_its_height` says both, and what comes of any other next vote: only
  one for the height that the forged one made forgotten fares differently too, and is taken where it was refused.
-/

import NodeQuorum.Proofs.Payment.Age
import NodeQuorum.Proofs.Payment.OneVote
import NodeQuorum.Proofs.Quorum.OwnVotes

namespace NodeQuorum.Payments

variable {p : Payments} {r : Registry} {peer : Peer} {v : PaymentVote} {env : PaymentEnv} {w : OutPoint} {height : Nat}

/-! ## Refused for the signature -/

/-- A vote that passes every check before that of its signature, and not that one. -/
structure Forged (p : Payments) (r : Registry) (peer : Peer) (v : PaymentVote) (env : PaymentEnv) : Prop where
  heard : p.Heard r peer v env
  not_repeated : p.lastVote[v.voter]? ≠ some v.height
  unsigned : isSigned r v = false

/-- The registry once the voter was looked at. -/
def lookedAt (r : Registry) (v : PaymentVote) (env : PaymentEnv) : Registry :=
  if env.params.isReference v.voter then r else r.checkAll env.chain env.now false

theorem checkVoter_of_ok (h : (checkVoter r peer v env).2.2 = .ok ()) :
    checkVoter r peer v env = (lookedAt r v env, [], .ok ()) := by
  unfold checkVoter at h ⊢
  unfold lookedAt
  split
  · rfl
  · rename_i href
    rw [if_neg href] at h
    split
    · rename_i he
      rw [he] at h
      cases h
    · rename_i e he
      rw [he] at h
      dsimp only at h ⊢
      split
      · rename_i hold
        rw [if_pos hold] at h
        cases h
      · rename_i hcurrent
        rw [if_neg hcurrent] at h
        dsimp only at h
        rw [h]

theorem isSigned_lookedAt (r : Registry) (v : PaymentVote) (env : PaymentEnv) :
    isSigned (lookedAt r v env) v = isSigned r v := by
  unfold lookedAt
  split
  · rfl
  · rw [isSigned_eq, isSigned_eq, Registry.operatorKey_checkAll]

/-- A vote that is heard goes on to the check for a second one and to that of its signature. -/
theorem process_of_heard (h : p.Heard r peer v env) :
    p.process r peer v env =
      if p.lastVote[v.voter]? = some v.height then
        ⟨⟨p, lookedAt r v env⟩, [], .error (.stale (v.voter.text ++ " already voted for " ++ toString v.height))⟩
      else if isSigned r v then (p.noted v).count (lookedAt r v env) v env
      else
        ⟨⟨p.noted v, ((lookedAt r v env).askForEntry peer.id v.voter env.now).1⟩,
          ((lookedAt r v env).askForEntry peer.id v.voter env.now).2,
          .error (.badSignature (p.nodeClass.name ++ " winner from " ++ v.voter.text)
            (if env.synced then badVoteSignatureWeight else 0))⟩ := by
  unfold process
  rw [h.1, checkVoter_of_ok h.2]
  dsimp only
  by_cases hrepeated : p.lastVote[v.voter]? = some v.height
  · rw [if_pos hrepeated, show p.canVote v.voter v.height = (p, false) from if_pos hrepeated]
  · rw [if_neg hrepeated, show p.canVote v.voter v.height = (p.noted v, true) from if_neg hrepeated]
    dsimp only
    rw [isSigned_lookedAt]
    split
    · rfl
    · rfl

/-- All that a forged vote does: its height is noted for its voter, the registry is looked through as for any vote, and
    the voter is asked for. -/
theorem process_of_forged (h : p.Forged r peer v env) :
    p.process r peer v env =
      ⟨⟨p.noted v, ((lookedAt r v env).askForEntry peer.id v.voter env.now).1⟩,
        ((lookedAt r v env).askForEntry peer.id v.voter env.now).2,
        .error (.badSignature (p.nodeClass.name ++ " winner from " ++ v.voter.text)
          (if env.synced then badVoteSignatureWeight else 0))⟩ := by
  rw [process_of_heard h.heard, if_neg h.not_repeated, h.unsigned]
  exact if_neg Bool.false_ne_true

theorem checkVote_ne_badSignature {e : Reject} (h : p.checkVote r peer v env = .error e) (reason : String)
    (weight : Nat) : e ≠ .badSignature reason weight := by
  unfold checkVote at h
  rw [demand_bind_eq_error] at h
  rcases h with ⟨-, rfl⟩ | ⟨-, h⟩
  · exact nofun
  split at h
  · cases h
    exact nofun
  · simp only [demand_bind_eq_error, demand_eq_error] at h
    rcases h with ⟨-, rfl⟩ | ⟨-, -, rfl⟩
    · exact nofun
    · exact nofun

theorem checkVoter_ne_badSignature {e : Reject} (h : (checkVoter r peer v env).2.2 = .error e) (reason : String)
    (weight : Nat) : e ≠ .badSignature reason weight := by
  unfold checkVoter at h
  split at h
  · cases h
  split at h
  · cases h
    exact nofun
  split at h
  · cases h
    exact nofun
  dsimp only at h
  unfold checkRank at h
  split at h
  · cases h
    exact nofun
  dsimp only at h
  split at h
  · cases h
  split at h
  · cases h
    exact nofun
  · cases h
    exact nofun

theorem count_ne_badSignature (p : Payments) (r : Registry) (v : PaymentVote) (env : PaymentEnv) (reason : String)
    (weight : Nat) : (p.count r v env).verdict ≠ .error (.badSignature reason weight) := by
  unfold count
  split
  · exact nofun
  · exact nofun

/-- Votes are refused for their signatures only if they are forged. -/
theorem badSignature_iff : (∃ reason weight, (p.process r peer v env).verdict = .error (.badSignature reason weight)) ↔
    p.Forged r peer v env := by
  constructor
  · rintro ⟨reason, weight, hverdict⟩
    by_cases hheard : p.Heard r peer v env
    · rw [process_of_heard hheard] at hverdict
      split at hverdict
      · cases hverdict
      rename_i hrepeated
      split at hverdict
      · exact absurd hverdict (count_ne_badSignature _ _ _ _ _ _)
      rename_i hunsigned
      exact ⟨hheard, hrepeated, Bool.eq_false_iff.mpr hunsigned⟩
    · unfold process at hverdict
      split at hverdict
      · rename_i e he
        cases hverdict
        exact absurd rfl (checkVote_ne_badSignature he reason weight)
      rename_i hok
      split at hverdict
      · rename_i r' sent e he
        cases hverdict
        exact absurd rfl (checkVoter_ne_badSignature (congrArg (fun x => x.2.2) he) reason weight)
      · rename_i r' sent he
        exact absurd ⟨hok, congrArg (fun x => x.2.2) he⟩ hheard
  · intro h
    rw [process_of_forged h]
    exact ⟨_, _, rfl⟩

/-! ## Votes that differ in one remembered height -/

/-- The votes with a height remembered of a voter. -/
def remembering (p : Payments) (w : OutPoint) (height : Nat) : Payments :=
  { p with lastVote := p.lastVote.insert w height }

theorem noted_eq (p : Payments) (v : PaymentVote) : p.noted v = p.remembering v.voter v.height := rfl

theorem remembered_self (p : Payments) (w : OutPoint) (height : Nat) :
    (p.remembering w height).lastVote[w]? = some height := Std.ExtTreeMap.getElem?_insert_self

theorem remembered_of_ne {u : OutPoint} (h : w ≠ u) : (p.remembering w height).lastVote[u]? = p.lastVote[u]? :=
  (Table.lookup_insert _ _ _ _).trans (if_neg h)

theorem payments_ext {q : Payments} (hlast : ∀ u : OutPoint, q.lastVote[u]? = p.lastVote[u]?)
    (hrest : { q with lastVote := p.lastVote } = p) : q = p := by
  have h : q.lastVote = p.lastVote := Std.ExtTreeMap.ext_getElem? fun u => hlast u
  rw [← hrest, ← h]

/-- Heights of different voters are written independently. -/
theorem remembering_comm {u : OutPoint} (h : w ≠ u) (g : Nat) :
    (p.remembering w height).remembering u g = (p.remembering u g).remembering w height := by
  refine payments_ext ?_ rfl
  intro x
  simp only [remembering, Table.lookup_insert]
  by_cases hu : u = x
  · subst hu
    simp [h]
  · simp [hu]

/-- A height that is written over leaves no trace. -/
theorem remembering_remembering (g : Nat) : (p.remembering w height).remembering w g = p.remembering w g := by
  refine payments_ext ?_ rfl
  intro x
  simp only [remembering, Table.lookup_insert]
  split <;> rfl

theorem remembering_of_remembered (h : p.lastVote[w]? = some height) : p.remembering w height = p := by
  refine payments_ext ?_ rfl
  intro x
  simp only [remembering, Table.lookup_insert]
  by_cases hw : w = x
  · subst hw
    rw [if_pos rfl, h]
  · rw [if_neg hw]

/-- The same outcome with a height remembered of a voter. -/
def withRemembered (h : Handled PaymentState) (w : OutPoint) (height : Nat) : Handled PaymentState :=
  ⟨⟨h.state.payments.remembering w height, h.state.registry⟩, h.sent, h.verdict⟩

theorem addVote_remembering (c : Chain) (weight : Nat) :
    (p.remembering w height).addVote c v weight = (p.addVote c v weight).map fun q => q.remembering w height := by
  unfold addVote
  split
  · rfl
  · rw [show (p.remembering w height).votes = p.votes from rfl]
    split
    · rfl
    · rfl

theorem count_remembering (p : Payments) (r : Registry) (v : PaymentVote) (env : PaymentEnv) (w : OutPoint)
    (height : Nat) : (p.remembering w height).count r v env = withRemembered (p.count r v env) w height := by
  unfold count
  rw [addVote_remembering]
  cases p.addVote env.chain v (env.params.voteWeight v.voter) with
  | none => rfl
  | some q => rfl

/-- A vote of another voter, and one that is not heard, is handled the same. -/
theorem process_remembering (h : ¬ (v.voter = w ∧ p.Heard r peer v env)) (height : Nat) :
    (p.remembering w height).process r peer v env = withRemembered (p.process r peer v env) w height := by
  by_cases hheard : p.Heard r peer v env
  · have hother : w ≠ v.voter := fun hw => h ⟨hw.symm, hheard⟩
    have hheard' : (p.remembering w height).Heard r peer v env := hheard
    rw [process_of_heard hheard, process_of_heard hheard', remembered_of_ne hother, noted_eq, noted_eq,
      remembering_comm hother, count_remembering]
    split
    · rfl
    split
    · rfl
    · rfl
  · unfold process
    rw [show (p.remembering w height).checkVote r peer v env = p.checkVote r peer v env from rfl]
    cases hvote : p.checkVote r peer v env with
    | error e => rfl
    | ok _ =>
      dsimp only
      generalize hvoter : checkVoter r peer v env = voter
      obtain ⟨r', sent, outcome⟩ := voter
      cases outcome with
      | error e => rfl
      | ok _ => exact absurd ⟨hvote, congrArg (fun x => x.2.2) hvoter⟩ hheard

theorem paidHeight?_remembering (script : Script) (depth g : Nat) :
    (p.remembering w height).paidHeight? script depth g = p.paidHeight? script depth g := by
  have hagree : AgreeOn (Searched depth g) p (p.remembering w height) := fun _ _ => rfl
  exact paidHeight?_congr hagree script

/-- Whose turn it is to be paid does not depend on who was heard. -/
theorem choosePayee?_remembering (r : Registry) (enabled tip g : Nat) (env : PaymentEnv) :
    (p.remembering w height).choosePayee? r enabled tip g env = p.choosePayee? r enabled tip g env := by
  have hpaid : (fun e => (p.remembering w height).secondsSincePayment env.chain e enabled env.now) =
      fun e => p.secondsSincePayment env.chain e enabled env.now := by
    funext e
    unfold secondsSincePayment lastPaid
    simp only [paidHeight?_remembering]
  unfold choosePayee?
  dsimp only
  rw [hpaid]
  rfl

/-- A vote of this node's own is the same. -/
theorem castVote_remembering (p : Payments) (r : Registry) (voter : OutPoint) (operator : KeyPair) (g : Nat)
    (env : PaymentEnv) (w : OutPoint) (height : Nat) :
    (p.remembering w height).castVote r voter operator g env =
      let c := p.castVote r voter operator g env
      ⟨⟨c.state.payments.remembering w height, c.state.registry⟩, c.sent, c.vote⟩ := by
  unfold castVote
  dsimp only
  split
  · rfl
  rw [show (p.remembering w height).lastOwnHeight = p.lastOwnHeight from rfl]
  split
  · rfl
  split
  · rfl
  rw [choosePayee?_remembering]
  split
  · rfl
  rename_i payee _
  rw [addVote_remembering]
  cases p.addVote env.chain (PaymentVote.create operator voter g payee) (env.params.voteWeight voter) with
  | none => rfl
  | some q => rfl

/-! ## Until the voter is heard again -/

/-- What an event answers and sends, what it leaves of the registry that it was given, and which votes it drops. -/
structure Outcome where
  verdict : Option Verdict
  sent : List Outbound
  registry : Option Registry
  dropped : List Hash

def Outcome.ofHandled (h : Handled PaymentState) : Outcome := ⟨some h.verdict, h.sent, some h.state.registry, []⟩

def Outcome.ofCast (c : Cast) : Outcome := ⟨none, c.sent, some c.state.registry, []⟩

def outcome (net : NetworkParams) (p : Payments) : Event → Outcome
  | .receive r peer v env => .ofHandled (p.process r peer v { env with params := net })
  | .cast r voter operator height env => .ofCast (p.castVote r voter operator height { env with params := net })
  | .sweep tip registrySize => ⟨none, [], none, (p.sweep tip registrySize).2⟩
  | .clear => ⟨none, [], none, []⟩

/-- The outcomes of some events, one after the other. -/
def outcomes (net : NetworkParams) : Payments → List Event → List Outcome
  | _, [] => []
  | p, e :: rest => outcome net p e :: outcomes net (step net p e) rest

/-- An event is a vote of a voter that is heard. -/
def Hears (net : NetworkParams) (w : OutPoint) (p : Payments) : Event → Prop
  | .receive r peer v env => v.voter = w ∧ p.Heard r peer v { env with params := net }
  | _ => False

/-- No vote of a voter is heard in some events. -/
def Silent (net : NetworkParams) (w : OutPoint) : Payments → List Event → Prop
  | _, [] => True
  | p, e :: rest => ¬ Hears net w p e ∧ Silent net w (step net p e) rest

variable {net : NetworkParams} {e : Event}

/-- No other event reads or writes the height remembered of a voter, but that a clear forgets it. -/
theorem step_remembering (h : ¬ Hears net w p e) (hclear : e ≠ .clear) (height : Nat) :
    step net (p.remembering w height) e = (step net p e).remembering w height ∧
      outcome net (p.remembering w height) e = outcome net p e ∧ (step net p e).lastVote[w]? = p.lastVote[w]? := by
  cases e with
  | receive r peer v env =>
    have hprocess := process_remembering h height
    refine ⟨?_, ?_, ?_⟩
    · exact congrArg (fun h => h.state.payments) hprocess
    · have houtcome := congrArg Outcome.ofHandled hprocess
      exact houtcome
    · rcases process_cases p r peer v { env with params := net } with ⟨-, hq⟩ | ⟨-, -, hq⟩ | ⟨hheard, -, hq⟩
      · exact congrArg (fun q => q.lastVote[w]?) hq
      · exact congrArg (fun q => q.lastVote[w]?) hq
      · have hother : v.voter ≠ w := fun hw => h ⟨hw, hheard⟩
        rcases hq with ⟨-, hq⟩ | ⟨-, hq⟩
        · exact (congrArg (fun q => q.lastVote[w]?) hq).trans (remembered_of_ne hother)
        · exact (congrArg (fun q => q.lastVote[w]?) hq).trans (remembered_of_ne hother)
  | cast r voter operator g env =>
    have hcast := castVote_remembering p r voter operator g { env with params := net } w height
    refine ⟨?_, ?_, ?_⟩
    · exact congrArg (fun c => c.state.payments) hcast
    · have houtcome := congrArg Outcome.ofCast hcast
      exact houtcome
    · rcases castVote_cases p r voter operator g { env with params := net } with ⟨-, hq⟩ | ⟨v, -, -, -, -, -, hq⟩
      · exact congrArg (fun q => q.lastVote[w]?) hq
      · exact congrArg (fun q => q.lastVote[w]?) hq
  | sweep tip registrySize => exact ⟨rfl, rfl, rfl⟩
  | clear => exact absurd rfl hclear

/-- Until a vote of the voter is heard, all outcomes are the same, and the height stays remembered unless all is
    cleared. -/
theorem silent_remembering {more : List Event} (h : Silent net w p more) (height : Nat) :
    outcomes net (p.remembering w height) more = outcomes net p more ∧
      (.clear ∈ more → more.foldl (step net) (p.remembering w height) = more.foldl (step net) p) ∧
      (.clear ∉ more →
        more.foldl (step net) (p.remembering w height) = (more.foldl (step net) p).remembering w height ∧
          (more.foldl (step net) p).lastVote[w]? = p.lastVote[w]?) := by
  induction more generalizing p with
  | nil => exact ⟨rfl, nofun, fun _ => ⟨rfl, rfl⟩⟩
  | cons e rest ih =>
    obtain ⟨hfirst, hrest⟩ := h
    by_cases hclear : e = .clear
    · subst hclear
      have hsame : step net (p.remembering w height) .clear = step net p .clear := rfl
      simp only [outcomes, List.foldl_cons, hsame]
      exact ⟨rfl, fun _ => trivial, fun hnone => absurd List.mem_cons_self hnone⟩
    · obtain ⟨hstep, houtcome, hlast⟩ := step_remembering hfirst hclear height
      obtain ⟨houtcomes, hcleared, hkept⟩ := ih hrest
      have hmem : .clear ∈ e :: rest ↔ .clear ∈ rest := by simp [Ne.symm hclear]
      simp only [outcomes, List.foldl_cons, hstep, houtcome, houtcomes, hmem]
      exact ⟨trivial, hcleared, fun hnone => ⟨(hkept hnone).1, (hkept hnone).2.trans hlast⟩⟩

/-! ## The next vote of the voter -/

/-- A vote is refused since its voter was heard for its height last, and changes nothing. -/
def IsRepeated (net : NetworkParams) (p : Payments) (r : Registry) (peer : Peer) (v : PaymentVote) (env : PaymentEnv) :
    Prop :=
  (outcome net p (.receive r peer v env)).verdict =
      some (.error (.stale (v.voter.text ++ " already voted for " ++ toString v.height))) ∧
    step net p (.receive r peer v env) = p

/-- A vote is accepted, stored and counted. -/
def IsTaken (net : NetworkParams) (p : Payments) (r : Registry) (peer : Peer) (v : PaymentVote) (env : PaymentEnv) :
    Prop :=
  (∃ a, (outcome net p (.receive r peer v env)).verdict = some (.ok a)) ∧
    step net p (.receive r peer v env) = (p.noted v).withVote v (net.voteWeight v.voter)

theorem isRepeated_of_remembered (h : p.Heard r peer v { env with params := net })
    (hlast : p.lastVote[v.voter]? = some v.height) : IsRepeated net p r peer v env := by
  have hprocess := process_of_heard h
  rw [if_pos hlast] at hprocess
  have houtcome := congrArg Outcome.ofHandled hprocess
  exact ⟨congrArg Outcome.verdict houtcome, congrArg (fun h => h.state.payments) hprocess⟩

theorem entitled_of_heard (h : p.Heard r peer v env) : Entitled r v env := by
  refine Classical.byContradiction ?_
  intro hnot
  obtain ⟨r', sent, e, hvoter, -⟩ := checkVoter_of_not_entitled hnot peer
  have hok := h.2
  rw [hvoter] at hok
  cases hok

theorem isTaken_of_signed (h : p.Heard r peer v { env with params := net })
    (hlast : p.lastVote[v.voter]? ≠ some v.height) (hsigned : isSigned r v = true) : IsTaken net p r peer v env := by
  obtain ⟨hpeer, hunseen, hwindow⟩ := checkVote_eq_ok.mp h.1
  obtain ⟨r', hprocess⟩ :=
    process_of_eligible ⟨hpeer, hunseen, hwindow, entitled_of_heard h, hlast, isSigned_iff.mp hsigned⟩
  have houtcome := congrArg Outcome.ofHandled hprocess
  exact ⟨⟨_, congrArg Outcome.verdict houtcome⟩, congrArg (fun h => h.state.payments) hprocess⟩

theorem step_of_unsigned (h : p.Heard r peer v { env with params := net }) (hunsigned : isSigned r v = false) :
    step net p (.receive r peer v env) = p.noted v := by
  by_cases hlast : p.lastVote[v.voter]? = some v.height
  · rw [(isRepeated_of_remembered h hlast).2, noted_eq, remembering_of_remembered hlast]
  · exact congrArg (fun h => h.state.payments) (process_of_forged ⟨h, hlast, hunsigned⟩)

/-- A vote for a height that is remembered of its voter on neither side is handled the same on both. -/
theorem process_of_other_height (h : p.Heard r peer v env) (hother : v.height ≠ height)
    (hlast : p.lastVote[v.voter]? ≠ some v.height) :
    (p.remembering v.voter height).process r peer v env = p.process r peer v env := by
  have hheard : (p.remembering v.voter height).Heard r peer v env := h
  have hremembered : ¬ (p.remembering v.voter height).lastVote[v.voter]? = some v.height := by
    rw [remembered_self]
    exact fun he => hother (Option.some.inj he).symm
  rw [process_of_heard h, process_of_heard hheard, if_neg hlast, if_neg hremembered, noted_eq, noted_eq,
    remembering_remembering]
  rfl

/-- How the next vote heard of a voter fares where a forged height was written for it, and where it was not and the
    height before is remembered. -/
structure Fares (net : NetworkParams) (without withForged : Payments) (forged : Nat) (before : Option Nat)
    (r : Registry) (peer : Peer) (u : PaymentVote) (env : PaymentEnv) : Prop where
  /-- A vote for the forged height is refused; without the forged vote it would be taken if it is signed. -/
  silenced : u.height = forged → IsRepeated net withForged r peer u env ∧
    (isSigned r u = true → IsTaken net without r peer u env)
  /-- A vote for the height that was remembered before is taken a second time. -/
  again : u.height ≠ forged → before = some u.height → IsRepeated net without r peer u env ∧
    (isSigned r u = true → IsTaken net withForged r peer u env)
  other : u.height ≠ forged → before ≠ some u.height →
    outcome net withForged (.receive r peer u env) = outcome net without (.receive r peer u env) ∧
      step net withForged (.receive r peer u env) = step net without (.receive r peer u env)
  unsigned : isSigned r u = false →
    step net withForged (.receive r peer u env) = step net without (.receive r peer u env)

theorem fares_remembering (h : p.Heard r peer v { env with params := net })
    (hforged : p.lastVote[v.voter]? ≠ some height) :
    Fares net p (p.remembering v.voter height) height p.lastVote[v.voter]? r peer v env := by
  have hheard : (p.remembering v.voter height).Heard r peer v { env with params := net } := h
  have hself : (p.remembering v.voter height).lastVote[v.voter]? = some height := remembered_self p v.voter height
  refine ⟨?_, ?_, ?_, ?_⟩
  · rintro rfl
    exact ⟨isRepeated_of_remembered hheard hself, isTaken_of_signed h hforged⟩
  · intro hother hbefore
    have hnew : (p.remembering v.voter height).lastVote[v.voter]? ≠ some v.height := by
      rw [hself]
      exact fun he => hother (Option.some.inj he).symm
    exact ⟨isRepeated_of_remembered h hbefore, isTaken_of_signed hheard hnew⟩
  · intro hother hbefore
    have hsame := process_of_other_height h hother hbefore
    exact ⟨congrArg Outcome.ofHandled hsame, congrArg (fun h => h.state.payments) hsame⟩
  · intro hunsigned
    rw [step_of_unsigned h hunsigned, step_of_unsigned hheard hunsigned, noted_eq, noted_eq, remembering_remembering]

/-! ## Any state -/

/-- A received vote is refused for its signature exactly if it is forged. A forged vote changes nothing in the votes but
    the height that is remembered of the named voter, and announces nothing. As long as no further vote of the voter is
    heard, whatever else happens, with the same registries at hand, has the same outcomes as without the forged vote,
    and the same votes are stored and counted; and a clear makes both alike. Otherwise the next vote of the voter that
    is heard is refused if it is for the forged height, where it would be taken if it is signed; and if it is for the
    height that was remembered before, it is taken if it is signed, where it would be refused. A next vote for any other
    height, and one that is not signed, makes both alike again. -/
theorem a_forged_vote_takes_the_place_of_the_next_one_for_its_height (net : NetworkParams) (p : Payments) (r : Registry)
    (peer : Peer) (v : PaymentVote) (env : PaymentEnv) :
    let received : Event := .receive r peer v env
    let q := step net p received
    ((∃ reason weight, (outcome net p received).verdict = some (.error (.badSignature reason weight))) ↔
      p.Forged r peer v { env with params := net }) ∧
    (p.Forged r peer v { env with params := net } →
      q = { p with lastVote := p.lastVote.insert v.voter v.height } ∧ Unannounced (outcome net p received).sent ∧
      ∀ more, Silent net v.voter p more →
        let p' := more.foldl (step net) p
        let q' := more.foldl (step net) q
        outcomes net q more = outcomes net p more ∧ q'.votes = p'.votes ∧ q'.ballots = p'.ballots ∧
        (.clear ∈ more → q' = p') ∧
        (.clear ∉ more → ∀ r' peer' u env', u.voter = v.voter → p'.Heard r' peer' u { env' with params := net } →
          Fares net p' q' v.height p.lastVote[v.voter]? r' peer' u env')) := by
  intro received q
  refine ⟨?_, ?_⟩
  · rw [← badSignature_iff]
    exact exists₂_congr fun reason weight => Option.some_inj
  · intro hforged
    have hprocess := process_of_forged hforged
    have hq : q = p.remembering v.voter v.height := congrArg (fun h => h.state.payments) hprocess
    refine ⟨hq, ?_, ?_⟩
    · have houtcome := congrArg Outcome.ofHandled hprocess
      have hsent : (outcome net p received).sent = _ := congrArg Outcome.sent houtcome
      rw [hsent]
      exact unannounced_askForEntry _ peer.id v.voter env.now
    intro more hsilent p' q'
    obtain ⟨houtcomes, hcleared, hkept⟩ := silent_remembering hsilent v.height
    rw [← hq] at houtcomes hcleared hkept
    have hstored : q'.votes = p'.votes ∧ q'.ballots = p'.ballots := by
      show (more.foldl (step net) q).votes = _ ∧ (more.foldl (step net) q).ballots = _
      by_cases hclear : Event.clear ∈ more
      · rw [hcleared hclear]
        exact ⟨rfl, rfl⟩
      · rw [(hkept hclear).1]
        exact ⟨rfl, rfl⟩
    refine ⟨houtcomes, hstored.1, hstored.2, hcleared, ?_⟩
    intro hclear r' peer' u env' hvoter hheard
    obtain ⟨hq', hlast⟩ := hkept hclear
    have hnew : p'.lastVote[u.voter]? ≠ some v.height := by
      rw [hvoter, hlast]
      exact hforged.not_repeated
    have hfares := fares_remembering hheard hnew
    rw [hvoter, hlast] at hfares
    rwa [show q' = p'.remembering v.voter v.height from hq']

/-! ## The only node of a network -/

/-- What anybody may send in its name. -/
def madeUpVote : PaymentVote := ⟨⟨1, 0⟩, 21, [2], []⟩

section

open Registry (announcedOnce run_announcedOnce)

set_option maxRecDepth 20000

theorem genuineVote_heard :
    (empty .masternode).Heard (Registry.run .masternode announcedOnce) sender genuineVote castEnv := by
  rw [run_announcedOnce]
  decide +kernel

theorem genuineVote_signed : isSigned (Registry.run .masternode announcedOnce) genuineVote = true := by
  rw [run_announcedOnce]
  decide +kernel

theorem madeUpVote_forged :
    (empty .masternode).Forged (Registry.run .masternode announcedOnce) sender madeUpVote castEnv where
  heard := by
    rw [run_announcedOnce]
    decide +kernel
  not_repeated := by
    rw [show (empty .masternode).lastVote[madeUpVote.voter]? = none from Std.ExtTreeMap.getElem?_empty]
    exact nofun
  unsigned := by
    rw [run_announcedOnce]
    decide +kernel

/-- The vote of the node is taken, but not behind a vote that was made up in its name for the same height. -/
theorem the_only_node_is_silenced :
    let r := Registry.run .masternode announcedOnce
    let q := step castEnv.params (empty .masternode) (.receive r sender madeUpVote castEnv)
    IsTaken castEnv.params (empty .masternode) r sender genuineVote castEnv ∧
      IsRepeated castEnv.params q r sender genuineVote castEnv := by
  -- over variables, so that nothing is evaluated
  have hbehind : ∀ (p : Payments) (r : Registry) (peer : Peer) (v u : PaymentVote) (env : PaymentEnv),
      p.Forged r peer v env → u.voter = v.voter → u.height = v.height → p.Heard r peer u env → isSigned r u = true →
      IsTaken env.params p r peer u env ∧
        IsRepeated env.params (step env.params p (.receive r peer v env)) r peer u env := by
    intro p r peer v u env hforged hvoter hheight hheard hsigned
    obtain ⟨-, -, hsilent⟩ :=
      (a_forged_vote_takes_the_place_of_the_next_one_for_its_height env.params p r peer v env).2 hforged
    obtain ⟨-, -, -, -, hnext⟩ := hsilent [] trivial
    obtain ⟨hrepeated, htaken⟩ := (hnext nofun r peer u env hvoter hheard).silenced hheight
    exact ⟨htaken hsigned, hrepeated⟩
  exact hbehind _ _ _ _ _ _ madeUpVote_forged rfl rfl genuineVote_heard genuineVote_signed

end

end NodeQuorum.Payments
