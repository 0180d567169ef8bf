/-
  NodeQuorum.Proofs.Payment.VoteOrder — when two nodes with the same votes agree about a coinbase.

  The counts of a ballot do not depend on the order of the votes (`Ballot.votesFor_addAll`), but the order of its
  payees does: a payee stands where it was first named (`Ballot.scripts_prefix_addAll`). The check of a coinbase goes
  through the decided payees in that order, and the first one that is paid at all has to be paid in its place.
  - `Ballot.isSatisfied_iff_honoured`: unless one decided payee is paid in its place and another one elsewhere, the
    verdict is that of the rule: somebody decided is paid in its place.
  - `Ballot.isSatisfied_of_first`: a decided payee that is named first and paid settles the verdict alone.
  - `verdict_ignores_the_order_of_votes_unless_payments_are_split` puts both together for every list of votes that was
    added; `two_nodes_with_the_same_votes_disagree` is a coinbase that one of two nodes refuses.
-/

import NodeQuorum.Proofs.Payment.Tally

namespace NodeQuorum

/-! ## One ballot -/

namespace Ballot

/-- Names payees one after the other. -/
def addAll (b : Ballot) (names : List (Script × Nat)) : Ballot := names.foldl (fun b n => b.add n.1 n.2) b

/-- A script has the votes that it had and those it is named with. -/
theorem votesFor_addAll (b : Ballot) (names : List (Script × Nat)) (s : Script) :
    (b.addAll names).votesFor s =
      b.votesFor s + ((names.filter fun n => n.1 = s).map Prod.snd).foldr (· + ·) 0 := by
  induction names generalizing b with
  | nil => rfl
  | cons n rest ih =>
    have hrest := ih (b.add n.1 n.2)
    unfold addAll at hrest ⊢
    rw [List.foldl_cons, hrest, votesFor_add, List.filter_cons]
    by_cases hn : n.1 = s
    · rw [if_pos hn, if_pos (decide_eq_true hn), List.map_cons, List.foldr_cons, Nat.add_assoc]
    · rw [if_neg hn, if_neg (by simpa using hn), Nat.add_zero]

theorem nodup_addAll {b : Ballot} (h : (b.payees.map Payee.script).Nodup) (names : List (Script × Nat)) :
    ((b.addAll names).payees.map Payee.script).Nodup :=
  List.foldlRecOn (motive := fun b : Ballot => (b.payees.map Payee.script).Nodup) names _ h
    fun _ h n _ => nodup_add h n.1 n.2

/-- New payees come behind the others. -/
theorem scripts_prefix_add (b : Ballot) (s : Script) (weight : Nat) :
    b.payees.map Payee.script <+: (b.add s weight).payees.map Payee.script := by
  unfold add
  rw [map_script_tally]
  split
  · exact List.prefix_rfl
  · exact List.prefix_append _ _

theorem scripts_prefix_addAll (b : Ballot) (names : List (Script × Nat)) :
    b.payees.map Payee.script <+: (b.addAll names).payees.map Payee.script :=
  List.foldlRecOn (motive := fun b' : Ballot => b.payees.map Payee.script <+: b'.payees.map Payee.script) names _
    List.prefix_rfl fun b' h n _ => h.trans (scripts_prefix_add b' n.1 n.2)

/-! ## The verdict on a coinbase -/

variable {outputs : List TxOutput} {payment : UInt64} {slot i : Nat} {enforceSlot : Bool}

/-- The first of some payees that is paid the amount at all is paid in the place of the class, or places do not
    count. -/
def Paid (outputs : List TxOutput) (payment : UInt64) (slot : Nat) (enforceSlot : Bool) (ps : List Payee) : Prop :=
  ∃ p i, ps.find? (fun q => (position? outputs q.script payment).isSome) = some p ∧
    position? outputs p.script payment = some i ∧ (enforceSlot = true → i = slot)

theorem paysOneOf_iff {ps : List Payee} :
    paysOneOf outputs payment slot enforceSlot ps = true ↔ Paid outputs payment slot enforceSlot ps := by
  unfold Paid
  induction ps with
  | nil =>
    refine iff_of_false nofun ?_
    rintro ⟨p, i, hfind, -⟩
    cases hfind
  | cons p rest ih =>
    unfold paysOneOf
    rw [List.find?_cons]
    cases hp : position? outputs p.script payment with
    | none => exact ih
    | some i =>
      have hplace : (!enforceSlot || i == slot) = true ↔ (enforceSlot = true → i = slot) := by
        cases enforceSlot <;> simp
      simp only [Option.isSome_some, Option.some.injEq]
      rw [hplace]
      constructor
      · intro h
        exact ⟨p, i, rfl, hp, h⟩
      · rintro ⟨q, j, rfl, hj, h⟩
        rw [hp, Option.some.injEq] at hj
        rw [hj]
        exact h

/-- Outputs that pass pay somebody in its place. -/
theorem exists_of_paysOneOf {ps : List Payee} (h : paysOneOf outputs payment slot enforceSlot ps = true) :
    ∃ p ∈ ps, ∃ i, position? outputs p.script payment = some i ∧ (enforceSlot = true → i = slot) := by
  obtain ⟨p, i, hfirst, hpaid, hplace⟩ := paysOneOf_iff.mp h
  exact ⟨p, List.mem_of_find?_eq_some hfirst, i, hpaid, hplace⟩

/-- Outputs that pay somebody pass, if nobody is paid out of its place. -/
theorem paysOneOf_of_mem {ps : List Payee} {p : Payee} (hp : p ∈ ps)
    (hpaid : position? outputs p.script payment = some i)
    (hplace : ∀ q ∈ ps, ∀ j, position? outputs q.script payment = some j → enforceSlot = true → j = slot) :
    paysOneOf outputs payment slot enforceSlot ps = true := by
  rw [paysOneOf_iff]
  cases hfirst : ps.find? (fun q => (position? outputs q.script payment).isSome) with
  | none =>
    have hunpaid := List.find?_eq_none.mp hfirst p hp
    rw [hpaid] at hunpaid
    exact absurd rfl hunpaid
  | some q =>
    have hq := List.find?_some hfirst
    obtain ⟨j, hj⟩ := Option.isSome_iff_exists.mp hq
    exact ⟨q, j, hfirst, hj, hplace q (List.mem_of_find?_eq_some hfirst) j hj⟩

/-- Nobody is decided, or a decided payee is paid in its place. -/
def Honoured (b : Ballot) (outputs : List TxOutput) (payment : UInt64) (slot : Nat) (enforceSlot : Bool) : Prop :=
  (∀ s, b.votesFor s < paymentVotesRequired) ∨
    ∃ s i, paymentVotesRequired ≤ b.votesFor s ∧ position? outputs s payment = some i ∧ (enforceSlot = true → i = slot)

/-- One decided payee is paid in the place of the class, and another one elsewhere. -/
def Split (b : Ballot) (outputs : List TxOutput) (payment : UInt64) (slot : Nat) : Prop :=
  (∃ s, paymentVotesRequired ≤ b.votesFor s ∧ position? outputs s payment = some slot) ∧
    ∃ s i, paymentVotesRequired ≤ b.votesFor s ∧ position? outputs s payment = some i ∧ i ≠ slot

/-- Only the counts matter for either. -/
theorem honoured_congr {b b' : Ballot} (h : ∀ s, b'.votesFor s = b.votesFor s) :
    b'.Honoured outputs payment slot enforceSlot ↔ b.Honoured outputs payment slot enforceSlot := by
  unfold Honoured
  simp only [h]

theorem split_congr {b b' : Ballot} (h : ∀ s, b'.votesFor s = b.votesFor s) :
    b'.Split outputs payment slot ↔ b.Split outputs payment slot := by
  unfold Split
  simp only [h]

theorem isDecided_eq_false_iff {b : Ballot} (h : (b.payees.map Payee.script).Nodup) :
    b.isDecided = false ↔ ∀ s, b.votesFor s < paymentVotesRequired := by
  unfold isDecided
  rw [List.any_eq_false]
  simp only [decide_eq_true_eq, Nat.not_le]
  constructor
  · intro hnone s
    refine Nat.lt_of_not_le ?_
    intro hs
    obtain ⟨p, hp, -, hvotes⟩ := mem_of_votesFor_pos (Nat.lt_of_lt_of_le (by decide) hs)
    have hfew := hnone p hp
    omega
  · intro hnone p hp
    rw [← votesFor_of_mem b.height h hp]
    exact hnone p.script

/-- What passes honours the ballot. -/
theorem honoured_of_isSatisfied {b : Ballot} (h : (b.payees.map Payee.script).Nodup) {tx : Transaction}
    (hsat : b.isSatisfied tx payment slot enforceSlot = true) : b.Honoured tx.outputs payment slot enforceSlot := by
  unfold isSatisfied at hsat
  rw [Bool.or_eq_true, Bool.not_eq_true'] at hsat
  rcases hsat with hnone | hpays
  · exact Or.inl ((isDecided_eq_false_iff h).mp hnone)
  · obtain ⟨p, hp, i, hpaid, hplace⟩ := exists_of_paysOneOf hpays
    exact Or.inr ⟨p.script, i, (decided_iff h p.script).mp (List.mem_map_of_mem hp), hpaid, hplace⟩

/-- What honours the ballot passes, unless the payments of decided payees are split where places count. -/
theorem isSatisfied_iff_honoured {b : Ballot} (h : (b.payees.map Payee.script).Nodup) {tx : Transaction}
    (hsplit : ¬ (enforceSlot = true ∧ b.Split tx.outputs payment slot)) :
    b.isSatisfied tx payment slot enforceSlot = true ↔ b.Honoured tx.outputs payment slot enforceSlot := by
  refine ⟨honoured_of_isSatisfied h, ?_⟩
  unfold isSatisfied
  rw [Bool.or_eq_true, Bool.not_eq_true']
  rintro (hnone | ⟨s, i, hvotes, hpaid, hplace⟩)
  · exact Or.inl ((isDecided_eq_false_iff h).mpr hnone)
  obtain ⟨p, hp, rfl⟩ := List.mem_map.mp ((decided_iff h s).mpr hvotes)
  refine Or.inr (paysOneOf_of_mem hp hpaid ?_)
  intro q hq j hj henforce
  refine Decidable.byContradiction ?_
  intro hj'
  have hq' := (decided_iff h q.script).mp (List.mem_map_of_mem hq)
  exact hsplit ⟨henforce, ⟨p.script, hvotes, hplace henforce ▸ hpaid⟩, q.script, j, hq', hj, hj'⟩

/-- A decided payee that is named first and paid settles the verdict. -/
theorem isSatisfied_of_first {b : Ballot} (h : (b.payees.map Payee.script).Nodup) {s : Script}
    (hfirst : [s] <+: b.payees.map Payee.script) (hvotes : paymentVotesRequired ≤ b.votesFor s) {tx : Transaction}
    (hpaid : position? tx.outputs s payment = some i) :
    b.isSatisfied tx payment slot enforceSlot = (!enforceSlot || i == slot) := by
  obtain ⟨p, rest, hps, rfl⟩ : ∃ p rest, b.payees = p :: rest ∧ p.script = s := by
    cases hps : b.payees with
    | nil => simp [hps] at hfirst
    | cons p rest =>
      rw [hps, List.map_cons, List.cons_prefix_cons] at hfirst
      exact ⟨p, rest, rfl, hfirst.1.symm⟩
  have hp : p ∈ b.payees := hps ▸ List.mem_cons_self
  have hown : paymentVotesRequired ≤ p.votes := votesFor_of_mem b.height h hp ▸ hvotes
  have hdecided : b.isDecided = true := List.any_eq_true.mpr ⟨p, hp, decide_eq_true hown⟩
  unfold isSatisfied decided
  rw [hdecided, hps, List.filter_cons, if_pos (decide_eq_true hown)]
  unfold paysOneOf
  rw [hpaid]
  rfl

end Ballot

namespace Payments

/-! ## Adding votes -/

/-- A vote that comes in with its weight while a chain stands. -/
structure Arrival where
  chain : Chain
  vote : PaymentVote
  weight : Nat

/-- What is counted of it. -/
def Arrival.counted (a : Arrival) : PaymentVote × Nat := (a.vote, a.weight)

/-- Adds votes one after the other; none if one of them is not added. -/
def addAll (p : Payments) (as : List Arrival) : Option Payments :=
  as.foldlM (fun p a => p.addVote a.chain a.vote a.weight) p

/-- The votes with more that are counted. -/
def withVotes (p : Payments) (cs : List (PaymentVote × Nat)) : Payments :=
  cs.foldl (fun p c => p.withVote c.1 c.2) p

/-- What is new behind a vote is new before it, and not the same vote. -/
theorem new_withVote_iff {p : Payments} {v : PaymentVote} {weight : Nat} {h : Hash} :
    (p.withVote v weight).votes[h]? = none ↔ v.hash ≠ h ∧ p.votes[h]? = none := by
  have hlookup : (p.withVote v weight).votes[h]? = if v.hash = h then some v else p.votes[h]? :=
    Table.lookup_insert p.votes v.hash h v
  rw [hlookup]
  by_cases hsame : v.hash = h
  · simp [hsame]
  · simp [hsame]

/-- Votes are all added exactly if the rank of each can be told and each is new, also among themselves. -/
theorem addAll_eq_some {p q : Payments} {as : List Arrival} :
    p.addAll as = some q ↔
      (∀ a ∈ as, Ranked a.chain a.vote) ∧ (as.map fun a => a.vote.hash).Nodup ∧
        (∀ a ∈ as, p.votes[a.vote.hash]? = none) ∧ q = p.withVotes (as.map Arrival.counted) := by
  induction as generalizing p with
  | nil =>
    have heq : p.addAll [] = some q ↔ p = q := Option.some_inj
    rw [heq]
    simp [withVotes, eq_comm]
  | cons a rest ih =>
    have hcons : p.addAll (a :: rest) = (p.addVote a.chain a.vote a.weight).bind fun p => p.addAll rest := by
      unfold addAll
      rw [List.foldlM_cons]
      rfl
    rw [hcons, Option.bind_eq_some_iff]
    simp only [addVote_eq_some, ih, List.forall_mem_cons, List.map_cons, List.nodup_cons, List.mem_map, not_exists,
      not_and]
    constructor
    · rintro ⟨_, ⟨hrank, hown, rfl⟩, hranks, hdistinct, hnew, rfl⟩
      exact ⟨⟨hrank, hranks⟩, ⟨fun b hb => Ne.symm (new_withVote_iff.mp (hnew b hb)).1, hdistinct⟩,
        ⟨hown, fun b hb => (new_withVote_iff.mp (hnew b hb)).2⟩, rfl⟩
    · rintro ⟨⟨hrank, hranks⟩, ⟨hother, hdistinct⟩, ⟨hown, hall⟩, rfl⟩
      exact ⟨_, ⟨hrank, hown, rfl⟩, hranks, hdistinct,
        fun b hb => new_withVote_iff.mpr ⟨Ne.symm (hother b hb), hall b hb⟩, rfl⟩

/-- Votes that are all added in one order are all added in every order. -/
theorem addAll_of_perm {p q : Payments} {as bs : List Arrival} (h : p.addAll as = some q) (hperm : bs.Perm as) :
    p.addAll bs = some (p.withVotes (bs.map Arrival.counted)) := by
  obtain ⟨hranks, hdistinct, hnew, -⟩ := addAll_eq_some.mp h
  exact addAll_eq_some.mpr ⟨fun a ha => hranks a (hperm.mem_iff.mp ha), (hperm.map _).nodup_iff.mpr hdistinct,
    fun a ha => hnew a (hperm.mem_iff.mp ha), rfl⟩

/-! ## The ballot of a height -/

/-- The ballot of a height, an empty one if there is none. -/
def ballotAt (p : Payments) (height : Nat) : Ballot := p.ballots.getD height (.empty height)

/-- The payees that votes name for a height, with the weights. -/
def namedAt (height : Nat) (cs : List (PaymentVote × Nat)) : List (Script × Nat) :=
  (cs.filter fun c => c.1.height = height).map fun c => (c.1.payee, c.2)

theorem isTransactionValid_eq (p : Payments) (tx : Transaction) (height : Nat) (value : UInt64) (posStartHeight : Nat) :
    p.isTransactionValid tx height value posStartHeight =
      (p.ballotAt height).isSatisfied tx (p.params.payment value) p.params.slot (decide (posStartHeight ≤ height)) := by
  unfold isTransactionValid ballotAt
  rw [Std.ExtTreeMap.getD_eq_getD_getElem?]
  cases p.ballots[height]? with
  | none => rfl
  | some b => rfl

theorem ballotAt_withVote (p : Payments) (v : PaymentVote) (weight height : Nat) :
    (p.withVote v weight).ballotAt height =
      if v.height = height then (p.ballotAt height).add v.payee weight else p.ballotAt height := by
  unfold withVote ballotAt
  rw [Std.ExtTreeMap.getD_eq_getD_getElem?, Table.lookup_insert]
  by_cases hv : v.height = height
  · subst hv
    rw [if_pos rfl, if_pos rfl]
    rfl
  · rw [if_neg hv, if_neg hv, Std.ExtTreeMap.getD_eq_getD_getElem?]

theorem ballotAt_withVotes (p : Payments) (cs : List (PaymentVote × Nat)) (height : Nat) :
    (p.withVotes cs).ballotAt height = (p.ballotAt height).addAll (namedAt height cs) := by
  induction cs generalizing p with
  | nil => rfl
  | cons c rest ih =>
    have hrest := ih (p.withVote c.1 c.2)
    rw [ballotAt_withVote] at hrest
    have hcons : p.withVotes (c :: rest) = (p.withVote c.1 c.2).withVotes rest := rfl
    rw [hcons, hrest]
    unfold namedAt
    by_cases hc : c.1.height = height
    · rw [if_pos hc, List.filter_cons, if_pos (decide_eq_true hc)]
      rfl
    · rw [if_neg hc, List.filter_cons, if_neg (by simpa using hc)]

theorem params_withVotes (p : Payments) (cs : List (PaymentVote × Nat)) : (p.withVotes cs).params = p.params :=
  List.foldlRecOn (motive := fun q : Payments => q.params = p.params) cs _ rfl fun _ h _ _ => h

/-- The ballot of a height after votes alone. -/
theorem ballotAt_empty_withVotes (params : ClassParams) (cs : List (PaymentVote × Nat)) (height : Nat) :
    ((empty params).withVotes cs).ballotAt height = (Ballot.empty height).addAll (namedAt height cs) := by
  rw [ballotAt_withVotes]
  unfold ballotAt empty
  rw [Std.ExtTreeMap.getD_eq_getD_getElem?, Std.ExtTreeMap.getElem?_empty]
  rfl

theorem nodup_ballotAt (params : ClassParams) (cs : List (PaymentVote × Nat)) (height : Nat) :
    ((((empty params).withVotes cs).ballotAt height).payees.map Payee.script).Nodup := by
  have hempty : ((Ballot.empty height).payees.map Payee.script).Nodup := List.nodup_nil
  rw [ballotAt_empty_withVotes]
  exact Ballot.nodup_addAll hempty _

/-- The counts do not depend on the order of the votes. -/
theorem votesFor_of_perm {cs cs' : List (PaymentVote × Nat)} (h : cs'.Perm cs) (params : ClassParams) (height : Nat)
    (s : Script) :
    (((empty params).withVotes cs').ballotAt height).votesFor s =
      (((empty params).withVotes cs).ballotAt height).votesFor s := by
  have hnamed : (namedAt height cs').Perm (namedAt height cs) := (h.filter _).map _
  have hsum := ((hnamed.filter fun n => decide (n.1 = s)).map Prod.snd).sum_nat
  rw [List.sum_eq_foldr, List.sum_eq_foldr] at hsum
  rw [ballotAt_empty_withVotes, ballotAt_empty_withVotes, Ballot.votesFor_addAll, Ballot.votesFor_addAll, hsum]

/-- Who has votes was voted for. -/
theorem exists_vote_of_votesFor {cs : List (PaymentVote × Nat)} {params : ClassParams} {height : Nat} {s : Script}
    (h : 0 < (((empty params).withVotes cs).ballotAt height).votesFor s) :
    ∃ c ∈ cs, c.1.height = height ∧ c.1.payee = s := by
  rw [ballotAt_empty_withVotes, Ballot.votesFor_addAll] at h
  have hzero : (Ballot.empty height).votesFor s = 0 := rfl
  rw [hzero, Nat.zero_add] at h
  have hne : (namedAt height cs).filter (fun n => n.1 = s) ≠ [] := by
    intro hnil
    rw [hnil] at h
    exact Nat.lt_irrefl 0 h
  obtain ⟨n, hn⟩ := List.exists_mem_of_ne_nil _ hne
  obtain ⟨hnamed, hs⟩ := List.mem_filter.mp hn
  unfold namedAt at hnamed
  obtain ⟨c, hc, rfl⟩ := List.mem_map.mp hnamed
  obtain ⟨hmem, hheight⟩ := List.mem_filter.mp hc
  exact ⟨c, hmem, of_decide_eq_true hheight, of_decide_eq_true hs⟩

/-- The payee of the first vote for a height is named first. -/
theorem named_first {c : PaymentVote × Nat} {height : Nat} (hc : c.1.height = height) (params : ClassParams)
    (cs : List (PaymentVote × Nat)) :
    [c.1.payee] <+: (((empty params).withVotes (c :: cs)).ballotAt height).payees.map Payee.script := by
  have hnamed : namedAt height (c :: cs) = (c.1.payee, c.2) :: namedAt height cs := by
    unfold namedAt
    rw [List.filter_cons, if_pos (decide_eq_true hc), List.map_cons]
  rw [ballotAt_empty_withVotes, hnamed]
  exact Ballot.scripts_prefix_addAll ((Ballot.empty height).add c.1.payee c.2) (namedAt height cs)

/-! ## Two orders -/

variable {params : ClassParams} {as : List Arrival} {p : Payments} {tx : Transaction} {height posStartHeight i : Nat}
  {value : UInt64}

theorem isTransactionValid_withVotes (params : ClassParams) (cs : List (PaymentVote × Nat)) (tx : Transaction)
    (height : Nat) (value : UInt64) (posStartHeight : Nat) :
    ((empty params).withVotes cs).isTransactionValid tx height value posStartHeight =
      (((empty params).withVotes cs).ballotAt height).isSatisfied tx (params.payment value) params.slot
        (decide (posStartHeight ≤ height)) := by
  rw [isTransactionValid_eq, params_withVotes]
  rfl

/-- A decided payee that is paid settles the verdict in some order of the votes. -/
theorem exists_order_settled_by (h : (empty params).addAll as = some p) {s : Script}
    (hvotes : paymentVotesRequired ≤ (p.ballotAt height).votesFor s)
    (hpaid : Ballot.position? tx.outputs s (params.payment value) = some i) (hplaces : posStartHeight ≤ height) :
    ∃ bs q, bs.Perm as ∧ (empty params).addAll bs = some q ∧
      q.isTransactionValid tx height value posStartHeight = (i == params.slot) := by
  obtain ⟨-, -, -, rfl⟩ := addAll_eq_some.mp h
  obtain ⟨c, hc, hheight, hpayee⟩ := exists_vote_of_votesFor (Nat.lt_of_lt_of_le (by decide) hvotes)
  obtain ⟨a, ha, rfl⟩ := List.mem_map.mp hc
  obtain ⟨before, after, rfl⟩ := List.mem_iff_append.mp ha
  -- the order in which its vote comes first
  have hperm : (a :: (before ++ after)).Perm (before ++ a :: after) := List.perm_middle.symm
  refine ⟨_, _, hperm, addAll_of_perm h hperm, ?_⟩
  have hfirst := named_first hheight params ((before ++ after).map Arrival.counted)
  rw [hpayee, ← List.map_cons] at hfirst
  have hcounts := votesFor_of_perm (hperm.map Arrival.counted) params height s
  rw [isTransactionValid_withVotes,
    Ballot.isSatisfied_of_first (nodup_ballotAt params _ height) hfirst (hcounts ▸ hvotes) hpaid,
    decide_eq_true hplaces]
  rfl

/-- Whatever votes were added in whatever order, a coinbase that is valid honours its ballot. It is valid in every
    order of the votes or in none, unless the places of payments count and one decided payee is paid in the place of
    the class and another one elsewhere; then there is an order in which it is valid and one in which it is not. But
    for that case what honours the ballot is valid. -/
theorem verdict_ignores_the_order_of_votes_unless_payments_are_split (params : ClassParams) (as : List Arrival)
    (p : Payments) (h : (empty params).addAll as = some p) (tx : Transaction) (height : Nat) (value : UInt64)
    (posStartHeight : Nat) :
    (p.isTransactionValid tx height value posStartHeight = true →
      (p.ballotAt height).Honoured tx.outputs (params.payment value) params.slot (decide (posStartHeight ≤ height))) ∧
    (¬ (posStartHeight ≤ height ∧ (p.ballotAt height).Split tx.outputs (params.payment value) params.slot) →
      (p.ballotAt height).Honoured tx.outputs (params.payment value) params.slot (decide (posStartHeight ≤ height)) →
      p.isTransactionValid tx height value posStartHeight = true) ∧
    ((∀ bs q, (bs.map Arrival.counted).Perm (as.map Arrival.counted) → (empty params).addAll bs = some q →
      q.isTransactionValid tx height value posStartHeight = p.isTransactionValid tx height value posStartHeight) ↔
    ¬ (posStartHeight ≤ height ∧ (p.ballotAt height).Split tx.outputs (params.payment value) params.slot)) := by
  obtain ⟨-, -, -, hp⟩ := addAll_eq_some.mp h
  have hnodup := nodup_ballotAt params (as.map Arrival.counted) height
  have hiff : ¬ (posStartHeight ≤ height ∧ (p.ballotAt height).Split tx.outputs (params.payment value) params.slot) →
      (p.isTransactionValid tx height value posStartHeight = true ↔ (p.ballotAt height).Honoured tx.outputs
        (params.payment value) params.slot (decide (posStartHeight ≤ height))) := by
    intro hsplit
    rw [hp] at hsplit ⊢
    rw [isTransactionValid_withVotes]
    exact Ballot.isSatisfied_iff_honoured hnodup fun hs => hsplit ⟨of_decide_eq_true hs.1, hs.2⟩
  refine ⟨?_, fun hsplit => (hiff hsplit).mpr, ?_, ?_⟩
  · rw [hp, isTransactionValid_withVotes]
    exact Ballot.honoured_of_isSatisfied hnodup
  · rintro hfree ⟨hplaces, ⟨s, hvotes, hpaid⟩, s', i, hvotes', hpaid', hi⟩
    obtain ⟨bs, q, hperm, hq, hvalid⟩ := exists_order_settled_by h hvotes hpaid hplaces
    obtain ⟨bs', q', hperm', hq', hinvalid⟩ := exists_order_settled_by h hvotes' hpaid' hplaces
    rw [hfree bs q (hperm.map _) hq, beq_self_eq_true] at hvalid
    rw [hfree bs' q' (hperm'.map _) hq', hvalid, eq_comm, beq_iff_eq] at hinvalid
    exact hi hinvalid
  · intro hsplit bs q hperm hq
    obtain ⟨-, -, -, rfl⟩ := addAll_eq_some.mp hq
    have hcounts : ∀ s, (((empty params).withVotes (bs.map Arrival.counted)).ballotAt height).votesFor s =
        (p.ballotAt height).votesFor s := by
      intro s
      rw [hp]
      exact votesFor_of_perm hperm params height s
    have hsplit' : ¬ (decide (posStartHeight ≤ height) = true ∧
        (((empty params).withVotes (bs.map Arrival.counted)).ballotAt height).Split tx.outputs (params.payment value)
          params.slot) := by
      rintro ⟨hplaces, hs⟩
      exact hsplit ⟨of_decide_eq_true hplaces, (Ballot.split_congr hcounts).mp hs⟩
    rw [Bool.eq_iff_iff, hiff hsplit, isTransactionValid_withVotes,
      Ballot.isSatisfied_iff_honoured (nodup_ballotAt params _ height) hsplit']
    exact Ballot.honoured_congr hcounts

/-- The vote of a reference node. -/
def firstVote : Arrival where
  chain := { Chain.empty with blocks := #[⟨7, 0⟩] }
  vote := { voter := ⟨1, 0⟩, height := 5, payee := [0x51], signature := [] }
  weight := NetworkParams.referenceWeight

/-- The vote of another one for another payee. -/
def secondVote : Arrival :=
  { firstVote with vote := { voter := ⟨2, 0⟩, height := 5, payee := [0x52], signature := [] } }

/-- A coinbase that pays the second payee in the output of the masternodes, and the first one elsewhere. -/
def splitCoinbase : Transaction := .coinbase 1 5 [⟨450, [0x51]⟩, ⟨450, [0x52]⟩] 0

theorem both_votes_are_added : (empty .masternode).addAll [firstVote, secondVote] =
    some ((empty .masternode).withVotes ([firstVote, secondVote].map Arrival.counted)) := by
  have hranked : ∀ a ∈ [firstVote, secondVote], Ranked a.chain a.vote := by
    refine List.forall_mem_cons.mpr ⟨?_, List.forall_mem_singleton.mpr ?_⟩
    · exact ⟨7, rfl⟩
    · exact ⟨7, rfl⟩
  exact addAll_eq_some.mpr ⟨hranked, by decide +kernel, by simp [empty], rfl⟩

/-- One of two nodes that hold both votes refuses the coinbase. -/
theorem two_nodes_with_the_same_votes_disagree :
    ∃ p, (empty .masternode).addAll [firstVote, secondVote] = some p ∧
      ¬ ∀ bs q, (bs.map Arrival.counted).Perm ([firstVote, secondVote].map Arrival.counted) →
        (empty .masternode).addAll bs = some q →
        q.isTransactionValid splitCoinbase 5 1000 0 = p.isTransactionValid splitCoinbase 5 1000 0 := by
  refine ⟨_, both_votes_are_added, ?_⟩
  have hiff := (verdict_ignores_the_order_of_votes_unless_payments_are_split .masternode [firstVote, secondVote] _
    both_votes_are_added splitCoinbase 5 1000 0).2.2
  have hsplit : (((empty .masternode).withVotes ([firstVote, secondVote].map Arrival.counted)).ballotAt 5).Split
      splitCoinbase.outputs (ClassParams.masternode.payment 1000) ClassParams.masternode.slot := by
    rw [ballotAt_empty_withVotes]
    exact ⟨⟨[0x52], by decide, by decide⟩, [0x51], 0, by decide, by decide, by decide⟩
  exact fun hsame => hiff.mp hsame ⟨Nat.zero_le 5, hsplit⟩

end Payments
end NodeQuorum
