/-
  NodeQuorum.Proofs.Registry.Turn — whose turn it is to be paid.

  The queue is sorted by how long its nodes have waited, the first tenth of the network is cut off, and what is left is
  ranked by score. The choice is told without sorting, by counting how many nodes of the queue stand ahead of a node:
  - `Qualifies`, `AnnouncedLongAgo`, `queue`: who is in the queue, and when the age of announcements counts.
  - `Ahead`: the order of the queue. `mem_shortlist` says that the cut leaves the nodes with less than a tenth of the
    network ahead of them, also where several have waited equally long.
  - `head?_rank_eq_some`: the node with the best score of these.
  `the_best_of_those_who_waited_longest_is_paid` puts them together for every registry.
-/

import NodeQuorum.Proofs.Registry.Ranks

namespace NodeQuorum

/-! ## The first items of a sorted list -/

section

variable {α : Type} {before : α → α → Bool} {items : List α} {a : α} {i k : Nat}

/-- In a sorted list no more items go strictly before an item than stand in front of it. -/
theorem countP_ahead_le (hsorted : items.Pairwise fun x y => before x y = true) (hrefl : before a a = true)
    (ha : items[i]? = some a) : items.countP (fun b => !before a b) ≤ i := by
  obtain ⟨hi, rfl⟩ := List.getElem?_eq_some_iff.mp ha
  have hbehind : (items.drop i).countP (fun b => !before items[i] b) = 0 := by
    rw [List.countP_eq_zero]
    have hdrop := hsorted.sublist (List.drop_sublist i items)
    rw [List.drop_eq_getElem_cons hi] at hdrop ⊢
    intro b hb
    rcases List.mem_cons.mp hb with rfl | hb
    · simp [hrefl]
    · simp [(List.pairwise_cons.mp hdrop).1 b hb]
  calc items.countP (fun b => !before items[i] b)
      = (items.take i).countP (fun b => !before items[i] b) +
          (items.drop i).countP (fun b => !before items[i] b) := by
        rw [← List.countP_append, List.take_append_drop]
    _ ≤ (items.take i).length + 0 := Nat.add_le_add List.countP_le_length (Nat.le_of_eq hbehind)
    _ ≤ i := by
        rw [Nat.add_zero, List.length_take]
        exact Nat.min_le_left _ _

/-- An item with few items strictly before it is among the first, or an equal one is. -/
theorem exists_mem_take_of_countP_lt (hsorted : items.Pairwise fun x y => before x y = true)
    (hrefl : before a a = true) (ha : a ∈ items) (hcount : items.countP (fun b => !before a b) < k) :
    ∃ b ∈ items.take k, before a b = true ∧ before b a = true := by
  by_cases hfirst : a ∈ items.take k
  · exact ⟨a, hfirst, hrefl, hrefl⟩
  have hdrop : a ∈ items.drop k := by
    rw [← List.take_append_drop k items] at ha
    exact (List.mem_append.mp ha).resolve_left hfirst
  rw [← List.take_append_drop k items] at hsorted hcount
  have hfront := (List.pairwise_append.mp hsorted).2.2
  by_cases hequal : ∃ b ∈ items.take k, before a b = true
  · obtain ⟨b, hb, hab⟩ := hequal
    exact ⟨b, hb, hab, hfront b hb a hdrop⟩
  · -- all of the first are strictly before it, and there are enough of them
    exfalso
    have hall : (items.take k).countP (fun b => !before a b) = (items.take k).length := by
      rw [List.countP_eq_length]
      intro b hb
      simpa using fun hab => hequal ⟨b, hb, hab⟩
    have hlong : 0 < items.length - k := by
      have hpos := List.length_pos_of_mem hdrop
      rwa [List.length_drop] at hpos
    rw [List.countP_append, hall, List.length_take] at hcount
    omega

theorem head?_sortBy_eq_some (total : ∀ x y, before x y = false → before y x = true)
    (trans : ∀ x y z, before x y = true → before y z = true → before x z = true)
    (h : (sortBy before items).head? = some a) : a ∈ items ∧ ∀ b ∈ items, b = a ∨ before a b = true := by
  have hsorted := pairwise_sortBy total trans items
  have hmem : ∀ b, b ∈ sortBy before items ↔ b ∈ items := fun b => mem_sortBy
  cases hs : sortBy before items with
  | nil => simp [hs] at h
  | cons x rest =>
    rw [hs] at h hsorted hmem
    cases h
    refine ⟨(hmem a).mp List.mem_cons_self, ?_⟩
    intro b hb
    rcases List.mem_cons.mp ((hmem b).mpr hb) with rfl | hrest
    · exact Or.inl rfl
    · exact Or.inr ((List.pairwise_cons.mp hsorted).1 b hrest)

end

/-! ## The best score -/

namespace Ranking

variable {c : Chain} {candidates : List OutPoint} {minConfirmations height : Nat}

/-- The first of a ranking has a score that no candidate surpasses. -/
theorem head?_rank_eq_some {w : Scored} (h : (rank c candidates minConfirmations height).head? = some w) :
    w.outpoint ∈ candidates ∧ score c w.outpoint minConfirmations height = .ok w.score ∧
      ∀ o ∈ candidates, ∀ s, score c o minConfirmations height = .ok s → o = w.outpoint ∨ w.Above ⟨o, s⟩ := by
  have hrank := mem_rank.mp (List.mem_of_mem_head? h)
  refine ⟨hrank.1, hrank.2, ?_⟩
  intro o ho s hs
  have hcandidate : ⟨o, s⟩ ∈ candidates.filterMap (scored? c minConfirmations height) :=
    List.mem_filterMap.mpr ⟨o, ho, scored?_eq_some_iff.mpr ⟨rfl, hs⟩⟩
  obtain ⟨-, hbest⟩ := head?_sortBy_eq_some Scored.before_total Scored.before_trans h
  rcases hbest _ hcandidate with hsame | hbefore
  · exact Or.inl (congrArg Scored.outpoint hsame)
  · rcases Scored.before_iff.mp hbefore with habove | hsame
    · exact Or.inr habove
    · exact Or.inl (congrArg Scored.outpoint hsame).symm

theorem head?_rank_eq_none :
    (rank c candidates minConfirmations height).head? = none ↔
      ∀ o ∈ candidates, ∀ s, score c o minConfirmations height ≠ .ok s := by
  rw [List.head?_eq_none_iff, List.eq_nil_iff_forall_not_mem]
  constructor
  · intro hnone o ho s hs
    exact hnone ⟨o, s⟩ (mem_rank.mpr ⟨ho, hs⟩)
  · intro hnone s hs
    obtain ⟨ho, hscore⟩ := mem_rank.mp hs
    exact hnone s.outpoint ho s.score hscore

end Ranking

namespace Registry

/-! ## The order of the queue -/

namespace Waiting

theorem before_eq_false_iff {a b : Waiting} :
    a.before b = false ↔ a.seconds < b.seconds ∨ b.seconds = a.seconds ∧ compare b.outpoint a.outpoint = .lt := by
  have hout : (compare a.outpoint b.outpoint).isLE = false ↔ compare b.outpoint a.outpoint = .lt := by
    rw [Ordering.isLE_eq_false, Std.OrientedCmp.gt_iff_lt]
  unfold before
  simp only [Bool.or_eq_false_iff, decide_eq_false_iff_not, Bool.and_eq_false_iff, hout]
  constructor
  · rintro ⟨hle, hne | hlt⟩
    · exact Or.inl (by omega)
    · by_cases hless : a.seconds < b.seconds
      · exact Or.inl hless
      · exact Or.inr ⟨by omega, hlt⟩
  · rintro (hless | ⟨hsame, hlt⟩)
    · exact ⟨by omega, Or.inl (by omega)⟩
    · exact ⟨by omega, Or.inr hlt⟩

theorem before_self (a : Waiting) : a.before a = true := by
  unfold before
  simp [Std.ReflOrd.compare_self]

theorem before_total (a b : Waiting) (h : a.before b = false) : b.before a = true := by
  unfold before
  rcases before_eq_false_iff.mp h with hlong | ⟨hsame, hlt⟩
  · simp [hlong]
  · simp [hsame, hlt]

theorem before_trans (a b c : Waiting) (hab : a.before b = true) (hbc : b.before c = true) : a.before c = true := by
  unfold before at hab hbc ⊢
  simp only [Bool.or_eq_true, Bool.and_eq_true, decide_eq_true_eq] at hab hbc ⊢
  rcases hab with hab | ⟨hab, hle⟩
  · omega
  · rcases hbc with hbc | ⟨hbc, hle'⟩
    · omega
    · exact Or.inr ⟨hab.trans hbc, Std.TransCmp.isLE_trans hle hle'⟩

/-- Two that go before each other are one. -/
theorem outpoint_eq_of_before {a b : Waiting} (hab : a.before b = true) (hba : b.before a = true) :
    a.outpoint = b.outpoint := by
  unfold before at hab hba
  simp only [Bool.or_eq_true, Bool.and_eq_true, decide_eq_true_eq] at hab hba
  rcases hab with hab | ⟨hab, hle⟩
  · omega
  · rcases hba with hba | ⟨-, hle'⟩
    · omega
    · exact OutPoint.compare_eq_iff.mp (Std.OrientedCmp.isLE_antisymm hle hle')

end Waiting

/-- Whether a node stands ahead of another in the queue: it has waited longer, or equally long with the smaller
    outpoint. -/
def Ahead (rules : QueueRules) (e e' : NodeEntry) : Prop :=
  rules.secondsSincePaid e' < rules.secondsSincePaid e ∨
    rules.secondsSincePaid e = rules.secondsSincePaid e' ∧ compare e.outpoint e'.outpoint = .lt

instance (rules : QueueRules) (e e' : NodeEntry) : Decidable (Ahead rules e e') :=
  inferInstanceAs (Decidable (_ ∨ _ ∧ _))

/-- How many nodes of a queue stand ahead of a node. -/
def placeIn (queue : List NodeEntry) (rules : QueueRules) (e : NodeEntry) : Nat :=
  queue.countP fun e' => Ahead rules e' e

/-- The cut leaves the nodes with less than a tenth of the network, or nobody, ahead of them. -/
theorem mem_shortlist {r : Registry} {queue : List NodeEntry} {rules : QueueRules} {o : OutPoint} :
    o ∈ r.shortlist queue rules ↔
      ∃ e ∈ queue, e.outpoint = o ∧ placeIn queue rules e < max (r.countEnabled 0 / 10) 1 := by
  let wait : NodeEntry → Waiting := fun e => ⟨rules.secondsSincePaid e, e.outpoint⟩
  have hcount : ∀ e, (sortBy Waiting.before (queue.map wait)).countP (fun w => !(wait e).before w) =
      placeIn queue rules e := by
    intro e
    rw [(sortBy_perm Waiting.before _).countP_eq, List.countP_map]
    unfold placeIn
    refine List.countP_congr ?_
    intro e' _
    simp only [Function.comp, Bool.not_eq_true', decide_eq_true_eq]
    exact Waiting.before_eq_false_iff
  have hsorted := pairwise_sortBy Waiting.before_total Waiting.before_trans (queue.map wait)
  unfold shortlist
  simp only [List.mem_map]
  constructor
  · rintro ⟨w, hw, rfl⟩
    obtain ⟨i, hi⟩ := List.mem_iff_getElem?.mp hw
    rw [List.getElem?_take] at hi
    split at hi
    · rename_i hlt
      obtain ⟨e, he, rfl⟩ := List.mem_map.mp (mem_sortBy.mp (List.mem_of_getElem? hi))
      have hle := countP_ahead_le hsorted (Waiting.before_self _) hi
      exact ⟨e, he, rfl, Nat.lt_of_le_of_lt (hcount e ▸ hle) hlt⟩
    · cases hi
  · rintro ⟨e, he, rfl, hplace⟩
    have hmem : wait e ∈ sortBy Waiting.before (queue.map wait) := mem_sortBy.mpr (List.mem_map_of_mem he)
    obtain ⟨w, hw, hew, hwe⟩ :=
      exists_mem_take_of_countP_lt hsorted (Waiting.before_self _) hmem ((hcount e).symm ▸ hplace)
    exact ⟨w, hw, Waiting.outpoint_eq_of_before hwe hew⟩

/-! ## Who is in the queue -/

/-- All that is asked of a node but the age of its announcement: it is enabled and runs the protocol, is not about to be
    paid, and its collateral has at least as many confirmations as the network has nodes. -/
structure Qualifies (c : Chain) (minProtocol : Nat) (rules : QueueRules) (size : Nat) (e : NodeEntry) : Prop where
  enabled : e.isEnabled = true
  protocol : minProtocol ≤ e.protocol
  unscheduled : rules.isScheduled e = false
  aged : ∃ age, c.confirmations? e.outpoint = some age ∧ size ≤ age

/-- Whether a node was announced a minute ago for each node of the network. -/
def AnnouncedLongAgo (now : Int) (size : Nat) (e : NodeEntry) : Prop := e.sigTime + 60 * size ≤ now

instance (now : Int) (size : Nat) (e : NodeEntry) : Decidable (AnnouncedLongAgo now size e) :=
  inferInstanceAs (Decidable (_ ≤ _))

variable {c : Chain} {minProtocol : Nat} {now : Int} {rules : QueueRules} {size : Nat} {e : NodeEntry}

theorem isEligible_iff {strict : Bool} :
    isEligible c minProtocol now rules size strict e = true ↔
      Qualifies c minProtocol rules size e ∧ (strict = true → AnnouncedLongAgo now size e) := by
  have htime : (!strict || decide (e.sigTime + size * 60 ≤ now)) = true ↔
      (strict = true → AnnouncedLongAgo now size e) := by
    unfold AnnouncedLongAgo
    rw [Int.mul_comm]
    cases strict <;> simp
  have haged : (∃ age, c.confirmations? e.outpoint = some age ∧ size ≤ age) ↔
      ((e.inputAge? c).any fun age => size ≤ age) = true := by
    unfold NodeEntry.inputAge?
    cases c.confirmations? e.outpoint <;> simp
  have hparts : isEligible c minProtocol now rules size strict e = true ↔
      (((e.isEnabled = true ∧ minProtocol ≤ e.protocol) ∧ rules.isScheduled e = false) ∧
        (strict = true → AnnouncedLongAgo now size e)) ∧ ((e.inputAge? c).any fun age => size ≤ age) = true := by
    unfold isEligible
    rw [Bool.and_eq_true, Bool.and_eq_true, htime]
    simp only [Bool.and_eq_true, decide_eq_true_eq, Bool.not_eq_true']
    cases e.inputAge? c <;> simp
  rw [hparts, ← haged]
  constructor
  · rintro ⟨⟨⟨⟨henabled, hprotocol⟩, hunscheduled⟩, htime⟩, haged⟩
    exact ⟨⟨henabled, hprotocol, hunscheduled, haged⟩, htime⟩
  · rintro ⟨h, htime⟩
    exact ⟨⟨⟨⟨h.enabled, h.protocol⟩, h.unscheduled⟩, htime⟩, h.aged⟩

instance : Decidable (Qualifies c minProtocol rules size e) :=
  decidable_of_iff (isEligible c minProtocol 0 rules size false e = true) (by simp [isEligible_iff])

/-- The nodes that qualify and were announced long ago. -/
def announcedQueue (r : Registry) (c : Chain) (minProtocol : Nat) (now : Int) (rules : QueueRules) : List NodeEntry :=
  r.list.filter fun e =>
    Qualifies c minProtocol rules (r.countEnabled 0) e ∧ AnnouncedLongAgo now (r.countEnabled 0) e

/-- The nodes whose turn it may be: those that qualify and, unless these were less than a third of the network, were
    announced long ago. -/
def queue (r : Registry) (c : Chain) (minProtocol : Nat) (now : Int) (rules : QueueRules) : List NodeEntry :=
  r.list.filter fun e =>
    Qualifies c minProtocol rules (r.countEnabled 0) e ∧
      ((r.announcedQueue c minProtocol now rules).length < r.countEnabled 0 / 3 ∨
        AnnouncedLongAgo now (r.countEnabled 0) e)

theorem eligible_eq_queue (r : Registry) (c : Chain) (minProtocol : Nat) (now : Int) (rules : QueueRules) :
    r.eligible c minProtocol now rules = r.queue c minProtocol now rules := by
  have hstrict : r.list.filter (isEligible c minProtocol now rules (r.countEnabled 0) true) =
      r.announcedQueue c minProtocol now rules := by
    refine List.filter_congr ?_
    intro e _
    rw [Bool.eq_iff_iff, isEligible_iff]
    simp
  unfold eligible queue
  dsimp only
  rw [hstrict]
  by_cases hfew : (r.announcedQueue c minProtocol now rules).length < r.countEnabled 0 / 3
  · rw [if_pos hfew]
    refine List.filter_congr ?_
    intro e _
    rw [Bool.eq_iff_iff, isEligible_iff]
    simp [hfew]
  · rw [if_neg hfew]
    refine List.filter_congr ?_
    intro e _
    simp [hfew]

/-! ## Whose turn it is -/

/-- Let a registry be evaluated at some time, with so many enabled nodes. The number that is told with the choice is
    the length of the queue. A node that is chosen is in the queue, has less than a tenth of the network, or nobody,
    ahead of it there, and of all nodes of the queue of which that is true nobody else has a better score, or an equal
    one with a smaller outpoint. Nobody is chosen exactly if none of these has a score. -/
theorem the_best_of_those_who_waited_longest_is_paid (r : Registry) (c : Chain) (height minProtocol : Nat) (now : Int)
    (rules : QueueRules) :
    let checked := r.checkAll c now false
    let queue := checked.queue c minProtocol now rules
    let tenth := max (checked.countEnabled 0 / 10) 1
    let score := fun e : NodeEntry => Ranking.score c e.outpoint r.params.minConfirmations (height - 100)
    let turn := checked.nextInQueue c height minProtocol now rules
    turn.2 = queue.length ∧
    (∀ w, turn.1 = some w → ∃ e ∈ queue, e.outpoint = w ∧ placeIn queue rules e < tenth ∧
      ∃ best, score e = .ok best ∧
        ∀ e' ∈ queue, placeIn queue rules e' < tenth → e'.outpoint ≠ w → ∀ s, score e' = .ok s →
          s < best ∨ best = s ∧ compare w e'.outpoint = .lt) ∧
    (turn.1 = none ↔ ∀ e ∈ queue, placeIn queue rules e < tenth → ∀ s, score e ≠ .ok s) := by
  intro checked queue tenth score turn
  let ranked := Ranking.rank c (checked.shortlist queue rules) r.params.minConfirmations (height - 100)
  have hturn : turn = (ranked.head?.map Scored.outpoint, queue.length) := by
    show checked.nextInQueue c height minProtocol now rules = _
    unfold nextInQueue
    rw [eligible_eq_queue]
    rfl
  rw [hturn]
  refine ⟨rfl, ?_, ?_⟩
  · intro w hw
    obtain ⟨first, hfirst, rfl⟩ := Option.map_eq_some_iff.mp hw
    obtain ⟨hmem, hscore, hbest⟩ := Ranking.head?_rank_eq_some hfirst
    obtain ⟨e, he, hout, hplace⟩ := mem_shortlist.mp hmem
    refine ⟨e, he, hout, hplace, first.score, ?_, ?_⟩
    · show Ranking.score c e.outpoint _ _ = _
      rw [hout]
      exact hscore
    · intro e' he' hplace' hother s hs
      have hlisted : e'.outpoint ∈ checked.shortlist queue rules := mem_shortlist.mpr ⟨e', he', rfl, hplace'⟩
      exact (hbest e'.outpoint hlisted s hs).resolve_left hother
  · rw [Option.map_eq_none_iff, Ranking.head?_rank_eq_none]
    constructor
    · intro hnone e he hplace
      exact hnone e.outpoint (mem_shortlist.mpr ⟨e, he, rfl, hplace⟩)
    · intro hnone o ho
      obtain ⟨e, he, rfl, hplace⟩ := mem_shortlist.mp ho
      exact hnone e he hplace

end Registry
end NodeQuorum
