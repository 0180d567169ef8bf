/-
  NodeQuorum.Proofs.Registry.Ranks — the ranking is a strict order that depends only on the set of nodes.

  - `Scored.Above` is the order of the ranking: the higher score, and at equal scores the smaller outpoint. It is
    a strict total order, also where scores are equal.
  - `rank_eq_of_perm`, `mem_rank`, `nodup_rank`, `pairwise_rank`: the ranking of any candidates.
  - `Filed.rankOf?_eq_some_iff`: a node's rank is its place in the ranking, counted from one, in every registry whose
    entries stand under their own outpoints.
  - `ranking_is_strict_and_ranks_have_no_gaps` says both of every list of candidates and every registry.
-/

import NodeQuorum.Registry.Queue
import NodeQuorum.Proofs.Registry.Ownership

namespace NodeQuorum

/-! ## The order -/

namespace Scored

/-- The higher score, and at equal scores the smaller outpoint. -/
def Above (a b : Scored) : Prop :=
  b.score < a.score ∨ a.score = b.score ∧ compare a.outpoint b.outpoint = .lt

theorem Above.trans {a b c : Scored} (hab : a.Above b) (hbc : b.Above c) : a.Above c := by
  rcases hab with hab | ⟨hab, hlt⟩
  · rcases hbc with hbc | ⟨hbc, -⟩
    · exact Or.inl (BitVec.lt_trans hbc hab)
    · exact Or.inl (hbc ▸ hab)
  · rcases hbc with hbc | ⟨hbc, hlt'⟩
    · exact Or.inl (hab ▸ hbc)
    · exact Or.inr ⟨hab.trans hbc, Std.TransCmp.lt_trans hlt hlt'⟩

theorem Above.irrefl (a : Scored) : ¬ a.Above a := by
  rintro (h | ⟨-, h⟩)
  · exact BitVec.lt_irrefl _ h
  · rw [Std.ReflOrd.compare_self] at h
    cases h

/-- Of two different ones, one stands above the other. -/
theorem above_or_above {a b : Scored} (h : a ≠ b) : a.Above b ∨ b.Above a := by
  by_cases hab : a.score < b.score
  · exact Or.inr (Or.inl hab)
  by_cases hba : b.score < a.score
  · exact Or.inl (Or.inl hba)
  have hscore : a.score = b.score := BitVec.le_antisymm (BitVec.not_lt.mp hba) (BitVec.not_lt.mp hab)
  cases hc : compare a.outpoint b.outpoint with
  | lt => exact Or.inl (Or.inr ⟨hscore, hc⟩)
  | gt => exact Or.inr (Or.inr ⟨hscore.symm, Std.OrientedCmp.lt_of_gt hc⟩)
  | eq =>
    have hout : a.outpoint = b.outpoint := OutPoint.compare_eq_iff.mp hc
    cases a
    cases b
    exact absurd (by simp_all) h

theorem before_iff {a b : Scored} : a.before b = true ↔ a.Above b ∨ a = b := by
  have hout : (compare a.outpoint b.outpoint).isLE = true ↔
      compare a.outpoint b.outpoint = .lt ∨ a.outpoint = b.outpoint := by
    rw [Ordering.isLE_iff_eq_lt_or_eq_eq, OutPoint.compare_eq_iff]
  unfold before Above
  simp only [Bool.or_eq_true, Bool.and_eq_true, decide_eq_true_eq, hout]
  constructor
  · rintro (h | ⟨hscore, h | h⟩)
    · exact Or.inl (Or.inl h)
    · exact Or.inl (Or.inr ⟨hscore, h⟩)
    · cases a
      cases b
      exact Or.inr (by simp_all)
  · rintro ((h | h) | rfl)
    · exact Or.inl h
    · exact Or.inr ⟨h.1, Or.inl h.2⟩
    · exact Or.inr ⟨rfl, Or.inr rfl⟩

theorem before_total (a b : Scored) (h : a.before b = false) : b.before a = true := by
  have hnot : ¬ (a.Above b ∨ a = b) := fun hp => by rw [before_iff.mpr hp] at h; cases h
  rcases above_or_above (fun he => hnot (Or.inr he)) with hab | hba
  · exact absurd (Or.inl hab) hnot
  · exact before_iff.mpr (Or.inl hba)

theorem before_trans (a b c : Scored) (hab : a.before b = true) (hbc : b.before c = true) : a.before c = true := by
  rcases before_iff.mp hab with hab | rfl
  · rcases before_iff.mp hbc with hbc | rfl
    · exact before_iff.mpr (Or.inl (hab.trans hbc))
    · exact before_iff.mpr (Or.inl hab)
  · exact hbc

theorem before_antisymm {a b : Scored} (hab : a.before b = true) (hba : b.before a = true) : a = b := by
  rcases before_iff.mp hab with hab | he
  · rcases before_iff.mp hba with hba | he
    · exact absurd (hab.trans hba) (Above.irrefl a)
    · exact he.symm
  · exact he

end Scored

/-! ## The ranking -/

namespace Ranking

theorem scored?_eq_some_iff {c : Chain} {minConfirmations height : Nat} {o : OutPoint} {s : Scored} :
    scored? c minConfirmations height o = some s ↔
      s.outpoint = o ∧ score c o minConfirmations height = .ok s.score := by
  unfold scored?
  split
  · rename_i score' h
    rw [h, Option.some.injEq]
    constructor
    · rintro rfl
      exact ⟨rfl, rfl⟩
    · rintro ⟨rfl, hs⟩
      cases hs
      rfl
  · rename_i h
    rw [h]
    exact ⟨nofun, fun hs => nomatch hs.2⟩

/-- The candidates with a score, and no others, are ranked. -/
theorem mem_rank {c : Chain} {candidates : List OutPoint} {minConfirmations height : Nat} {s : Scored} :
    s ∈ rank c candidates minConfirmations height ↔
      s.outpoint ∈ candidates ∧ score c s.outpoint minConfirmations height = .ok s.score := by
  unfold rank
  simp only [mem_sortBy, List.mem_filterMap, scored?_eq_some_iff]
  constructor
  · rintro ⟨o, ho, rfl, hs⟩
    exact ⟨ho, hs⟩
  · rintro ⟨ho, hs⟩
    exact ⟨_, ho, rfl, hs⟩

/-- Their order does not matter. -/
theorem rank_eq_of_perm {c : Chain} {candidates candidates' : List OutPoint} (h : candidates.Perm candidates')
    (minConfirmations height : Nat) :
    rank c candidates minConfirmations height = rank c candidates' minConfirmations height := by
  unfold rank
  have hperm := (sortBy_perm Scored.before (candidates.filterMap (scored? c minConfirmations height))).trans
    ((h.filterMap _).trans (sortBy_perm Scored.before _).symm)
  exact List.Perm.eq_of_pairwise (fun a b _ _ => Scored.before_antisymm)
    (pairwise_sortBy Scored.before_total Scored.before_trans _)
    (pairwise_sortBy Scored.before_total Scored.before_trans _) hperm

/-- What is ranked keeps the outpoints that have a score. -/
theorem map_outpoint_filterMap (c : Chain) (minConfirmations height : Nat) (candidates : List OutPoint) :
    (candidates.filterMap (scored? c minConfirmations height)).map Scored.outpoint =
      candidates.filter fun o => (scored? c minConfirmations height o).isSome := by
  induction candidates with
  | nil => rfl
  | cons o rest ih =>
    cases hs : scored? c minConfirmations height o with
    | none => simp [hs, ih]
    | some s => simp [hs, ih, (scored?_eq_some_iff.mp hs).1]

/-- Each of them is ranked once. -/
theorem nodup_rank {candidates : List OutPoint} (h : candidates.Nodup) (c : Chain) (minConfirmations height : Nat) :
    ((rank c candidates minConfirmations height).map Scored.outpoint).Nodup := by
  have hperm := (sortBy_perm Scored.before (candidates.filterMap (scored? c minConfirmations height))).map
    Scored.outpoint
  rw [map_outpoint_filterMap] at hperm
  exact hperm.nodup_iff.mpr (h.filter _)

/-- Each stands above all that follow. -/
theorem pairwise_rank {candidates : List OutPoint} (h : candidates.Nodup) (c : Chain) (minConfirmations height : Nat) :
    (rank c candidates minConfirmations height).Pairwise Scored.Above := by
  have hbefore := pairwise_sortBy Scored.before_total Scored.before_trans
    (candidates.filterMap (scored? c minConfirmations height))
  have hne := List.pairwise_map.mp (nodup_rank h c minConfirmations height)
  refine (hbefore.and hne).imp ?_
  rintro a b ⟨hab, hout⟩
  rcases Scored.before_iff.mp hab with habove | rfl
  · exact habove
  · exact absurd rfl hout

/-- In a ranking without repetitions the first entry of a node is its only one. -/
theorem place_eq_some_iff {ranked : List Scored} (h : (ranked.map Scored.outpoint).Nodup) {o : OutPoint} {i : Nat} :
    (ranked.findIdx? fun s => s.outpoint = o) = some i ↔ (ranked.map Scored.outpoint)[i]? = some o := by
  rw [List.findIdx?_eq_some_iff_getElem, List.getElem?_eq_some_iff]
  simp only [List.getElem_map, List.length_map, decide_eq_true_eq]
  constructor
  · rintro ⟨hi, hout, -⟩
    exact ⟨hi, hout⟩
  · rintro ⟨hi, hout⟩
    refine ⟨hi, hout, ?_⟩
    -- an earlier one would be the same node at another place
    intro j hj hsame
    have hne := List.pairwise_iff_getElem.mp (List.pairwise_map.mp h) j i (Nat.lt_trans hj hi) hi hj
    exact hne (hsame.trans hout.symm)

end Ranking

/-! ## Ranks -/

/-- A look at a state that was just looked at changes nothing. -/
theorem NodeState.next_next (s : NodeState) (lastPing : Option Int) (now : Int) (ok : Bool) (p : ClassParams) :
    (s.next lastPing now ok p).next lastPing now ok p = s.next lastPing now ok p := by
  unfold next
  by_cases hspent : s = .spent
  · simp [hspent]
  by_cases hremoved : pingedWithin lastPing p.removalSeconds now = true
  · by_cases hexpired : pingedWithin lastPing p.expirationSeconds now = true
    · cases ok <;> simp [hspent, hremoved, hexpired]
    · simp [hspent, hremoved, hexpired]
  · simp [hspent, hremoved]

theorem NodeEntry.check_check (e : NodeEntry) (c : Chain) (p : ClassParams) (now : Int) :
    (e.check c p now false).check c p now false = e.check c p now false := by
  by_cases hrecent : now - e.lastChecked < p.checkSeconds
  · have hsame : e.check c p now false = e := by simp [check, hrecent]
    rw [hsame, hsame]
  · have hlooked : e.check c p now false =
        { e with
          lastChecked := now
          state := e.state.next e.lastPingTime now (c.holdsCollateral e.outpoint p) p } := by
      simp [check, hrecent]
    rw [hlooked]
    unfold check
    split
    · rfl
    · exact congrArg (fun s => { e with lastChecked := now, state := s }) (NodeState.next_next _ _ _ _ _)

namespace Registry

/-- What an evaluation at one time gives, another one at the same time gives again. -/
theorem checkAll_checkAll (r : Registry) (c : Chain) (now : Int) :
    (r.checkAll c now false).checkAll c now false = r.checkAll c now false := by
  have hentries : ((r.checkAll c now false).checkAll c now false).entries = (r.checkAll c now false).entries := by
    refine Std.ExtTreeMap.ext_getElem? ?_
    intro o
    unfold checkAll
    simp only [Std.ExtTreeMap.getElem?_map, Option.map_map]
    refine congrArg (fun f => r.entries[o]?.map f) ?_
    funext e
    exact NodeEntry.check_check e c r.params now
  unfold checkAll at hentries ⊢
  simpa using hentries

/-- The nodes in the order of their ranks. -/
def standing (r : Registry) (c : Chain) (height minProtocol : Nat) : List OutPoint :=
  (r.ranked c height minProtocol).map Scored.outpoint

theorem length_standing (r : Registry) (c : Chain) (height minProtocol : Nat) :
    (r.standing c height minProtocol).length = (r.ranked c height minProtocol).length := List.length_map _

/-- Every entry stands under its own outpoint. -/
def Filed (r : Registry) : Prop := ∀ (o : OutPoint) (e : NodeEntry), r.entries[o]? = some e → e.outpoint = o

theorem run_filed (params : ClassParams) (es : List Event) : (run params es).Filed :=
  fun o e he => (run_authentic params es o e he).outpoint_eq

namespace Filed

variable {r : Registry} {c : Chain} {height minProtocol : Nat} {o : OutPoint}

theorem checkAll (h : r.Filed) (c : Chain) (now : Int) (force : Bool) : (r.checkAll c now force).Filed := by
  intro o e' he'
  obtain ⟨e, he, heq⟩ := (kept_checkAll r c now force).entry o e' he'
  have hout : e'.announced.outpoint = e.announced.outpoint := congrArg NodeEntry.outpoint heq
  exact hout.trans (h o e he)

/-- No two entries stand for one node. -/
theorem nodup_outpoints (h : r.Filed) : (r.list.map NodeEntry.outpoint).Nodup := by
  have hkeys : r.list.map NodeEntry.outpoint = r.entries.toList.map Prod.fst := by
    unfold list
    rw [Table.values_eq_map_toList, List.map_map]
    refine List.map_congr_left ?_
    rintro ⟨o, e⟩ hmem
    exact h o e (Std.ExtTreeMap.mem_toList_iff_getElem?_eq_some.mp hmem)
  rw [hkeys]
  refine List.pairwise_map.mpr ((Std.ExtTreeMap.distinct_keys_toList (t := r.entries)).imp ?_)
  intro a b hne he
  exact hne (by rw [he, Std.ReflOrd.compare_self])

/-- The candidates of a ranking are different nodes. -/
theorem nodup_candidates (h : r.Filed) (f : NodeEntry → Bool) :
    ((r.list.filter f).map NodeEntry.outpoint).Nodup :=
  h.nodup_outpoints.sublist (List.filter_sublist.map _)

theorem nodup_standing (h : r.Filed) (c : Chain) (height minProtocol : Nat) :
    (r.standing c height minProtocol).Nodup :=
  Ranking.nodup_rank (h.nodup_candidates _) c _ height

/-- Enabled nodes with the protocol and a score are ranked, and no others. -/
theorem mem_standing (h : r.Filed) :
    o ∈ r.standing c height minProtocol ↔ ∃ e, r.find? o = some e ∧ e.isEnabled = true ∧ minProtocol ≤ e.protocol ∧
      ∃ s, Ranking.score c o r.params.minConfirmations height = .ok s := by
  unfold standing ranked list find?
  simp only [List.mem_map, Ranking.mem_rank, List.mem_filter, Table.mem_values, Bool.and_eq_true, decide_eq_true_eq]
  constructor
  · rintro ⟨s, ⟨⟨e, ⟨⟨k, hk⟩, hon, hprotocol⟩, hout⟩, hscore⟩, rfl⟩
    have hkey : k = s.outpoint := (h k e hk).symm.trans hout
    exact ⟨e, hkey ▸ hk, hon, hprotocol, s.score, hscore⟩
  · rintro ⟨e, he, hon, hprotocol, s, hscore⟩
    exact ⟨⟨o, s⟩, ⟨⟨e, ⟨⟨o, he⟩, hon, hprotocol⟩, h o e he⟩, hscore⟩, rfl⟩

/-- The rank of a node is its place, counted from one. -/
theorem rankOf?_eq_some_iff {k : Nat} (h : r.Filed) :
    r.rankOf? c o height minProtocol = some k ↔ ∃ i, k = i + 1 ∧ (r.standing c height minProtocol)[i]? = some o := by
  have hplace : ∀ i, ((r.ranked c height minProtocol).findIdx? fun s => s.outpoint = o) = some i ↔
      (r.standing c height minProtocol)[i]? = some o :=
    fun i => Ranking.place_eq_some_iff (h.nodup_standing c height minProtocol)
  unfold rankOf?
  rw [Option.map_eq_some_iff]
  constructor
  · rintro ⟨i, hi, rfl⟩
    exact ⟨i, rfl, (hplace i).mp hi⟩
  · rintro ⟨i, rfl, hi⟩
    exact ⟨i, (hplace i).mpr hi, rfl⟩

theorem exists_rankOf?_iff (h : r.Filed) :
    (∃ k, r.rankOf? c o height minProtocol = some k) ↔ o ∈ r.standing c height minProtocol := by
  simp only [h.rankOf?_eq_some_iff, List.mem_iff_getElem?]
  exact ⟨fun ⟨_, i, _, hi⟩ => ⟨i, hi⟩, fun ⟨i, hi⟩ => ⟨i + 1, i, rfl, hi⟩⟩

/-- The ranks are the numbers from one to the number of ranked nodes. -/
theorem rank_taken_iff {k : Nat} (h : r.Filed) :
    (∃ o, r.rankOf? c o height minProtocol = some k) ↔ 1 ≤ k ∧ k ≤ (r.ranked c height minProtocol).length := by
  simp only [h.rankOf?_eq_some_iff]
  constructor
  · rintro ⟨o, i, rfl, hi⟩
    obtain ⟨hlt, -⟩ := List.getElem?_eq_some_iff.mp hi
    rw [length_standing] at hlt
    omega
  · rintro ⟨hpos, hle⟩
    have hlt : k - 1 < (r.standing c height minProtocol).length := by
      rw [length_standing]
      omega
    exact ⟨_, k - 1, by omega, List.getElem?_eq_getElem hlt⟩

/-- The nodes with a rank up to a bound are the first ones. -/
theorem mem_take_standing {bound : Nat} (h : r.Filed) :
    o ∈ (r.standing c height minProtocol).take bound ↔ ∃ k, k ≤ bound ∧ r.rankOf? c o height minProtocol = some k := by
  simp only [h.rankOf?_eq_some_iff, List.mem_iff_getElem?, List.getElem?_take]
  constructor
  · rintro ⟨i, hi⟩
    split at hi
    · rename_i hlt
      exact ⟨i + 1, by omega, i, rfl, hi⟩
    · cases hi
  · rintro ⟨k, hle, i, rfl, hi⟩
    exact ⟨i, by rw [if_pos (by omega)]; exact hi⟩

end Filed

/-! ## Every list and every registry -/

/-- The ranking of different candidates does not depend on their order, has each candidate with a score once and no
    others, and each stands strictly above the next ones. In a registry that is evaluated at some time, and where
    entries stand under their own outpoints as they do after every run, a further evaluation changes nothing, the
    enabled nodes with the protocol and a score have ranks and no others, different nodes have different ranks, the
    ranks are those from one to the number of ranked nodes, and so many nodes, but no more than ten, have a rank of at
    most ten. -/
theorem ranking_is_strict_and_ranks_have_no_gaps :
    (∀ (c : Chain) (minConfirmations height : Nat) (candidates : List OutPoint), candidates.Nodup →
      (∀ candidates', candidates.Perm candidates' →
        Ranking.rank c candidates' minConfirmations height = Ranking.rank c candidates minConfirmations height) ∧
      (∀ s : Scored, s ∈ Ranking.rank c candidates minConfirmations height ↔
        s.outpoint ∈ candidates ∧ Ranking.score c s.outpoint minConfirmations height = .ok s.score) ∧
      ((Ranking.rank c candidates minConfirmations height).map Scored.outpoint).Nodup ∧
      (Ranking.rank c candidates minConfirmations height).Pairwise fun a b =>
        b.score < a.score ∨ a.score = b.score ∧ compare a.outpoint b.outpoint = .lt) ∧
    (∀ (params : ClassParams) (es : List Event) (o : OutPoint) (e : NodeEntry),
      (run params es).entries[o]? = some e → e.outpoint = o) ∧
    (∀ (before : Registry) (c : Chain) (now : Int) (height minProtocol : Nat),
      (∀ (o : OutPoint) (e : NodeEntry), before.entries[o]? = some e → e.outpoint = o) →
      let r := before.checkAll c now false
      r.checkAll c now false = r ∧
      (∀ o, (∃ k, r.rankOf? c o height minProtocol = some k) ↔
        ∃ e, r.find? o = some e ∧ e.isEnabled = true ∧ minProtocol ≤ e.protocol ∧
          ∃ s, Ranking.score c o r.params.minConfirmations height = .ok s) ∧
      (∀ o o' k, r.rankOf? c o height minProtocol = some k → r.rankOf? c o' height minProtocol = some k → o = o') ∧
      (∀ k, (∃ o, r.rankOf? c o height minProtocol = some k) ↔ 1 ≤ k ∧ k ≤ (r.ranked c height minProtocol).length) ∧
      ∃ top : List OutPoint, top.Nodup ∧ top.length = min (r.ranked c height minProtocol).length 10 ∧
        ∀ o, o ∈ top ↔ ∃ k, k ≤ 10 ∧ r.rankOf? c o height minProtocol = some k) := by
  refine ⟨?_, run_filed, ?_⟩
  · intro c minConfirmations height candidates hnodup
    exact ⟨fun candidates' hperm => (Ranking.rank_eq_of_perm hperm minConfirmations height).symm,
      fun s => Ranking.mem_rank, Ranking.nodup_rank hnodup c minConfirmations height,
      Ranking.pairwise_rank hnodup c minConfirmations height⟩
  · intro before c now height minProtocol hbefore r
    have h : r.Filed := Filed.checkAll hbefore c now false
    refine ⟨checkAll_checkAll before c now, ?_, ?_, ?_, ?_⟩
    · intro o
      rw [h.exists_rankOf?_iff, h.mem_standing]
    · intro o o' k ho ho'
      obtain ⟨i, rfl, hi⟩ := h.rankOf?_eq_some_iff.mp ho
      obtain ⟨j, hj, hj'⟩ := h.rankOf?_eq_some_iff.mp ho'
      obtain rfl : i = j := by omega
      exact Option.some.inj (hi.symm.trans hj')
    · intro k
      exact h.rank_taken_iff
    · refine ⟨(r.standing c height minProtocol).take 10, ?_, ?_, ?_⟩
      · exact (h.nodup_standing c height minProtocol).sublist (List.take_sublist _ _)
      · rw [List.length_take, length_standing, Nat.min_comm]
      · intro o
        exact h.mem_take_standing

end Registry
end NodeQuorum
