/-
  NodeQuorum.Proofs.Spork.Signing — the node that signs the settings, and a node that follows it.

  The signer stores what it signs without a look at what it holds, and a follower stores only what is newer than what it
  holds. Times are whole seconds, so a setting that is changed twice in a second comes to differ between them:
  - `signer_holds`: of each setting the signer holds the record signed last.
  - `follower_holds`: a follower that gets the same records in the same order holds the first of those with the latest
    time.
  - `signer_and_follower_agree_on_the_first_value_of_a_second`: while the clock does not run back, the two agree on a
    setting exactly if its last record is the first one of its second. A change in a later second brings them together
    again, since it is the first of that second.
  - `the_second_value_of_a_second_parts_signer_and_follower`: two changes at one time, after which they do not agree.
-/

import Mathlib
import NodeQuorum.Proofs.Spork.Convergence

namespace NodeQuorum.Sporks

/-! ## A signer and a follower -/

/-- A new value that the signer gives a setting, and when. -/
structure Change where
  spork : SporkId
  value : Int
  now : Int

/-- The record that a key pair signs for a change. -/
def Change.record (pair : KeyPair) (u : Change) : SporkRecord := .create pair u.spork.number u.value u.now

/-- The store of the signer, and that of a node which hears of nothing but the signer's records. -/
structure Followed where
  signer : Sporks
  follower : Sporks

/-- The signer changes a setting and announces the record, and the follower takes it or leaves it. -/
def Followed.change (n : Followed) (u : Change) : Followed :=
  match n.signer.update u.spork u.value u.now with
  | .ok (s, r) => ⟨s, (n.follower.process r).1⟩
  | .error _ => n

/-- The signer of a network and its follower after some changes. -/
def followed (pair : KeyPair) (us : List Change) : Followed :=
  us.foldl Followed.change ⟨run pair.publicKey [.takeSecret pair], empty pair.publicKey⟩

/-- The records that were announced, in their order: those whose signature checks out. -/
def signedRecords (pair : KeyPair) (us : List Change) : List SporkRecord :=
  (us.map (Change.record pair)).filter fun r => decide (pair.publicKey.Signed r.signature r.text)

/-- The ones of a setting. -/
def signedFor (pair : KeyPair) (us : List Change) (id : Nat) : List SporkRecord :=
  (signedRecords pair us).filter fun r => decide (r.id = id)

variable {pair : KeyPair} {us : List Change} {u : Change}

/-- The network's secret fits the network's key, so the signer takes it. -/
theorem run_takeSecret (pair : KeyPair) :
    run pair.publicKey [.takeSecret pair] = { empty pair.publicKey with signer := some pair } := by
  simp [run, step, setSigner, empty]

theorem followed_concat (pair : KeyPair) (us : List Change) (u : Change) :
    followed pair (us ++ [u]) = (followed pair us).change u := by
  unfold followed
  rw [List.foldl_append]
  rfl

theorem signedRecords_concat_of_signed (h : pair.publicKey.Signed (u.record pair).signature (u.record pair).text) :
    signedRecords pair (us ++ [u]) = signedRecords pair us ++ [u.record pair] := by
  simp [signedRecords, h]

theorem signedRecords_concat_of_not_signed
    (h : ¬ pair.publicKey.Signed (u.record pair).signature (u.record pair).text) :
    signedRecords pair (us ++ [u]) = signedRecords pair us := by
  simp [signedRecords, h]

theorem mem_signedRecords {r : SporkRecord} (h : r ∈ signedRecords pair us) :
    ∃ u ∈ us, u.record pair = r ∧ pair.publicKey.Signed r.signature r.text := by
  obtain ⟨hmem, hsigned⟩ := List.mem_filter.mp h
  obtain ⟨u, hu, hr⟩ := List.mem_map.mp hmem
  exact ⟨u, hu, hr, of_decide_eq_true hsigned⟩

/-! ## One change -/

/-- A node with the network's secret signs and stores a change, if its signature checks out. -/
theorem update_of_signer {s : Sporks} (hkey : s.key = pair.publicKey) (hsigner : s.signer = some pair) (u : Change) :
    (pair.publicKey.Signed (u.record pair).signature (u.record pair).text ∧
      s.update u.spork u.value u.now = .ok (s.store (u.record pair), u.record pair)) ∨
    ¬ pair.publicKey.Signed (u.record pair).signature (u.record pair).text ∧
      ∃ e, s.update u.spork u.value u.now = .error e := by
  unfold update
  rw [hsigner, hkey]
  dsimp only
  change (_ ∧ (((u.record pair).verify pair.publicKey).mapError Failure.signature).map _ = _) ∨
    (_ ∧ ∃ e, (((u.record pair).verify pair.publicKey).mapError Failure.signature).map _ = _)
  unfold PublicKey.Signed SporkRecord.verify SporkRecord.text
  cases pair.publicKey.verify (u.record pair).signature
    (SporkRecord.signedText (u.record pair).id (u.record pair).value (u.record pair).signedAt) with
  | ok a => exact Or.inl ⟨rfl, rfl⟩
  | error e => exact Or.inr ⟨by simp, _, rfl⟩

/-- The signer keeps the secret, and both keep the network's key. -/
theorem followed_keys (pair : KeyPair) (us : List Change) :
    (followed pair us).signer.key = pair.publicKey ∧ (followed pair us).signer.signer = some pair ∧
      (followed pair us).follower.key = pair.publicKey := by
  induction us using List.reverseRecOn with
  | nil =>
    unfold followed
    rw [run_takeSecret]
    exact ⟨rfl, rfl, rfl⟩
  | append_singleton us u ih =>
    obtain ⟨hkey, hsigner, hfollower⟩ := ih
    rw [followed_concat]
    unfold Followed.change
    rcases update_of_signer hkey hsigner u with ⟨-, h⟩ | ⟨-, e, h⟩
    · rw [h]
      refine ⟨hkey, hsigner, ?_⟩
      show ((followed pair us).follower.process (u.record pair)).1.key = pair.publicKey
      rcases process_cases (followed pair us).follower (u.record pair) with hp | ⟨hp, -⟩
      · rw [hp, hfollower]
      · rw [hp]
        exact hfollower
    · rw [h]
      exact ⟨hkey, hsigner, hfollower⟩

/-- A change whose signature checks out is stored by the signer, and comes to the follower. -/
theorem change_of_signed (h : pair.publicKey.Signed (u.record pair).signature (u.record pair).text) :
    (followed pair us).change u =
      ⟨(followed pair us).signer.store (u.record pair), ((followed pair us).follower.process (u.record pair)).1⟩ := by
  obtain ⟨hkey, hsigner, -⟩ := followed_keys pair us
  unfold Followed.change
  rcases update_of_signer hkey hsigner u with ⟨-, hu⟩ | ⟨hnot, -⟩
  · rw [hu]
  · exact absurd h hnot

theorem change_of_not_signed (h : ¬ pair.publicKey.Signed (u.record pair).signature (u.record pair).text) :
    (followed pair us).change u = followed pair us := by
  obtain ⟨hkey, hsigner, -⟩ := followed_keys pair us
  unfold Followed.change
  rcases update_of_signer hkey hsigner u with ⟨hsigned, -⟩ | ⟨-, e, hu⟩
  · exact absurd hsigned h
  · rw [hu]

/-- A follower takes an announced record exactly if it is newer than what it holds. -/
theorem follower_accepts_iff (h : pair.publicKey.Signed (u.record pair).signature (u.record pair).text) :
    (followed pair us).follower.Accepts (u.record pair) ↔ (followed pair us).follower.Newer (u.record pair) := by
  rw [accepts_iff, (followed_keys pair us).2.2]
  exact ⟨fun ha => ha.1, fun hn => ⟨hn, h⟩⟩

/-! ## What each of them holds -/

/-- Of each setting the signer holds the record that was signed last. -/
theorem signer_holds (pair : KeyPair) (us : List Change) (id : Nat) :
    (followed pair us).signer.records[id]? = (signedFor pair us id).getLast? := by
  induction us using List.reverseRecOn with
  | nil =>
    unfold followed
    rw [run_takeSecret]
    rfl
  | append_singleton us u ih =>
    rw [followed_concat]
    unfold signedFor at ih ⊢
    by_cases h : pair.publicKey.Signed (u.record pair).signature (u.record pair).text
    · rw [change_of_signed h, signedRecords_concat_of_signed h, List.filter_append, List.getLast?_append]
      show ((followed pair us).signer.store (u.record pair)).records[id]? = _
      rw [lookup_store, ih]
      by_cases hid : (u.record pair).id = id
      · simp [hid]
      · simp [hid]
    · rw [change_of_not_signed h, signedRecords_concat_of_not_signed h, ih]

/-- Of each setting the follower holds the first one of the newest records. -/
theorem follower_holds (pair : KeyPair) (us : List Change) (id : Nat) :
    (followed pair us).follower.records[id]? = (signedFor pair us id).argmax SporkRecord.signedAt := by
  induction us using List.reverseRecOn with
  | nil => rfl
  | append_singleton us u ih =>
    rw [followed_concat]
    unfold signedFor at ih ⊢
    by_cases h : pair.publicKey.Signed (u.record pair).signature (u.record pair).text
    · rw [change_of_signed h, signedRecords_concat_of_signed h, List.filter_append]
      show ((followed pair us).follower.process (u.record pair)).1.records[id]? = _
      by_cases hid : (u.record pair).id = id
      · subst hid
        have hone : [u.record pair].filter (fun r => decide (r.id = (u.record pair).id)) = [u.record pair] := by simp
        rw [hone, List.argmax_concat, ← ih]
        cases hheld : (followed pair us).follower.records[(u.record pair).id]? with
        | none =>
          have hnewer : (followed pair us).follower.Newer (u.record pair) := by
            intro c hc
            rw [hheld] at hc
            cases hc
          rw [process_of_accepted ((follower_accepts_iff h).mpr hnewer), lookup_store, if_pos rfl]
        | some c =>
          by_cases hlt : c.signedAt < (u.record pair).signedAt
          · have hnewer : (followed pair us).follower.Newer (u.record pair) := by
              intro c' hc'
              rw [hheld] at hc'
              cases hc'
              exact hlt
            rw [process_of_accepted ((follower_accepts_iff h).mpr hnewer), lookup_store, if_pos rfl]
            exact (if_pos hlt).symm
          · have hold : ¬ (followed pair us).follower.Accepts (u.record pair) := by
              rw [follower_accepts_iff h]
              intro hnewer
              exact hlt (hnewer c hheld)
            rw [process_of_refused hold, hheld]
            exact (if_neg hlt).symm
      · have hnone : [u.record pair].filter (fun r => decide (r.id = id)) = [] := by simp [hid]
        rw [hnone, List.append_nil, ← ih]
        rcases process_cases (followed pair us).follower (u.record pair) with hp | ⟨hp, -⟩
        · rw [hp]
        · rw [hp, lookup_store, if_neg hid]
    · rw [change_of_not_signed h, signedRecords_concat_of_not_signed h, ih]

/-! ## A clock that does not run back -/

/-- No change is made before an earlier one. -/
def NotBack (us : List Change) : Prop := us.Pairwise fun u u' => u.now ≤ u'.now

theorem NotBack.signedFor (h : NotBack us) (pair : KeyPair) (id : Nat) :
    (Sporks.signedFor pair us id).Pairwise fun r r' => r.signedAt ≤ r'.signedAt := by
  have hall : (us.map (Change.record pair)).Pairwise fun r r' => r.signedAt ≤ r'.signedAt :=
    List.pairwise_map.mpr h
  exact (hall.filter _).filter _

/-- Among records in the order of their times, the first of the newest ones is the first of the last one's time. -/
theorem argmax_of_pairwise {rs : List SporkRecord} (h : rs.Pairwise fun r r' => r.signedAt ≤ r'.signedAt)
    {last : SporkRecord} (hlast : rs.getLast? = some last) :
    rs.argmax SporkRecord.signedAt = rs.find? fun r => decide (r.signedAt = last.signedAt) := by
  induction rs using List.reverseRecOn generalizing last with
  | nil => cases hlast
  | append_singleton rs r ih =>
    rw [List.getLast?_concat, Option.some.injEq] at hlast
    subst hlast
    obtain ⟨hbefore, -, hle⟩ := List.pairwise_append.mp h
    rw [List.argmax_concat, List.find?_append]
    cases hprevious : rs.getLast? with
    | none =>
      rw [List.getLast?_eq_none_iff.mp hprevious]
      simp
    | some previous =>
      have hmem : previous ∈ rs := List.mem_of_getLast? hprevious
      rw [ih hbefore hprevious]
      cases hfirst : rs.find? fun r => decide (r.signedAt = previous.signedAt) with
      | none =>
        have hno := List.find?_eq_none.mp hfirst previous hmem
        simp at hno
      | some first =>
        have htime : first.signedAt = previous.signedAt := by simpa using List.find?_some hfirst
        by_cases hlt : first.signedAt < r.signedAt
        · -- all earlier records are older, since none is later than the one before the last
          have hnone : rs.find? (fun x => decide (x.signedAt = r.signedAt)) = none := by
            rw [List.find?_eq_none]
            intro x hx
            have hmax : x.signedAt ≤ first.signedAt := by
              refine List.le_of_mem_argmax hx ?_
              rw [ih hbefore hprevious, hfirst]
              rfl
            have hne : x.signedAt ≠ r.signedAt := by omega
            simpa using hne
          rw [hnone]
          simp [hlt]
        · have hsame : previous.signedAt = r.signedAt := by
            have := hle previous hmem r (List.mem_singleton_self r)
            omega
          rw [← hsame, hfirst]
          simp [← hsame, ← htime]

/-- Signer and follower hold the same record of a setting exactly if the last record is the first one of its second. -/
theorem agree_iff (h : NotBack us) (pair : KeyPair) (id : Nat) :
    (followed pair us).signer.records[id]? = (followed pair us).follower.records[id]? ↔
      ∀ last, (signedFor pair us id).getLast? = some last →
        (signedFor pair us id).find? (fun r => decide (r.signedAt = last.signedAt)) = some last := by
  rw [signer_holds, follower_holds]
  have hpairwise := h.signedFor pair id
  cases hlast : (signedFor pair us id).getLast? with
  | none =>
    rw [List.getLast?_eq_none_iff.mp hlast]
    simp
  | some last =>
    rw [argmax_of_pairwise hpairwise hlast]
    constructor
    · intro hagree last' hlast'
      cases hlast'
      exact hagree.symm
    · intro hfirst
      exact (hfirst last rfl).symm

/-- A follower leaves a new record exactly if it holds one of the same second. -/
theorem left_iff (h : NotBack (us ++ [u]))
    (hsigned : pair.publicKey.Signed (u.record pair).signature (u.record pair).text) :
    ¬ (followed pair us).follower.Accepts (u.record pair) ↔
      ∃ c, (followed pair us).follower.records[u.spork.number]? = some c ∧ c.signedAt = u.now := by
  rw [follower_accepts_iff hsigned]
  -- what the follower holds was signed by an earlier change
  have hearlier : ∀ c, (followed pair us).follower.records[u.spork.number]? = some c → c.signedAt ≤ u.now := by
    intro c hc
    rw [follower_holds] at hc
    have hmem : c ∈ signedRecords pair us := (List.mem_filter.mp (List.argmax_mem hc)).1
    obtain ⟨u', hu', hrecord, -⟩ := mem_signedRecords hmem
    have hle := (List.pairwise_append.mp h).2.2 u' hu' u (List.mem_singleton_self u)
    rw [← hrecord]
    exact hle
  constructor
  · intro hnot
    unfold Newer at hnot
    obtain ⟨c, hc⟩ := Classical.not_forall.mp hnot
    obtain ⟨hheld, hle⟩ := Classical.not_imp.mp hc
    refine ⟨c, hheld, ?_⟩
    have hbound := hearlier c hheld
    have hnow : ¬ c.signedAt < u.now := hle
    omega
  · intro hsame hnewer
    obtain ⟨c, hc, htime⟩ := hsame
    have hlt : c.signedAt < u.now := hnewer c hc
    omega

/-! ## Every sequence of changes -/

/-- After all changes the signer holds of each setting the record signed last, and its follower the first of the newest.
    While the clock does not run back they hold the same exactly if the last record of the setting is the first one of
    its second, so they agree on everything if no setting is given two values in a second; and the signer replaces a
    record by one that the follower leaves exactly if the follower's is of the same second. -/
theorem signer_and_follower_agree_on_the_first_value_of_a_second (pair : KeyPair) (us : List Change) :
    (∀ id, (followed pair us).signer.records[id]? = (signedFor pair us id).getLast? ∧
      (followed pair us).follower.records[id]? = (signedFor pair us id).argmax SporkRecord.signedAt) ∧
    (NotBack us → ∀ id, (followed pair us).signer.records[id]? = (followed pair us).follower.records[id]? ↔
      ∀ last, (signedFor pair us id).getLast? = some last →
        (signedFor pair us id).find? (fun r => decide (r.signedAt = last.signedAt)) = some last) ∧
    (NotBack us → Distinct (signedRecords pair us) →
      (followed pair us).signer.records = (followed pair us).follower.records) ∧
    ∀ u s r, NotBack (us ++ [u]) → (followed pair us).signer.update u.spork u.value u.now = .ok (s, r) →
      s.records[u.spork.number]? = some r ∧
        (¬ (followed pair us).follower.Accepts r ↔
          ∃ c, (followed pair us).follower.records[u.spork.number]? = some c ∧ c.signedAt = u.now) := by
  refine ⟨fun id => ⟨signer_holds pair us id, follower_holds pair us id⟩, fun h => agree_iff h pair, ?_, ?_⟩
  · intro h hdistinct
    refine Std.ExtTreeMap.ext_getElem? ?_
    intro id
    rw [agree_iff h]
    intro last hlast
    have hmem := List.mem_of_getLast? hlast
    cases hfirst : (signedFor pair us id).find? fun r => decide (r.signedAt = last.signedAt) with
    | none =>
      have hno := List.find?_eq_none.mp hfirst last hmem
      simp at hno
    | some first =>
      have htime : first.signedAt = last.signedAt := by simpa using List.find?_some hfirst
      obtain ⟨hin, hid⟩ := List.mem_filter.mp (List.mem_of_find?_eq_some hfirst)
      obtain ⟨hin', hid'⟩ := List.mem_filter.mp hmem
      have hsetting : first.id = last.id := (of_decide_eq_true hid).trans (of_decide_eq_true hid').symm
      rw [hdistinct first hin last hin' hsetting htime]
  · intro u s r h hupdate
    obtain ⟨hkey, hsigner, -⟩ := followed_keys pair us
    rcases update_of_signer hkey hsigner u with ⟨hsigned, hu⟩ | ⟨-, e, hu⟩
    · rw [hu] at hupdate
      cases hupdate
      refine ⟨?_, left_iff h hsigned⟩
      rw [lookup_store]
      exact if_pos rfl
    · rw [hu] at hupdate
      cases hupdate

/-- A setting given two values in one second. -/
def twoValues : List Change :=
  [⟨.masternodeBudgetEnforcement, 1, 1600000000⟩, ⟨.masternodeBudgetEnforcement, 2, 1600000000⟩]

set_option maxRecDepth 20000 in
/-- The signer holds the second value, and a follower the first. -/
theorem the_second_value_of_a_second_parts_signer_and_follower :
    NotBack twoValues ∧ ∃ pair : KeyPair,
      (followed pair twoValues).signer.records[9]? ≠ (followed pair twoValues).follower.records[9]? := by
  have hclock : NotBack twoValues := by
    unfold NotBack
    decide
  let pair : KeyPair :=
    ⟨Bytes.ofNatBE 32 0x9d61b19deffd5a60ba844af492ec2cc44449c5697b326919703bac031cae7f60,
      0xd75a980182b10ab7d54bfed3c964073a0ee172f3daa62325af021a68f707511a#256, by decide +kernel⟩
  have hsigned : ∀ r ∈ twoValues.map (Change.record pair), pair.publicKey.Signed r.signature r.text := by
    decide +kernel
  have hall : signedFor pair twoValues 9 = twoValues.map (Change.record pair) := by
    unfold signedFor signedRecords
    rw [List.filter_eq_self.mpr fun r hr => decide_eq_true (hsigned r hr)]
    rfl
  refine ⟨hclock, pair, ?_⟩
  intro hagree
  have hfirst := ((signer_and_follower_agree_on_the_first_value_of_a_second pair twoValues).2.1 hclock 9).mp hagree
  rw [hall] at hfirst
  have hsame := hfirst _ rfl
  -- the first record of that second carries the other value
  have hvalue := congrArg (Option.map SporkRecord.value) hsame
  simp [twoValues, Change.record, SporkRecord.create] at hvalue

end NodeQuorum.Sporks
