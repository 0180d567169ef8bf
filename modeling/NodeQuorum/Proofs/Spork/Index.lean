/-
  NodeQuorum.Proofs.Spork.Index — the settings held, and the index of them by hash.

  A record stands in two tables, under the number of its setting and under its hash. A hash covers the three numbers of
  a record and not its signature, so a record can take the place of one with the same hash. As long as the hashes of a
  run tell its triples apart (`HashesApart`), the two tables hold the same records:
  - `indexed_store`: a stored record takes its predecessor out of both tables and no other record out of either.
  - `run_indexed`: so in every run a record is found under a hash exactly if it is held and has that hash (`Indexed`).
  - `stored_records_are_signed_and_found_by_their_hashes`: with that, each record held stands in the index once, and
    the hash of a record that was replaced is unknown again.
-/

import NodeQuorum.Proofs.Spork.Binding
import NodeQuorum.Proofs.Spork.Convergence

namespace NodeQuorum

/-- The hash of every record with these numbers. -/
def SporkRecord.hashOf (t : Nat × Int × Int) : Hash := SporkRecord.hash ⟨t.1, t.2.1, t.2.2, []⟩

/-- A hash does not cover the signature. -/
theorem SporkRecord.hash_eq_hashOf (r : SporkRecord) : r.hash = SporkRecord.hashOf r.triple := rfl

namespace Sporks

/-! ## The numbers that a run may store -/

/-- The numbers of the record that an event brings. -/
def Event.triple? : Event → Option (Nat × Int × Int)
  | .receive r => some r.triple
  | .takeSecret _ => none
  | .update spork value now => some (spork.number, value, now)

def triples (es : List Event) : List (Nat × Int × Int) := es.filterMap Event.triple?

/-- The hashes of a run tell the numbers that it may store apart. -/
def HashesApart (es : List Event) : Prop := Table.TellsApart SporkRecord.hashOf (triples es)

/-- A record that this node signs carries the numbers that it was asked for. -/
theorem triple_of_update {s s' : Sporks} {spork : SporkId} {value now : Int} {r : SporkRecord}
    (h : s.update spork value now = .ok (s', r)) : r.triple = (spork.number, value, now) := by
  unfold update at h
  split at h
  · cases h
  · obtain ⟨_, -, hs⟩ := map_eq_ok.mp h
    cases hs
    rfl

/-- One event leaves both tables as they were, or stores a record with its numbers. -/
theorem step_stores (s : Sporks) (e : Event) :
    ((step s e).records = s.records ∧ (step s e).byHash = s.byHash) ∨
      ∃ r, step s e = s.store r ∧ e.triple? = some r.triple := by
  cases e with
  | receive r =>
    rcases process_cases s r with hs | ⟨hs, -⟩
    · exact Or.inl ⟨congrArg records hs, congrArg byHash hs⟩
    · exact Or.inr ⟨r, hs, rfl⟩
  | takeSecret pair =>
    refine Or.inl ?_
    unfold step setSigner
    by_cases hp : pair.publicKey = s.key
    · simp only [hp, if_true, and_self]
    · simp only [hp, if_false, and_self]
  | update spork value now =>
    unfold step
    dsimp only
    split
    · rename_i r hupdate
      exact Or.inr ⟨r, (update_eq_ok hupdate).1, congrArg some (triple_of_update hupdate).symm⟩
    · exact Or.inl ⟨rfl, rfl⟩

/-! ## The two tables -/

/-- A record is found under a hash exactly if it is held and has that hash. -/
def Indexed (s : Sporks) : Prop :=
  ∀ (k : Hash) (r : SporkRecord), s.byHash[k]? = some r ↔ s.records[r.id]? = some r ∧ r.hash = k

/-- What a store holds is among some triples. -/
def Within (s : Sporks) (ts : List (Nat × Int × Int)) : Prop :=
  ∀ (id : Nat) (r : SporkRecord), s.records[id]? = some r → r.triple ∈ ts

/-- After a record was stored, what is found under a hash is that record, or what was found before if it was not the
    record's predecessor. -/
theorem lookup_byHash_store {s : Sporks} {r c : SporkRecord} {k : Hash} :
    (s.store r).byHash[k]? = some c ↔
      r = c ∧ r.hash = k ∨
        s.byHash[k]? = some c ∧ r.hash ≠ k ∧ ∀ previous, s.records[r.id]? = some previous → previous.hash ≠ k := by
  unfold store
  dsimp only
  rw [Table.lookup_insert]
  by_cases hk : r.hash = k
  · simp [hk]
  · cases hprevious : s.records[r.id]? with
    | none => simp [hk]
    | some previous =>
      rw [if_neg hk, Table.lookup_erase]
      by_cases hp : previous.hash = k
      · simp [hk, hp]
      · simp [hk, hp]

theorem within_store {s : Sporks} {ts : List (Nat × Int × Int)} {r : SporkRecord} (h : Within s ts)
    (hr : r.triple ∈ ts) : Within (s.store r) ts := Table.forall_insert h hr

/-- A stored record takes its predecessor out of both tables, and nothing else out of either. -/
theorem indexed_store {key : PublicKey} {s : Sporks} {ts : List (Nat × Int × Int)} {r : SporkRecord}
    (hsound : Sound key s) (hwithin : Within s ts) (hapart : Table.TellsApart SporkRecord.hashOf ts)
    (hr : r.triple ∈ ts) (h : Indexed s) : Indexed (s.store r) := by
  -- records of two settings have two hashes
  have hsetting : ∀ c c' : SporkRecord, c.triple ∈ ts → c'.triple ∈ ts → c.hash = c'.hash → c.id = c'.id := by
    intro c c' hc hc' hhash
    rw [c.hash_eq_hashOf, c'.hash_eq_hashOf] at hhash
    exact congrArg Prod.fst (hapart c.triple hc c'.triple hc' hhash)
  intro k c
  rw [lookup_byHash_store, lookup_store, h k c]
  by_cases hid : r.id = c.id
  · rw [if_pos hid, Option.some_inj]
    constructor
    · rintro (⟨rfl, hk⟩ | ⟨⟨hheld, hk⟩, -, hno⟩)
      · exact ⟨rfl, hk⟩
      · -- what was held of this setting is no longer found
        exact absurd hk (hno c (hid ▸ hheld))
    · rintro ⟨rfl, hk⟩
      exact Or.inl ⟨rfl, hk⟩
  · rw [if_neg hid]
    constructor
    · rintro (⟨rfl, -⟩ | ⟨hheld, -, -⟩)
      · exact absurd rfl hid
      · exact hheld
    · rintro ⟨hheld, rfl⟩
      have hc := hwithin c.id c hheld
      refine Or.inr ⟨⟨hheld, rfl⟩, fun hhash => hid (hsetting r c hr hc hhash), ?_⟩
      intro previous hprevious hhash
      have hsame := hsetting previous c (hwithin r.id previous hprevious) hc hhash
      rw [hsound.id_eq r.id previous hprevious] at hsame
      exact hid hsame

theorem indexed_empty (key : PublicKey) : Indexed (empty key) := by
  intro k r
  simp [empty]

/-- In every run whose hashes tell its triples apart, the index holds the records held and no others. -/
theorem run_indexed (key : PublicKey) {es : List Event} (hapart : HashesApart es) :
    Within (run key es) (triples es) ∧ Indexed (run key es) := by
  suffices hrun : Sound key (run key es) ∧ Within (run key es) (triples es) ∧ Indexed (run key es) from hrun.2
  have hempty : Within (empty key) (triples es) := by simp [Within, empty]
  refine List.foldlRecOn (motive := fun s => Sound key s ∧ Within s (triples es) ∧ Indexed s) es step
    ⟨sound_empty key, hempty, indexed_empty key⟩ ?_
  rintro s ⟨hsound, hwithin, hindexed⟩ e he
  refine ⟨sound_step hsound e, ?_⟩
  rcases step_stores s e with ⟨hrecords, hbyHash⟩ | ⟨r, hs, htriple⟩
  · unfold Within Indexed
    rw [hrecords, hbyHash]
    exact ⟨hwithin, hindexed⟩
  · have hr : r.triple ∈ triples es := List.mem_filterMap.mpr ⟨e, he, htriple⟩
    rw [hs]
    exact ⟨within_store hwithin hr, indexed_store hsound hwithin hapart hr hindexed⟩

/-! ## What follows from the index -/

/-- Each record held stands in the index once. -/
theorem Indexed.values_perm {key : PublicKey} {s : Sporks} (h : Indexed s) (hsound : Sound key s) :
    s.byHash.values.Perm s.records.values := by
  have hkeyed : s.byHash.Keyed SporkRecord.hash := fun k r hr => ((h k r).mp hr).2
  have hids : s.records.Keyed SporkRecord.id := hsound.id_eq
  rw [List.perm_ext_iff_of_nodup hkeyed.nodup_values hids.nodup_values]
  intro r
  rw [Table.mem_values, Table.mem_values]
  constructor
  · rintro ⟨k, hr⟩
    exact ⟨r.id, ((h k r).mp hr).1⟩
  · rintro ⟨id, hr⟩
    obtain rfl := hids id r hr
    exact ⟨r.hash, (h r.hash r).mpr ⟨hr, rfl⟩⟩

/-- The hash of some numbers is known exactly if the record held for their setting has these numbers. -/
theorem Indexed.contains_iff {s : Sporks} {ts : List (Nat × Int × Int)} (h : Indexed s) (hwithin : Within s ts)
    (hapart : Table.TellsApart SporkRecord.hashOf ts) {t : Nat × Int × Int} (ht : t ∈ ts) :
    s.byHash.contains (SporkRecord.hashOf t) = true ↔ ∃ c, s.records[t.1]? = some c ∧ c.triple = t := by
  rw [Table.contains_iff_lookup]
  constructor
  · rintro ⟨c, hc⟩
    obtain ⟨hheld, hhash⟩ := (h _ c).mp hc
    obtain rfl := hapart c.triple (hwithin c.id c hheld) t ht (c.hash_eq_hashOf.symm.trans hhash)
    exact ⟨c, hheld, rfl⟩
  · rintro ⟨c, hheld, rfl⟩
    exact ⟨c, (h _ c).mpr ⟨hheld, c.hash_eq_hashOf⟩⟩

theorem process_of_error {s : Sporks} {r : SporkRecord} {e : Reject} (h : (s.process r).2 = .error e) :
    (s.process r).1 = s := by
  refine process_of_refused ?_
  rintro ⟨action, haccepted⟩
  rw [h] at haccepted
  cases haccepted

/-- After every run each record held verifies under the network's key and stands under its own setting, and a record that
    is refused changes nothing. If the hashes of the run tell its triples apart, what is found under a hash is the record
    held that has the hash, each record held stands in the index once, and of all the numbers that came in the run only
    those held are known by their hashes. -/
theorem stored_records_are_signed_and_found_by_their_hashes (key : PublicKey) (es : List Event) :
    (∀ (id : Nat) (r : SporkRecord), (run key es).records[id]? = some r → r.id = id ∧ r.verify key = .ok ()) ∧
    (∀ r e, ((run key es).process r).2 = .error e → ((run key es).process r).1 = run key es) ∧
    (HashesApart es →
      (∀ (k : Hash) (r : SporkRecord), (run key es).byHash[k]? = some r ↔
        (run key es).records[r.id]? = some r ∧ r.hash = k) ∧
      (run key es).byHash.values.Perm (run key es).records.values ∧
      ∀ t ∈ triples es, (run key es).byHash.contains (SporkRecord.hashOf t) = true ↔
        ∃ c, (run key es).records[t.1]? = some c ∧ c.triple = t) := by
  have hsound := run_sound key es
  refine ⟨?_, fun r e => process_of_error, ?_⟩
  · intro id r hr
    exact ⟨hsound.id_eq id r hr, hsound.signed id r hr⟩
  · intro hapart
    obtain ⟨hwithin, hindexed⟩ := run_indexed key hapart
    exact ⟨hindexed, hindexed.values_perm hsound, fun t ht => hindexed.contains_iff hwithin hapart ht⟩

set_option maxRecDepth 20000 in
/-- A record that was replaced is known no longer, and the one in its place is found. -/
theorem a_replaced_record_is_known_no_longer :
    let key : PublicKey := 0xd75a980182b10ab7d54bfed3c964073a0ee172f3daa62325af021a68f707511a#256
    HashesApart [.receive older, .receive newer] ∧
      (run key [.receive older, .receive newer]).byHash.contains older.hash = false ∧
      (run key [.receive older, .receive newer]).byHash[newer.hash]? = some newer := by
  intro key
  have hapart : HashesApart [.receive older, .receive newer] := by
    unfold HashesApart
    decide +kernel
  have hsigned : ∀ r ∈ [older, newer], key.Signed r.signature r.text := by decide +kernel
  have hdistinct : Distinct [older, newer] := by
    unfold Distinct
    decide
  have hdelivers : Delivers key [older, newer] [older, newer] := ⟨fun _ hr => hr, fun _ hr _ => hr⟩
  have hheld : (run key [.receive older, .receive newer]).records[8]? = some newer :=
    (hdelivers.held_iff hsigned hdistinct 8 newer).mpr (by decide)
  obtain ⟨-, -, hindex⟩ := stored_records_are_signed_and_found_by_their_hashes key [.receive older, .receive newer]
  obtain ⟨hfound, -, hknown⟩ := hindex hapart
  refine ⟨hapart, ?_, (hfound newer.hash newer).mpr ⟨hheld, rfl⟩⟩
  rw [Bool.eq_false_iff]
  intro hold
  obtain ⟨c, hc, htriple⟩ := (hknown older.triple (by decide)).mp hold
  have hsame : newer = c := Option.some_inj.mp (hheld.symm.trans hc)
  rw [← hsame] at htriple
  exact absurd htriple (by decide)

end Sporks
end NodeQuorum
