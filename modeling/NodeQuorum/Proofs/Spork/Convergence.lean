/-
  NodeQuorum.Proofs.Spork.Convergence — nodes that receive the same signed settings agree on them.

  A store that only receives records (`follow`) holds for each setting a newest one of the records that it received and
  that the network's key signed, and nothing where there is none (`follow_holds`). Which one that is does not depend on
  their order, on how often each of them came, or on what came in between without a signature of the key, as long as no
  two records of a setting were signed at one time:
  - `Delivers.held_iff`: then there is only one newest record, and it is held.
  - `followers_converge_on_the_newest_signed_records`: every delivery of the same signed records leads to the same
    records, values and switches.
-/

import Mathlib.Data.List.Induction
import NodeQuorum.Proofs.Spork.Run

namespace NodeQuorum.Sporks

/-! ## Signed records among others -/

/-- A record of a setting that is among some records and carries a signature of the key. -/
def Received (key : PublicKey) (rs : List SporkRecord) (id : Nat) (r : SporkRecord) : Prop :=
  r ∈ rs ∧ r.id = id ∧ key.Signed r.signature r.text

theorem received_concat {key : PublicKey} {rs : List SporkRecord} {id : Nat} {r r' : SporkRecord} :
    Received key (rs ++ [r]) id r' ↔ Received key rs id r' ∨ r' = r ∧ r.id = id ∧ key.Signed r.signature r.text := by
  unfold Received
  rw [List.mem_append, List.mem_singleton, or_and_right]
  refine or_congr_right (and_congr_right ?_)
  rintro rfl
  exact Iff.rfl

/-- One of the signed records of a setting, and none of them is newer. -/
def Newest (key : PublicKey) (rs : List SporkRecord) (id : Nat) (c : SporkRecord) : Prop :=
  Received key rs id c ∧ ∀ r, Received key rs id r → r.signedAt ≤ c.signedAt

/-- What is held of a setting is a newest signed record, and nothing if there is none. -/
def Holds (key : PublicKey) (rs : List SporkRecord) (id : Nat) : Option SporkRecord → Prop
  | some c => Newest key rs id c
  | none => ∀ r, ¬ Received key rs id r

/-- What is held stays right behind one more record, unless that one is signed, of the setting and newer. -/
theorem Holds.kept {key : PublicKey} {rs : List SporkRecord} {id : Nat} {held : Option SporkRecord}
    (h : Holds key rs id held) {r : SporkRecord}
    (hr : r.id = id → key.Signed r.signature r.text → ∃ c, held = some c ∧ r.signedAt ≤ c.signedAt) :
    Holds key (rs ++ [r]) id held := by
  cases held with
  | none =>
    intro r' hr'
    rcases received_concat.mp hr' with hbefore | ⟨-, hid, hsigned⟩
    · exact h r' hbefore
    · obtain ⟨c, hc, -⟩ := hr hid hsigned
      cases hc
  | some c =>
    refine ⟨received_concat.mpr (Or.inl h.1), ?_⟩
    intro r' hr'
    rcases received_concat.mp hr' with hbefore | ⟨rfl, hid, hsigned⟩
    · exact h.2 r' hbefore
    · obtain ⟨c', hc, hle⟩ := hr hid hsigned
      cases hc
      exact hle

/-- A signed record that is newer than what is held is the newest. -/
theorem Holds.taken {key : PublicKey} {rs : List SporkRecord} {r : SporkRecord} {held : Option SporkRecord}
    (h : Holds key rs r.id held) (hsigned : key.Signed r.signature r.text)
    (hnewer : ∀ c, held = some c → c.signedAt < r.signedAt) : Holds key (rs ++ [r]) r.id (some r) := by
  refine ⟨received_concat.mpr (Or.inr ⟨rfl, rfl, hsigned⟩), ?_⟩
  intro r' hr'
  rcases received_concat.mp hr' with hbefore | ⟨rfl, -, -⟩
  · cases held with
    | none => exact absurd hbefore (h r')
    | some c =>
      have hle := h.2 r' hbefore
      have hlt := hnewer c rfl
      omega
  · exact Int.le_refl _

/-! ## What a follower holds -/

/-- The store of a node that received some records. -/
def follow (key : PublicKey) (rs : List SporkRecord) : Sporks := run key (rs.map .receive)

theorem follow_concat (key : PublicKey) (rs : List SporkRecord) (r : SporkRecord) :
    follow key (rs ++ [r]) = ((follow key rs).process r).1 := by
  unfold follow run
  rw [List.map_append, List.foldl_append]
  rfl

theorem follow_key (key : PublicKey) (rs : List SporkRecord) : (follow key rs).key = key := (run_sound key _).key_eq

/-- An accepted record takes the place of its setting. -/
theorem process_of_accepted {s : Sporks} {r : SporkRecord} (h : s.Accepts r) : (s.process r).1 = s.store r := by
  unfold process
  rw [check_eq_ok.mpr (accepts_iff.mp h)]

theorem process_of_refused {s : Sporks} {r : SporkRecord} (h : ¬ s.Accepts r) : (s.process r).1 = s :=
  (process_cases s r).resolve_right fun hstored => h hstored.2

/-- A record that is signed but not taken is no newer than what is held. -/
theorem held_of_refused {s : Sporks} {r : SporkRecord} (h : ¬ s.Accepts r) (hsigned : s.key.Signed r.signature r.text) :
    ∃ c, s.records[r.id]? = some c ∧ r.signedAt ≤ c.signedAt := by
  rw [accepts_iff] at h
  have hold : ¬ s.Newer r := fun hnewer => h ⟨hnewer, hsigned⟩
  unfold Newer at hold
  obtain ⟨c, hc⟩ := Classical.not_forall.mp hold
  obtain ⟨hheld, hle⟩ := Classical.not_imp.mp hc
  exact ⟨c, hheld, Int.not_lt.mp hle⟩

theorem follow_holds (key : PublicKey) (rs : List SporkRecord) (id : Nat) :
    Holds key rs id (follow key rs).records[id]? := by
  induction rs using List.reverseRecOn with
  | nil => exact fun _ hr => nomatch hr.1
  | append_singleton rs r ih =>
    have hkey := follow_key key rs
    rw [follow_concat]
    by_cases haccepts : (follow key rs).Accepts r
    · obtain ⟨hnewer, hsigned⟩ := accepts_iff.mp haccepts
      rw [hkey] at hsigned
      rw [process_of_accepted haccepts, lookup_store]
      by_cases hid : r.id = id
      · subst hid
        rw [if_pos rfl]
        exact ih.taken hsigned hnewer
      · rw [if_neg hid]
        exact ih.kept fun hid' => absurd hid' hid
    · rw [process_of_refused haccepts]
      refine ih.kept ?_
      rintro rfl hsigned
      rw [← hkey] at hsigned
      exact held_of_refused haccepts hsigned

/-! ## Every delivery of the same signed records -/

/-- Records that came in hold all of some signed records, in any order and any number of times, and beside them only
    what the key did not sign. -/
structure Delivers (key : PublicKey) (signed rs : List SporkRecord) : Prop where
  all : ∀ r ∈ signed, r ∈ rs
  only : ∀ r ∈ rs, key.Signed r.signature r.text → r ∈ signed

/-- No two records of a setting were signed at one time. -/
def Distinct (signed : List SporkRecord) : Prop :=
  ∀ r ∈ signed, ∀ r' ∈ signed, r.id = r'.id → r.signedAt = r'.signedAt → r = r'

/-- The signed records of a delivery are the ones delivered. -/
theorem Delivers.received_iff {key : PublicKey} {signed rs : List SporkRecord} (h : Delivers key signed rs)
    (hsigned : ∀ r ∈ signed, key.Signed r.signature r.text) {id : Nat} {r : SporkRecord} :
    Received key rs id r ↔ r ∈ signed ∧ r.id = id := by
  constructor
  · rintro ⟨hr, hid, hs⟩
    exact ⟨h.only r hr hs, hid⟩
  · rintro ⟨hr, hid⟩
    exact ⟨h.all r hr, hid, hsigned r hr⟩

theorem Delivers.held_iff {key : PublicKey} {signed rs : List SporkRecord} (h : Delivers key signed rs)
    (hsigned : ∀ r ∈ signed, key.Signed r.signature r.text) (hdistinct : Distinct signed) (id : Nat) (c : SporkRecord) :
    (follow key rs).records[id]? = some c ↔
      c ∈ signed ∧ c.id = id ∧ ∀ r ∈ signed, r.id = id → r.signedAt ≤ c.signedAt := by
  have hholds := follow_holds key rs id
  constructor
  · intro hc
    rw [hc] at hholds
    obtain ⟨hmem, hid⟩ := (h.received_iff hsigned).mp hholds.1
    exact ⟨hmem, hid, fun r hr hid' => hholds.2 r ((h.received_iff hsigned).mpr ⟨hr, hid'⟩)⟩
  · rintro ⟨hmem, hid, hnewest⟩
    have hreceived := (h.received_iff hsigned).mpr ⟨hmem, hid⟩
    cases hheld : (follow key rs).records[id]? with
    | none =>
      rw [hheld] at hholds
      exact absurd hreceived (hholds c)
    | some c' =>
      rw [hheld] at hholds
      obtain ⟨hmem', hid'⟩ := (h.received_iff hsigned).mp hholds.1
      -- each of the two is at least as new as the other
      have hle := hholds.2 c hreceived
      have hge := hnewest c' hmem' hid'
      rw [hdistinct c' hmem' c hmem (hid'.trans hid.symm) (by omega)]

/-- Signed records, no two of one setting signed at one time, in every order, with any repetitions and with any records
    in between that the key did not sign, leave a store with the newest record of each setting, and so all stores that
    received them with the same records, values and switches. -/
theorem followers_converge_on_the_newest_signed_records {key : PublicKey} {signed : List SporkRecord}
    (hsigned : ∀ r ∈ signed, key.Signed r.signature r.text) (hdistinct : Distinct signed) :
    (∀ rs, Delivers key signed rs → ∀ id c, (follow key rs).records[id]? = some c ↔
      c ∈ signed ∧ c.id = id ∧ ∀ r ∈ signed, r.id = id → r.signedAt ≤ c.signedAt) ∧
    ∀ rs rs', Delivers key signed rs → Delivers key signed rs' →
      (follow key rs).records = (follow key rs').records ∧
      (∀ id, (follow key rs).valueOf id = (follow key rs').valueOf id) ∧
      ∀ spork now, (follow key rs).isActive spork now = (follow key rs').isActive spork now := by
  refine ⟨fun rs h => h.held_iff hsigned hdistinct, ?_⟩
  intro rs rs' h h'
  have hrecords : (follow key rs).records = (follow key rs').records := by
    refine Std.ExtTreeMap.ext_getElem? ?_
    intro id
    refine Option.ext ?_
    intro c
    rw [h.held_iff hsigned hdistinct, h'.held_iff hsigned hdistinct]
  have hvalues : ∀ id, (follow key rs).valueOf id = (follow key rs').valueOf id := by
    intro id
    unfold valueOf
    rw [hrecords]
  refine ⟨hrecords, hvalues, ?_⟩
  intro spork now
  unfold isActive value
  rw [hvalues]

/-- A record that a network's key signed, and an older one of the same setting. -/
def newer : SporkRecord :=
  { id := 8, value := 1, signedAt := 100,
    signature := Bytes.ofNatBE 64
      (0xd63649817f71c4772b33d3c80072f2dce67570df878c2ad44fda63543d6cc083 * 2 ^ 256 +
        0x390feed022b925816f7360fa78843da1c490c473d91e249a7358814270b73b0d) }

def older : SporkRecord :=
  { id := 8, value := 5, signedAt := 50,
    signature := Bytes.ofNatBE 64
      (0x89e5c0ba9ba40d8198a8d73d3e66cb27e6cfba37442481ddea2df0dd61c627b3 * 2 ^ 256 +
        0x2d008cda97aa0b1aa69ff971656e1d9341aabdcfc3c3bc7ad9eba8a1c4f00d0d) }

/-- A record of a later time that nobody signed. -/
def forged : SporkRecord := ⟨8, 7, 200, []⟩

set_option maxRecDepth 20000 in
/-- The newer record is held whether it comes first or last, with a forged one in between. -/
theorem an_older_record_does_not_replace_a_newer :
    let key : PublicKey := 0xd75a980182b10ab7d54bfed3c964073a0ee172f3daa62325af021a68f707511a#256
    (∀ r ∈ [older, newer], key.Signed r.signature r.text) ∧ Distinct [older, newer] ∧
      Delivers key [older, newer] [newer, forged, older, newer] ∧ Delivers key [older, newer] [older, newer] ∧
      (follow key [newer, forged, older, newer]).records[8]? = some newer ∧
      (follow key [newer, forged, older, newer]).records = (follow key [older, newer]).records := by
  intro key
  have hsigned : ∀ r ∈ [older, newer], key.Signed r.signature r.text := by decide +kernel
  have hdistinct : Distinct [older, newer] := by
    unfold Distinct
    decide
  have hforged : ¬ key.Signed forged.signature forged.text := by decide +kernel
  have hmixed : Delivers key [older, newer] [newer, forged, older, newer] := by
    refine ⟨by decide, ?_⟩
    intro r hr hs
    have hne : r ≠ forged := by
      rintro rfl
      exact hforged hs
    have hr : r = newer ∨ r = older ∨ r = newer := by simpa [hne] using hr
    rcases hr with rfl | rfl | rfl <;> decide
  have hplain : Delivers key [older, newer] [older, newer] := ⟨fun _ hr => hr, fun _ hr _ => hr⟩
  obtain ⟨hheld, hsame⟩ := followers_converge_on_the_newest_signed_records hsigned hdistinct
  refine ⟨hsigned, hdistinct, hmixed, hplain, (hheld _ hmixed 8 newer).mpr ?_, (hsame _ _ hmixed hplain).1⟩
  decide

end NodeQuorum.Sporks
