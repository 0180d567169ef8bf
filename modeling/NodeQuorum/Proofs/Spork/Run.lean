/-
  NodeQuorum.Proofs.Spork.Run — what a store of settings goes through, and what stays true of it.

  A store takes records from peers, takes the network's secret, and signs records of its own. Whatever it
  goes through (`run`), its key stays, and every record it holds stands under its own number and was
  signed with that key (`run_sound`).
-/

import NodeQuorum.Spork.Store
import NodeQuorum.Proofs.Table

namespace NodeQuorum

/-- The text that the signature of a record covers. -/
def SporkRecord.text (r : SporkRecord) : String := SporkRecord.signedText r.id r.value r.signedAt

namespace Sporks

/-- What a store goes through. -/
inductive Event where
  | receive (r : SporkRecord)
  | takeSecret (pair : KeyPair)
  | update (spork : SporkId) (value now : Int)

def step (s : Sporks) : Event → Sporks
  | .receive r => (s.process r).1
  | .takeSecret pair => match s.setSigner pair with
    | .ok s' => s'
    | .error _ => s
  | .update spork value now => match s.update spork value now with
    | .ok (s', _) => s'
    | .error _ => s

/-- The store of a network after some events. -/
def run (key : PublicKey) (es : List Event) : Sporks := es.foldl step (empty key)

/-- No record held for the same setting is as new. -/
def Newer (s : Sporks) (r : SporkRecord) : Prop := ∀ c, s.records[r.id]? = some c → c.signedAt < r.signedAt

/-- Whether a store takes a record. -/
def Accepts (s : Sporks) (r : SporkRecord) : Prop := ∃ action, (s.process r).2 = .ok action

/-! ## What one record does -/

theorem checkSignature_eq_ok {s : Sporks} {r : SporkRecord} :
    check.checkSignature s r = .ok () ↔ s.key.Signed r.signature r.text := by
  unfold check.checkSignature
  rw [mapError_eq_ok]
  exact Iff.rfl

theorem check_eq_ok {s : Sporks} {r : SporkRecord} :
    s.check r = .ok () ↔ s.Newer r ∧ s.key.Signed r.signature r.text := by
  unfold check Newer
  split
  · rename_i c hc
    by_cases hle : r.signedAt ≤ c.signedAt
    · rw [if_pos hle]
      constructor
      · intro h
        cases h
      · intro h
        have := h.1 c hc
        omega
    · rw [if_neg hle, checkSignature_eq_ok]
      constructor
      · intro hsigned
        refine ⟨?_, hsigned⟩
        intro c' hc'
        rw [hc] at hc'
        cases hc'
        omega
      · exact fun h => h.2
  · rename_i hc
    rw [checkSignature_eq_ok]
    constructor
    · intro hsigned
      refine ⟨?_, hsigned⟩
      intro c hc'
      rw [hc] at hc'
      cases hc'
    · exact fun h => h.2

/-- A record is taken exactly if it is newer than the one held and signed with the store's key. -/
theorem accepts_iff {s : Sporks} {r : SporkRecord} : s.Accepts r ↔ s.Newer r ∧ s.key.Signed r.signature r.text := by
  rw [← check_eq_ok]
  unfold Accepts process
  split
  · rename_i h; simp [h]
  · rename_i h; simp [h]

/-- A received record leaves the store as it was, or is stored after it was accepted. -/
theorem process_cases (s : Sporks) (r : SporkRecord) :
    (s.process r).1 = s ∨ ((s.process r).1 = s.store r ∧ s.Accepts r) := by
  unfold process
  split
  · exact Or.inl rfl
  · rename_i h
    exact Or.inr ⟨rfl, accepts_iff.mpr (check_eq_ok.mp h)⟩

/-- A record of this node's own is stored after its signature was checked. -/
theorem update_eq_ok {s s' : Sporks} {spork : SporkId} {value now : Int} {r : SporkRecord}
    (h : s.update spork value now = .ok (s', r)) : s' = s.store r ∧ s.key.Signed r.signature r.text := by
  unfold update at h
  split at h
  · cases h
  · obtain ⟨_, hv, hs⟩ := map_eq_ok.mp h
    cases hs
    exact ⟨rfl, mapError_eq_ok.mp hv⟩

theorem lookup_store (s : Sporks) (r : SporkRecord) (id : Nat) :
    (s.store r).records[id]? = if r.id = id then some r else s.records[id]? :=
  Table.lookup_insert s.records r.id id r

/-- One event leaves key and records as they were, or stores a record whose signature was checked. -/
theorem step_cases (s : Sporks) (e : Event) :
    ((step s e).key = s.key ∧ (step s e).records = s.records) ∨
      ∃ r, step s e = s.store r ∧ s.key.Signed r.signature r.text := by
  cases e with
  | receive r =>
    rcases process_cases s r with hs | ⟨hs, ha⟩
    · exact Or.inl (by simp only [step, hs, and_self])
    · exact Or.inr ⟨r, hs, (accepts_iff.mp ha).2⟩
  | takeSecret pair =>
    refine Or.inl ?_
    simp only [step, setSigner]
    by_cases hp : pair.publicKey = s.key
    · simp only [hp, if_true, and_self]
    · simp only [hp, if_false, and_self]
  | update spork value now =>
    simp only [step]
    split
    · rename_i r hs
      obtain ⟨rfl, hr⟩ := update_eq_ok hs
      exact Or.inr ⟨r, rfl, hr⟩
    · exact Or.inl ⟨rfl, rfl⟩

/-! ## What every run keeps -/

/-- Every record stands under its own number and was signed with the store's key. -/
structure Sound (key : PublicKey) (s : Sporks) : Prop where
  key_eq : s.key = key
  id_eq : ∀ (id : Nat) (r : SporkRecord), s.records[id]? = some r → r.id = id
  signed : ∀ (id : Nat) (r : SporkRecord), s.records[id]? = some r → key.Signed r.signature r.text

theorem sound_empty (key : PublicKey) : Sound key (empty key) := ⟨rfl, by simp [empty], by simp [empty]⟩

theorem sound_store {key : PublicKey} {s : Sporks} {r : SporkRecord} (h : Sound key s)
    (hr : key.Signed r.signature r.text) : Sound key (s.store r) :=
  ⟨h.key_eq, Table.forall_insert h.id_eq rfl, Table.forall_insert h.signed hr⟩

theorem sound_step {key : PublicKey} {s : Sporks} (h : Sound key s) (e : Event) : Sound key (step s e) := by
  rcases step_cases s e with ⟨hk, hr⟩ | ⟨r, hs, hr⟩
  · exact ⟨hk ▸ h.key_eq, hr ▸ h.id_eq, hr ▸ h.signed⟩
  · rw [hs]
    exact sound_store h (h.key_eq ▸ hr)

theorem run_sound (key : PublicKey) (es : List Event) : Sound key (run key es) :=
  List.foldlRecOn es step (sound_empty key) fun _ h e _ => sound_step h e

end Sporks
end NodeQuorum
