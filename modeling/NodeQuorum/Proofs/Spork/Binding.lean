/-
  NodeQuorum.Proofs.Spork.Binding — how far the signature of a setting binds the record that carries it.

  A signature covers three numbers in decimal with nothing between them, so it binds their text and not
  where the text is cut:
  - `triple_eq_iff_same_cut`: records with one text carry the same numbers exactly if the numbers of the
    setting and the signing times are equally long.
  - `known_setting_of_text`: among the settings known by name the text tells the setting, since no number of
    one is the beginning of another's.
  - `signed_text_binds_up_to_the_cut`: in every store that ran, a record with the text and the signature of
    a held one is taken exactly if it is newer, and then it cuts the text elsewhere.
  - `one_signature_two_records`: such a record, made from a signed one without the key.
-/

import NodeQuorum.Proofs.Spork.Run
import NodeQuorum.Proofs.Text.Numeral

namespace NodeQuorum

namespace SporkRecord

/-- The three numbers of a record. -/
def triple (r : SporkRecord) : Nat × Int × Int := (r.id, r.value, r.signedAt)

/-- Two records cut a text at the same places. -/
def SameCut (r r' : SporkRecord) : Prop :=
  (toString r.id).length = (toString r'.id).length ∧
    (toString r.signedAt).length = (toString r'.signedAt).length

theorem signedText_inj {id id' : Nat} {v v' t t' : Int} (h : signedText id v t = signedText id' v' t')
    (hi : (toString id).length = (toString id').length) (ht : (toString t).length = (toString t').length) :
    id = id' ∧ v = v' ∧ t = t' := by
  obtain ⟨h1, h2, h3⟩ := Text.Numeral.cut_three h hi ht
  exact ⟨Text.Numeral.toString_nat_inj h1, Text.Numeral.toString_int_inj h2, Text.Numeral.toString_int_inj h3⟩

/-- Records with one text carry the same numbers exactly if they cut it alike. -/
theorem triple_eq_iff_same_cut {r r' : SporkRecord} (h : r.text = r'.text) : r.triple = r'.triple ↔ r.SameCut r' := by
  constructor
  · intro ht
    obtain ⟨hi, -, hs⟩ : r.id = r'.id ∧ r.value = r'.value ∧ r.signedAt = r'.signedAt := by
      simpa only [triple, Prod.mk.injEq] using ht
    exact ⟨by rw [hi], by rw [hs]⟩
  · rintro ⟨hi, ht⟩
    obtain ⟨h1, h2, h3⟩ := signedText_inj h hi ht
    simp only [triple, h1, h2, h3]

end SporkRecord

namespace SporkId

theorem mem_all (a : SporkId) : a ∈ all := by cases a <;> decide

/-- No number of a known setting is the beginning of another's. -/
theorem no_number_begins_another :
    ∀ a ∈ all, ∀ b ∈ all, (toString a.number).toList <+: (toString b.number).toList → a = b := by
  decide

/-- The text of a record of a known setting tells the setting. -/
theorem known_setting_of_text {a b : SporkId} {v v' t t' : Int}
    (h : SporkRecord.signedText a.number v t = SporkRecord.signedText b.number v' t') : a = b := by
  have hl : (toString a.number).toList ++ ((toString v).toList ++ (toString t).toList) =
      (toString b.number).toList ++ ((toString v').toList ++ (toString t').toList) := by
    simpa only [SporkRecord.signedText, String.toList_append, List.append_assoc] using congrArg String.toList h
  -- both numbers begin one text, so one of them begins the other
  rcases List.prefix_or_prefix_of_prefix ⟨_, hl⟩ (List.prefix_append _ _) with hp | hp
  · exact no_number_begins_another a (mem_all a) b (mem_all b) hp
  · exact (no_number_begins_another b (mem_all b) a (mem_all a) hp).symm

end SporkId

namespace Sporks

/-- A record with the text of a signed one needs only to be newer than what is held for its setting. -/
theorem accepts_resplit_iff {s : Sporks} {c r : SporkRecord} (hc : s.key.Signed c.signature c.text)
    (ht : r.text = c.text) (hs : r.signature = c.signature) : s.Accepts r ↔ s.Newer r := by
  rw [accepts_iff, ht, hs]
  exact ⟨fun h => h.1, fun h => ⟨h, hc⟩⟩

/-- A held record is not taken again, so what is taken with its text is another record. -/
theorem accepted_resplit_cuts_elsewhere {s : Sporks} {c r : SporkRecord} (hc : s.records[c.id]? = some c)
    (ht : r.text = c.text) (ha : s.Accepts r) : ¬ r.SameCut c := by
  intro hcut
  have h := (SporkRecord.triple_eq_iff_same_cut ht).mpr hcut
  simp only [SporkRecord.triple, Prod.mk.injEq] at h
  have hnew := (accepts_iff.mp ha).1 c (by rw [h.1, hc])
  omega

/-- The signature of a setting binds the text of its three numbers, and the numbers only up to where the
    text is cut. -/
theorem signed_text_binds_up_to_the_cut (key : PublicKey) (es : List Event) :
    (∀ r r' : SporkRecord, r.text = r'.text → (r.triple = r'.triple ↔ r.SameCut r')) ∧
    (∀ (a b : SporkId) (r r' : SporkRecord), r.text = r'.text → r.id = a.number → r'.id = b.number →
      a = b ∧ (r.triple = r'.triple ↔ (toString r.signedAt).length = (toString r'.signedAt).length)) ∧
    (∀ r, (run key es).Accepts r ↔ (run key es).Newer r ∧ key.Signed r.signature r.text) ∧
    ∀ (id : Nat) (c : SporkRecord), (run key es).records[id]? = some c →
      c.id = id ∧ key.Signed c.signature c.text ∧
      ∀ r, r.text = c.text → r.signature = c.signature →
        ((run key es).Accepts r ↔ (run key es).Newer r) ∧ ((run key es).Accepts r → ¬ r.SameCut c) := by
  have hsound := run_sound key es
  refine ⟨fun r r' => SporkRecord.triple_eq_iff_same_cut, ?_, ?_, ?_⟩
  · intro a b r r' h ha hb
    have htext : SporkRecord.signedText a.number r.value r.signedAt =
        SporkRecord.signedText b.number r'.value r'.signedAt := by
      rw [← ha, ← hb]
      exact h
    obtain rfl := SporkId.known_setting_of_text htext
    refine ⟨rfl, ?_⟩
    rw [SporkRecord.triple_eq_iff_same_cut h]
    -- the numbers of the setting are the same, so only the signing times can be cut differently
    have hid : (toString r.id).length = (toString r'.id).length := by rw [ha, hb]
    exact ⟨fun hcut => hcut.2, fun ht => ⟨hid, ht⟩⟩
  · intro r
    rw [accepts_iff, hsound.key_eq]
  · intro id c hc
    obtain rfl := hsound.id_eq id c hc
    have hsigned := hsound.signed c.id c hc
    have hkey : (run key es).key.Signed c.signature c.text := by
      rw [hsound.key_eq]
      exact hsigned
    refine ⟨rfl, hsigned, ?_⟩
    intro r ht hs
    exact ⟨accepts_resplit_iff hkey ht hs, accepted_resplit_cuts_elsewhere hc ht⟩

/-- A record that a network's key signed. -/
def observed : SporkRecord :=
  { id := 9, value := 978307200, signedAt := 1600000000,
    signature := Bytes.ofNatBE 64
      (0x1b4ebf093bd26710d2c5d425bc5db0795eb3c14d8ce1793d821aedc5c5c557f5 * 2 ^ 256 +
        0x68a3329fca52cc8f3ca68d8a9d79ec92c35a044bc29828680208c4a9585f6701) }

/-- The same text and signature, with two digits of the value moved to the signing time. -/
def resplit : SporkRecord := { observed with value := 978307, signedAt := 2001600000000 }

set_option maxRecDepth 20000 in
/-- The second record replaces the first, though the key never signed its numbers. -/
theorem one_signature_two_records :
    observed.text = resplit.text ∧ observed.signature = resplit.signature ∧ observed.triple ≠ resplit.triple ∧
      ∃ key : PublicKey,
        (run key [.receive observed]).value .masternodeBudgetEnforcement = 978307200 ∧
        (run key [.receive observed, .receive resplit]).value .masternodeBudgetEnforcement = 978307 := by
  refine ⟨by decide, rfl, by decide, 0xd75a980182b10ab7d54bfed3c964073a0ee172f3daa62325af021a68f707511a#256, ?_⟩
  decide +kernel

end Sporks
end NodeQuorum
