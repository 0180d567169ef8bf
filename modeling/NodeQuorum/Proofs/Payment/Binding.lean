/-
  NodeQuorum.Proofs.Payment.Binding — how far the signature of a payment vote binds the vote.

  A signature covers the voter's output, the height and the digits of the script with nothing between the last three
  numbers, so it binds their digits and not where these are cut:
  - `text_eq_iff`: votes with one text are of outputs of one transaction.
  - `content_eq_iff_same_cut`: they say the same exactly if the indices and the heights are equally long.
  - `heights_apart_of_one_voter`, `heights_apart_of_equal_scripts`: for one voter, and for scripts of one length, cuts
    at other places make heights that are far from each other.
  - `content_eq_of_window`: so on a chain that is long enough no two of them are for heights that can be voted on.
  `a_signed_vote_is_bound_up_to_the_cut` says this of all votes; `one_signature_serves_two_votes` is a vote of one output
  that is taken with the signature of another one's.
-/

import NodeQuorum.Proofs.Payment.Acceptance
import NodeQuorum.Proofs.Text.Hex
import NodeQuorum.Proofs.Text.Numeral

namespace NodeQuorum

namespace Hash

theorem length_text (h : Hash) : h.text.length = 64 := by
  rw [text, Text.Hex.length_encode, length_toBytes]

theorem text_inj {a b : Hash} (h : a.text = b.text) : a = b := toBytes_inj (Text.Hex.encode_inj h)

end Hash

namespace PaymentVote

/-! ## Votes with one text -/

/-- The text that the signature of a vote covers. -/
def text (v : PaymentVote) : String := signedText v.voter v.height v.payee

/-- What a vote says. -/
def content (v : PaymentVote) : OutPoint × Nat × Script := (v.voter, v.height, v.payee)

/-- The digits that are written without anything between them. -/
def digits (v : PaymentVote) : String := toString v.voter.index.toNat ++ toString v.height ++ v.payee.text

/-- Two votes cut their digits at the same places. -/
def SameCut (v v' : PaymentVote) : Prop :=
  (toString v.voter.index.toNat).length = (toString v'.voter.index.toNat).length ∧
    (toString v.height).length = (toString v'.height).length

variable {v v' : PaymentVote}

theorem text_eq (v : PaymentVote) : v.text = v.voter.txid.text ++ "-" ++ v.digits := by
  simp only [text, signedText, OutPoint.text, digits, String.append_assoc]

/-- The text tells the transaction of the voter's output, and the digits behind it. -/
theorem text_eq_iff : v.text = v'.text ↔ v.voter.txid = v'.voter.txid ∧ v.digits = v'.digits := by
  rw [text_eq, text_eq]
  constructor
  · intro h
    have hlen : (v.voter.txid.text ++ "-").length = (v'.voter.txid.text ++ "-").length := by
      rw [String.length_append, String.length_append, Hash.length_text, Hash.length_text]
    obtain ⟨hfront, hdigits⟩ := Text.Numeral.cut_two h hlen
    have htxid := (Text.Numeral.cut_two hfront ((Hash.length_text _).trans (Hash.length_text _).symm)).1
    exact ⟨Hash.text_inj htxid, hdigits⟩
  · rintro ⟨htxid, hdigits⟩
    rw [htxid, hdigits]

theorem length_digits (v : PaymentVote) :
    v.digits.length =
      (toString v.voter.index.toNat).length + (toString v.height).length + 2 * v.payee.length := by
  rw [digits, String.length_append, String.length_append, Script.text, Text.Hex.length_encode]

/-- Votes with one text say the same exactly if they cut it alike. -/
theorem content_eq_iff_same_cut (h : v.text = v'.text) : v.content = v'.content ↔ v.SameCut v' := by
  obtain ⟨htxid, hdigits⟩ := text_eq_iff.mp h
  constructor
  · intro hsame
    simp only [content, Prod.mk.injEq] at hsame
    exact ⟨by rw [hsame.1], by rw [hsame.2.1]⟩
  · rintro ⟨hindex, hheight⟩
    have hpayee : v.payee.text.length = v'.payee.text.length := by
      have hlen := congrArg String.length hdigits
      rw [length_digits, length_digits] at hlen
      rw [Script.text, Script.text, Text.Hex.length_encode, Text.Hex.length_encode]
      omega
    obtain ⟨h1, h2, h3⟩ := Text.Numeral.cut_three hdigits hindex hpayee
    have hvoter : v.voter = v'.voter := by
      have hparts : ∀ o o' : OutPoint, o.txid = o'.txid → o.index = o'.index → o = o' := by
        rintro ⟨_, _⟩ ⟨_, _⟩ rfl rfl
        rfl
      exact hparts _ _ htxid (UInt32.toNat_inj.mp (Text.Numeral.toString_nat_inj h1))
    rw [content, content, hvoter, Text.Numeral.toString_nat_inj h2, Text.Hex.encode_inj h3]

/-- A voter's height that is cut shorter is at most a hundredth of the other one. -/
theorem height_of_shorter_cut (h : v.text = v'.text) (hvoter : v.voter = v'.voter)
    (hshorter : (toString v.height).length < (toString v'.height).length) :
    v.height < v'.height ∧ 100 * v.height ≤ v'.height := by
  obtain ⟨-, hdigits⟩ := text_eq_iff.mp h
  have hrest : toString v.height ++ v.payee.text = toString v'.height ++ v'.payee.text := by
    rw [digits, digits, hvoter, String.append_assoc, String.append_assoc] at hdigits
    exact (Text.Numeral.cut_two hdigits rfl).2
  obtain ⟨s, hs, hpayee⟩ := Text.Numeral.split_of_shorter hrest (Nat.le_of_lt hshorter)
  -- the digits of a script come in pairs, so two of them at least go over to the height
  have htwo : 2 ≤ s.length := by
    have hlen := congrArg String.length hs
    have hpairs := congrArg String.length hpayee
    rw [String.length_append] at hlen hpairs
    rw [Script.text, Script.text, Text.Hex.length_encode, Text.Hex.length_encode] at hpairs
    omega
  refine ⟨?_, ?_⟩
  · have hsmall := (Text.Numeral.length_toString_le_iff (Text.Numeral.length_toString_pos v.height)).mp (Nat.le_refl _)
    have hlarge : ¬ v'.height < 10 ^ (toString v.height).length := by
      rw [← Text.Numeral.length_toString_le_iff (Text.Numeral.length_toString_pos v.height)]
      omega
    omega
  · have hpow : 10 ^ 2 ≤ 10 ^ s.length := Nat.pow_le_pow_right (by decide) htwo
    exact Nat.le_trans (Nat.mul_le_mul_right _ hpow) (Text.Numeral.le_of_appended hs)

theorem heights_apart_of_one_voter (h : v.text = v'.text) (hvoter : v.voter = v'.voter) :
    v.content = v'.content ∨ (v.height < v'.height ∧ 100 * v.height ≤ v'.height) ∨
      (v'.height < v.height ∧ 100 * v'.height ≤ v.height) := by
  rcases Nat.lt_trichotomy (toString v.height).length (toString v'.height).length with hlt | heq | hgt
  · exact Or.inr (Or.inl (height_of_shorter_cut h hvoter hlt))
  · exact Or.inl ((content_eq_iff_same_cut h).mpr ⟨by rw [hvoter], heq⟩)
  · exact Or.inr (Or.inr (height_of_shorter_cut h.symm hvoter.symm hgt))

/-- Behind an index that is cut shorter the height is more than twice the other one. -/
theorem height_of_shorter_index {front front' : String} {height height' : Nat}
    (h : front ++ toString height = front' ++ toString height') (hshorter : front.length < front'.length) :
    2 * height' < height := by
  obtain ⟨s, hs, hheight⟩ := Text.Numeral.split_of_shorter h (Nat.le_of_lt hshorter)
  refine Text.Numeral.lt_of_prepended hheight ?_
  have hlen := congrArg String.length hs
  rw [String.length_append] at hlen
  omega

theorem heights_apart_of_equal_scripts (h : v.text = v'.text) (hpayee : v.payee.length = v'.payee.length) :
    v.payee = v'.payee ∧
      (v.content = v'.content ∨ 2 * v.height < v'.height ∨ 2 * v'.height < v.height) := by
  obtain ⟨-, hdigits⟩ := text_eq_iff.mp h
  have hlen : (toString v.voter.index.toNat ++ toString v.height).length =
      (toString v'.voter.index.toNat ++ toString v'.height).length := by
    have htotal := congrArg String.length hdigits
    rw [length_digits, length_digits] at htotal
    rw [String.length_append, String.length_append]
    omega
  obtain ⟨hfront, hscript⟩ := Text.Numeral.cut_two hdigits hlen
  refine ⟨Text.Hex.encode_inj hscript, ?_⟩
  rcases Nat.lt_trichotomy (toString v.voter.index.toNat).length (toString v'.voter.index.toNat).length with
    hlt | heq | hgt
  · exact Or.inr (Or.inr (height_of_shorter_index hfront hlt))
  · refine Or.inl ((content_eq_iff_same_cut h).mpr ⟨heq, ?_⟩)
    rw [String.length_append, String.length_append] at hlen
    omega
  · exact Or.inr (Or.inl (height_of_shorter_index hfront.symm hgt))

end PaymentVote

namespace Payments

open PaymentVote (text content SameCut)

variable {r : Registry} {v v' : PaymentVote}

/-! ## What is taken -/

/-- On a chain that is long enough, two votes for heights that can be voted on are the same if they have one text, and
    one voter or scripts of one length. -/
theorem content_eq_of_window {c : Chain} {tip : Nat} (htip : c.tip? = some tip)
    (hlong : 2 * cycle (r.countEnabled 0) + lookahead ≤ tip) (hv : InWindow r c v.height) (hv' : InWindow r c v'.height)
    (htext : v.text = v'.text) (halike : v.voter = v'.voter ∨ v.payee.length = v'.payee.length) :
    v.content = v'.content := by
  have hrange : ∀ height, InWindow r c height → tip - cycle (r.countEnabled 0) ≤ height ∧ height ≤ tip + lookahead := by
    rintro height ⟨tip', htip', hlow, hhigh⟩
    rw [htip] at htip'
    cases htip'
    exact ⟨hlow, hhigh⟩
  obtain ⟨hlow, hhigh⟩ := hrange _ hv
  obtain ⟨hlow', hhigh'⟩ := hrange _ hv'
  unfold lookahead at hlong hhigh hhigh'
  rcases halike with hvoter | hpayee
  · rcases PaymentVote.heights_apart_of_one_voter htext hvoter with hsame | hapart | hapart
    · exact hsame
    · omega
    · omega
  · rcases (PaymentVote.heights_apart_of_equal_scripts htext hpayee).2 with hsame | hapart | hapart
    · exact hsame
    · omega
    · omega

/-- Under one operator's key a signature is good for every vote with its text. -/
theorem isSigned_of_text (htext : v.text = v'.text) (hsignature : v.signature = v'.signature)
    (hkey : (r.find? v.voter).map NodeEntry.operatorKey = (r.find? v'.voter).map NodeEntry.operatorKey) :
    isSigned r v = isSigned r v' := by
  have htext' : PaymentVote.signedText v.voter v.height v.payee = PaymentVote.signedText v'.voter v'.height v'.payee :=
    htext
  rw [isSigned_eq, isSigned_eq, hkey, hsignature, htext']

theorem isSigned_of_accepted {p : Payments} {peer : Peer} {env : PaymentEnv} {a : Accepted}
    (h : (p.process r peer v env).verdict = .ok a) : isSigned r v = true := by
  by_cases heligible : p.Eligible r peer v env
  · exact isSigned_iff.mpr heligible.signed
  · obtain ⟨_, _, _, _, hrefused, -⟩ := process_of_not_eligible heligible
    rw [hrefused] at h
    cases h

/-- Votes with one text are of outputs of one transaction, and they say the same exactly if their indices and their
    heights are equally long. Two votes of one voter with one text say the same, or one height is at most a hundredth
    of the other; two votes with one text and scripts of one length have the same script, and say the same or one
    height is less than half the other. So they say the same whenever both heights can be voted on, from some height
    of the chain on. What is accepted is signed with the key of its voter's operator, and a signature of a vote is
    good for every other vote with its text whose voter has the same operator. -/
theorem a_signed_vote_is_bound_up_to_the_cut :
    (∀ v v' : PaymentVote, v.text = v'.text →
      v.voter.txid = v'.voter.txid ∧ (v.content = v'.content ↔ v.SameCut v') ∧
      (v.voter = v'.voter → v.content = v'.content ∨ (v.height < v'.height ∧ 100 * v.height ≤ v'.height) ∨
        (v'.height < v.height ∧ 100 * v'.height ≤ v.height)) ∧
      (v.payee.length = v'.payee.length → v.payee = v'.payee ∧
        (v.content = v'.content ∨ 2 * v.height < v'.height ∨ 2 * v'.height < v.height))) ∧
    (∀ (r : Registry) (c : Chain) (tip : Nat) (v v' : PaymentVote), c.tip? = some tip →
      2 * cycle (r.countEnabled 0) + lookahead ≤ tip → InWindow r c v.height → InWindow r c v'.height →
      v.text = v'.text → v.voter = v'.voter ∨ v.payee.length = v'.payee.length → v.content = v'.content) ∧
    (∀ (p : Payments) (r : Registry) (peer : Peer) (v : PaymentVote) (env : PaymentEnv) (a : Accepted),
      (p.process r peer v env).verdict = .ok a → isSigned r v = true) ∧
    ∀ (r : Registry) (v v' : PaymentVote), v.text = v'.text → v.signature = v'.signature →
      (r.find? v.voter).map NodeEntry.operatorKey = (r.find? v'.voter).map NodeEntry.operatorKey →
      isSigned r v = isSigned r v' := by
  refine ⟨?_, ?_, ?_, ?_⟩
  · intro v v' htext
    exact ⟨(PaymentVote.text_eq_iff.mp htext).1, PaymentVote.content_eq_iff_same_cut htext,
      PaymentVote.heights_apart_of_one_voter htext, PaymentVote.heights_apart_of_equal_scripts htext⟩
  · intro r c tip v v' htip hlong hv hv' htext halike
    exact content_eq_of_window htip hlong hv hv' htext halike
  · intro p r peer v env a h
    exact isSigned_of_accepted h
  · intro r v v' htext hsignature hkey
    exact isSigned_of_text htext hsignature hkey

/-! ## Two outputs of one operator -/

/-- The same text and signature, with a digit of the height moved to the output. -/
def recutVote : PaymentVote := { signedVote with voter := ⟨0xa1, 11⟩, height := 2 }

/-- The vote is taken, and with its signature another one of the other node for another height. -/
theorem one_signature_serves_two_votes :
    let peer : Peer := ⟨1, ⟨.v4 0x7f000001, 9340, 0⟩, 70058⟩
    let first := (empty .masternode).process twoNodes peer signedVote twoNodesEnv
    let second := first.state.payments.process first.state.registry peer recutVote twoNodesEnv
    signedVote.text = recutVote.text ∧ signedVote.signature = recutVote.signature ∧
      signedVote.voter ≠ recutVote.voter ∧ signedVote.height ≠ recutVote.height ∧
      (∃ a, first.verdict = .ok a) ∧ (∃ a, second.verdict = .ok a) ∧
      PaymentVote.signedText ⟨0xa1, 1⟩ 3 [0x76, 0xa9] = PaymentVote.signedText ⟨0xa1, 1⟩ 376 [0xa9] := by
  have hok : ∀ verdict : Verdict, verdict.isOk = true → ∃ a, verdict = .ok a := by
    rintro (e | a) h
    · cases h
    · exact ⟨a, rfl⟩
  refine ⟨by decide +kernel, rfl, by decide, by decide, hok _ ?_, hok _ ?_, by decide +kernel⟩
  · decide +kernel
  · decide +kernel

end Payments
end NodeQuorum
