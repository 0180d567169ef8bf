/-
  NodeQuorum.OutPoint — a reference to one output of one transaction, and its text.

  The text is the 64 digits of the transaction's hash, a dash and the output's index. Reading takes
  digits of either case and a plus sign before the index. Outpoints are ordered by hash and then by
  index.
-/

import NodeQuorum.Hash
import NodeQuorum.Table
import NodeQuorum.Text.Decimal
import NodeQuorum.Text.Split

namespace NodeQuorum

/-- Hashes are ordered as numbers. -/
instance Hash.transOrd : Std.TransOrd Hash := inferInstanceAs (Std.TransOrd (BitVec 256))

/-- An output of a transaction. -/
structure OutPoint where
  txid : Hash
  index : UInt32
  deriving DecidableEq, Repr

namespace OutPoint

instance : Ord OutPoint := ⟨compareLex (compareOn OutPoint.txid) (compareOn OutPoint.index)⟩

instance : Std.TransOrd OutPoint :=
  inferInstanceAs (Std.TransCmp (compareLex (compareOn OutPoint.txid) (compareOn OutPoint.index)))

theorem compare_eq_iff {a b : OutPoint} : compare a b = .eq ↔ a = b := by
  show (compare a.txid b.txid).then (compare a.index b.index) = .eq ↔ a = b
  rw [Ordering.then_eq_eq, Std.LawfulEqOrd.compare_eq_iff_eq, Std.LawfulEqOrd.compare_eq_iff_eq]
  cases a; cases b
  simp

instance : Std.LawfulEqOrd OutPoint where
  compare_self := compare_eq_iff.mpr rfl
  eq_of_compare := compare_eq_iff.mp

/-- The short text of an outpoint. -/
def text (o : OutPoint) : String := o.txid.text ++ "-" ++ toString o.index.toNat

/-- The bytes that message hashes name an outpoint by. -/
def toBytes (o : OutPoint) : Bytes := o.txid.toBytes ++ Bytes.ofNatLE 4 o.index.toNat

/-- Why a text names no outpoint. -/
inductive ParseError where
  | noSeparator (text : String)
  | badHex (cause : Text.Hex.Error)
  | badLength (hex : String)
  | badIndex (index : String)
  deriving DecidableEq, Repr

/-- The name of the kind of error. -/
def ParseError.name : ParseError → String
  | .noSeparator _ => "missing_separator"
  | .badHex _ | .badLength _ => "invalid_txid"
  | .badIndex _ => "invalid_index"

/-- The text of an error. -/
def ParseError.message : ParseError → String
  | .noSeparator text => "missing '-' separator in outpoint " ++ text
  | .badHex cause => "invalid txid hex: " ++ cause.message
  | .badLength hex => "invalid txid hex: " ++ hex
  | .badIndex index => "invalid output index: " ++ index

/-- Reads the short text; the hash is looked at before the index. -/
def parse (text : String) : Except ParseError OutPoint :=
  match Text.splitLast? '-' text.toList with
  | none => .error (.noSeparator text)
  | some (hex, index) =>
    match Text.Hex.decode (String.ofList hex) with
    | .error e => .error (.badHex e)
    | .ok bytes =>
      if bytes.length = 32 then
        match Text.Decimal.readWord index with
        | .error _ => .error (.badIndex (String.ofList index))
        | .ok n => .ok ⟨Hash.ofBytes bytes, n⟩
      else .error (.badLength (String.ofList hex))

end OutPoint
end NodeQuorum
