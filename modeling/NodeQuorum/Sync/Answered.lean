/-
  NodeQuorum.Sync.Answered — the requests that a host had answered a short while ago.

  An answer counts for an hour, and the next one for the same host and command starts the hour anew.
-/

import NodeQuorum.NetAddress.Basic

namespace NodeQuorum

/-- A command that came from a host. -/
structure HostRequest where
  host : IpAddress
  command : String
  deriving DecidableEq, Repr

namespace HostRequest

instance : Ord HostRequest := ⟨compareLex (compareOn HostRequest.host) (compareOn HostRequest.command)⟩

instance : Std.TransOrd HostRequest :=
  inferInstanceAs (Std.TransCmp (compareLex (compareOn HostRequest.host) (compareOn HostRequest.command)))

theorem compare_eq_iff {a b : HostRequest} : compare a b = .eq ↔ a = b := by
  show (compare a.host b.host).then (compare a.command b.command) = .eq ↔ a = b
  rw [Ordering.then_eq_eq, Std.LawfulEqOrd.compare_eq_iff_eq, Std.LawfulEqOrd.compare_eq_iff_eq]
  cases a; cases b
  simp

instance : Std.LawfulEqOrd HostRequest where
  compare_self := compare_eq_iff.mpr rfl
  eq_of_compare := compare_eq_iff.mp

end HostRequest

/-- Answered requests and the times until which they count. -/
abbrev AnsweredRequests := Table HostRequest Int

namespace AnsweredRequests

/-- An answer counts for so many seconds. -/
def lifetime : Int := 60 * 60

def isAnswered (a : AnsweredRequests) (host : IpAddress) (command : String) (now : Int) : Bool :=
  match a[HostRequest.mk host command]? with
  | some till => now < till
  | none => false

def record (a : AnsweredRequests) (host : IpAddress) (command : String) (now : Int) : AnsweredRequests :=
  a.insert ⟨host, command⟩ (now + lifetime)

/-- Drops the answers that count no longer. -/
def sweep (a : AnsweredRequests) (now : Int) : AnsweredRequests := a.filter fun _ till => now < till

end AnsweredRequests
end NodeQuorum
