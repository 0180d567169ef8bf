/-
  NodeQuorum.Proofs.Registry.Newest — when the newest announcement of a node wins in every order.

  Announcements of one unknown node, each of which would be accepted alone, are taken one after the other in the
  same surroundings. The entry is always the one that a single announcement would have made (`Holds`): a newer
  announcement takes it over (`Holds.take`), whether it refreshes the entry or has to show its collateral. But the
  ping of a newer announcement is checked with the operator key of the entry that it finds, so a key in between can
  shut the newest one out (`Holds.keep`), and it is remembered and not looked at again.
  - `newest_wins_in_every_order_iff_every_operator_key_passes_its_ping` says exactly when the newest always wins.
  - `a_new_operator_is_shut_out_behind_the_old_one` is an honest change of the operator key that is lost.
-/

import Mathlib.Data.List.Nodup
import NodeQuorum.Proofs.Registry.Run

namespace NodeQuorum.Registry

/-- Takes announcements one after the other in the same surroundings. -/
def announceAll (r : Registry) (masternodes : Option Registry) (env : AnnounceEnv) (order : List Announcement) :
    Registry :=
  order.foldl (fun r a => (r.processAnnouncement masternodes a env).state) r

/-- All that is asked of an announcement of a node that is not known. -/
structure Acceptable (r : Registry) (masternodes : Option Registry) (env : AnnounceEnv) (o : OutPoint)
    (a : Announcement) : Prop where
  outpoint : a.outpoint = o
  unseen : ¬ r.seenAnnouncements.contains a.hash = true
  made : WellMade masternodes a env a.operatorKey
  owned : Owned env.chain r.params a.outpoint a.collateralKey a.sigTime
  enabled : (r.fresh a env).isEnabled = true

variable {r₀ r : Registry} {masternodes : Option Registry} {env : AnnounceEnv} {o : OutPoint}

theorem pingKey_of_none {a : Announcement} (h : r.find? a.outpoint = none) : r.pingKey a = a.operatorKey := by
  unfold pingKey
  rw [h]

theorem pingKey_of_some {a : Announcement} {e : NodeEntry} (h : r.find? a.outpoint = some e) :
    r.pingKey a = e.operatorKey := by
  unfold pingKey
  rw [h]

theorem acceptable_of_accepted {a : Announcement} (hnone : r.find? o = none) (ho : a.outpoint = o)
    (h : ∃ v, (r.processAnnouncement masternodes a env).verdict = .ok v) : r.Acceptable masternodes env o a := by
  obtain ⟨v, hv⟩ := h
  have hfind : r.find? a.outpoint = none := ho ▸ hnone
  have hunseen := unseen_of_accepted hv
  have htaken := processAnnouncement_taken r masternodes a env
  rw [hv] at htaken
  generalize (r.processAnnouncement masternodes a env).state.entries = after at htaken
  cases htaken with
  | refreshed _ he => exact nomatch he.symm.trans hfind
  | entered hmade _ howned hon => exact ⟨ho, hunseen, pingKey_of_none hfind ▸ hmade, howned, hon⟩

/-- A refreshed entry is the one that the newer announcement would have made alone. -/
theorem check_update_fresh {x a : Announcement} (ho : x.outpoint = a.outpoint)
    (hon : (r.fresh x env).isEnabled = true) :
    ((r.fresh x env).update a).check env.chain r.params env.now true = r.fresh a env := by
  have hstate : (r.fresh x env).state = .enabled := of_decide_eq_true hon
  have hforced : ∀ e : NodeEntry, e.check env.chain r.params env.now true =
      { e with
        lastChecked := env.now
        state := e.state.next e.lastPingTime env.now (env.chain.holdsCollateral e.outpoint r.params) r.params } := by
    intro e
    simp [NodeEntry.check]
  have hupdate : (r.fresh x env).update a =
      { NodeEntry.ofAnnouncement r.nodeClass a with lastChecked := env.now } := by
    unfold NodeEntry.update
    rw [hstate]
    unfold fresh NodeEntry.ofAnnouncement
    rw [hforced, ho]
  unfold fresh at hupdate ⊢
  rw [hupdate, hforced, hforced]
  rfl

/-! ## The announcement that the entry stands for -/

/-- After some announcements of a node, its entry is the one that `x` would have made alone. -/
structure Holds (r₀ : Registry) (masternodes : Option Registry) (env : AnnounceEnv) (o : OutPoint) (r : Registry)
    (done : List Announcement) (x : Announcement) : Prop where
  params : r.params = r₀.params
  entry : r.find? o = some (r₀.fresh x env)
  seen : ∀ h, r.seenAnnouncements.contains h = true ↔
    r₀.seenAnnouncements.contains h = true ∨ ∃ b ∈ done, b.hash = h
  acceptable : r₀.Acceptable masternodes env o x

theorem contains_rememberAnnouncement (r : Registry) (a : Announcement) (h : Hash) :
    (r.rememberAnnouncement a).seenAnnouncements.contains h = true ↔
      r.seenAnnouncements.contains h = true ∨ a.hash = h := by
  unfold rememberAnnouncement
  simp only [Std.ExtTreeMap.contains_insert, Bool.or_eq_true, beq_iff_eq, Std.LawfulEqOrd.compare_eq_iff_eq]
  exact Or.comm

/-- The first announcement of an unknown node makes its entry. -/
theorem processAnnouncement_of_acceptable {a : Announcement} (hnone : r₀.find? o = none)
    (ha : r₀.Acceptable masternodes env o a) :
    (r₀.processAnnouncement masternodes a env).verdict = .ok .added ∧
      (r₀.processAnnouncement masternodes a env).state =
        { r₀.rememberAnnouncement a with
          entries := (r₀.entries.erase a.outpoint).insert a.outpoint (r₀.fresh a env) } := by
  obtain rfl := ha.outpoint
  have hmade : WellMade masternodes a env (r₀.pingKey a) := pingKey_of_none hnone ▸ ha.made
  have hfind : (r₀.rememberAnnouncement a).find? a.outpoint = none := hnone
  have henter : (r₀.rememberAnnouncement a).enter a env = (r₀.rememberAnnouncement a).replace a env :=
    enter_of_owned ha.owned
  have hon : ((r₀.rememberAnnouncement a).fresh a env).isEnabled = true := ha.enabled
  rw [processAnnouncement_of_wellMade ha.unseen hmade, settle_of_unknown hfind, henter]
  exact replace_of_enabled hon

theorem holds_first {a : Announcement} (hnone : r₀.find? o = none) (ha : r₀.Acceptable masternodes env o a) :
    Holds r₀ masternodes env o (r₀.processAnnouncement masternodes a env).state [a] a := by
  rw [(processAnnouncement_of_acceptable hnone ha).2]
  refine ⟨rfl, ?_, ?_, ha⟩
  · unfold find?
    rw [Table.lookup_insert, if_pos ha.outpoint]
  · intro h
    simpa using contains_rememberAnnouncement r₀ a h

namespace Holds

variable {done : List Announcement} {x a : Announcement}

theorem remember (h : Holds r₀ masternodes env o r done x) (a : Announcement) :
    Holds r₀ masternodes env o (r.rememberAnnouncement a) (done ++ [a]) x := by
  refine ⟨h.params, h.entry, ?_, h.acceptable⟩
  intro hash
  simp only [contains_rememberAnnouncement, h.seen, List.mem_append, List.mem_singleton, or_and_right, exists_or,
    exists_eq_left, or_assoc]

/-- An announcement that was seen changes nothing. -/
theorem again (h : Holds r₀ masternodes env o r done x) (hseen : r.seenAnnouncements.contains a.hash = true) :
    Holds r₀ masternodes env o (r.processAnnouncement masternodes a env).state (done ++ [a]) x := by
  rw [(processAnnouncement_of_seen hseen masternodes env).2]
  refine ⟨h.params, h.entry, ?_, h.acceptable⟩
  intro hash
  have hremembered := (h.remember a).seen hash
  rw [contains_rememberAnnouncement] at hremembered
  rw [← hremembered]
  constructor
  · intro hold
    exact Or.inl hold
  · rintro (hold | rfl)
    · exact hold
    · exact hseen

/-- An announcement that was seen, is not newer, or whose ping does not pass the operator key of the entry leaves
    the entry as it is. -/
theorem keep (h : Holds r₀ masternodes env o r done x) (ho : a.outpoint = o)
    (hkeep : (∃ b ∈ done, b.hash = a.hash) ∨ a.sigTime ≤ x.sigTime ∨
      ¬ x.operatorKey.Signed a.lastPing.signature a.lastPing.text) :
    Holds r₀ masternodes env o (r.processAnnouncement masternodes a env).state (done ++ [a]) x := by
  by_cases hseen : r.seenAnnouncements.contains a.hash = true
  · exact h.again hseen
  have hfind : r.find? a.outpoint = some (r₀.fresh x env) := ho ▸ h.entry
  have hkey : r.pingKey a = x.operatorKey := pingKey_of_some hfind
  by_cases hmade : WellMade masternodes a env (r.pingKey a)
  · have hold : a.sigTime ≤ (r₀.fresh x env).sigTime := by
      rcases hkeep with hdone | hold | hping
      · exact absurd ((h.seen a.hash).mpr (Or.inr hdone)) hseen
      · exact hold
      · exact absurd (hkey ▸ hmade.pingSigned) hping
    have hfind' : (r.rememberAnnouncement a).find? a.outpoint = some (r₀.fresh x env) := hfind
    rw [processAnnouncement_of_wellMade hseen hmade, (settle_of_not_newer hfind' hold env).2]
    exact h.remember a
  · rw [(processAnnouncement_of_not_wellMade hseen hmade).2]
    exact h.remember a

/-- Any other one takes the entry over. -/
theorem take (h : Holds r₀ masternodes env o r done x) (ha : r₀.Acceptable masternodes env o a)
    (hnew : ∀ b ∈ done, b.hash ≠ a.hash) (hnewer : x.sigTime < a.sigTime)
    (hping : x.operatorKey.Signed a.lastPing.signature a.lastPing.text) :
    Holds r₀ masternodes env o (r.processAnnouncement masternodes a env).state (done ++ [a]) a := by
  have hseen : ¬ r.seenAnnouncements.contains a.hash = true := by
    rw [h.seen]
    rintro (hold | ⟨b, hb, hhash⟩)
    · exact ha.unseen hold
    · exact hnew b hb hhash
  have hfind : (r.rememberAnnouncement a).find? a.outpoint = some (r₀.fresh x env) := ha.outpoint ▸ h.entry
  have hkey : r.pingKey a = x.operatorKey := pingKey_of_some hfind
  have hmade : WellMade masternodes a env (r.pingKey a) := { ha.made with pingSigned := hkey ▸ hping }
  have hparams : (r.rememberAnnouncement a).params = r₀.params := h.params
  have hclass : r.nodeClass = r₀.nodeClass := congrArg ClassParams.nodeClass h.params
  have hfresh : (r.rememberAnnouncement a).fresh a env = r₀.fresh a env := by
    show (NodeEntry.ofAnnouncement r.nodeClass a).check env.chain r.params env.now true = r₀.fresh a env
    rw [hclass, h.params]
    rfl
  have hremembered := (h.remember a).seen
  have holder : (r₀.fresh x env).sigTime < a.sigTime := hnewer
  rw [processAnnouncement_of_wellMade hseen hmade, settle_of_newer hfind holder]
  split
  · -- the entry is refreshed in its place
    refine ⟨h.params, ?_, hremembered, ha⟩
    unfold refresh find?
    dsimp only
    rw [Table.lookup_insert, if_pos ha.outpoint, hparams,
      check_update_fresh (h.acceptable.outpoint.trans ha.outpoint.symm) h.acceptable.enabled]
  · have howned : Owned env.chain (r.rememberAnnouncement a).params a.outpoint a.collateralKey a.sigTime := by
      rw [hparams]
      exact ha.owned
    have hon : ((r.rememberAnnouncement a).fresh a env).isEnabled = true := hfresh ▸ ha.enabled
    rw [enter_of_owned howned, (replace_of_enabled hon).2]
    refine ⟨h.params, ?_, hremembered, ha⟩
    unfold find?
    rw [Table.lookup_insert, if_pos ha.outpoint, hfresh]

/-- Either way the entry is that of one announcement. -/
theorem step (h : Holds r₀ masternodes env o r done x) (ha : r₀.Acceptable masternodes env o a) :
    ∃ y, (y = x ∨ y = a) ∧
      Holds r₀ masternodes env o (r.processAnnouncement masternodes a env).state (done ++ [a]) y := by
  by_cases hkeep : (∃ b ∈ done, b.hash = a.hash) ∨ a.sigTime ≤ x.sigTime ∨
      ¬ x.operatorKey.Signed a.lastPing.signature a.lastPing.text
  · exact ⟨x, Or.inl rfl, h.keep ha.outpoint hkeep⟩
  · have hnew : ∀ b ∈ done, b.hash ≠ a.hash := fun b hb hhash => hkeep (Or.inl ⟨b, hb, hhash⟩)
    have hnewer : x.sigTime < a.sigTime := Int.not_le.mp fun hle => hkeep (Or.inr (Or.inl hle))
    have hping : x.operatorKey.Signed a.lastPing.signature a.lastPing.text :=
      Decidable.not_not.mp fun hnot => hkeep (Or.inr (Or.inr hnot))
    exact ⟨a, Or.inr rfl, h.take ha hnew hnewer hping⟩

/-! ## Many announcements -/

/-- After any announcements the entry is that of one of them, or still the old one. -/
theorem announceAll {rest : List Announcement} (h : Holds r₀ masternodes env o r done x)
    (hrest : ∀ a ∈ rest, r₀.Acceptable masternodes env o a) :
    ∃ y, (y = x ∨ y ∈ rest) ∧ Holds r₀ masternodes env o (r.announceAll masternodes env rest) (done ++ rest) y := by
  induction rest generalizing r done x with
  | nil => exact ⟨x, Or.inl rfl, by rw [List.append_nil]; exact h⟩
  | cons a rest ih =>
    obtain ⟨ha, hrest⟩ := List.forall_mem_cons.mp hrest
    obtain ⟨y, hy, hstep⟩ := h.step ha
    obtain ⟨z, hz, hall⟩ := ih hstep hrest
    refine ⟨z, ?_, by rw [List.append_assoc] at hall; exact hall⟩
    rcases hz with rfl | hz
    · rcases hy with rfl | rfl
      · exact Or.inl rfl
      · exact Or.inr (List.mem_cons_self)
    · exact Or.inr (List.mem_cons_of_mem a hz)

/-- Announcements that are not newer change nothing. -/
theorem announceAll_older {rest : List Announcement} (h : Holds r₀ masternodes env o r done x)
    (hrest : ∀ a ∈ rest, a.outpoint = o ∧ a.sigTime ≤ x.sigTime) :
    Holds r₀ masternodes env o (r.announceAll masternodes env rest) (done ++ rest) x := by
  induction rest generalizing r done with
  | nil => rw [List.append_nil]; exact h
  | cons a rest ih =>
    obtain ⟨⟨ho, hold⟩, hrest⟩ := List.forall_mem_cons.mp hrest
    have hall := ih (h.keep ho (Or.inr (Or.inl hold))) hrest
    rw [List.append_assoc] at hall
    exact hall

end Holds

theorem announceAll_cons (r : Registry) (a : Announcement) (rest : List Announcement) :
    r.announceAll masternodes env (a :: rest) =
      (r.processAnnouncement masternodes a env).state.announceAll masternodes env rest := rfl

theorem announceAll_append (r : Registry) (before after : List Announcement) :
    r.announceAll masternodes env (before ++ after) =
      (r.announceAll masternodes env before).announceAll masternodes env after := by
  unfold announceAll
  rw [List.foldl_append]

/-- Announcements of one unknown node at different times, each of which is accepted alone; so none was seen. -/
structure EachAccepted (r : Registry) (masternodes : Option Registry) (env : AnnounceEnv) (o : OutPoint)
    (bs : List Announcement) : Prop where
  unknown : r.find? o = none
  outpoint : ∀ b ∈ bs, b.outpoint = o
  accepted : ∀ b ∈ bs, ∃ v, (r.processAnnouncement masternodes b env).verdict = .ok v
  times : (bs.map Announcement.sigTime).Nodup

namespace EachAccepted

variable {bs order : List Announcement} {newest : Announcement}

theorem acceptable (h : EachAccepted r₀ masternodes env o bs) {b : Announcement} (hb : b ∈ bs) :
    r₀.Acceptable masternodes env o b :=
  acceptable_of_accepted h.unknown (h.outpoint b hb) (h.accepted b hb)

theorem first (h : EachAccepted r₀ masternodes env o bs) {b : Announcement} (hb : b ∈ bs) :
    Holds r₀ masternodes env o (r₀.processAnnouncement masternodes b env).state [b] b :=
  holds_first h.unknown (h.acceptable hb)

theorem eq_of_sigTime (h : EachAccepted r₀ masternodes env o bs) {a b : Announcement} (ha : a ∈ bs) (hb : b ∈ bs)
    (htime : a.sigTime = b.sigTime) : a = b :=
  List.inj_on_of_nodup_map h.times ha hb htime

/-- So are some of them. -/
theorem restrict (h : EachAccepted r₀ masternodes env o bs) (hsub : order ⊆ bs)
    (htimes : (order.map Announcement.sigTime).Nodup) : EachAccepted r₀ masternodes env o order where
  unknown := h.unknown
  outpoint := fun b hb => h.outpoint b (hsub hb)
  accepted := fun b hb => h.accepted b (hsub hb)
  times := htimes

theorem perm (h : EachAccepted r₀ masternodes env o bs) (hperm : order.Perm bs) :
    EachAccepted r₀ masternodes env o order :=
  h.restrict hperm.subset ((hperm.map _).nodup_iff.mpr h.times)

/-- The entry is that of one of them, whatever the order. -/
theorem exists_holds (h : EachAccepted r₀ masternodes env o bs) (hne : bs ≠ []) :
    ∃ y ∈ bs, Holds r₀ masternodes env o (r₀.announceAll masternodes env bs) bs y := by
  cases bs with
  | nil => exact absurd rfl hne
  | cons b rest =>
    have hrest : ∀ a ∈ rest, r₀.Acceptable masternodes env o a :=
      fun a ha => h.acceptable (List.mem_cons_of_mem b ha)
    obtain ⟨y, hy, hholds⟩ := (h.first List.mem_cons_self).announceAll hrest
    exact ⟨y, List.mem_cons.mpr hy, hholds⟩

/-- The newest one wins if its ping passes every operator key. -/
theorem newest_wins (h : EachAccepted r₀ masternodes env o bs) (hnewest : newest ∈ bs)
    (hmax : ∀ b ∈ bs, b.sigTime ≤ newest.sigTime)
    (hpass : ∀ b ∈ bs, b.operatorKey.Signed newest.lastPing.signature newest.lastPing.text ∧
      (b.hash = newest.hash → b = newest)) :
    (r₀.announceAll masternodes env bs).find? o = some (r₀.fresh newest env) := by
  obtain ⟨before, after, rfl⟩ := List.mem_iff_append.mp hnewest
  have hafter : ∀ a ∈ after, a.outpoint = o ∧ a.sigTime ≤ newest.sigTime := by
    intro a ha
    have hmem : a ∈ before ++ newest :: after := List.mem_append_right before (List.mem_cons_of_mem newest ha)
    exact ⟨h.outpoint a hmem, hmax a hmem⟩
  have hsub : before ⊆ before ++ newest :: after := List.subset_append_left before (newest :: after)
  rw [announceAll_append, announceAll_cons]
  by_cases hnil : before = []
  · subst hnil
    exact ((h.first hnewest).announceAll_older hafter).entry
  -- the announcement that the newest one finds an entry of
  have htimes := h.times
  rw [List.map_append, List.map_cons] at htimes
  obtain ⟨y, hy, hholds⟩ := (h.restrict hsub (List.nodup_append.mp htimes).1).exists_holds hnil
  have hother : ∀ b ∈ before, b ≠ newest := by
    rintro b hb rfl
    exact (List.nodup_append.mp htimes).2.2 _ (List.mem_map_of_mem hb) _ List.mem_cons_self rfl
  have hnew : ∀ b ∈ before, b.hash ≠ newest.hash := fun b hb hhash => hother b hb ((hpass b (hsub hb)).2 hhash)
  have hnewer : y.sigTime < newest.sigTime := by
    have hle := hmax y (hsub hy)
    have hne : y.sigTime ≠ newest.sigTime := fun he => hother y hy (h.eq_of_sigTime (hsub hy) hnewest he)
    omega
  have htake := hholds.take (h.acceptable hnewest) hnew hnewer (hpass y (hsub hy)).1
  exact (htake.announceAll_older hafter).entry

/-- Right behind one that it does not pass, the newest one is lost for good. -/
theorem newest_loses {b : Announcement} {rest : List Announcement}
    (h : EachAccepted r₀ masternodes env o (b :: newest :: rest))
    (hshut : b.hash = newest.hash ∨ ¬ b.operatorKey.Signed newest.lastPing.signature newest.lastPing.text) :
    ∃ y ∈ b :: rest, (r₀.announceAll masternodes env (b :: newest :: rest)).find? o = some (r₀.fresh y env) := by
  have hnewest : newest ∈ b :: newest :: rest := List.mem_cons_of_mem b List.mem_cons_self
  have hrest : ∀ a ∈ rest, r₀.Acceptable masternodes env o a :=
    fun a ha => h.acceptable (List.mem_cons_of_mem b (List.mem_cons_of_mem newest ha))
  have hkeep : (∃ a ∈ [b], a.hash = newest.hash) ∨ newest.sigTime ≤ b.sigTime ∨
      ¬ b.operatorKey.Signed newest.lastPing.signature newest.lastPing.text := by
    rcases hshut with hhash | hping
    · exact Or.inl ⟨b, List.mem_singleton_self b, hhash⟩
    · exact Or.inr (Or.inr hping)
  have hfirst := (h.first List.mem_cons_self).keep (h.outpoint newest hnewest) hkeep
  obtain ⟨y, hy, hholds⟩ := hfirst.announceAll hrest
  exact ⟨y, List.mem_cons.mpr hy, hholds.entry⟩

end EachAccepted

/-! ## When the newest wins -/

/-- Let each of some announcements of an unknown node be accepted alone, and let their times differ. In whatever
    order they come, the entry is one that a single one of them makes alone. It is always the one of the newest if
    and only if the ping of the newest passes the operator key of each of them and no other one has its hash. -/
theorem newest_wins_in_every_order_iff_every_operator_key_passes_its_ping (r : Registry)
    (masternodes : Option Registry) (env : AnnounceEnv) (o : OutPoint) (bs : List Announcement) (newest : Announcement)
    (h : EachAccepted r masternodes env o bs) (hnewest : newest ∈ bs) (hmax : ∀ b ∈ bs, b.sigTime ≤ newest.sigTime) :
    (∀ order, order.Perm bs → ∃ b ∈ bs,
      (r.announceAll masternodes env order).find? o = (r.announceAll masternodes env [b]).find? o) ∧
    ((∀ order, order.Perm bs →
      (r.announceAll masternodes env order).find? o = (r.announceAll masternodes env [newest]).find? o) ↔
    ∀ b ∈ bs, b.operatorKey.Signed newest.lastPing.signature newest.lastPing.text ∧
      (b.hash = newest.hash → b = newest)) := by
  have halone : ∀ b ∈ bs, (r.announceAll masternodes env [b]).find? o = some (r.fresh b env) :=
    fun b hb => (h.first hb).entry
  refine ⟨?_, ?_, ?_⟩
  · intro order hperm
    have hne : order ≠ [] := List.ne_nil_of_mem (hperm.mem_iff.mpr hnewest)
    obtain ⟨y, hy, hholds⟩ := (h.perm hperm).exists_holds hne
    have hmem := hperm.mem_iff.mp hy
    exact ⟨y, hmem, by rw [halone y hmem, hholds.entry]⟩
  · intro hwins b hb
    by_contra hnot
    have hpass : newest.operatorKey.Signed newest.lastPing.signature newest.lastPing.text :=
      (h.acceptable hnewest).made.pingSigned
    have hne : b ≠ newest := by
      rintro rfl
      exact hnot ⟨hpass, fun _ => rfl⟩
    have hshut : b.hash = newest.hash ∨ ¬ b.operatorKey.Signed newest.lastPing.signature newest.lastPing.text := by
      by_cases hhash : b.hash = newest.hash
      · exact Or.inl hhash
      · exact Or.inr fun hsigned => hnot ⟨hsigned, fun he => absurd he hhash⟩
    -- the order that puts the newest one right behind it
    obtain ⟨rest, hperm⟩ : ∃ rest, (b :: newest :: rest).Perm bs := by
      have hmem : newest ∈ bs.erase b := (List.mem_erase_of_ne (Ne.symm hne)).mpr hnewest
      exact ⟨(bs.erase b).erase newest,
        (((List.perm_cons_erase hmem).symm.cons b).trans (List.perm_cons_erase hb).symm)⟩
    have horder := h.perm hperm
    obtain ⟨y, hy, hentry⟩ := horder.newest_loses hshut
    have hsame : r.fresh y env = r.fresh newest env := by
      rw [hwins _ hperm, halone newest hnewest] at hentry
      exact (Option.some.inj hentry).symm
    have htime : y.sigTime = newest.sigTime := by
      have hannounced := congrArg NodeEntry.announced hsame
      rw [announced_fresh, announced_fresh] at hannounced
      exact congrArg NodeEntry.sigTime hannounced
    have htimes := horder.times
    simp only [List.map_cons, List.nodup_cons, List.mem_cons, not_or] at htimes
    rcases List.mem_cons.mp hy with rfl | hy
    · exact htimes.1.1 htime
    · exact htimes.2.1 (htime ▸ List.mem_map_of_mem hy)
  · intro hpass order hperm
    have hmem : newest ∈ order := hperm.mem_iff.mpr hnewest
    rw [halone newest hnewest]
    exact (h.perm hperm).newest_wins hmem (fun b hb => hmax b (hperm.mem_iff.mp hb))
      (fun b hb => hpass b (hperm.mem_iff.mp hb))

/-! ## A change of the operator key -/

/-- A chain with the collateral of one node. -/
def handoverEnv : AnnounceEnv where
  chain := (Chain.generate 20 1600000000 60).addCoin ⟨1, 0⟩
    { value := ClassParams.masternode.collateral
      script := Script.ofPublicKey 0xd75a980182b10ab7d54bfed3c964073a0ee172f3daa62325af021a68f707511a
      height := 0 }
  params := .of .regtest
  now := 1600002000
  minProtocol := 70058

/-- What the node announced first. -/
def underOldOperator : Announcement where
  outpoint := ⟨1, 0⟩
  address := { ip := .v4 0xcb007101, port := 18444, zone := 0 }
  collateralKey := 0xd75a980182b10ab7d54bfed3c964073a0ee172f3daa62325af021a68f707511a
  operatorKey := 0x3d4017c3e843895a92b70aa74d1b7ebc9c982ccf2ec4968cc0cd55f12af4660c
  signature := Bytes.ofNatBE 64
    (0xff20476dbe3f1ee50fff5c1ee8c08c0d9f9b70789b557b3a4d5c7afc04189a5b * 2 ^ 256 +
      0x38a41e026d14c1cf961f1cf7800298939714fc3936e864cf6693f02fe9612a09)
  sigTime := 1600001000
  protocol := 70058
  lastPing :=
    { outpoint := ⟨1, 0⟩
      blockHash := 0
      sigTime := 1600001000
      signature := Bytes.ofNatBE 64
        (0x2888387e49f17bd4cd0f87a3a61fa9ea6c14e46b404270fdbe4f30d86d0e75c5 * 2 ^ 256 +
          0x1d7355d08cb9ab0e08d3bde8e074128dc9a7cd78f9070a617d27a56066906403) }

/-- Its next announcement, with a new operator key and a ping of that key. -/
def underNewOperator : Announcement :=
  { underOldOperator with
    operatorKey := 0xfc51cd8e6218a1a38da47ed00230f0580816ed13ba3303ac5deb911548908025
    signature := Bytes.ofNatBE 64
      (0x91ea2897c3aa04354cf7e02eb03e12166a2698829acb6d68cf36a437973c8b28 * 2 ^ 256 +
        0x3f897b1dfb619f97d6880f4ccee624bd6f2356b9b399900c6a92ab31d0b5ef03)
    sigTime := 1600001500
    lastPing :=
      { outpoint := ⟨1, 0⟩
        blockHash := 0
        sigTime := 1600001500
        signature := Bytes.ofNatBE 64
          (0xd2bd674c1203bb79f511769753c470849055ddadcd35faf150d58563e0100d8d * 2 ^ 256 +
            0x6b1e0a509719bccdfb98e7f8e50c835b662a09a9fde01d9f16299e366adb130f) } }

set_option maxRecDepth 20000 in
theorem accepted_under_either_operator :
    EachAccepted (empty .masternode) none handoverEnv ⟨1, 0⟩ [underOldOperator, underNewOperator] where
  unknown := by decide +kernel
  outpoint := by decide +kernel
  accepted := by
    have hold : ((empty .masternode).processAnnouncement none underOldOperator handoverEnv).verdict = .ok .added := by
      decide +kernel
    have hnew : ((empty .masternode).processAnnouncement none underNewOperator handoverEnv).verdict = .ok .added := by
      decide +kernel
    exact List.forall_mem_cons.mpr ⟨⟨_, hold⟩, List.forall_mem_singleton.mpr ⟨_, hnew⟩⟩
  times := by decide +kernel

/-- The node is announced once. -/
def announcedOnce : List Event := [.announce none underOldOperator handoverEnv]

theorem run_announcedOnce :
    run .masternode announcedOnce =
      { (empty .masternode).rememberAnnouncement underOldOperator with
        entries := ((∅ : Table OutPoint NodeEntry).erase ⟨1, 0⟩).insert ⟨1, 0⟩
          ((empty .masternode).fresh underOldOperator handoverEnv) } := by
  -- over variables, so that nothing is evaluated
  have hrun : ∀ (params : ClassParams) (a : Announcement) (env : AnnounceEnv),
      run params [.announce none a env] = ((empty params).processAnnouncement none a env).state := fun _ _ _ => rfl
  have haccepted := accepted_under_either_operator
  have hmem : underOldOperator ∈ [underOldOperator, underNewOperator] := by simp
  refine (hrun .masternode underOldOperator handoverEnv).trans ?_
  exact (processAnnouncement_of_acceptable haccepted.unknown
    (acceptable_of_accepted haccepted.unknown rfl (haccepted.accepted _ hmem))).2

set_option maxRecDepth 20000 in
/-- Each announcement is accepted alone, but the newer one does not get in behind the older one. -/
theorem a_new_operator_is_shut_out_behind_the_old_one :
    underOldOperator.sigTime < underNewOperator.sigTime ∧
    EachAccepted (empty .masternode) none handoverEnv ⟨1, 0⟩ [underOldOperator, underNewOperator] ∧
    ¬ ∀ order, order.Perm [underOldOperator, underNewOperator] →
      ((empty .masternode).announceAll none handoverEnv order).find? ⟨1, 0⟩ =
        ((empty .masternode).announceAll none handoverEnv [underNewOperator]).find? ⟨1, 0⟩ := by
  have hmax : ∀ b ∈ [underOldOperator, underNewOperator], b.sigTime ≤ underNewOperator.sigTime := by decide
  have hiff := (newest_wins_in_every_order_iff_every_operator_key_passes_its_ping _ _ _ _ _ underNewOperator
    accepted_under_either_operator (by simp) hmax).2
  refine ⟨by decide, accepted_under_either_operator, ?_⟩
  intro hwins
  have hpass := (hiff.mp hwins underOldOperator (by simp)).1
  revert hpass
  decide +kernel

end NodeQuorum.Registry
