/-
  NodeQuorum.Proofs.Sync.Reports — the counts that peers report, and the counters that add them up.

  A peer may report any number of 32 bits, and the sum of the reported numbers has 32 bits too. An onlooker writes down
  which counts were taken since the start or the last restart (`Heard`), and with them:
  - `run_counts`: sum and number of the reports are those of the counts that were taken.
  - `run?_eq_some_iff`: a program that stops where a counter runs over (`run?`) comes through exactly if the counts of
    no earlier moment are too many or too large.
  - `receive?_of_large_counts`: in the stage of an item two peers, or one of them twice, stop the whole node with two
    counts that add up to 2 ^ 32.
  `reports_are_exact_until_a_counter_runs_over` says this of every run.
-/

import Mathlib.Algebra.Order.Floor.Semifield
import Mathlib.Data.Rat.Floor
import NodeQuorum.Proofs.Stopping
import NodeQuorum.Proofs.Sync.Stages
import NodeQuorum.Quorum.Process

namespace NodeQuorum

namespace SyncTracker

/-! ## The counts that were taken -/

/-- The counts of each item that were taken since the start or the last restart. -/
abbrev Heard := SyncItem → List Nat

/-- Writes down an event with the stages before and after it. A count is taken in the stage of its item, and a failed
    synchronisation that is left starts again. -/
def Heard.write (h : Heard) (e : Event) (before after : SyncStage) : Heard :=
  match e with
  | .tick _ _ _ => if before = .failed ∧ after ≠ .failed then fun _ => [] else h
  | .note _ _ _ _ => h
  | .count item count => fun i => if i = item ∧ before = item.stage then h i ++ [count] else h i

/-- One more event for tracker and onlooker. -/
def listen (o : SyncTracker × Heard) (e : Event) : SyncTracker × Heard :=
  (o.1.step e, o.2.write e o.1.stage (o.1.step e).stage)

/-- What was taken in a run. -/
def heard (began : Int) (es : List Event) : Heard := (es.foldl listen (.start began, fun _ => [])).2

theorem listen_fst (began : Int) (es : List Event) : (es.foldl listen (.start began, fun _ => [])).1 = run began es := by
  induction es using List.reverseRecOn with
  | nil => rfl
  | append_singleton es e ih =>
    rw [List.foldl_append, run_concat, ← ih]
    rfl

theorem heard_concat (began : Int) (es : List Event) (e : Event) :
    heard began (es ++ [e]) =
      (heard began es).write e (run began es).stage ((run began es).step e).stage := by
  unfold heard
  rw [List.foldl_append, ← listen_fst]
  rfl

/-! ## What the counters say -/

/-- Sum and number of the reports are those of some counts. -/
def Counts (t : SyncTracker) (h : Heard) : Prop :=
  ∀ item, (t.progress item).sum = (h item).sum ∧ (t.progress item).reports = (h item).length

theorem counts_start (began : Int) : Counts (.start began) fun _ => [] := by
  intro item
  cases item <;> exact ⟨rfl, rfl⟩

theorem counts_tick {t : SyncTracker} {h : Heard} (hc : Counts t h) (now : Int) (chainSynced enforced : Bool) :
    Counts (t.tick now chainSynced enforced)
      (h.write (.tick now chainSynced enforced) t.stage (t.tick now chainSynced enforced).stage) := by
  -- whatever does not begin in the failed stage leaves counters and counts alone
  have hkept : ∀ t' : SyncTracker, t'.progress = t.progress → (t.stage = .failed → t'.stage = .failed) →
      Counts t' (h.write (.tick now chainSynced enforced) t.stage t'.stage) := by
    intro t' hprogress hfailed
    unfold Heard.write Counts
    dsimp only
    rw [hprogress, if_neg fun hleft => hleft.2 (hfailed hleft.1)]
    exact hc
  have hadvance : t.stage ≠ .failed →
      Counts (t.advance now) (h.write (.tick now chainSynced enforced) t.stage (t.advance now).stage) :=
    fun hwell => hkept _ (funext fun item => by cases item <;> rfl) fun hfailed => absurd hfailed hwell
  have hmoves := tick_moves t now chainSynced enforced
  generalize t.tick now chainSynced enforced = t' at hmoves
  cases hmoves with
  | stays => exact hkept t rfl fun hfailed => hfailed
  | begins hstage => exact hadvance (by simp [hstage])
  | retries hstage _ =>
    have hsporks : ((t.restart now).advance now).stage = .sporks := rfl
    unfold Heard.write
    dsimp only
    rw [hsporks, if_pos ⟨hstage, by decide⟩]
    intro item
    cases item <;> exact ⟨rfl, rfl⟩
  | sporksDone hstage => exact hadvance (by simp [hstage])
  | @stops item hstage => exact hadvance (hstage ▸ (item_stage_ne item).1)
  | @givesUp item hstage => exact hadvance (hstage ▸ (item_stage_ne item).1)
  | fails _ => exact hkept _ (funext fun item => by cases item <;> rfl) fun _ => rfl

theorem counts_note {t : SyncTracker} {h : Heard} (hc : Counts t h) (item : SyncItem) (hash : Hash) (known : Bool)
    (now : Int) : Counts (t.note item hash known now) h := by
  have hnote : ∀ p : ItemProgress, (p.note hash known now).sum = p.sum ∧ (p.note hash known now).reports = p.reports := by
    intro p
    unfold ItemProgress.note
    split
    · split
      · exact ⟨rfl, rfl⟩
      split
      · exact ⟨rfl, rfl⟩
      · exact ⟨rfl, rfl⟩
    · exact ⟨rfl, rfl⟩
  intro other
  by_cases heq : other = item
  · subst heq
    rw [note, progress_setProgress_self, (hnote _).1, (hnote _).2]
    exact hc other
  · rw [note, progress_setProgress_of_ne t heq]
    exact hc other

theorem counts_count {t : SyncTracker} {h : Heard} (hc : Counts t h) (item : SyncItem) (count : Nat) :
    Counts (t.step (.count item count)) (h.write (.count item count) t.stage (t.step (.count item count)).stage) := by
  intro other
  unfold Heard.write step count?
  dsimp only
  by_cases hstage : t.stage = item.stage
  · rw [if_pos hstage, Option.getD_some]
    by_cases heq : other = item
    · subst heq
      rw [if_pos ⟨rfl, hstage⟩, progress_setProgress_self]
      simp [ItemProgress.report, hc other]
    · rw [if_neg fun hboth => heq hboth.1, progress_setProgress_of_ne t heq]
      exact hc other
  · rw [if_neg hstage, Option.getD_none, if_neg fun hboth => hstage hboth.2]
    exact hc other

/-- The counters of every run say what was taken. -/
theorem run_counts (began : Int) (es : List Event) : Counts (run began es) (heard began es) := by
  induction es using List.reverseRecOn with
  | nil => exact counts_start began
  | append_singleton es e ih =>
    rw [run_concat, heard_concat]
    cases e with
    | tick now chainSynced enforced => exact counts_tick ih now chainSynced enforced
    | note item hash known now => exact counts_note ih item hash known now
    | count item count => exact counts_count ih item count

/-! ## A program that stops -/

/-- One more event, or the end of the program where a counter runs over. -/
def step? (t : SyncTracker) (e : Event) : Option SyncTracker :=
  match e with
  | .count item count => if t.overruns item count then none else some (t.step e)
  | .tick _ _ _ => some (t.step e)
  | .note _ _ _ _ => some (t.step e)

/-- A tracker after some events, unless one of them ended the program. -/
def run? (began : Int) (es : List Event) : Option SyncTracker := es.foldlM step? (.start began)

/-- No item has too many counts or too large ones. -/
def Heard.Fits (h : Heard) : Prop := ∀ item, (h item).sum < 2 ^ 32 ∧ (h item).length < 2 ^ 32

theorem overruns_eq_false_iff {t : SyncTracker} {item : SyncItem} {count : Nat} :
    t.overruns item count = false ↔ (t.stage = item.stage → ((t.progress item).report count).Fits) := by
  unfold overruns
  rw [decide_eq_false_iff_not, not_and, not_not]

/-- While all counters fit, an event passes exactly if they still fit behind it. -/
theorem step?_eq_some_iff {t t' : SyncTracker} {h : Heard} (hc : Counts t h) (hfits : h.Fits) (e : Event) :
    t.step? e = some t' ↔ t' = t.step e ∧ (h.write e t.stage (t.step e).stage).Fits := by
  cases e with
  | tick now chainSynced enforced =>
    have hstill : (h.write (.tick now chainSynced enforced) t.stage (t.step (.tick now chainSynced enforced)).stage).Fits := by
      unfold Heard.write
      dsimp only
      split
      · exact fun item => ⟨by simp, by simp⟩
      · exact hfits
    simp [step?, hstill, eq_comm]
  | note item hash known now =>
    have hstill : (h.write (.note item hash known now) t.stage (t.step (.note item hash known now)).stage).Fits := hfits
    simp [step?, hstill, eq_comm]
  | count item count =>
    have hstill : t.overruns item count = false ↔
        (h.write (.count item count) t.stage (t.step (.count item count)).stage).Fits := by
      rw [overruns_eq_false_iff]
      unfold Heard.write Heard.Fits ItemProgress.Fits ItemProgress.report
      dsimp only
      rw [(hc item).1, (hc item).2]
      constructor
      · intro hreport other
        split
        · rename_i hboth
          obtain ⟨rfl, hstage⟩ := hboth
          simpa using hreport hstage
        · exact hfits other
      · intro hall hstage
        simpa [hstage] using hall item
    unfold step?
    dsimp only
    rw [← hstill]
    cases t.overruns item count with
    | true => simp
    | false => simp [eq_comm]

/-- The program comes through exactly if the counters fit at every moment of the run. -/
theorem run?_eq_some_iff {began : Int} {es : List Event} {t : SyncTracker} :
    run? began es = some t ↔ t = run began es ∧ ∀ before, before <+: es → (heard began before).Fits := by
  have hstart : (heard began []).Fits := fun item => ⟨by simp [heard], by simp [heard]⟩
  refine Stopping.run_eq_some_iff (P := fun before => (heard began before).Fits) hstart ?_
  intro es e t' hfits
  rw [heard_concat]
  exact step?_eq_some_iff (run_counts began es) hfits e

/-- Where the counters are exact, the average is the floor of the mean. -/
theorem average_of_counts {t : SyncTracker} {h : Heard} (hc : Counts t h) (item : SyncItem) :
    (t.progress item).average? = if h item = [] then none else some ⌊((h item).sum : ℚ) / (h item).length⌋₊ := by
  unfold ItemProgress.average?
  rw [(hc item).1, (hc item).2, Nat.floor_div_eq_div]
  simp only [List.length_eq_zero_iff]

/-- One more count in the stage of its item ends the program exactly if the sum or the number of the counts reaches
    2 ^ 32 with it. -/
theorem run?_count_eq_none_iff {began : Int} {es : List Event} {t : SyncTracker} {item : SyncItem}
    (ht : run? began es = some t) (hstage : t.stage = item.stage) (count : Nat) :
    run? began (es ++ [.count item count]) = none ↔
      2 ^ 32 ≤ (heard began es item).sum + count ∨ 2 ^ 32 ≤ (heard began es item).length + 1 := by
  obtain ⟨rfl, -⟩ := run?_eq_some_iff.mp ht
  have hc := run_counts began es item
  rw [run?, Stopping.run_concat, ← run?, ht, Option.bind_some, step?]
  unfold overruns ItemProgress.Fits ItemProgress.report
  dsimp only
  rw [hc.1, hc.2]
  simp only [hstage, true_and, decide_eq_true_eq, ite_eq_left_iff, reduceCtorEq, imp_false, not_not]
  omega

end SyncTracker

/-- In the stage of an item a node takes a count from one peer and stops at that of another, whatever it holds, if the
    two add up to 2 ^ 32. -/
theorem Quorum.receive?_of_large_counts {q : Quorum} {c : NodeClass} {item : SyncItem} {a b : Nat} {peer : Peer}
    {now : Int} {h : Handled Quorum} (hstage : (q.syncs.get c).stage = item.stage) (hlarge : 2 ^ 32 ≤ a + b)
    (hfirst : q.receive? peer (.syncCount c item a) now = some h) (peer' : Peer) (now' : Int) :
    h.verdict = .ok .served ∧ h.state.receive? peer' (.syncCount c item b) now' = none := by
  let t := (q.syncs.get c).setProgress item (((q.syncs.get c).progress item).report a)
  have htaken : q.handle peer (.syncCount c item a) now = ⟨q.setSync c t, [], .ok .served⟩ := by
    show q.onSyncCount c item a = _
    unfold onSyncCount SyncTracker.count?
    rw [if_pos hstage]
  have hover : (q.setSync c t).overruns peer' (.syncCount c item b) now' = true := by
    unfold overruns SyncTracker.overruns setSync
    dsimp only
    rw [PerClass.get_set_self, SyncTracker.stage_setProgress, SyncTracker.progress_setProgress_self,
      decide_eq_true_iff]
    refine ⟨hstage, fun hfits => ?_⟩
    have hsum : ((q.syncs.get c).progress item).sum + a + b < 2 ^ 32 := hfits.1
    omega
  unfold receive? at hfirst
  split at hfirst
  · cases hfirst
  · obtain rfl := Option.some_inj.mp hfirst
    unfold process receive?
    dsimp only
    rw [htaken]
    exact ⟨rfl, if_pos hover⟩

namespace SyncTracker

/-- A program that stops where a counter runs over comes through a run exactly if the counts taken since the last restart
    never reached 2 ^ 32, in sum or in number. While it runs, the counters are the sum and the number of these counts, the
    average is the floor of their mean, and one more count in its stage ends the program exactly if it makes one of the
    two reach 2 ^ 32. So in the stage of an item every node takes one count and stops at the next if both add up to
    2 ^ 32, whichever peers they come from. -/
theorem reports_are_exact_until_a_counter_runs_over (began : Int) (es : List Event) :
    (∀ t, run? began es = some t ↔ t = run began es ∧ ∀ before, before <+: es → ∀ item,
      (heard began before item).sum < 2 ^ 32 ∧ (heard began before item).length < 2 ^ 32) ∧
    (∀ t, run? began es = some t → ∀ item,
      ((t.progress item).sum = (heard began es item).sum ∧ (t.progress item).sum < 2 ^ 32) ∧
      ((t.progress item).reports = (heard began es item).length ∧ (t.progress item).reports < 2 ^ 32) ∧
      (t.progress item).average? = if heard began es item = [] then none
        else some ⌊((heard began es item).sum : ℚ) / (heard began es item).length⌋₊) ∧
    (∀ t item count, run? began es = some t → t.stage = item.stage →
      (run? began (es ++ [.count item count]) = none ↔
        2 ^ 32 ≤ (heard began es item).sum + count ∨ 2 ^ 32 ≤ (heard began es item).length + 1)) ∧
    ∀ (q : Quorum) (c : NodeClass) (item : SyncItem) (a b : Nat) (peer peer' : Peer) (now now' : Int)
      (h : Handled Quorum), (q.syncs.get c).stage = item.stage → 2 ^ 32 ≤ a + b →
      q.receive? peer (.syncCount c item a) now = some h →
      h.verdict = .ok .served ∧ h.state.receive? peer' (.syncCount c item b) now' = none := by
  refine ⟨fun t => run?_eq_some_iff, ?_, ?_, ?_⟩
  · intro t ht item
    obtain ⟨rfl, hall⟩ := run?_eq_some_iff.mp ht
    obtain ⟨hsum, hreports⟩ := run_counts began es item
    obtain ⟨hsmall, hfew⟩ := hall es (List.prefix_refl es) item
    refine ⟨⟨hsum, ?_⟩, ⟨hreports, ?_⟩, average_of_counts (run_counts began es) item⟩
    · rw [hsum]
      exact hsmall
    · rw [hreports]
      exact hfew
  · intro t item count ht hstage
    exact run?_count_eq_none_iff ht hstage count
  · intro q c item a b peer peer' now now' h hstage hlarge hfirst
    exact Quorum.receive?_of_large_counts hstage hlarge hfirst peer' now'

/-- The list stage, and the largest count that a peer can report. -/
def largestCount : List Event := [.tick 1 true false, .tick 11 true false, .count .list (2 ^ 32 - 1)]

/-- The largest count alone is taken and is the average, and a count of one behind it ends the program. -/
theorem a_count_behind_the_largest_ends_the_program :
    (∃ t, run? 1 largestCount = some t ∧ t.stage = .list ∧ t.list.average? = some (2 ^ 32 - 1)) ∧
      run? 1 (largestCount ++ [.count .list 1]) = none := by
  obtain ⟨t, ht, hstage, haverage⟩ :
      ∃ t, run? 1 largestCount = some t ∧ t.stage = .list ∧ t.list.average? = some (2 ^ 32 - 1) := ⟨_, rfl, rfl, rfl⟩
  have hheard : heard 1 largestCount .list = [2 ^ 32 - 1] := rfl
  refine ⟨⟨t, ht, hstage, haverage⟩, ?_⟩
  refine ((reports_are_exact_until_a_counter_runs_over 1 largestCount).2.2.1 t .list 1 ht hstage).mpr (Or.inl ?_)
  rw [hheard]
  decide

end SyncTracker
end NodeQuorum
