/-
  NodeQuorum.Proofs.Sync.Stages — how a synchronisation goes through its stages.

  A tracker hears of passing moments, of items and of counts (`Event`, `step`, `run`). An onlooker who sees the
  events and the stages only keeps a `Journal`: when the stage was entered, when an item came last since the start or
  the last restart, and how often the synchronisation failed.
  - `tick_moves`: what one tick can do, with the guard of each move (`Moves`).
  - `run_agrees`: under a clock that starts above zero and does not go back, the tracker's own fields say what the
    journal says, as far as its guards look at them (`Agrees`). Zero stands for no item, so the clock has to be above
    it.
  - `stages_follow_the_journal` says of every run what moves a stage, what lets it fail, and what ends it.
-/

import Mathlib.Data.List.Induction
import NodeQuorum.Sync.Tracker

namespace NodeQuorum.SyncTracker

/-! ## Events -/

/-- What a tracker hears of. -/
inductive Event where
  | tick (now : Int) (chainSynced enforced : Bool)
  | note (item : SyncItem) (hash : Hash) (known : Bool) (now : Int)
  | count (item : SyncItem) (count : Nat)

/-- The time of an event; a count has none. -/
def Event.time? : Event → Option Int
  | .tick now _ _ => some now
  | .note _ _ _ now => some now
  | .count _ _ => none

def step (t : SyncTracker) : Event → SyncTracker
  | .tick now chainSynced enforced => t.tick now chainSynced enforced
  | .note item hash known now => t.note item hash known now
  | .count item count => (t.count? item count).getD t

/-- A tracker that was started at some time, after some events. -/
def run (began : Int) (es : List Event) : SyncTracker := es.foldl step (.start began)

theorem run_concat (began : Int) (es : List Event) (e : Event) : run began (es ++ [e]) = (run began es).step e := by
  simp only [run, List.foldl_append, List.foldl_cons, List.foldl_nil]

/-- The times of a run, its start first. -/
def times (began : Int) (es : List Event) : List Int := began :: es.filterMap Event.time?

/-- The clock of a run starts above zero and does not go back. -/
def Clocked (began : Int) (es : List Event) : Prop := 0 < began ∧ (times began es).Pairwise (· ≤ ·)

theorem times_concat (began : Int) (es : List Event) (e : Event) :
    times began (es ++ [e]) = times began es ++ e.time?.toList := by
  unfold times
  rw [List.filterMap_append, ← List.cons_append]
  cases h : e.time? with
  | none => simp [h]
  | some now => simp [h]

theorem Clocked.init {began : Int} {es : List Event} {e : Event} (h : Clocked began (es ++ [e])) :
    Clocked began es := by
  obtain ⟨hpos, hsorted⟩ := h
  rw [times_concat] at hsorted
  exact ⟨hpos, (List.pairwise_append.mp hsorted).1⟩

/-- The time of the last event is not before any other. -/
theorem Clocked.last {began : Int} {es : List Event} {e : Event} {now : Int} (h : Clocked began (es ++ [e]))
    (he : e.time? = some now) : ∀ t ∈ times began es, t ≤ now := by
  obtain ⟨-, hsorted⟩ := h
  rw [times_concat, he] at hsorted
  intro t ht
  exact (List.pairwise_append.mp hsorted).2.2 t ht now (by simp)

theorem Clocked.pos {began : Int} {es : List Event} (h : Clocked began es) : ∀ t ∈ times began es, 0 < t := by
  obtain ⟨hpos, hsorted⟩ := h
  intro t ht
  rcases List.mem_cons.mp ht with rfl | ht
  · exact hpos
  · have hle := (List.pairwise_cons.mp hsorted).1 t ht
    omega

/-! ## The journal -/

/-- What is known of a synchronisation by its events and its stages. -/
structure Journal where
  /-- When the present stage was entered. -/
  entered : Int
  /-- When an item came last, since the start or the last restart. -/
  newest : SyncItem → Option Int
  /-- How often the failed stage was entered. -/
  failures : Nat

namespace Journal

def start (began : Int) : Journal := ⟨began, fun _ => none, 0⟩

/-- Writes down an event with the stages before and after it. A failed synchronisation that is left starts again. -/
def write (j : Journal) (e : Event) (before after : SyncStage) : Journal :=
  match e with
  | .tick now _ _ =>
    if after = before then j
    else
      { entered := now
        newest := if before = .failed then fun _ => none else j.newest
        failures := if after = .failed then j.failures + 1 else j.failures }
  | .note item _ _ now => { j with newest := fun i => if i = item then some now else j.newest i }
  | .count _ _ => j

end Journal

/-- One more event for tracker and journal. -/
def observe (o : SyncTracker × Journal) (e : Event) : SyncTracker × Journal :=
  (o.1.step e, o.2.write e o.1.stage (o.1.step e).stage)

/-- The journal of a run. -/
def journal (began : Int) (es : List Event) : Journal := (es.foldl observe (.start began, .start began)).2

theorem observe_fst (began : Int) (es : List Event) :
    (es.foldl observe (.start began, .start began)).1 = run began es := by
  induction es using List.reverseRecOn with
  | nil => rfl
  | append_singleton es e ih =>
    rw [List.foldl_append, List.foldl_cons, List.foldl_nil, run_concat, ← ih]
    rfl

theorem journal_concat (began : Int) (es : List Event) (e : Event) :
    journal began (es ++ [e]) =
      (journal began es).write e (run began es).stage ((run began es).step e).stage := by
  unfold journal
  rw [List.foldl_append, List.foldl_cons, List.foldl_nil, ← observe_fst]
  rfl

/-! ## What a tick does -/

/-- The stages that follow on each other. -/
inductive Edge : SyncStage → SyncStage → Prop
  | begin : Edge .initial .sporks
  | sporksDone : Edge .sporks .list
  | listDone : Edge .list .winners
  | winnersDone : Edge .winners .finished
  | listFails : Edge .list .failed
  | winnersFails : Edge .winners .failed
  | retry : Edge .failed .sporks

theorem edge_next_of_item (item : SyncItem) : Edge item.stage item.stage.next := by
  cases item
  · exact .listDone
  · exact .winnersDone

theorem edge_failed_of_item (item : SyncItem) : Edge item.stage .failed := by
  cases item
  · exact .listFails
  · exact .winnersFails

/-- What a tick can make of a tracker. -/
inductive Moves (t : SyncTracker) (now : Int) (chainSynced enforced : Bool) : SyncTracker → Prop
  | stays : Moves t now chainSynced enforced t
  | begins : t.stage = .initial → Moves t now chainSynced enforced (t.advance now)
  | retries : t.stage = .failed → t.lastFailure + retrySeconds < now →
      Moves t now chainSynced enforced ((t.restart now).advance now)
  | sporksDone : t.stage = .sporks → chainSynced = true → 2 * interval ≤ now - t.started →
      Moves t now chainSynced enforced (t.advance now)
  /-- The items of a stage have stopped coming. -/
  | stops {item : SyncItem} : t.stage = item.stage → chainSynced = true → 0 < (t.progress item).last →
      (t.progress item).last < now - 2 * interval → Moves t now chainSynced enforced (t.advance now)
  /-- No item ever came, and nobody minds. -/
  | givesUp {item : SyncItem} : t.stage = item.stage → chainSynced = true → (t.progress item).last = 0 →
      5 * interval < now - t.started → enforced = false → Moves t now chainSynced enforced (t.advance now)
  | fails {item : SyncItem} : t.stage = item.stage → chainSynced = true → (t.progress item).last = 0 →
      5 * interval < now - t.started → enforced = true → Moves t now chainSynced enforced (t.fail now)

/-- Without items to wait for, a tick does what the stage alone says. -/
theorem tick_of_finished {t : SyncTracker} (h : t.stage = .finished) (now : Int) (chainSynced enforced : Bool) :
    t.tick now chainSynced enforced = t := by
  unfold tick isFinished
  rw [if_pos (Or.inl (decide_eq_true h))]

theorem tick_of_waiting {t : SyncTracker} {now : Int} (h : t.stage = .failed)
    (hwait : now ≤ t.lastFailure + retrySeconds) (chainSynced enforced : Bool) :
    t.tick now chainSynced enforced = t := by
  unfold tick
  rw [if_pos (Or.inr ⟨h, hwait⟩)]

/-- The sporks have ten seconds, so a tick that enters their stage leaves it at that. -/
theorem proceed_of_entered {t : SyncTracker} {now : Int} (h : t.stage = .sporks) (hentered : t.started = now)
    (chainSynced enforced : Bool) : (if chainSynced then t.proceed now enforced else t) = t := by
  have hproceed : t.proceed now enforced = t := by
    unfold proceed
    rw [h]
    dsimp only
    rw [hentered, if_neg]
    unfold interval
    omega
  rw [hproceed, ite_self]

theorem tick_of_failed {t : SyncTracker} {now : Int} (h : t.stage = .failed)
    (hover : t.lastFailure + retrySeconds < now) (chainSynced enforced : Bool) :
    t.tick now chainSynced enforced = (t.restart now).advance now := by
  have hgoing : ¬ (t.isFinished = true ∨ t.stage = .failed ∧ now ≤ t.lastFailure + retrySeconds) := by
    simp [isFinished, h, Int.not_le.mpr hover]
  have hrestart : (t.restart now).stage = .initial := rfl
  have hsporks : ((t.restart now).advance now).stage = .sporks := rfl
  unfold tick
  rw [if_neg hgoing, if_pos h]
  dsimp only
  rw [if_pos hrestart]
  exact proceed_of_entered hsporks rfl chainSynced enforced

theorem tick_of_initial {t : SyncTracker} (h : t.stage = .initial) (now : Int) (chainSynced enforced : Bool) :
    t.tick now chainSynced enforced = t.advance now := by
  have hgoing : ¬ (t.isFinished = true ∨ t.stage = .failed ∧ now ≤ t.lastFailure + retrySeconds) := by
    simp [isFinished, h]
  have hsporks : (t.advance now).stage = .sporks := congrArg SyncStage.next h
  have hwell : ¬ t.stage = .failed := by
    rw [h]
    decide
  unfold tick
  rw [if_neg hgoing, if_neg hwell]
  dsimp only
  rw [if_pos h]
  exact proceed_of_entered hsporks rfl chainSynced enforced

/-- In any other stage time decides, if the chain is synchronised. -/
theorem tick_of_running {t : SyncTracker} (h : t.stage = .sporks ∨ ∃ item : SyncItem, t.stage = item.stage) (now : Int)
    (chainSynced enforced : Bool) :
    t.tick now chainSynced enforced = if chainSynced then t.proceed now enforced else t := by
  have hstage : t.stage ≠ .finished ∧ t.stage ≠ .failed ∧ t.stage ≠ .initial := by
    rcases h with h | ⟨item, h⟩
    · rw [h]
      decide
    · rw [h]
      cases item <;> decide
  obtain ⟨hfinished, hfailed, hinitial⟩ := hstage
  have hgoing : ¬ (t.isFinished = true ∨ t.stage = .failed ∧ now ≤ t.lastFailure + retrySeconds) := by
    simp [isFinished, hfinished, hfailed]
  unfold tick
  rw [if_neg hgoing, if_neg hfailed]
  dsimp only
  rw [if_neg hinitial]

theorem proceed_of_item {t : SyncTracker} {item : SyncItem} (h : t.stage = item.stage) (now : Int) (enforced : Bool) :
    t.proceed now enforced = t.settle item now enforced := by
  unfold proceed
  rw [h]
  cases item <;> rfl

theorem settle_moves {t : SyncTracker} {item : SyncItem} (h : t.stage = item.stage) (now : Int) (enforced : Bool) :
    Moves t now true enforced (t.settle item now enforced) := by
  unfold settle
  dsimp only
  split
  · rename_i hstopped
    exact .stops h rfl hstopped.1 hstopped.2
  split
  · rename_i hnone
    cases enforced with
    | true => exact .fails h rfl hnone.1 hnone.2 rfl
    | false => exact .givesUp h rfl hnone.1 hnone.2 rfl
  · exact .stays

/-- What one tick does. -/
theorem tick_moves (t : SyncTracker) (now : Int) (chainSynced enforced : Bool) :
    Moves t now chainSynced enforced (t.tick now chainSynced enforced) := by
  have hitem : ∀ item : SyncItem, t.stage = item.stage →
      Moves t now chainSynced enforced (t.tick now chainSynced enforced) := by
    intro item h
    rw [tick_of_running (Or.inr ⟨item, h⟩), proceed_of_item h]
    cases chainSynced with
    | true => exact settle_moves h now enforced
    | false => exact .stays
  cases h : t.stage with
  | initial =>
    rw [tick_of_initial h]
    exact .begins h
  | sporks =>
    rw [tick_of_running (Or.inl h)]
    unfold proceed
    rw [h]
    split
    · rename_i hsynced
      dsimp only
      split
      · rename_i htime
        exact .sporksDone h hsynced htime
      · exact .stays
    · exact .stays
  | list => exact hitem .list h
  | winners => exact hitem .winners h
  | finished =>
    rw [tick_of_finished h]
    exact .stays
  | failed =>
    by_cases hwait : now ≤ t.lastFailure + retrySeconds
    · rw [tick_of_waiting h hwait]
      exact .stays
    · rw [tick_of_failed h (Int.not_le.mp hwait)]
      exact .retries h (Int.not_le.mp hwait)

/-- The stage of an item is left once its items have stopped, or after a while without any. -/
theorem tick_leaves {t : SyncTracker} {item : SyncItem} (h : t.stage = item.stage) {now : Int}
    (hover : (0 < (t.progress item).last ∧ (t.progress item).last < now - 2 * interval) ∨
      ((t.progress item).last = 0 ∧ 5 * interval < now - t.started)) (enforced : Bool) :
    (t.tick now true enforced).stage ≠ t.stage := by
  have hadvance : (t.advance now).stage ≠ t.stage := by
    show t.stage.next ≠ t.stage
    rw [h]
    cases item <;> decide
  have hfail : (t.fail now).stage ≠ t.stage := by
    show SyncStage.failed ≠ t.stage
    rw [h]
    cases item <;> decide
  rw [tick_of_running (Or.inr ⟨item, h⟩), if_pos rfl, proceed_of_item h]
  unfold settle
  dsimp only
  split
  · exact hadvance
  · rename_i hgoing
    rw [if_pos (hover.resolve_left hgoing)]
    split
    · exact hfail
    · exact hadvance

/-! ## Tracker and journal agree -/

/-- What the tracker's fields say of the journal. -/
structure Agrees (t : SyncTracker) (j : Journal) : Prop where
  failures : t.failures = j.failures
  entered : t.stage ≠ .failed → t.started = j.entered
  failed : t.stage = .failed → t.lastFailure = j.entered
  /-- The first item to come is progress. -/
  unseen : ∀ item, j.newest item = none →
    (t.progress item).last = 0 ∧ ∀ hash : Hash, (t.progress item).seen[hash]? = none
  /-- An item that came before need not be progress when it comes again. -/
  seen : ∀ item last, j.newest item = some last → 0 < (t.progress item).last ∧ (t.progress item).last ≤ last

theorem agrees_start (began : Int) : Agrees (.start began) (.start began) := by
  have hempty : ∀ item, (start began).progress item = .empty := by
    intro item
    cases item <;> rfl
  refine ⟨rfl, fun _ => rfl, nofun, ?_, nofun⟩
  intro item _
  rw [hempty]
  exact ⟨rfl, fun hash => Std.ExtTreeMap.getElem?_empty⟩

/-! ### Items -/

@[simp] theorem progress_setProgress_self (t : SyncTracker) (item : SyncItem) (p : ItemProgress) :
    (t.setProgress item p).progress item = p := by
  cases item <;> rfl

theorem progress_setProgress_of_ne (t : SyncTracker) {item other : SyncItem} (h : other ≠ item) (p : ItemProgress) :
    (t.setProgress item p).progress other = t.progress other := by
  cases item <;> cases other <;> first | rfl | exact absurd rfl h

@[simp] theorem stage_setProgress (t : SyncTracker) (item : SyncItem) (p : ItemProgress) :
    (t.setProgress item p).stage = t.stage := by
  cases item <;> rfl

theorem setProgress_frame (t : SyncTracker) (item : SyncItem) (p : ItemProgress) :
    (t.setProgress item p).started = t.started ∧ (t.setProgress item p).lastFailure = t.lastFailure ∧
      (t.setProgress item p).failures = t.failures := by
  cases item <;> exact ⟨rfl, rfl, rfl⟩

/-- An item that comes for the first time is progress; any other one may be. -/
theorem last_note (p : ItemProgress) (hash : Hash) (known : Bool) (now : Int) :
    (p.note hash known now).last = now ∨ (p.seen[hash]? ≠ none ∧ (p.note hash known now).last = p.last) := by
  unfold ItemProgress.note
  split
  · rename_i count h
    split
    · exact Or.inl rfl
    split
    · exact Or.inl rfl
    · exact Or.inr ⟨by simp [h], rfl⟩
  · exact Or.inl rfl

theorem agrees_note {t : SyncTracker} {j : Journal} (h : Agrees t j) (item : SyncItem) (hash : Hash) (known : Bool)
    {now : Int} (hpos : 0 < now) (hlast : ∀ last, j.newest item = some last → last ≤ now) :
    Agrees (t.note item hash known now) (j.write (.note item hash known now) t.stage t.stage) := by
  let p := (t.progress item).note hash known now
  obtain ⟨hstarted, hfailure, hfailures⟩ := setProgress_frame t item p
  refine ⟨hfailures.trans h.failures, ?_, ?_, ?_, ?_⟩
  · intro hwell
    exact hstarted.trans (h.entered (by rwa [note, stage_setProgress] at hwell))
  · intro hfailed
    exact hfailure.trans (h.failed (by rwa [note, stage_setProgress] at hfailed))
  · intro other hother
    unfold Journal.write at hother
    dsimp only at hother
    split at hother
    · cases hother
    · rename_i hne
      rw [note, progress_setProgress_of_ne t hne]
      exact h.unseen other hother
  · intro other last hother
    unfold Journal.write at hother
    dsimp only at hother
    split at hother
    · rename_i heq
      subst heq
      cases hother
      rw [note, progress_setProgress_self]
      rcases last_note (t.progress other) hash known now with hnow | ⟨hseen, hkept⟩
      · rw [hnow]
        exact ⟨hpos, Int.le_refl _⟩
      · rw [hkept]
        cases hnewest : j.newest other with
        | none => exact absurd ((h.unseen other hnewest).2 hash) hseen
        | some before =>
          obtain ⟨hprogress, hle⟩ := h.seen other before hnewest
          exact ⟨hprogress, Int.le_trans hle (hlast before hnewest)⟩
    · rename_i hne
      rw [note, progress_setProgress_of_ne t hne]
      exact h.seen other last hother

/-! ### Counts -/

theorem agrees_count {t : SyncTracker} {j : Journal} (h : Agrees t j) (item : SyncItem) (count : Nat) :
    Agrees ((t.count? item count).getD t) j := by
  unfold count?
  split
  · rw [Option.getD_some]
    let p := (t.progress item).report count
    obtain ⟨hstarted, hfailure, hfailures⟩ := setProgress_frame t item p
    have hprogress : ∀ other, ((t.setProgress item p).progress other).last = (t.progress other).last ∧
        ((t.setProgress item p).progress other).seen = (t.progress other).seen := by
      intro other
      by_cases heq : other = item
      · subst heq
        rw [progress_setProgress_self]
        exact ⟨rfl, rfl⟩
      · rw [progress_setProgress_of_ne t heq]
        exact ⟨rfl, rfl⟩
    refine ⟨hfailures.trans h.failures, ?_, ?_, ?_, ?_⟩
    · intro hwell
      exact hstarted.trans (h.entered (by rwa [stage_setProgress] at hwell))
    · intro hfailed
      exact hfailure.trans (h.failed (by rwa [stage_setProgress] at hfailed))
    · intro other hother
      rw [(hprogress other).1, (hprogress other).2]
      exact h.unseen other hother
    · intro other last hother
      rw [(hprogress other).1]
      exact h.seen other last hother
  · exact h

/-! ### Ticks -/

theorem stage_next_ne {s : SyncStage} (h : s ≠ .finished) : s.next ≠ s := by
  cases s with
  | finished => exact absurd rfl h
  | _ => decide

/-- Going on to the next stage is written down as that. -/
theorem agrees_advance {t : SyncTracker} {j : Journal} (h : Agrees t j) (hfailed : t.stage ≠ .failed)
    (hfinished : t.stage ≠ .finished) (now : Int) (chainSynced enforced : Bool) :
    Agrees (t.advance now) (j.write (.tick now chainSynced enforced) t.stage (t.advance now).stage) := by
  have hmoved : (t.advance now).stage ≠ t.stage := stage_next_ne hfinished
  have hwell : (t.advance now).stage ≠ .failed := by
    show t.stage.next ≠ .failed
    cases t.stage <;> decide
  unfold Journal.write
  dsimp only
  rw [if_neg hmoved, if_neg hfailed, if_neg hwell]
  exact ⟨h.failures, fun _ => rfl, fun hstage => absurd hstage hwell, h.unseen, h.seen⟩

theorem agrees_fail {t : SyncTracker} {j : Journal} (h : Agrees t j) (hfailed : t.stage ≠ .failed)
    (now : Int) (chainSynced enforced : Bool) :
    Agrees (t.fail now) (j.write (.tick now chainSynced enforced) t.stage (t.fail now).stage) := by
  have hstage : (t.fail now).stage = .failed := rfl
  unfold Journal.write
  dsimp only
  rw [hstage, if_neg (Ne.symm hfailed), if_neg hfailed, if_pos rfl]
  exact ⟨congrArg (· + 1) h.failures, fun hwell => absurd hstage hwell, fun _ => rfl, h.unseen, h.seen⟩

/-- A restart forgets the items. -/
theorem agrees_retry {t : SyncTracker} {j : Journal} (h : Agrees t j) (hfailed : t.stage = .failed)
    (now : Int) (chainSynced enforced : Bool) :
    Agrees ((t.restart now).advance now)
      (j.write (.tick now chainSynced enforced) t.stage ((t.restart now).advance now).stage) := by
  have hstage : ((t.restart now).advance now).stage = .sporks := rfl
  have hmoved : ¬ SyncStage.sporks = t.stage := by
    rw [hfailed]
    decide
  unfold Journal.write
  dsimp only
  rw [hstage, if_neg hmoved, if_pos hfailed, if_neg (by decide)]
  exact ⟨h.failures, fun _ => rfl, nofun, (agrees_start now).unseen, nofun⟩

theorem item_stage_ne (item : SyncItem) : item.stage ≠ .failed ∧ item.stage ≠ .finished := by
  cases item <;> decide

theorem agrees_tick {t : SyncTracker} {j : Journal} (h : Agrees t j) (now : Int) (chainSynced enforced : Bool) :
    Agrees (t.tick now chainSynced enforced)
      (j.write (.tick now chainSynced enforced) t.stage (t.tick now chainSynced enforced).stage) := by
  have hgoes : t.stage ≠ .failed ∧ t.stage ≠ .finished →
      Agrees (t.advance now) (j.write (.tick now chainSynced enforced) t.stage (t.advance now).stage) :=
    fun hrunning => agrees_advance h hrunning.1 hrunning.2 now chainSynced enforced
  have hmoves := tick_moves t now chainSynced enforced
  generalize t.tick now chainSynced enforced = t' at hmoves
  cases hmoves with
  | stays =>
    unfold Journal.write
    dsimp only
    rw [if_pos rfl]
    exact h
  | begins hstage => exact hgoes (by simp [hstage])
  | retries hstage _ => exact agrees_retry h hstage now chainSynced enforced
  | sporksDone hstage => exact hgoes (by simp [hstage])
  | @stops item hstage => exact hgoes (hstage ▸ item_stage_ne item)
  | @givesUp item hstage => exact hgoes (hstage ▸ item_stage_ne item)
  | @fails item hstage => exact agrees_fail h (hstage ▸ (item_stage_ne item).1) now chainSynced enforced

/-! ### Runs -/

/-- An item that is written down came at some time of the run. -/
theorem newest_mem_times {began : Int} {es : List Event} {item : SyncItem} {last : Int}
    (h : (journal began es).newest item = some last) : last ∈ times began es := by
  induction es using List.reverseRecOn generalizing last with
  | nil => cases h
  | append_singleton es e ih =>
    rw [times_concat]
    rw [journal_concat] at h
    unfold Journal.write at h
    cases e with
    | tick now chainSynced enforced =>
      dsimp only at h
      split at h
      · exact List.mem_append_left _ (ih h)
      · dsimp only at h
        split at h
        · cases h
        · exact List.mem_append_left _ (ih h)
    | note other hash known now =>
      dsimp only at h
      split at h
      · cases h
        exact List.mem_append_right _ (List.mem_singleton_self _)
      · exact List.mem_append_left _ (ih h)
    | count other count => exact List.mem_append_left _ (ih h)

theorem stage_step_of_note (t : SyncTracker) (item : SyncItem) (hash : Hash) (known : Bool) (now : Int) :
    (t.note item hash known now).stage = t.stage :=
  stage_setProgress t item _

theorem stage_step_of_count (t : SyncTracker) (item : SyncItem) (count : Nat) :
    ((t.count? item count).getD t).stage = t.stage := by
  unfold count?
  split
  · exact stage_setProgress t item _
  · rfl

/-- Tracker and journal agree after every run. -/
theorem run_agrees {began : Int} {es : List Event} (h : Clocked began es) :
    Agrees (run began es) (journal began es) := by
  induction es using List.reverseRecOn with
  | nil => exact agrees_start began
  | append_singleton es e ih =>
    have hbefore := ih h.init
    rw [run_concat, journal_concat]
    cases e with
    | tick now chainSynced enforced => exact agrees_tick hbefore now chainSynced enforced
    | note item hash known now =>
      have htime : now ∈ times began (es ++ [.note item hash known now]) := by
        rw [times_concat]
        exact List.mem_append_right _ (List.mem_singleton_self _)
      have hstage : ((run began es).step (.note item hash known now)).stage = (run began es).stage :=
        stage_step_of_note _ item hash known now
      rw [hstage]
      exact agrees_note hbefore item hash known (h.pos now htime) fun last hlast =>
        h.last rfl last (newest_mem_times hlast)
    | count item count => exact agrees_count hbefore item count

/-! ## Every run -/

/-- Nothing follows on the end. -/
theorem stage_step_of_finished {t : SyncTracker} (h : t.stage = .finished) (e : Event) :
    (t.step e).stage = .finished := by
  cases e with
  | tick now chainSynced enforced =>
    show (t.tick now chainSynced enforced).stage = .finished
    rw [tick_of_finished h, h]
  | note item hash known now => exact (stage_step_of_note t item hash known now).trans h
  | count item count => exact (stage_step_of_count t item count).trans h

/-- A stage that an event changes was moved by a tick, along an edge. -/
theorem tick_of_stage_ne {t : SyncTracker} {e : Event} (h : (t.step e).stage ≠ t.stage) :
    ∃ now chainSynced enforced, e = .tick now chainSynced enforced := by
  cases e with
  | tick now chainSynced enforced => exact ⟨now, chainSynced, enforced, rfl⟩
  | note item hash known now => exact absurd (stage_step_of_note t item hash known now) h
  | count item count => exact absurd (stage_step_of_count t item count) h

/-- The guards of a move, as the journal has them. -/
theorem guards_of_moves {t t' : SyncTracker} {j : Journal} (h : Agrees t j) {now : Int} {chainSynced enforced : Bool}
    (hmoves : Moves t now chainSynced enforced t') (hmoved : t'.stage ≠ t.stage) :
    Edge t.stage t'.stage ∧ (t'.stage ≠ .sporks → chainSynced = true) ∧
      (t.stage = .failed → 60 < now - j.entered) ∧
      (t'.stage = .failed → enforced = true ∧ 25 < now - j.entered ∧
        ∃ item : SyncItem, t.stage = item.stage ∧ j.newest item = none) := by
  have hsilent : ∀ item, (t.progress item).last = 0 → j.newest item = none := by
    intro item hzero
    cases hnewest : j.newest item with
    | none => rfl
    | some last =>
      have hpos := (h.seen item last hnewest).1
      omega
  cases hmoves with
  | stays => exact absurd rfl hmoved
  | begins hstage =>
    have hnext : (t.advance now).stage = .sporks := congrArg SyncStage.next hstage
    rw [hstage, hnext]
    exact ⟨.begin, by simp, nofun, nofun⟩
  | retries hstage hover =>
    have hnext : ((t.restart now).advance now).stage = .sporks := rfl
    have hentered := h.failed hstage
    unfold retrySeconds at hover
    rw [hstage, hnext]
    exact ⟨.retry, by simp, fun _ => by omega, nofun⟩
  | sporksDone hstage hsynced _ =>
    have hnext : (t.advance now).stage = .list := congrArg SyncStage.next hstage
    rw [hstage, hnext]
    exact ⟨.sporksDone, fun _ => hsynced, nofun, nofun⟩
  | @stops item hstage hsynced _ _ =>
    have hnext : (t.advance now).stage = item.stage.next := congrArg SyncStage.next hstage
    rw [hstage, hnext]
    refine ⟨edge_next_of_item item, fun _ => hsynced, fun hfailed => absurd hfailed (item_stage_ne item).1, ?_⟩
    cases item <;> exact nofun
  | @givesUp item hstage hsynced _ _ _ =>
    have hnext : (t.advance now).stage = item.stage.next := congrArg SyncStage.next hstage
    rw [hstage, hnext]
    refine ⟨edge_next_of_item item, fun _ => hsynced, fun hfailed => absurd hfailed (item_stage_ne item).1, ?_⟩
    cases item <;> exact nofun
  | @fails item hstage hsynced hzero hover henforced =>
    have hnext : (t.fail now).stage = .failed := rfl
    have hentered : t.started = j.entered := h.entered (hstage ▸ (item_stage_ne item).1)
    unfold interval at hover
    rw [hstage, hnext]
    refine ⟨edge_failed_of_item item, fun _ => hsynced, fun hfailed => absurd hfailed (item_stage_ne item).1, ?_⟩
    exact fun _ => ⟨henforced, by omega, item, rfl, hsilent item hzero⟩

/-- After every run under a clock that starts above zero and does not go back: the failures are the entries into the
    failed stage. The end stays the end, whatever comes. An event that changes the stage is a tick, and goes along an
    edge; beyond the sporks it goes only with the chain synchronised; it leaves the failed stage only more than sixty
    seconds after that was entered; and it fails only where payments are enforced, more than twenty-five seconds after
    the stage was entered, if no item of the stage came since the start or the last restart. And with the chain
    synchronised a tick always leaves the stage of an item, if the last item came more than ten seconds ago, or if none
    came and the stage was entered more than twenty-five seconds ago. -/
theorem stages_follow_the_journal (began : Int) (es : List Event) (h : Clocked began es) :
    let t := run began es
    let j := journal began es
    t.failures = j.failures ∧
    (t.stage = .finished → ∀ more, (run began (es ++ more)).stage = .finished) ∧
    (∀ e, (t.step e).stage ≠ t.stage → ∃ now chainSynced enforced, e = .tick now chainSynced enforced ∧
      Edge t.stage (t.step e).stage ∧ ((t.step e).stage ≠ .sporks → chainSynced = true) ∧
      (t.stage = .failed → 60 < now - j.entered) ∧
      ((t.step e).stage = .failed → enforced = true ∧ 25 < now - j.entered ∧
        ∃ item : SyncItem, t.stage = item.stage ∧ j.newest item = none)) ∧
    ∀ (item : SyncItem) (now : Int) (enforced : Bool), t.stage = item.stage →
      ((∃ last, j.newest item = some last ∧ 10 < now - last) ∨ (j.newest item = none ∧ 25 < now - j.entered)) →
      (t.step (.tick now true enforced)).stage ≠ t.stage := by
  have hagrees := run_agrees h
  refine ⟨hagrees.failures, ?_, ?_, ?_⟩
  · intro hfinished more
    unfold run
    rw [List.foldl_append]
    exact List.foldlRecOn (motive := fun t => t.stage = .finished) more step hfinished
      fun _ hstage e _ => stage_step_of_finished hstage e
  · intro e hmoved
    obtain ⟨now, chainSynced, enforced, rfl⟩ := tick_of_stage_ne hmoved
    exact ⟨now, chainSynced, enforced, rfl, guards_of_moves hagrees (tick_moves _ now chainSynced enforced) hmoved⟩
  · intro item now enforced hstage hover
    refine tick_leaves hstage ?_ enforced
    have hentered := hagrees.entered (hstage ▸ (item_stage_ne item).1)
    unfold interval
    rcases hover with ⟨last, hnewest, hover⟩ | ⟨hnewest, hover⟩
    · obtain ⟨hpos, hle⟩ := hagrees.seen item last hnewest
      exact Or.inl ⟨hpos, by omega⟩
    · exact Or.inr ⟨(hagrees.unseen item hnewest).1, by omega⟩

/-- A synchronisation whose list comes and whose payment votes do not. -/
def listOnly : List Event :=
  [.tick 1 true true, .tick 11 true true, .note .list 7 false 12, .tick 20 true true, .tick 23 true true]

/-- Twenty-six seconds without a payment vote are too many where payments are enforced. -/
theorem a_synchronisation_without_votes_fails :
    Clocked 1 listOnly ∧ (run 1 listOnly).stage = .winners ∧ (journal 1 listOnly).newest .list = some 12 ∧
    (journal 1 listOnly).newest .winners = none ∧ (journal 1 listOnly).entered = 23 ∧
    ((run 1 listOnly).step (.tick 49 true true)).stage ≠ .winners ∧
    ((run 1 listOnly).step (.tick 49 true true)).stage = .failed := by
  have hclock : Clocked 1 listOnly := ⟨by decide, by decide⟩
  have hstage : (run 1 listOnly).stage = .winners := by decide +kernel
  have hsilent : (journal 1 listOnly).newest .winners = none := by decide +kernel
  have hentered : (journal 1 listOnly).entered = 23 := by decide +kernel
  have hleaves := (stages_follow_the_journal 1 listOnly hclock).2.2.2 .winners 49 true hstage
    (Or.inr ⟨hsilent, by rw [hentered]; decide⟩)
  rw [hstage] at hleaves
  exact ⟨hclock, hstage, by decide +kernel, hsilent, hentered, hleaves, by decide +kernel⟩

end NodeQuorum.SyncTracker
