import FinamTradebot.Runs
import FinamTradebot.SpoofFilter

/-!
The spoof verdict of one price. `evict_old` goes over the statistics of every price
whenever any price is added to or cancelled at, and it comes after the touched price has
been refreshed or judged. What a price's own calls alone would give is a machine of its
own, and the filter follows it as long as no own call finds old statistics.
-/
namespace FinamSpoofIsolation
open FinamInterfaces FinamSpoof Runs

inductive FilterCall where
  | add (price : ℚ) (ts : ℤ)
  | cancel (price : ℚ) (ts : ℤ)
  | fill (price : ℚ) (ts : ℤ)
  | reset
  deriving DecidableEq, Repr

def filterStep (f : SpoofFilter) : FilterCall → SpoofFilter
  | .add price ts => f.onLargeAdd price ts
  | .cancel price ts => f.onLargeCancel price ts
  | .fill price _ => f.onLargeFill price
  | .reset => f.sessionReset

def FilterCall.time : FilterCall → Option ℤ
  | .add _ ts | .cancel _ ts | .fill _ ts => some ts
  | .reset => none

def times (calls : List FilterCall) : List ℤ := calls.filterMap FilterCall.time

/-- A call as one price sees it. -/
inductive LevelCall where
  | add (ts : ℤ)
  | cancel (ts : ℤ)
  | fill (ts : ℤ)
  | reset
  deriving DecidableEq, Repr

def LevelCall.time : LevelCall → Option ℤ
  | .add ts | .cancel ts | .fill ts => some ts
  | .reset => none

def atKey (key : ℤ) : FilterCall → Option LevelCall
  | .add price ts => if roundPrice price = key then some (.add ts) else none
  | .cancel price ts => if roundPrice price = key then some (.cancel ts) else none
  | .fill price ts => if roundPrice price = key then some (.fill ts) else none
  | .reset => some .reset

/-- The resets and the calls at one rounded price. -/
def ownCalls (key : ℤ) (calls : List FilterCall) : List LevelCall := calls.filterMap (atKey key)

@[ext]
structure Level where
  stats : Option LevelStats := none
  flag : Option ℤ := none
  deriving DecidableEq, Repr

def isOld (cfg : SpoofFilterConfig) (now : ℤ) (l : LevelStats) : Bool :=
  decide (cfg.spoofWindow * nsPerSec < now - l.lastAddTs)

def expire (cfg : SpoofFilterConfig) (now : ℤ) (stats : Option LevelStats) : Option LevelStats :=
  stats.filter fun l => !isOld cfg now l

/-- The counters on which `maybe_flag` flags a price. -/
def Flags (cfg : SpoofFilterConfig) (l : LevelStats) : Prop :=
  ¬l.cancels + l.fills < cfg.minEvents ∧
    cfg.maxCancelRatio ≤ (l.cancels : ℚ) / ((l.cancels + l.fills : ℕ) : ℚ)

instance (cfg : SpoofFilterConfig) (l : LevelStats) : Decidable (Flags cfg l) :=
  inferInstanceAs (Decidable (_ ∧ _))

/-- The filter of one price, driven by that price's own calls. -/
def levelStep (cfg : SpoofFilterConfig) (v : Level) : LevelCall → Level
  | .add ts =>
    let l := v.stats.getD {}
    { v with stats := expire cfg ts (some { l with lastAddTs := ts, adds := l.adds + 1 }) }
  | .cancel ts =>
    let l := v.stats.getD {}
    let l := { l with cancels := l.cancels + 1 }
    ⟨expire cfg ts (some l), if Flags cfg l then some ts else v.flag⟩
  | .fill _ =>
    let l := v.stats.getD {}
    { v with stats := some { l with fills := l.fills + 1 } }
  | .reset => {}

/-- No own call finds statistics older than the window. An add may, as long as there is
    no cancel and no fill in them. -/
def Fresh (cfg : SpoofFilterConfig) (v : Level) : LevelCall → Prop
  | .add ts => ∀ l ∈ v.stats, isOld cfg ts l = false ∨ (l.cancels = 0 ∧ l.fills = 0)
  | .cancel ts | .fill ts => ∀ l ∈ v.stats, isOld cfg ts l = false
  | .reset => True

instance (cfg : SpoofFilterConfig) (v : Level) : (call : LevelCall) → Decidable (Fresh cfg v call)
  | .add _ => inferInstanceAs (Decidable (∀ l ∈ v.stats, _ ∨ _))
  | .cancel _ | .fill _ => inferInstanceAs (Decidable (∀ l ∈ v.stats, _ = _))
  | .reset => .isTrue trivial

def view (f : SpoofFilter) (key : ℤ) : Level := ⟨f.stats key, f.flagged key⟩

section Step
variable {f : SpoofFilter} {key : ℤ} {price : ℚ} {ts : ℤ}

/-- The count that `on_large_cancel` makes before it judges the price. -/
def counted (f : SpoofFilter) (price : ℚ) : SpoofFilter :=
  let key := roundPrice price
  let l := f.level key
  { f with stats := Function.update f.stats key (some { l with cancels := l.cancels + 1 }) }

theorem cancel_eq (f : SpoofFilter) (price : ℚ) (ts : ℤ) :
    f.onLargeCancel price ts = ((counted f price).maybeFlag price ts).evictOld ts := rfl

theorem own_time {c : FilterCall} {call : LevelCall} (own : atKey key c = some call) :
    c.time = call.time := by
  cases c with
  | reset =>
    cases own
    rfl
  | _ =>
    simp only [atKey, Option.ite_none_right_eq_some, Option.some.injEq] at own
    obtain ⟨-, rfl⟩ := own
    rfl

theorem evict_view (f : SpoofFilter) (now : ℤ) (key : ℤ) :
    view (f.evictOld now) key = { view f key with stats := expire f.cfg now (f.stats key) } := rfl

theorem maybe_flag_view (ts : ℤ) (own : roundPrice price = key) {l : LevelStats}
    (held : f.stats key = some l) :
    view (f.maybeFlag price ts) key =
      ⟨some l, if Flags f.cfg l then some ts else f.flagged key⟩ := by
  have level : f.level key = l := by simp [SpoofFilter.level, held]
  unfold SpoofFilter.maybeFlag
  dsimp only
  rw [own, level]
  by_cases few : l.cancels + l.fills < f.cfg.minEvents
  · rw [if_pos few, if_neg (fun flags => flags.1 few)]
    simp [view]
  · rw [if_neg few]
    by_cases high : f.cfg.maxCancelRatio ≤ (l.cancels : ℚ) / ((l.cancels + l.fills : ℕ) : ℚ)
    · rw [if_pos high, if_pos ⟨few, high⟩]
      simp [view]
    · rw [if_neg high, if_neg (fun flags => high flags.2)]
      simp [view]

theorem maybe_flag_other (ts : ℤ) (other : roundPrice price ≠ key) :
    view (f.maybeFlag price ts) key = view f key := by
  unfold SpoofFilter.maybeFlag
  dsimp only
  split_ifs <;> simp [view, Ne.symm other]

theorem maybe_flag_config : (f.maybeFlag price ts).cfg = f.cfg := by
  unfold SpoofFilter.maybeFlag
  dsimp only
  split_ifs <;> rfl

theorem step_config (f : SpoofFilter) (c : FilterCall) : (filterStep f c).cfg = f.cfg := by
  cases c with
  | add price ts => rfl
  | cancel price ts => exact maybe_flag_config
  | fill price ts => rfl
  | reset => rfl

/-- An own call moves the price's statistics and flag as the machine does. -/
theorem own_step {c : FilterCall} {call : LevelCall} (own : atKey key c = some call) :
    view (filterStep f c) key = levelStep f.cfg (view f key) call := by
  cases c with
  | add price ts =>
    simp only [atKey, Option.ite_none_right_eq_some, Option.some.injEq] at own
    obtain ⟨rfl, rfl⟩ := own
    rw [filterStep, SpoofFilter.onLargeAdd, evict_view]
    simp [levelStep, view, SpoofFilter.level]
  | cancel price ts =>
    simp only [atKey, Option.ite_none_right_eq_some, Option.some.injEq] at own
    obtain ⟨rfl, rfl⟩ := own
    have flagged := maybe_flag_view (f := counted f price) ts rfl (Function.update_self _ _ _)
    simp only [Level.ext_iff, view] at flagged
    rw [filterStep, cancel_eq, evict_view, maybe_flag_config, view, flagged.1, flagged.2]
    rfl
  | fill price ts =>
    simp only [atKey, Option.ite_none_right_eq_some, Option.some.injEq] at own
    obtain ⟨rfl, rfl⟩ := own
    simp [filterStep, SpoofFilter.onLargeFill, levelStep, view, SpoofFilter.level]
  | reset =>
    cases own
    rfl

/-- A call at another price leaves the flag and may only expire the statistics. -/
theorem other_step {c : FilterCall} (other : atKey key c = none) :
    view (filterStep f c) key = view f key ∨ ∃ now, c.time = some now ∧
      view (filterStep f c) key = { view f key with stats := expire f.cfg now (f.stats key) } := by
  cases c with
  | add price ts =>
    have apart : roundPrice price ≠ key := by simpa [atKey] using other
    refine Or.inr ⟨ts, rfl, ?_⟩
    rw [filterStep, SpoofFilter.onLargeAdd, evict_view]
    simp [view, Ne.symm apart]
  | cancel price ts =>
    have apart : roundPrice price ≠ key := by simpa [atKey] using other
    refine Or.inr ⟨ts, rfl, ?_⟩
    have same := maybe_flag_other (f := counted f price) ts apart
    simp only [Level.ext_iff, view] at same
    rw [filterStep, cancel_eq, evict_view, maybe_flag_config, view, same.1, same.2]
    simp [counted, view, Ne.symm apart]
  | fill price ts =>
    have apart : roundPrice price ≠ key := by simpa [atKey] using other
    exact Or.inl (by simp [filterStep, SpoofFilter.onLargeFill, view, Ne.symm apart])
  | reset => simp [atKey] at other

end Step

/-- Statistics that differ at most in the number of adds, which no verdict reads. -/
structure SameCounts (l m : LevelStats) : Prop where
  cancels : l.cancels = m.cancels
  fills : l.fills = m.fills
  lastAdd : l.lastAddTs = m.lastAddTs

/-- One price seen from its own calls and from all of them: the flags agree, and so do
    the statistics unless another price's call has dropped them as old. -/
structure Matches (cfg : SpoofFilterConfig) (later : List ℤ) (v w : Level) : Prop where
  flag : v.flag = w.flag
  stats : Option.Rel SameCounts v.stats w.stats ∨
    (w.stats = none ∧ ∃ l, v.stats = some l ∧ ∀ t ∈ later, isOld cfg t l = true)

section Matching
variable {cfg : SpoofFilterConfig} {l m : LevelStats} {v w : Level} {ts : ℤ} {later : List ℤ}

theorem same_counts_refl (l : LevelStats) : SameCounts l l := ⟨rfl, rfl, rfl⟩

theorem is_old_congr (same : SameCounts l m) (now : ℤ) : isOld cfg now l = isOld cfg now m := by
  unfold isOld
  rw [same.lastAdd]

theorem flags_congr (same : SameCounts l m) : Flags cfg l ↔ Flags cfg m := by
  unfold Flags
  rw [same.cancels, same.fills]

theorem level_congr (same : Option.Rel SameCounts v.stats w.stats) :
    SameCounts (v.stats.getD {}) (w.stats.getD {}) := by
  cases v with
  | mk stats flag =>
    cases w with
    | mk stats' flag' =>
      cases same with
      | some same => exact same
      | none => exact same_counts_refl _

theorem expire_some (cfg : SpoofFilterConfig) (now : ℤ) (l : LevelStats) :
    expire cfg now (some l) = if isOld cfg now l then none else some l := by
  cases old : isOld cfg now l <;> simp [expire, old]

theorem expire_congr (same : SameCounts l m) (now : ℤ) :
    Option.Rel SameCounts (expire cfg now (some l)) (expire cfg now (some m)) := by
  rw [expire_some, expire_some, is_old_congr same now]
  split
  · exact .none
  · exact .some same

theorem level_step_congr (same : Option.Rel SameCounts v.stats w.stats) (flag : v.flag = w.flag)
    (call : LevelCall) :
    Matches cfg later (levelStep cfg v call) (levelStep cfg w call) := by
  have level := level_congr same
  cases call with
  | add ts =>
    have added : SameCounts { v.stats.getD {} with lastAddTs := ts, adds := (v.stats.getD {}).adds + 1 }
        { w.stats.getD {} with lastAddTs := ts, adds := (w.stats.getD {}).adds + 1 } :=
      ⟨level.cancels, level.fills, rfl⟩
    exact ⟨flag, Or.inl (expire_congr added ts)⟩
  | cancel ts =>
    have cancelled : SameCounts
        { v.stats.getD {} with cancels := (v.stats.getD {}).cancels + 1 }
        { w.stats.getD {} with cancels := (w.stats.getD {}).cancels + 1 } :=
      ⟨congrArg (· + 1) level.cancels, level.fills, level.lastAdd⟩
    refine ⟨?_, Or.inl (expire_congr cancelled ts)⟩
    simp only [levelStep, flags_congr cancelled, flag]
  | fill ts =>
    exact ⟨flag, Or.inl (.some ⟨level.cancels, congrArg (· + 1) level.fills, level.lastAdd⟩)⟩
  | reset => exact ⟨rfl, Or.inl .none⟩

/-- An own call that finds its old statistics dropped starts where they would have left it. -/
theorem dropped_step (flag : v.flag = w.flag) (dropped : w.stats = none) (held : v.stats = some l)
    {call : LevelCall} (fresh : Fresh cfg v call)
    (old : ∀ ts, call.time = some ts → isOld cfg ts l = true) :
    Matches cfg later (levelStep cfg v call) (levelStep cfg w call) := by
  cases call with
  | add ts =>
    have stale := old ts rfl
    rcases fresh l held with young | ⟨cancels, fills⟩
    · simp [young] at stale
    · have added : SameCounts { l with lastAddTs := ts, adds := l.adds + 1 }
          { ({} : LevelStats) with lastAddTs := ts, adds := 0 + 1 } := ⟨cancels, fills, rfl⟩
      refine ⟨flag, Or.inl ?_⟩
      simp only [levelStep, held, dropped, Option.getD_some, Option.getD_none]
      exact expire_congr added ts
  | cancel ts =>
    have young := fresh l held
    simp [old ts rfl] at young
  | fill ts =>
    have young := fresh l held
    simp [old ts rfl] at young
  | reset => exact ⟨rfl, Or.inl .none⟩

theorem old_later {now t : ℤ} (le : now ≤ t) (old : isOld cfg now l = true) : isOld cfg t l = true := by
  simp only [isOld, decide_eq_true_eq] at old ⊢
  omega

theorem matches_expire {now : ℤ} (matching : Matches cfg later v w)
    (ahead : ∀ t ∈ later, now ≤ t) :
    Matches cfg later v { w with stats := expire cfg now w.stats } := by
  obtain ⟨flag, same | ⟨dropped, held⟩⟩ := matching
  · refine ⟨flag, ?_⟩
    cases v with
    | mk stats flag =>
      cases w with
      | mk stats' flag' =>
        cases same with
        | none => exact Or.inl .none
        | some same =>
          rename_i l m
          rw [expire_some]
          split_ifs with old
          · refine Or.inr ⟨rfl, l, rfl, ?_⟩
            rw [← is_old_congr same now] at old
            exact fun t member => old_later (ahead t member) old
          · exact Or.inl (.some same)
  · exact ⟨flag, Or.inr ⟨by simp [dropped, expire], held⟩⟩

variable {f : SpoofFilter} {key : ℤ} {c : FilterCall} {rest : List FilterCall}

theorem times_sublist : (times rest).Sublist (times (c :: rest)) := by
  unfold times
  rw [List.filterMap_cons]
  split
  · exact List.Sublist.refl _
  · exact List.sublist_cons_self _ _

theorem times_head (at_ : c.time = some ts) : times (c :: rest) = ts :: times rest := by
  rw [times, List.filterMap_cons_some at_, times]

theorem matches_step (ordered : (times (c :: rest)).Pairwise (· ≤ ·))
    (matching : Matches f.cfg (times (c :: rest)) v (view f key))
    (fresh : ∀ call, atKey key c = some call → Fresh f.cfg v call) :
    Matches f.cfg (times rest) ((atKey key c).elim v (levelStep f.cfg v))
      (view (filterStep f c) key) := by
  obtain ⟨flag, stats⟩ := matching
  cases own : atKey key c with
  | some call =>
    rw [own_step own, Option.elim_some]
    rcases stats with same | ⟨dropped, l, held, old⟩
    · exact level_step_congr same flag call
    · refine dropped_step flag dropped held (fresh call own) ?_
      intro ts at_
      rw [← own_time own] at at_
      exact old ts (by rw [times_head at_]; exact List.mem_cons_self)
  | none =>
    rw [Option.elim_none]
    have kept : Matches f.cfg (times rest) v (view f key) := by
      refine ⟨flag, stats.imp_right ?_⟩
      rintro ⟨dropped, l, held, old⟩
      exact ⟨dropped, l, held, fun t member => old t (times_sublist.subset member)⟩
    rcases other_step (f := f) own with same | ⟨now, at_, expired⟩
    · rw [same]
      exact kept
    · rw [expired]
      rw [times_head at_] at ordered
      exact matches_expire kept (List.pairwise_cons.mp ordered).1

/-- The filter flags a price as the price's own calls would. -/
theorem flag_run {calls : List FilterCall} (ordered : (times calls).Pairwise (· ≤ ·))
    (matching : Matches f.cfg (times calls) v (view f key))
    (fresh : Along (levelStep f.cfg) (Fresh f.cfg) v (ownCalls key calls)) :
    (run filterStep f calls).flagged key = (run (levelStep f.cfg) v (ownCalls key calls)).flag := by
  induction calls generalizing f v with
  | nil => exact matching.flag.symm
  | cons c rest ih =>
    have later : (times rest).Pairwise (· ≤ ·) := ordered.sublist times_sublist
    have config := step_config f c
    have next : (∀ call, atKey key c = some call → Fresh f.cfg v call) → Matches f.cfg _ _ _ :=
      matches_step ordered matching
    unfold ownCalls at fresh ih ⊢
    rw [List.filterMap_cons] at fresh ⊢
    cases own : atKey key c with
    | some call =>
      rw [own] at fresh next
      have here := next fun other eq => by
        cases eq
        exact fresh.1
      rw [← config] at here fresh ⊢
      exact ih later here fresh.2
    | none =>
      rw [own] at fresh next
      have here := next fun other eq => by cases eq
      rw [← config] at here fresh ⊢
      exact ih later here fresh

end Matching

/-- Two histories with the same resets and the same calls at a price give it the same
    verdict, whatever the other prices do, if no own call finds old statistics. -/
theorem spoof_verdicts_per_price (cfg : SpoofFilterConfig) (price : ℚ)
    {first second : List FilterCall} (orderedFirst : (times first).Pairwise (· ≤ ·))
    (orderedSecond : (times second).Pairwise (· ≤ ·))
    (same : ownCalls (roundPrice price) first = ownCalls (roundPrice price) second)
    (fresh : Along (levelStep cfg) (Fresh cfg) {} (ownCalls (roundPrice price) first)) (now : ℤ) :
    (run filterStep (.init cfg) first).isSpoofed price now =
      (run filterStep (.init cfg) second).isSpoofed price now := by
  have config (calls : List FilterCall) : (run filterStep (.init cfg) calls).cfg = cfg :=
    run_invariant (I := fun f => f.cfg = cfg) (fun f c kept => (step_config f c).trans kept) calls rfl
  have start (later : List ℤ) : Matches cfg later {} (view (.init cfg) (roundPrice price)) :=
    ⟨rfl, Or.inl .none⟩
  have flagFirst := flag_run (f := .init cfg) orderedFirst (start _) fresh
  rw [same] at fresh
  have flagSecond := flag_run (f := .init cfg) orderedSecond (start _) fresh
  unfold SpoofFilter.isSpoofed
  rw [flagFirst, flagSecond, same, config, config]

/-- Five cancels at 100 within the window of one add, and the same with another price
    added to a minute later. -/
theorem burst_flagged_beside_other_price :
    let burst : List FilterCall := [.add 100 nsPerSec] ++ List.replicate 5 (.cancel 100 (2 * nsPerSec))
    (run filterStep (.init {}) burst).isSpoofed 100 (70 * nsPerSec) =
      (run filterStep (.init {}) (burst ++ [.add 200 (65 * nsPerSec)])).isSpoofed 100 (70 * nsPerSec) :=
  spoof_verdicts_per_price {} 100 (by decide) (by decide) (by decide +kernel) (by decide +kernel)
    (70 * nsPerSec)

def quietPrice : List FilterCall :=
  [.add 100 nsPerSec] ++ List.replicate 4 (.cancel 100 (2 * nsPerSec)) ++
    [.add 100 (100 * nsPerSec), .cancel 100 (101 * nsPerSec)]

def busyPrices : List FilterCall :=
  [.add 100 nsPerSec] ++ List.replicate 4 (.cancel 100 (2 * nsPerSec)) ++ [.add 200 (70 * nsPerSec)] ++
    [.add 100 (100 * nsPerSec), .cancel 100 (101 * nsPerSec)]

/-- An add at 200 decides whether the four old cancels at 100 still count. -/
theorem other_price_changes_verdict :
    (times quietPrice).Pairwise (· ≤ ·) ∧ (times busyPrices).Pairwise (· ≤ ·) ∧
      ownCalls (roundPrice 100) quietPrice = ownCalls (roundPrice 100) busyPrices ∧
      (run filterStep (.init {}) quietPrice).isSpoofed 100 (102 * nsPerSec) = true ∧
      (run filterStep (.init {}) busyPrices).isSpoofed 100 (102 * nsPerSec) = false := by
  decide +kernel

end FinamSpoofIsolation
