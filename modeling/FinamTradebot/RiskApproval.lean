import FinamTradebot.RiskAccounting

/-!
What an approval of the risk manager says about the account. A poll overwrites the
profit of the day with the unrealized profit alone, and a margin that cannot be fetched
is not checked.
-/
namespace FinamRiskApproval
open FinamInterfaces FinamRisk FinamRiskAccounting Runs

section DailyStop

/-- A trading day: the manager beside the profit realized through fills since the day
    began and the unrealized profit of the latest poll. -/
structure Day where
  rm : RiskManager
  realized : ℚ
  unrealized : ℚ

def realizedBy (rm : RiskManager) : RiskEvent → ℚ
  | .fill first upd => if upd.qtyFilled ≤ 0 then 0 else fillPnl first rm.openPos upd
  | _ => 0

def Day.step (s : Day) (e : RiskEvent) : Day :=
  { rm := s.rm.react e
    realized := s.realized + realizedBy s.rm e
    unrealized := match e with
      | .poll (.ok resp) _ => decimalToDouble resp.unrealizedProfit
      | _ => s.unrealized }

/-- A day begins with a profit that is the latest unrealized one. -/
def Day.start (rm : RiskManager) : Day := ⟨rm, 0, rm.state.dailyPnl⟩

/-- A loss of the day that reaches the limit blocks every request. -/
def StopHolds (s : Day) : Prop :=
  1 ≤ s.rm.state.liquidValue →
    s.rm.cfg.maxDailyLossPct / 100 * s.rm.state.liquidValue ≤ -(s.realized + s.unrealized) →
    ∀ input req, s.rm.check input req ≠ .ok ()

/-- An account reply does not arrive while the day's realized profit is a loss. -/
def PollsInProfit (s : Day) : RiskEvent → Prop
  | .poll (.ok _) _ => 0 ≤ s.realized
  | _ => True

instance (s : Day) : DecidablePred (PollsInProfit s)
  | .poll (.ok _) _ => inferInstanceAs (Decidable (0 ≤ s.realized))
  | .poll (.error _) _ | .fill _ _ | .trip _ => .isTrue trivial

theorem on_fill_daily (first : ℤ) (rm : RiskManager) (upd : OrderUpdate) :
    (rm.onFill first upd).state.dailyPnl =
      rm.state.dailyPnl + realizedBy rm (.fill first upd) := by
  by_cases ignored : upd.qtyFilled ≤ 0
  · simp [RiskManager.onFill, realizedBy, ignored]
  · rw [on_fill_state first rm (not_le.mp ignored)]
    simp only [realizedBy, ignored, ↓reduceIte]
    rfl

theorem daily_bound_step {s : Day} {e : RiskEvent}
    (bound : s.rm.state.dailyPnl ≤ s.realized + s.unrealized) (profit : PollsInProfit s e) :
    (s.step e).rm.state.dailyPnl ≤ (s.step e).realized + (s.step e).unrealized := by
  cases e with
  | fill first upd =>
    have booked := on_fill_daily first s.rm upd
    simp only [Day.step, RiskManager.react, booked]
    linarith
  | trip reason =>
    obtain ⟨text, eq⟩ := trip_frame s.rm reason
    simpa [Day.step, RiskManager.react, eq, realizedBy] using bound
  | poll reply now =>
    cases reply with
    | error message =>
      simpa [Day.step, RiskManager.react, RiskManager.refreshAccount, realizedBy] using bound
    | ok resp =>
      simp only [PollsInProfit] at profit
      simp only [Day.step, RiskManager.react, RiskManager.refreshAccount, accountState, realizedBy]
      linarith

theorem stop_of_daily_bound {s : Day} (bound : s.rm.state.dailyPnl ≤ s.realized + s.unrealized) :
    StopHolds s := by
  intro solvent loss input req approved
  have daily := (check_ok_iff.mp approved).2.1
  unfold RiskManager.checkDailyLoss at daily
  rw [if_neg (not_lt.mpr solvent)] at daily
  have reached : s.rm.cfg.maxDailyLossPct ≤ s.rm.lossPct := by
    unfold RiskManager.lossPct
    have positive : 0 < s.rm.state.liquidValue := by linarith
    rw [div_mul_eq_mul_div, le_div_iff₀ positive]
    linarith
  rw [if_pos reached] at daily
  cases daily

/-- While no poll falls into a time of realized loss, the daily stop holds after every
    fill and every poll of the day. -/
theorem daily_stop_of_polls_in_profit (rm : RiskManager) (events : List RiskEvent)
    (profit : Along Day.step PollsInProfit (.start rm) events) :
    Visits Day.step StopHolds (.start rm) events := by
  have start : (Day.start rm).rm.state.dailyPnl ≤
      (Day.start rm).realized + (Day.start rm).unrealized := by
    simp [Day.start]
  have bounded := visits_of_along (I := fun s => s.rm.state.dailyPnl ≤ s.realized + s.unrealized)
    (fun s e bound meets => daily_bound_step bound meets) start profit
  exact visits_mono (fun s bound => stop_of_daily_bound bound) bounded

def account (equity unrealized : String) : RiskEvent :=
  .poll (.ok ⟨equity, "0", equity, unrealized, 0⟩) 0

def entryRequest : OrderRequest :=
  { clientId := "A", symbol := si, side := .buy, quantity := 1 }

/-- A margin of ten for a contract. -/
def tenEach : CheckInput := ⟨0, .ok ⟨⟨10, 0⟩, ⟨10, 0⟩⟩⟩

def lossOfHundred : List RiskEvent :=
  [account "1000" "0", .fill 0 (makeUpdate si 1 .buy 900 1), .fill 0 (makeUpdate si 2 .sell 800 1)]

theorem stop_after_loss : Visits Day.step StopHolds (.start (.init {})) lossOfHundred :=
  daily_stop_of_polls_in_profit (.init {}) lossOfHundred (by decide +kernel)

/-- A realized loss of a tenth of the account is forgotten by the next poll, which
    reports no open positions, and an entry is approved. -/
theorem poll_forgets_loss :
    let events := lossOfHundred ++ [account "900" "0"]
    let last := run Day.step (.start (.init {})) events
    last.realized = -100 ∧ last.unrealized = 0 ∧ last.rm.state.liquidValue = 900 ∧
      last.rm.check tenEach entryRequest = .ok () ∧
      ¬Visits Day.step StopHolds (.start (.init {})) events := by
  refine ⟨by decide +kernel, by decide +kernel, by decide +kernel, by decide +kernel, ?_⟩
  intro holds
  have last := visits_last holds
  exact last (by decide +kernel) (by decide +kernel) tenEach entryRequest (by decide +kernel)

end DailyStop

section Margin

def RiskEvent.refreshes : RiskEvent → Bool
  | .poll (.ok _) _ => true
  | _ => false

theorem free_margin_of_outage (cfg : RiskConfig) {events : List RiskEvent}
    (outage : ∀ e ∈ events, RiskEvent.refreshes e = false) :
    (run RiskManager.react (.init cfg) events).state.freeMargin = 0 := by
  have all : Along RiskManager.react (fun _ e => RiskEvent.refreshes e = false) (.init cfg) events :=
    (along_iff_forall _ _ events).mpr outage
  refine visits_last (visits_of_along (I := fun rm => rm.state.freeMargin = 0) ?_ rfl all)
  intro rm e zero failed
  cases e with
  | fill first upd =>
    obtain ⟨pnl, peak, entries, eq⟩ := on_fill_frame rm first upd
    simpa [RiskManager.react, eq, AccountState.realize] using zero
  | trip reason =>
    obtain ⟨text, eq⟩ := trip_frame rm reason
    simpa [RiskManager.react, eq] using zero
  | poll reply now =>
    cases reply with
    | error message => exact zero
    | ok resp => cases failed

theorem margin_of_approval {rm : RiskManager} {input : CheckInput} {req : OrderRequest} {margin : ℚ}
    (known : fetchInitialMargin input.params (req.side == .buy) = .ok margin)
    (approved : rm.check input req = .ok ()) :
    requiredMargin margin req ≤ rm.state.freeMargin ∧
      (1 < rm.state.liquidValue → requiredMargin margin req ≤ rm.maxAllowed) := by
  obtain ⟨-, -, -, -, -, checked⟩ := check_ok_iff.mp approved
  simp only [RiskManager.checkMargin, known] at checked
  split_ifs at checked with short share
  · cases checked
  · cases checked
  · refine ⟨not_lt.mp short, ?_⟩
    intro funded
    by_contra exceeds
    exact share ⟨funded, not_le.mp exceeds⟩

/-- Where the margin of a contract is known, no positive one is approved before an account
    reply, and an approved one is covered by the free margin and by the share per trade. -/
theorem approval_covered_by_margin (cfg : RiskConfig) (events : List RiskEvent)
    (input : CheckInput) (req : OrderRequest) (margin : ℚ)
    (known : fetchInitialMargin input.params (req.side == .buy) = .ok margin) :
    let rm := run RiskManager.react (.init cfg) events
    ((∀ e ∈ events, RiskEvent.refreshes e = false) → 0 < margin → 0 < req.quantity →
        rm.check input req ≠ .ok ()) ∧
      (rm.check input req = .ok () → requiredMargin margin req ≤ rm.state.freeMargin ∧
        (1 < rm.state.liquidValue → requiredMargin margin req ≤ rm.maxAllowed)) := by
  refine ⟨?_, fun approved => margin_of_approval known approved⟩
  intro outage positive quantity approved
  have covered := (margin_of_approval known approved).1
  rw [free_margin_of_outage cfg outage] at covered
  have needed : 0 < requiredMargin margin req := mul_pos positive (by exact_mod_cast quantity)
  exact absurd covered (not_le.mpr needed)

def outage : List RiskEvent := [.poll (.error "unavailable") 0]

theorem outage_entry_refused :
    (run RiskManager.react (.init {}) outage).check tenEach entryRequest ≠ .ok () :=
  (approval_covered_by_margin {} outage tenEach entryRequest 10 (by decide +kernel)).1 (by decide)
    (by decide +kernel) (by decide)

/-- Before any account reply every limit is skipped, and an entry is approved when its
    margin is unknown or reported as zero. -/
theorem unknown_margin_approved :
    let rm := run RiskManager.react (.init {}) outage
    (∀ e ∈ outage, RiskEvent.refreshes e = false) ∧ 0 < entryRequest.quantity ∧
      rm.check ⟨0, .error "unavailable"⟩ entryRequest = .ok () ∧
      rm.check ⟨0, .ok ⟨⟨0, 0⟩, ⟨0, 0⟩⟩⟩ entryRequest = .ok () := by
  decide +kernel

end Margin

end FinamRiskApproval
