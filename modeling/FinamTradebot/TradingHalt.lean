import FinamTradebot.RiskApproval

/-!
Which rejections halt trading for good. A runner trips the breaker on two error codes,
and one of them is shared by the drawdown, the position cap, the expiry gate and the
margin share of a trade.
-/
namespace FinamTradingHalt
open FinamInterfaces FinamRunner FinamRisk FinamRiskAccounting FinamRiskApproval Runs

inductive DeskEvent where
  | signal (accountId : String) (sig : Signal) (input : CheckInput)
  | fill (first : ℤ) (upd : OrderUpdate)
  | poll (reply : Except String GetAccountResponse) (now : ℤ)

/-- `handle_signal` of a runner that has a risk manager. -/
def signalEffects (rm : RiskManager) (accountId : String) (sig : Signal) (input : CheckInput) :
    List Effect :=
  handleSignal accountId (some (rm.check input)) sig

def deskStep (rm : RiskManager) : DeskEvent → RiskManager
  | .signal accountId sig input => (signalEffects rm accountId sig input).foldl RiskManager.absorb rm
  | .fill first upd => rm.react (.fill first upd)
  | .poll reply now => rm.react (.poll reply now)

def Signal.enters (sig : Signal) : Bool := sig.direction != .none && sig.direction != .close

/-- A condition on the checks that a step makes: only an entry signal is checked. -/
def AtCheck (P : RiskManager → CheckInput → OrderRequest → Prop) (rm : RiskManager) :
    DeskEvent → Prop
  | .signal accountId sig input =>
    Signal.enters sig = true → P rm input (orderRequest accountId sig)
  | _ => True

def LossesBelowLimits (rm : RiskManager) (_ : CheckInput) (_ : OrderRequest) : Prop :=
  rm.checkDailyLoss = .ok () ∧ rm.checkDrawdown = .ok ()

/-- A rejected request leaves the manager, and with it every later verdict, as it was. -/
def RejectionHarmless (rm : RiskManager) : DeskEvent → Prop
  | .signal accountId sig input =>
    rm.check input (orderRequest accountId sig) ≠ .ok () →
      deskStep rm (.signal accountId sig input) = rm
  | _ => True

/-- The margin is known and free, and more than the share of the account for a trade. -/
def OverShare (rm : RiskManager) (req : OrderRequest) : Result ℚ → Prop
  | .error _ => False
  | .ok margin =>
    requiredMargin margin req ≤ rm.state.freeMargin ∧
      1 < rm.state.liquidValue ∧ rm.maxAllowed < requiredMargin margin req

def ShareExceeded (rm : RiskManager) (input : CheckInput) (req : OrderRequest) : Prop :=
  OverShare rm req (fetchInitialMargin input.params (req.side == .buy))

/-- None of the transient limits rejects the request. -/
def TransientLimitsPass (rm : RiskManager) (input : CheckInput) (req : OrderRequest) : Prop :=
  rm.checkPositionCount = .ok () ∧ checkExpiry rm.cfg.rolloverDays input.now req.symbol = .ok () ∧
    ¬ShareExceeded rm input req

instance (P : RiskManager → CheckInput → OrderRequest → Prop)
    [∀ rm input req, Decidable (P rm input req)] (rm : RiskManager) : DecidablePred (AtCheck P rm)
  | .signal accountId sig input =>
    inferInstanceAs (Decidable (Signal.enters sig = true → P rm input (orderRequest accountId sig)))
  | .fill _ _ | .poll _ _ => .isTrue trivial

instance (rm : RiskManager) (input : CheckInput) (req : OrderRequest) :
    Decidable (LossesBelowLimits rm input req) :=
  inferInstanceAs (Decidable (rm.checkDailyLoss = .ok () ∧ rm.checkDrawdown = .ok ()))

instance (rm : RiskManager) (req : OrderRequest) : DecidablePred (OverShare rm req)
  | .error _ => .isFalse id
  | .ok margin =>
    inferInstanceAs (Decidable (requiredMargin margin req ≤ rm.state.freeMargin ∧ _ ∧ _))

instance (rm : RiskManager) (input : CheckInput) (req : OrderRequest) :
    Decidable (ShareExceeded rm input req) :=
  inferInstanceAs (Decidable (OverShare rm req _))

instance (rm : RiskManager) (input : CheckInput) (req : OrderRequest) :
    Decidable (TransientLimitsPass rm input req) :=
  inferInstanceAs (Decidable (rm.checkPositionCount = .ok () ∧ _ ∧ _))

/-- The error codes on which a runner trips the breaker. -/
def Halts : Result Unit → Prop
  | .ok () => False
  | .error e => e.code = .dailyLossLimitHit ∨ e.code = .riskLimitExceeded

instance : DecidablePred Halts
  | .ok () => .isFalse id
  | .error e => inferInstanceAs (Decidable (e.code = .dailyLossLimitHit ∨ _))

def verdictMessage : Result Unit → String
  | .ok () => ""
  | .error e => e.message

section Verdicts
variable {rm : RiskManager} {input : CheckInput} {req : OrderRequest}

theorem position_count_halts_iff (rm : RiskManager) :
    Halts rm.checkPositionCount ↔ rm.checkPositionCount ≠ .ok () := by
  unfold RiskManager.checkPositionCount
  split <;> simp [Halts, reject]

theorem expiry_halts_iff (days now : ℤ) (sym : Symbol) :
    Halts (checkExpiry days now sym) ↔ checkExpiry days now sym ≠ .ok () := by
  unfold checkExpiry
  simp only
  split_ifs
  · simp [Halts]
  · split
    · simp [Halts]
    · split_ifs <;> simp [Halts, reject]

theorem margin_halts_iff (rm : RiskManager) (input : CheckInput) (req : OrderRequest) :
    Halts (rm.checkMargin input.params req) ↔ ShareExceeded rm input req := by
  unfold RiskManager.checkMargin ShareExceeded
  cases fetchInitialMargin input.params (req.side == .buy) with
  | error e => simp [Halts, OverShare]
  | ok margin =>
    simp only [OverShare]
    split_ifs with short share
    · simpa [Halts, reject] using fun covered => absurd short (not_lt.mpr covered)
    · simpa [Halts, reject] using ⟨not_lt.mp short, share⟩
    · simpa [Halts] using fun _ funded => not_lt.mp (fun above => share ⟨funded, above⟩)

/-- With the breaker open and the losses below their limits, a check halts trading exactly
    on one of the transient limits. -/
theorem check_halts_iff (untripped : rm.tripped = false)
    (losses : LossesBelowLimits rm input req) :
    Halts (rm.check input req) ↔ ¬TransientLimitsPass rm input req := by
  obtain ⟨daily, drawdown⟩ := losses
  have circuit : rm.checkCircuitBreaker = .ok () := by
    simp [RiskManager.checkCircuitBreaker, untripped]
  have count := position_count_halts_iff rm
  have expiry := expiry_halts_iff rm.cfg.rolloverDays input.now req.symbol
  have margin := margin_halts_iff rm input req
  unfold RiskManager.check TransientLimitsPass
  rw [circuit, daily, drawdown]
  cases positions : rm.checkPositionCount with
  | error e =>
    rw [positions] at count
    simpa [bind, Except.bind] using count
  | ok _ =>
    cases gate : checkExpiry rm.cfg.rolloverDays input.now req.symbol with
    | error e =>
      rw [gate] at expiry
      simpa [bind, Except.bind] using expiry
    | ok _ => simpa [bind, Except.bind] using margin

theorem entry_effects (rm : RiskManager) (accountId : String) {sig : Signal} (input : CheckInput)
    (enters : Signal.enters sig = true) : signalEffects rm accountId sig input =
      let verdict := rm.check input (orderRequest accountId sig)
      if verdict = .ok () then [.submit false (orderRequest accountId sig)]
      else if Halts verdict then [.trip (verdictMessage verdict)]
      else [] := by
  obtain ⟨some_, entry⟩ : sig.direction ≠ .none ∧ sig.direction ≠ .close := by
    simpa [Signal.enters] using enters
  simp only [signalEffects, handleSignal, riskVerdict, some_, entry, decide_false,
    Bool.false_eq_true, ↓reduceIte]
  cases rm.check input (orderRequest accountId sig) with
  | ok _ => simp
  | error e =>
    by_cases halts : e.code = .dailyLossLimitHit ∨ e.code = .riskLimitExceeded
    · simp [Halts, halts, verdictMessage]
    · simp [Halts, halts]

theorem silent_effects (rm : RiskManager) (accountId : String) {sig : Signal} (input : CheckInput)
    (silent : Signal.enters sig = false) : signalEffects rm accountId sig input =
      if sig.direction = .close then [.submit true (orderRequest accountId sig)] else [] := by
  simp only [signalEffects, handleSignal, riskVerdict]
  by_cases nothing : sig.direction = .none
  · simp [nothing]
  · have closes : sig.direction = .close := by
      simpa [Signal.enters, nothing] using silent
    simp [closes]

theorem signal_step (rm : RiskManager) (accountId : String) {sig : Signal} (input : CheckInput)
    (enters : Signal.enters sig = true) :
    deskStep rm (.signal accountId sig input) =
      let verdict := rm.check input (orderRequest accountId sig)
      if Halts verdict then rm.tripCircuitBreaker (verdictMessage verdict) else rm := by
  simp only [deskStep, entry_effects rm accountId input enters]
  cases rm.check input (orderRequest accountId sig) with
  | ok _ => rfl
  | error e =>
    simp only [reduceCtorEq, ↓reduceIte]
    split <;> rfl

theorem silent_signal_step (rm : RiskManager) (accountId : String) {sig : Signal}
    (input : CheckInput) (silent : Signal.enters sig = false) :
    deskStep rm (.signal accountId sig input) = rm := by
  simp only [deskStep, silent_effects rm accountId input silent]
  split <;> rfl

end Verdicts

theorem halt_step_iff {rm : RiskManager} {e : DeskEvent} (untripped : rm.tripped = false) :
    (AtCheck LossesBelowLimits rm e ∧ RejectionHarmless rm e) ∧ (deskStep rm e).tripped = false ↔
      AtCheck LossesBelowLimits rm e ∧ AtCheck TransientLimitsPass rm e := by
  cases e with
  | fill first upd =>
    obtain ⟨pnl, peak, entries, eq⟩ := on_fill_frame rm first upd
    simpa [AtCheck, RejectionHarmless, deskStep, RiskManager.react, eq] using untripped
  | poll reply now =>
    obtain ⟨state, peak, eq⟩ := refresh_frame rm reply now
    simpa [AtCheck, RejectionHarmless, deskStep, RiskManager.react, eq] using untripped
  | signal accountId sig input =>
    cases enters : Signal.enters sig with
    | false =>
      have same := silent_signal_step rm accountId input enters
      simpa [AtCheck, RejectionHarmless, enters, same] using untripped
    | true =>
      have next := signal_step rm accountId input enters
      simp only [AtCheck, RejectionHarmless, enters, forall_const, next]
      constructor
      · rintro ⟨⟨losses, -⟩, quiet⟩
        refine ⟨losses, ?_⟩
        by_contra transient
        obtain ⟨text, eq⟩ := trip_frame rm
          (verdictMessage (rm.check input (orderRequest accountId sig)))
        rw [if_pos ((check_halts_iff untripped losses).mpr transient), eq] at quiet
        cases quiet
      · rintro ⟨losses, transient⟩
        have silent : ¬Halts (rm.check input (orderRequest accountId sig)) :=
          fun halts => (check_halts_iff untripped losses).mp halts transient
        simp only [silent, ↓reduceIte, implies_true, and_true]
        exact ⟨losses, untripped⟩

/-- In a run whose losses are below their limits at every check, the breaker stays open
    and rejections are without consequence exactly when no check meets one of the
    transient limits. -/
theorem stays_untripped_iff_transient_limits_pass (rm : RiskManager) (untripped : rm.tripped = false)
    (events : List DeskEvent) (losses : Along deskStep (AtCheck LossesBelowLimits) rm events) :
    Along deskStep RejectionHarmless rm events ∧
        Visits deskStep (fun rm => rm.tripped = false) rm events ↔
      Along deskStep (AtCheck TransientLimitsPass) rm events := by
  have exactly : Along deskStep
        (fun rm e => AtCheck LossesBelowLimits rm e ∧ RejectionHarmless rm e) rm events ∧
        Visits deskStep (fun rm => rm.tripped = false) rm events ↔
      Along deskStep
        (fun rm e => AtCheck LossesBelowLimits rm e ∧ AtCheck TransientLimitsPass rm e) rm events :=
    good_run_iff (I := fun _ => True) (Q := fun rm : RiskManager => rm.tripped = false)
      (fun rm e _ untripped => halt_step_iff untripped) (fun _ _ _ _ _ => trivial) trivial untripped
  rw [along_and_iff, along_and_iff, and_assoc, and_iff_right losses, and_iff_right losses] at exactly
  exact exactly

def entrySignal : Signal := { symbol := si, direction := .buy, quantity := 1 }

def accountWith (positions : ℕ) : DeskEvent := .poll (.ok ⟨"1000", "0", "1000", "0", positions⟩) 0

def entryAttempt : DeskEvent := .signal "A" entrySignal tenEach

theorem approved_entry_leaves_untripped :
    Along deskStep RejectionHarmless (.init {}) [accountWith 0, entryAttempt] ∧
      Visits deskStep (fun rm => rm.tripped = false) (.init {}) [accountWith 0, entryAttempt] :=
  (stays_untripped_iff_transient_limits_pass (.init {}) rfl _ (by decide +kernel)).mpr
    (by decide +kernel)

/-- An entry that meets the position cap trips the breaker for good: after the positions
    are closed, the request that would now pass is rejected. No loss was made. -/
theorem position_cap_halts_trading :
    let events := [accountWith 3, entryAttempt, accountWith 0]
    let last := run deskStep (.init {}) events
    Along deskStep (AtCheck LossesBelowLimits) (.init {}) events ∧ last.tripped = true ∧
      last.check tenEach (orderRequest "A" entrySignal) =
        reject .riskLimitExceeded "circuit breaker tripped: max positions reached" ∧
      (run deskStep (.init {}) [accountWith 3, accountWith 0]).check tenEach
        (orderRequest "A" entrySignal) = .ok () ∧
      ¬Visits deskStep (fun rm => rm.tripped = false) (.init {}) events := by
  decide +kernel

end FinamTradingHalt
