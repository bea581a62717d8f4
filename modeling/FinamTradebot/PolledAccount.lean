import FinamTradebot.Bot
import FinamTradebot.HighWaterMark

/-!
The risk manager beside the bot. Its `on_fill` is called by the callback of every runner that
takes an update as a fill; polls of the account and trips of the breaker come from their own
threads. The updates of the order client carry no price, so the fills move nothing that a check
reads.
-/
namespace FinamPolledAccount
open FinamInterfaces FinamConfluence FinamOrderFlow FinamBot FinamRisk FinamHighWater Runs
open FinamRunner hiding Action
open FinamOrderBook (Libm)

/-- `calls` are the calls of `on_fill` that a callback has begun and that have not taken the
    lock yet. -/
structure Desk where
  bot : Bot
  risk : RiskManager
  calls : List OrderUpdate := []

/-- The verdicts of the drained signals and the trips are free, so the runs in which this manager
    gives them are among the others. -/
inductive Turn where
  | move (m : Move)
  | fill (k : ℕ) (first : ℤ)
  | poll (reply : Except String GetAccountResponse) (now : ℤ)
  | trip (reason : String)

def flowAction : Move → Option Action
  | .reply localId result now => some (.reply localId result now)
  | .submitStep localId => some (.submitStep localId)
  | .report o now => some (.report o now)
  | .streamStep => some .streamStep
  | .market _ _ | .bar _ _ | .watch _ _ | .drain _ _ _ => none

/-- The updates that a move delivers to the callbacks. -/
def delivers (b : Bot) (m : Move) : List OrderUpdate :=
  match flowAction m with
  | some a => ((b.flow.step a).delivered.drop b.flow.delivered.length).map Prod.snd
  | none => []

/-- One call for every runner whose callback takes the update as a fill. -/
def fills (runners : List StrategyRunner) (upd : OrderUpdate) : List OrderUpdate :=
  (runners.filter (fun r => (makeOrderCallback true r upd).onFill)).map (fun _ => upd)

def Desk.step (libm : Libm) (d : Desk) : Turn → Desk
  | .move m =>
    { d with
      bot := d.bot.step libm m
      calls := d.calls ++ (delivers d.bot m).flatMap (fills d.bot.runners) }
  | .fill k first =>
    match d.calls[k]? with
    | some upd => { d with risk := d.risk.onFill first upd, calls := d.calls.eraseIdx k }
    | none => d
  | .poll reply now => { d with risk := (d.risk.refreshAccount reply now).1 }
  | .trip reason => { d with risk := d.risk.tripCircuitBreaker reason }

/-- What the risk manager is told by others than the order client. -/
def outside : Turn → List RiskEvent
  | .move _ | .fill _ _ => []
  | .poll reply now => [.poll reply now]
  | .trip reason => [.trip reason]

section Unmoved
variable {rm : RiskManager}

/-- Entries without a price, and a peak that the equity has not passed. -/
structure Priceless (rm : RiskManager) : Prop where
  entries : ∀ kv ∈ rm.openPos, kv.2.entryPrice = 0
  covered : Covered rm

/-- Bought and sold for nothing: a fill without a price moves the entries alone. -/
theorem free_fill (priceless : Priceless rm) (first : ℤ) {upd : OrderUpdate} (free : upd.price = 0) :
    ∃ entries, rm.onFill first upd = { rm with openPos := entries } ∧
      Priceless (rm.onFill first upd) := by
  unfold RiskManager.onFill
  split
  · exact ⟨rm.openPos, rfl, priceless⟩
  · split
    · rename_i key entry found
      obtain ⟨member, -⟩ := find_opposite_some found
      have unpriced : entry.entryPrice = 0 := priceless.entries (key, entry) member
      have nothing : entry.pnl upd.price upd.qtyFilled = 0 := by
        simp [OpenPos.pnl, free, unpriced]
      have peak : (if rm.peakLiquid < rm.state.liquidValue then rm.state.liquidValue else rm.peakLiquid) =
          rm.peakLiquid := if_neg (not_lt.mpr priceless.covered.2)
      simp only [nothing, realize_zero, peak]
      refine ⟨_, rfl, ?_, priceless.covered⟩
      intro kv kept
      exact priceless.entries kv (List.mem_filter.mp kept).1
    · refine ⟨_, rfl, ?_, priceless.covered⟩
      intro kv kept
      rcases List.mem_append.mp kept with old | new
      · exact priceless.entries kv (List.mem_filter.mp old).1
      · rw [List.mem_singleton.mp new]
        exact free

/-- The same manager but for its entries. -/
structure Alike (rm told : RiskManager) : Prop where
  same : rm = { told with openPos := rm.openPos }
  priceless : Priceless rm

theorem alike_fill {told : RiskManager} (alike : Alike rm told) (first : ℤ) {upd : OrderUpdate}
    (free : upd.price = 0) : Alike (rm.onFill first upd) told := by
  obtain ⟨entries, eq, priceless⟩ := free_fill alike.priceless first free
  refine ⟨?_, priceless⟩
  rw [eq, alike.same]

theorem alike_react {told : RiskManager} (alike : Alike rm told) {e : RiskEvent}
    (other : ∀ first upd, e ≠ .fill first upd) : Alike (rm.react e) (told.react e) := by
  have covered := react_covered alike.priceless.covered e
  cases e with
  | fill first upd => exact absurd rfl (other first upd)
  | poll reply now =>
    cases reply with
    | error message => exact alike
    | ok resp =>
      refine ⟨?_, alike.priceless.entries, covered⟩
      rw [alike.same]
      rfl
  | trip reason =>
    have same : rm.react (.trip reason) = { told.react (.trip reason) with openPos := rm.openPos } := by
      rw [alike.same]
      simp only [RiskManager.react, RiskManager.tripCircuitBreaker]
      split <;> rfl
    have entries : (rm.react (.trip reason)).openPos = rm.openPos := by rw [same]
    refine ⟨entries.symm ▸ same, ?_, covered⟩
    rw [entries]
    exact alike.priceless.entries

end Unmoved

section Run
variable {libm : Libm}

theorem delivered_free {b : Bot} (unpriced : Unpriced b) (m : Move) :
    ∀ upd ∈ delivers b m, upd.price = 0 := by
  intro upd member
  unfold delivers at member
  split at member
  · rename_i a flow
    have other : ∀ req, a = .submit req → req.price = 0 := by
      rintro req rfl
      cases m <;> cases flow
    obtain ⟨⟨localId, same⟩, delivered, rfl⟩ := List.mem_map.mp member
    exact (flow_unpriced unpriced other).delivered localId same (List.mem_of_mem_drop delivered)
  · cases member

theorem fills_free {runners : List StrategyRunner} {upd call : OrderUpdate} (free : upd.price = 0)
    (member : call ∈ fills runners upd) : call.price = 0 := by
  obtain ⟨_, -, rfl⟩ := List.mem_map.mp member
  exact free

/-- No price anywhere, and a manager alike to the one told by the outside. -/
structure Apart (d : Desk) (told : RiskManager) : Prop where
  unpriced : Unpriced d.bot
  calls : ∀ upd ∈ d.calls, upd.price = 0
  alike : Alike d.risk told

theorem apart_step {d : Desk} {told : RiskManager} (apart : Apart d told) (t : Turn) :
    Apart (d.step libm t) (run RiskManager.react told (outside t)) := by
  cases t with
  | move m =>
    refine ⟨unpriced_step m apart.unpriced, fun upd member => ?_, apart.alike⟩
    rcases List.mem_append.mp member with old | new
    · exact apart.calls upd old
    · obtain ⟨source, delivered, called⟩ := List.mem_flatMap.mp new
      exact fills_free (delivered_free apart.unpriced m source delivered) called
  | fill k first =>
    simp only [Desk.step]
    split
    · rename_i upd found
      refine ⟨apart.unpriced, fun other member => ?_, ?_⟩
      · exact apart.calls other (List.mem_of_mem_eraseIdx member)
      · exact alike_fill apart.alike first (apart.calls upd (List.mem_of_getElem? found))
    · exact apart
  | poll reply now =>
    have other : ∀ first upd, RiskEvent.poll reply now ≠ .fill first upd := by simp
    exact ⟨apart.unpriced, apart.calls, alike_react apart.alike other⟩
  | trip reason =>
    have other : ∀ first upd, RiskEvent.trip reason ≠ .fill first upd := by simp
    exact ⟨apart.unpriced, apart.calls, alike_react apart.alike other⟩

theorem apart_run {d : Desk} {told : RiskManager} (apart : Apart d told) (turns : List Turn) :
    Apart (run (Desk.step libm) d turns) (run RiskManager.react told (turns.flatMap outside)) := by
  induction turns generalizing d told with
  | nil => exact apart
  | cons t rest ih =>
    rw [List.flatMap_cons, run_append]
    exact ih (apart_step apart t)

theorem alike_init (cfg : RiskConfig) : Alike (.init cfg) (.init cfg) :=
  ⟨rfl, by simp [RiskManager.init], le_rfl, le_rfl⟩

/-- For every run of the bot with its risk manager, whoever takes its fills: the manager differs
    from one that was told of the polls and the trips alone in its entries only, and gives every
    request the same verdict. -/
theorem account_is_polled (libm : Libm) (accountId : String)
    (configs : List (RunnerConfig × Result (List Bar))) (cfg : RiskConfig) (turns : List Turn) :
    let start : Desk := { bot := .init libm accountId configs, risk := .init cfg }
    let rm := (run (Desk.step libm) start turns).risk
    let told := run RiskManager.react (.init cfg) (turns.flatMap outside)
    rm = { told with openPos := rm.openPos } ∧
      ∀ (input : CheckInput) (req : OrderRequest), rm.check input req = told.check input req := by
  intro start rm told
  have fresh : Apart start (.init cfg) :=
    ⟨unpriced_init accountId configs, by simp [start], alike_init cfg⟩
  have alike : Alike rm told := (apart_run fresh turns).alike
  refine ⟨alike.same, fun input req => ?_⟩
  rw [alike.same]
  rfl

end Run

/-- The fill of a bought contract is booked, at the price 0. -/
example :
    let config : RunnerConfig := { strategy := { makeCfg with baseQty := 2 } }
    let start : Desk := { bot := .init flatLibm "ACC001" [(config, .ok [])], risk := .init {} }
    let desk := run (Desk.step flatLibm) start (entryMoves.map .move ++ [.fill 0 0])
    desk.risk.openPos = [(1, ⟨0, 1⟩)] := by
  decide +kernel

end FinamPolledAccount
