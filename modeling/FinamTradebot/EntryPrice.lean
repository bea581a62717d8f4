import FinamTradebot.Runs
import FinamTradebot.StrategyRunner
import Mathlib.Algebra.BigOperators.Group.List.Basic

/-!
The price a position was entered at. `on_order_update` writes `entry_price_` when it finds
the strategy flat, and a fill larger than the open position turns the position over
without leaving it flat.
-/
namespace FinamEntryPrice
open FinamInterfaces FinamConfluence FinamRunner Runs

/-- A `Filled` update with a positive price and quantity. -/
structure Fill where
  upd : OrderUpdate
  filled : upd.status = .filled
  price : 0 < upd.price
  quantity : 0 < upd.qtyFilled

def Fill.signed (f : Fill) : ℤ := f.upd.side.signed f.upd.qtyFilled

/-- The position after the fills. -/
def net (log : List Fill) : ℤ := (log.map Fill.signed).sum

/-- The fill at an index brought the position to the sign it has now. -/
def turns (log : List Fill) (i : ℕ) : Bool :=
  decide ((net (log.take i)).sign ≠ (net log).sign) &&
    decide ((net (log.take (i + 1))).sign = (net log).sign)

/-- The most recent fill that brought the position to the sign it has now. -/
def turningFill (log : List Fill) : Option Fill :=
  ((List.range log.length).filter (turns log)).getLast?.bind fun i => log[i]?

def fillStep (s : ConfluenceStrategy) (f : Fill) : ConfluenceStrategy := s.onOrderUpdate f.upd

def fillRecord : Logged ConfluenceStrategy Fill → Fill → Logged ConfluenceStrategy Fill :=
  Logged.record fillStep fun _ _ => false

/-- An open position has the price of the fill that opened it. -/
def Belongs (l : Logged ConfluenceStrategy Fill) : Prop :=
  l.state.position ≠ 0 → (turningFill l.log).map (·.upd.price) = some l.state.entryPrice

/-- A fill does not carry the position through zero to the other side, unless it does so
    at the price of the old position. -/
def StopsAtZero (l : Logged ConfluenceStrategy Fill) (f : Fill) : Prop :=
  l.state.position = 0 ∨ l.state.position + f.signed = 0 ∨
    (l.state.position + f.signed).sign = l.state.position.sign ∨ f.upd.price = l.state.entryPrice

def Nets (l : Logged ConfluenceStrategy Fill) : Prop := l.state.position = net l.log

section Step
variable {l : Logged ConfluenceStrategy Fill} {log : List Fill} {f : Fill}

theorem net_snoc (log : List Fill) (f : Fill) : net (log ++ [f]) = net log + f.signed := by
  simp [net]

theorem turning_fill_changed (changed : (net (log ++ [f])).sign ≠ (net log).sign) :
    turningFill (log ++ [f]) = some f := by
  have last : turns (log ++ [f]) log.length = true := by
    have whole : (log ++ [f]).take (log.length + 1) = log ++ [f] :=
      List.take_of_length_le (by simp)
    simp [turns, whole, Ne.symm changed]
  unfold turningFill
  rw [List.length_append, List.length_singleton, List.range_succ, List.filter_append]
  simp [last]

theorem turning_fill_kept (same : (net (log ++ [f])).sign = (net log).sign) :
    turningFill (log ++ [f]) = turningFill log := by
  have last : turns (log ++ [f]) log.length = false := by
    simp [turns, same]
  have earlier : (List.range log.length).filter (turns (log ++ [f])) =
      (List.range log.length).filter (turns log) := by
    apply List.filter_congr
    intro i member
    have below : i < log.length := List.mem_range.mp member
    simp only [turns, same, List.take_append_of_le_length below.le,
      List.take_append_of_le_length (Nat.succ_le_of_lt below)]
  unfold turningFill
  rw [List.length_append, List.length_singleton, List.range_succ, List.filter_append, earlier]
  rw [List.filter_singleton, last, cond_false, List.append_nil]
  cases found : ((List.range log.length).filter (turns log)).getLast? with
  | none => rfl
  | some i =>
    have member := (List.mem_filter.mp (List.mem_of_getLast? found)).1
    exact List.getElem?_append_left (List.mem_range.mp member)

theorem record_fill (l : Logged ConfluenceStrategy Fill) (f : Fill) :
    (fillRecord l f).log = l.log ++ [f] ∧
      (fillRecord l f).state.position = l.state.position + f.signed ∧
      (fillRecord l f).state.entryPrice =
        if l.state.position = 0 then f.upd.price else l.state.entryPrice := by
  refine ⟨rfl, ?_, ?_⟩ <;>
    simp [fillRecord, Logged.record, fillStep, ConfluenceStrategy.onOrderUpdate, f.filled, Fill.signed]

theorem nets_step (nets : Nets l) : Nets (fillRecord l f) := by
  obtain ⟨log, position, -⟩ := record_fill l f
  unfold Nets at *
  rw [log, position, net_snoc, nets]

/-- After one fill the price belongs to the position exactly if the fill stops at zero. -/
theorem belongs_step_iff (nets : Nets l) (belongs : Belongs l) :
    Belongs (fillRecord l f) ↔ StopsAtZero l f := by
  obtain ⟨log, position, entry⟩ := record_fill l f
  have before : net l.log = l.state.position := nets.symm
  have after : net (l.log ++ [f]) = l.state.position + f.signed := by rw [net_snoc, before]
  unfold Belongs StopsAtZero
  rw [log, position, entry]
  by_cases flat : l.state.position = 0
  · rw [if_pos flat]
    refine iff_of_true ?_ (Or.inl flat)
    intro opened
    rw [turning_fill_changed]
    · rfl
    · rw [after, before, flat, Int.sign_zero]
      simpa [flat] using opened
  · rw [if_neg flat]
    by_cases closed : l.state.position + f.signed = 0
    · exact iff_of_true (fun opened => absurd closed opened) (Or.inr (Or.inl closed))
    · by_cases same : (l.state.position + f.signed).sign = l.state.position.sign
      · refine iff_of_true ?_ (Or.inr (Or.inr (Or.inl same)))
        intro _
        rw [turning_fill_kept (by rw [after, before, same])]
        exact belongs flat
      · rw [turning_fill_changed (by rw [after, before]; exact same)]
        simp [flat, closed, same]

end Step

/-- Exactly the runs in which no fill turns the position over at another price keep the
    entry price with its position. -/
theorem entry_price_belongs_iff (libm : FinamOrderBook.Libm) (cfg : ConfluenceConfig)
    (fills : List Fill) :
    Visits fillRecord Belongs ⟨.init libm cfg, []⟩ fills ↔
      Along fillRecord StopsAtZero ⟨.init libm cfg, []⟩ fills :=
  visits_iff_along (I := Nets) (fun _ _ nets belongs => belongs_step_iff nets belongs)
    (fun _ _ nets _ _ => nets_step nets) rfl (fun opened => absurd rfl opened)

def buyOne : Fill := ⟨makeFill .buy 100 1, rfl, by decide +kernel, by decide⟩
def sellThree : Fill := ⟨makeFill .sell 110 3, rfl, by decide +kernel, by decide⟩

/-- One contract bought at 100 and three sold at 110: the short position keeps the price
    of the long one. -/
theorem turned_position_keeps_old_price :
    let l := run fillRecord ⟨.init flatLibm makeCfg, []⟩ [buyOne, sellThree]
    l.state.position = -2 ∧ l.state.entryPrice = 100 ∧
      (turningFill l.log).map (·.upd.price) = some 110 ∧ ¬Belongs l := by
  intro l
  have position : l.state.position = -2 := by decide +kernel
  have entry : l.state.entryPrice = 100 := by decide +kernel
  have turning : (turningFill l.log).map (·.upd.price) = some 110 := by decide +kernel
  refine ⟨position, entry, turning, ?_⟩
  intro belongs
  have price := belongs (by rw [position]; decide)
  rw [turning, entry] at price
  exact absurd price (by decide +kernel)

end FinamEntryPrice
