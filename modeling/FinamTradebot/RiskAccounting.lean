import FinamTradebot.RiskManager
import Mathlib.Algebra.BigOperators.Group.List.Basic
import Mathlib.Tactic.Ring

/-!
The profit the risk manager books from fills. A fill closes a whole entry whatever its
own size, an opening fill takes the place of an entry under the same transaction id, and
entries do not know their instrument.
-/
namespace FinamRiskAccounting
open FinamInterfaces FinamRisk Runs

/-- A fill as `on_fill` takes it, with the key its search meets first. -/
structure Fill where
  first : ℤ
  upd : OrderUpdate
  positive : 0 < upd.qtyFilled

def Fill.signedQty (f : Fill) : ℤ := f.upd.side.signed f.upd.qtyFilled

section Entries
variable {entries : List (ℤ × OpenPos)} {key : ℤ} {entry : OpenPos}

def Distinct (entries : List (ℤ × OpenPos)) : Prop := (entries.map Prod.fst).Nodup

theorem erase_distinct (distinct : Distinct entries) (key : ℤ) : Distinct (eraseKey key entries) :=
  distinct.sublist (List.filter_sublist.map Prod.fst)

theorem erase_fresh (fresh : ∀ kv ∈ entries, kv.1 ≠ key) : eraseKey key entries = entries := by
  unfold eraseKey
  rw [List.filter_eq_self]
  intro kv member
  simpa using fresh kv member

theorem mem_erase {kv : ℤ × OpenPos} : kv ∈ eraseKey key entries ↔ kv ∈ entries ∧ kv.1 ≠ key := by
  simp [eraseKey]

theorem put_distinct (distinct : Distinct entries) (key : ℤ) (entry : OpenPos) :
    Distinct (eraseKey key entries ++ [(key, entry)]) := by
  have rest := erase_distinct distinct key
  unfold Distinct at *
  rw [List.map_append, List.nodup_append]
  refine ⟨rest, by simp, ?_⟩
  intro k member k' new
  obtain ⟨kv, inside, rfl⟩ := List.mem_map.mp member
  simp only [List.map_cons, List.map_nil, List.mem_singleton] at new
  rw [new]
  exact (mem_erase.mp inside).2

/-- A sum over the entries splits off the one entry under a key. -/
theorem sum_erase {M : Type} [AddCommMonoid M] (f : ℤ × OpenPos → M) (distinct : Distinct entries)
    (member : (key, entry) ∈ entries) :
    (entries.map f).sum = f (key, entry) + ((eraseKey key entries).map f).sum := by
  induction entries with
  | nil => cases member
  | cons kv rest ih =>
    obtain ⟨absent, distinct⟩ := List.nodup_cons.mp distinct
    rcases List.mem_cons.mp member with rfl | member
    · have fresh : ∀ kv ∈ rest, kv.1 ≠ key := by
        intro kv inside same
        exact absent (List.mem_map.mpr ⟨kv, inside, same⟩)
      have tail : eraseKey key ((key, entry) :: rest) = rest := by
        rw [← erase_fresh fresh]
        simp [eraseKey]
      rw [tail, List.map_cons, List.sum_cons]
    · have other : kv.1 ≠ key := by
        intro same
        exact absent (List.mem_map.mpr ⟨(key, entry), member, same.symm⟩)
      have tail : eraseKey key (kv :: rest) = kv :: eraseKey key rest := by
        simp [eraseKey, other]
      rw [tail, List.map_cons, List.sum_cons, ih distinct member, List.map_cons, List.sum_cons,
        add_left_comm]

end Entries

section Conservation

/-- The manager beside the fills' signed quantity and their cash flow. -/
structure Booked where
  rm : RiskManager
  net : ℤ := 0
  cash : ℚ := 0

def Booked.step (s : Booked) (f : Fill) : Booked :=
  { rm := s.rm.onFill f.first f.upd
    net := s.net + f.signedQty
    cash := s.cash - f.signedQty * f.upd.price }

/-- At a net quantity of zero nothing is left open and what was booked since `start` is
    the cash flow. -/
def Conserved (start : AccountState) (s : Booked) : Prop :=
  s.net = 0 → s.rm.openPos = [] ∧
    s.rm.state.dailyPnl - start.dailyPnl = s.cash ∧
    s.rm.state.liquidValue - start.liquidValue = s.cash

def WholeMatch (f : Fill) (entries : List (ℤ × OpenPos)) : Option (ℤ × OpenPos) → Prop
  | some (_, entry) => |entry.qty| = f.upd.qtyFilled
  | none => ∀ kv ∈ entries, kv.1 ≠ f.upd.transactionId

/-- The fill closes an entry of its own size, or opens one under a new id. -/
def WholeFill (s : Booked) (f : Fill) : Prop :=
  WholeMatch f s.rm.openPos (findOpposite f.first f.upd.side s.rm.openPos)

instance (f : Fill) (entries : List (ℤ × OpenPos)) :
    (found : Option (ℤ × OpenPos)) → Decidable (WholeMatch f entries found)
  | some (_, entry) => inferInstanceAs (Decidable (|entry.qty| = f.upd.qtyFilled))
  | none => inferInstanceAs (Decidable (∀ kv ∈ entries, kv.1 ≠ f.upd.transactionId))

instance (s : Booked) (f : Fill) : Decidable (WholeFill s f) :=
  inferInstanceAs (Decidable (WholeMatch f s.rm.openPos _))

instance (start : AccountState) : DecidablePred (Conserved start) :=
  fun s => inferInstanceAs (Decidable (s.net = 0 → _))

def netQty (entries : List (ℤ × OpenPos)) : ℤ := (entries.map (fun kv => kv.2.qty)).sum

def openCost (entries : List (ℤ × OpenPos)) : ℚ :=
  (entries.map (fun kv => (kv.2.qty : ℚ) * kv.2.entryPrice)).sum

def OneSided (entries : List (ℤ × OpenPos)) : Prop :=
  (∀ kv ∈ entries, 0 < kv.2.qty) ∨ (∀ kv ∈ entries, kv.2.qty < 0)

structure Balanced (start : AccountState) (s : Booked) : Prop where
  distinct : Distinct s.rm.openPos
  oneSided : OneSided s.rm.openPos
  net : netQty s.rm.openPos = s.net
  booked : s.rm.state = start.realize (s.cash + openCost s.rm.openPos)

section Sums
variable {entries : List (ℤ × OpenPos)} {key : ℤ} {entry : OpenPos}

theorem net_erase (distinct : Distinct entries) (member : (key, entry) ∈ entries) :
    netQty entries = entry.qty + netQty (eraseKey key entries) :=
  sum_erase (fun kv => kv.2.qty) distinct member

theorem cost_erase (distinct : Distinct entries) (member : (key, entry) ∈ entries) :
    openCost entries = entry.qty * entry.entryPrice + openCost (eraseKey key entries) :=
  sum_erase (fun kv => (kv.2.qty : ℚ) * kv.2.entryPrice) distinct member

theorem net_append (entries : List (ℤ × OpenPos)) (key : ℤ) (entry : OpenPos) :
    netQty (entries ++ [(key, entry)]) = netQty entries + entry.qty := by
  simp [netQty]

theorem cost_append (entries : List (ℤ × OpenPos)) (key : ℤ) (entry : OpenPos) :
    openCost (entries ++ [(key, entry)]) = openCost entries + entry.qty * entry.entryPrice := by
  simp [openCost]

theorem net_cons (kv : ℤ × OpenPos) (rest : List (ℤ × OpenPos)) :
    netQty (kv :: rest) = kv.2.qty + netQty rest := by
  simp [netQty]

theorem net_of_long (long : ∀ kv ∈ entries, 0 < kv.2.qty) :
    (entries.length : ℤ) ≤ netQty entries := by
  induction entries with
  | nil => simp [netQty]
  | cons kv rest ih =>
    have head := long kv (by simp)
    have tail := ih (fun other inside => long other (List.mem_cons_of_mem kv inside))
    rw [net_cons, List.length_cons]
    omega

theorem net_of_short (short : ∀ kv ∈ entries, kv.2.qty < 0) :
    netQty entries ≤ -(entries.length : ℤ) := by
  induction entries with
  | nil => simp [netQty]
  | cons kv rest ih =>
    have head := short kv (by simp)
    have tail := ih (fun other inside => short other (List.mem_cons_of_mem kv inside))
    rw [net_cons, List.length_cons]
    omega

theorem one_sided_flat (oneSided : OneSided entries) (flat : netQty entries = 0) :
    entries = [] := by
  apply List.length_eq_zero_iff.mp
  rcases oneSided with long | short
  · have bound := net_of_long long
    omega
  · have bound := net_of_short short
    omega

end Sums

theorem closing_quantity {entry : OpenPos} {side : OrderSide} {qty : ℤ}
    (opposes : entry.opposes side = true) (whole : |entry.qty| = qty) :
    side.signed qty = -entry.qty := by
  cases side with
  | buy =>
    have short : entry.qty < 0 := by simpa [OpenPos.opposes] using opposes
    rw [signed_buy, ← whole, abs_of_neg short]
  | sell =>
    have long : 0 < entry.qty := by simpa [OpenPos.opposes] using opposes
    rw [signed_sell, ← whole, abs_of_pos long]

theorem closing_pnl {entry : OpenPos} {qty : ℤ} (price : ℚ) (whole : |entry.qty| = qty) :
    entry.pnl price qty = (price - entry.entryPrice) * entry.qty := by
  unfold OpenPos.pnl
  rw [← whole]
  split
  · rename_i long
    rw [abs_of_pos long, mul_one]
  · rename_i short
    rw [abs_of_nonpos (not_lt.mp short)]
    push_cast
    ring

theorem opening_one_sided {entries : List (ℤ × OpenPos)} (oneSided : OneSided entries) {side : OrderSide}
    {qty : ℤ} (positive : 0 < qty) (same : ∀ kv ∈ entries, kv.2.opposes side = false) (key : ℤ)
    (price : ℚ) : OneSided (entries ++ [(key, ⟨price, side.signed qty⟩)]) := by
  cases side with
  | buy =>
    left
    intro kv member
    rcases List.mem_append.mp member with old | new
    · have notShort : ¬kv.2.qty < 0 := by simpa [OpenPos.opposes] using same kv old
      rcases oneSided with long | short
      · exact long kv old
      · exact absurd (short kv old) notShort
    · simp only [List.mem_singleton] at new
      rw [new]
      exact positive
  | sell =>
    right
    intro kv member
    rcases List.mem_append.mp member with old | new
    · have notLong : ¬0 < kv.2.qty := by simpa [OpenPos.opposes] using same kv old
      rcases oneSided with long | short
      · exact absurd (long kv old) notLong
      · exact short kv old
    · simp only [List.mem_singleton] at new
      rw [new]
      simpa using positive

theorem erase_one_sided {entries : List (ℤ × OpenPos)} (oneSided : OneSided entries) (key : ℤ) :
    OneSided (eraseKey key entries) := by
  rcases oneSided with long | short
  · exact Or.inl (fun kv member => long kv (mem_erase.mp member).1)
  · exact Or.inr (fun kv member => short kv (mem_erase.mp member).1)

theorem balanced_step {start : AccountState} {s : Booked} {f : Fill} (balanced : Balanced start s)
    (whole : WholeFill s f) : Balanced start (s.step f) := by
  obtain ⟨distinct, oneSided, net, booked⟩ := balanced
  have entries := on_fill_entries f.first s.rm f.positive
  have state := on_fill_state f.first s.rm f.positive
  unfold fillEntries at entries
  unfold fillPnl at state
  unfold WholeFill at whole
  cases found : findOpposite f.first f.upd.side s.rm.openPos with
  | some kv =>
    obtain ⟨key, entry⟩ := kv
    obtain ⟨member, opposes⟩ := find_opposite_some found
    simp only [found, WholeMatch] at entries state whole
    have quantity : f.signedQty = -entry.qty := closing_quantity opposes whole
    rw [closing_pnl f.upd.price whole] at state
    have netSplit := net_erase distinct member
    have costSplit := cost_erase distinct member
    constructor
    · simp only [Booked.step, entries]
      exact erase_distinct distinct key
    · simp only [Booked.step, entries]
      exact erase_one_sided oneSided key
    · simp only [Booked.step, entries, quantity]
      omega
    · simp only [Booked.step, entries, state, quantity, booked, realize_realize]
      congr 1
      rw [costSplit]
      push_cast
      ring
  | none =>
    simp only [found, WholeMatch] at entries state whole
    have put := put_distinct distinct f.upd.transactionId ⟨f.upd.price, f.signedQty⟩
    rw [erase_fresh whole] at entries put
    constructor
    · simp only [Booked.step, entries]
      exact put
    · simp only [Booked.step, entries]
      exact opening_one_sided oneSided f.positive (fun kv member => find_opposite_none found member)
        f.upd.transactionId f.upd.price
    · simp only [Booked.step, entries, net_append, Fill.signedQty]
      omega
    · simp only [Booked.step, entries, state, booked, realize_realize, cost_append, Fill.signedQty]
      congr 1
      ring

/-- Over every sequence of fills that each close an entry of their own size or open one
    under a new id, realized profit is conserved after every fill. -/
theorem profit_conserved_of_whole_fills (rm : RiskManager) (empty : rm.openPos = [])
    (fills : List Fill) (whole : Along Booked.step WholeFill ⟨rm, 0, 0⟩ fills) :
    Visits Booked.step (Conserved rm.state) ⟨rm, 0, 0⟩ fills := by
  have start : Balanced rm.state ⟨rm, 0, 0⟩ := by
    constructor <;> simp [empty, Distinct, OneSided, netQty, openCost, realize_zero]
  have balanced := visits_of_along (fun s f holds meets => balanced_step holds meets) start whole
  apply visits_mono _ balanced
  intro s balanced flat
  have closed := one_sided_flat balanced.oneSided (balanced.net.trans flat)
  have booked := balanced.booked
  rw [closed] at booked
  refine ⟨closed, ?_, ?_⟩
  · simp [booked, AccountState.realize, openCost]
  · simp [booked, AccountState.realize, openCost]

def makeUpdate (symbol : Symbol) (tid : ℤ) (side : OrderSide) (price : ℚ) (qty : ℤ) : OrderUpdate :=
  { transactionId := tid, symbol := symbol, side := side, status := .filled, type := .market,
    price := price, qtyTotal := qty, qtyFilled := qty, ts := 0 }

def si : Symbol := ⟨"SiM6", "RTSX"⟩

def makeFill (tid : ℤ) (side : OrderSide) (price : ℚ) (qty : ℤ) (positive : 0 < qty) : Fill :=
  ⟨0, makeUpdate si tid side price qty, positive⟩

theorem round_trip_conserved :
    Visits Booked.step (Conserved (RiskManager.init {}).state) ⟨.init {}, 0, 0⟩
      [makeFill 1 .buy 100 2 (by decide), makeFill 2 .sell 110 2 (by decide)] :=
  profit_conserved_of_whole_fills (.init {}) rfl _ (by decide +kernel)

def partialClose : List Fill :=
  [makeFill 1 .buy 100 2 (by decide), makeFill 2 .sell 110 1 (by decide),
    makeFill 2 .sell 120 1 (by decide)]

/-- Two contracts bought at 100 and sold one by one at 110 and 120 earn 30. The first
    sale erases the whole entry, so the second opens a short one: 10 are booked and an
    entry stays open at a net quantity of zero. -/
theorem partial_close_not_conserved :
    let last := run Booked.step ⟨.init {}, 0, 0⟩ partialClose
    last.net = 0 ∧ last.cash = 30 ∧ last.rm.state.dailyPnl = 10 ∧
      last.rm.openPos = [(2, ⟨120, -1⟩)] ∧
      ¬Visits Booked.step (Conserved (RiskManager.init {}).state) ⟨.init {}, 0, 0⟩ partialClose := by
  decide +kernel

end Conservation

section Instruments

/-- A fill under an id that belongs to its instrument: ids of different instruments are
    disjoint. -/
structure OwnedFill (owner : ℤ → Symbol) extends Fill where
  own : owner upd.transactionId = upd.symbol

variable {owner : ℤ → Symbol}

def fillStep (rm : RiskManager) (f : OwnedFill owner) : RiskManager := rm.onFill f.first f.upd

def OwnedFill.about (symbol : Symbol) (f : OwnedFill owner) : Bool := f.upd.symbol == symbol

def KeepsOthers (rm : RiskManager) (f : OwnedFill owner) : Prop :=
  ∀ kv ∈ rm.openPos, owner kv.1 ≠ f.upd.symbol → kv ∈ (fillStep rm f).openPos

def booked (rm : RiskManager) (fills : List (OwnedFill owner)) : ℚ :=
  (run fillStep rm fills).state.dailyPnl - rm.state.dailyPnl

/-- What an interleaving books is what the fills of each instrument book alone, and no
    fill takes away an entry of the other instrument. -/
structure Unmixed (a b : Symbol) (rm : RiskManager) (fills : List (OwnedFill owner)) : Prop where
  additive : booked rm fills =
    booked rm (fills.filter (OwnedFill.about a)) + booked rm (fills.filter (OwnedFill.about b))
  kept : Along fillStep KeepsOthers rm fills

/-- The entry a fill is matched with, if there is one, belongs to the fill's instrument. -/
def OwnMatch (rm : RiskManager) (f : OwnedFill owner) : Prop :=
  ∀ kv, findOpposite f.first f.upd.side rm.openPos = some kv → owner kv.1 = f.upd.symbol

theorem step_entries (rm : RiskManager) (f : OwnedFill owner) :
    (fillStep rm f).openPos = fillEntries f.first rm.openPos f.upd :=
  on_fill_entries f.first rm f.positive

theorem step_daily (rm : RiskManager) (f : OwnedFill owner) :
    (fillStep rm f).state.dailyPnl = rm.state.dailyPnl + fillPnl f.first rm.openPos f.upd := by
  rw [fillStep, on_fill_state f.first rm f.positive]
  rfl

theorem keeps_others_iff (rm : RiskManager) (f : OwnedFill owner) :
    KeepsOthers rm f ↔ OwnMatch rm f := by
  unfold KeepsOthers OwnMatch
  rw [step_entries]
  unfold fillEntries
  constructor
  · intro keeps kv found
    by_contra foreign
    have stays := keeps kv (find_opposite_some found).1 foreign
    simp only [found, mem_erase] at stays
    exact stays.2 rfl
  · intro own kv member foreign
    cases found : findOpposite f.first f.upd.side rm.openPos with
    | some matched =>
      have owned := own matched found
      refine mem_erase.mpr ⟨member, ?_⟩
      intro same
      exact foreign (same ▸ owned)
    | none =>
      refine List.mem_append_left _ (mem_erase.mpr ⟨member, ?_⟩)
      intro same
      exact foreign (same ▸ f.own)

def restrict (owner : ℤ → Symbol) (symbol : Symbol) (entries : List (ℤ × OpenPos)) :
    List (ℤ × OpenPos) :=
  entries.filter (fun kv => owner kv.1 == symbol)

theorem find_restricted {A : Type} {p q : A → Bool} {l : List A} {x : A}
    (found : l.find? q = some x) (holds : p x = true) : (l.filter p).find? q = some x := by
  induction l with
  | nil => cases found
  | cons y rest ih =>
    by_cases hit : q y = true
    · rw [List.find?_cons_of_pos hit] at found
      obtain rfl := Option.some.inj found
      rw [List.filter_cons_of_pos holds, List.find?_cons_of_pos hit]
    · rw [List.find?_cons_of_neg hit] at found
      by_cases kept : p y = true
      · rw [List.filter_cons_of_pos kept, List.find?_cons_of_neg hit]
        exact ih found
      · rw [List.filter_cons_of_neg kept]
        exact ih found

theorem find_restricted_none {A : Type} {p q : A → Bool} {l : List A} (absent : l.find? q = none) :
    (l.filter p).find? q = none := by
  rw [List.find?_eq_none] at *
  intro x member
  exact absent x (List.mem_of_mem_filter member)

theorem find_opposite_restricted {rm : RiskManager} {f : OwnedFill owner} (own : OwnMatch rm f) :
    findOpposite f.first f.upd.side (restrict owner f.upd.symbol rm.openPos) =
      findOpposite f.first f.upd.side rm.openPos := by
  unfold OwnMatch findOpposite at own
  unfold findOpposite restrict
  cases first : rm.openPos.find? (fun kv => kv.1 == f.first && kv.2.opposes f.upd.side) with
  | some kv =>
    simp only [first] at own
    have owned : (owner kv.1 == f.upd.symbol) = true := by simpa using own kv rfl
    rw [find_restricted first owned]
  | none =>
    simp only [first] at own
    rw [find_restricted_none first]
    cases second : rm.openPos.find? (fun kv => kv.2.opposes f.upd.side) with
    | some kv =>
      have owned : (owner kv.1 == f.upd.symbol) = true := by simpa using own kv second
      exact find_restricted second owned
    | none => exact find_restricted_none second

theorem restrict_erase (symbol : Symbol) (key : ℤ) (entries : List (ℤ × OpenPos)) :
    restrict owner symbol (eraseKey key entries) = eraseKey key (restrict owner symbol entries) := by
  unfold restrict eraseKey
  rw [List.filter_filter, List.filter_filter]
  congr 1
  funext kv
  exact Bool.and_comm _ _

theorem restrict_erase_foreign {symbol : Symbol} {key : ℤ} (foreign : owner key ≠ symbol)
    (entries : List (ℤ × OpenPos)) :
    restrict owner symbol (eraseKey key entries) = restrict owner symbol entries := by
  rw [restrict_erase]
  apply erase_fresh
  intro kv member same
  have owned := List.of_mem_filter member
  simp only [beq_iff_eq] at owned
  exact foreign (same ▸ owned)

section Restricted
variable {rm : RiskManager} {f : OwnedFill owner}

theorem restricted_pnl (own : OwnMatch rm f) :
    fillPnl f.first (restrict owner f.upd.symbol rm.openPos) f.upd =
      fillPnl f.first rm.openPos f.upd := by
  unfold fillPnl
  rw [find_opposite_restricted own]

theorem restricted_entries (own : OwnMatch rm f) :
    fillEntries f.first (restrict owner f.upd.symbol rm.openPos) f.upd =
      restrict owner f.upd.symbol (fillEntries f.first rm.openPos f.upd) := by
  unfold fillEntries
  rw [find_opposite_restricted own]
  split
  · exact (restrict_erase _ _ _).symm
  · rw [← restrict_erase]
    simp [restrict, f.own]

theorem foreign_entries (own : OwnMatch rm f) {symbol : Symbol} (foreign : f.upd.symbol ≠ symbol) :
    restrict owner symbol (fillEntries f.first rm.openPos f.upd) =
      restrict owner symbol rm.openPos := by
  unfold fillEntries
  split
  · rename_i key entry found
    exact restrict_erase_foreign (own (key, entry) found ▸ foreign) _
  · have erased := restrict_erase_foreign (f.own ▸ foreign) rm.openPos
    unfold restrict at *
    rw [List.filter_append, erased]
    simp [f.own, foreign]

theorem mine_step (own : OwnMatch rm f) {mine : RiskManager}
    (matched : mine.openPos = restrict owner f.upd.symbol rm.openPos) :
    (fillStep mine f).openPos = restrict owner f.upd.symbol (fillStep rm f).openPos := by
  rw [step_entries, step_entries, matched, restricted_entries own]

theorem other_step (own : OwnMatch rm f) {symbol : Symbol} (foreign : f.upd.symbol ≠ symbol)
    {other : RiskManager} (matched : other.openPos = restrict owner symbol rm.openPos) :
    other.openPos = restrict owner symbol (fillStep rm f).openPos := by
  rw [step_entries, foreign_entries own foreign, matched]

theorem booked_cons (f : OwnedFill owner) (rest : List (OwnedFill owner)) (rm : RiskManager) :
    booked rm (f :: rest) = fillPnl f.first rm.openPos f.upd + booked (fillStep rm f) rest := by
  simp only [booked, run, step_daily]
  ring

end Restricted

/-- Runs of the two instruments' fills alone, each beside the shared manager's entries of
    its instrument, book together what the interleaving books. -/
theorem booked_additive {a b : Symbol} (different : a ≠ b) {fills : List (OwnedFill owner)}
    (about : ∀ f ∈ fills, f.upd.symbol = a ∨ f.upd.symbol = b) {rm left right : RiskManager}
    (ofLeft : left.openPos = restrict owner a rm.openPos)
    (ofRight : right.openPos = restrict owner b rm.openPos)
    (own : Along fillStep OwnMatch rm fills) :
    booked rm fills = booked left (fills.filter (OwnedFill.about a)) +
      booked right (fills.filter (OwnedFill.about b)) := by
  induction fills generalizing rm left right with
  | nil => simp [booked, run]
  | cons f rest ih =>
    obtain ⟨here, restOwn⟩ := own
    have later : ∀ g ∈ rest, g.upd.symbol = a ∨ g.upd.symbol = b :=
      fun g member => about g (List.mem_cons_of_mem f member)
    have sameIn : ∀ {mine : RiskManager}, mine.openPos = restrict owner f.upd.symbol rm.openPos →
        fillPnl f.first mine.openPos f.upd = fillPnl f.first rm.openPos f.upd := by
      intro mine matched
      rw [matched, restricted_pnl here]
    rcases about f List.mem_cons_self with rfl | rfl
    · have mine : f.about f.upd.symbol = true := by simp [OwnedFill.about]
      have others : ¬f.about b = true := by simpa [OwnedFill.about] using different
      rw [List.filter_cons_of_pos mine, List.filter_cons_of_neg others, booked_cons, booked_cons,
        sameIn ofLeft, ih later (mine_step here ofLeft) (other_step here different ofRight) restOwn]
      ring
    · have mine : f.about f.upd.symbol = true := by simp [OwnedFill.about]
      have others : ¬f.about a = true := by simpa [OwnedFill.about] using different.symm
      rw [List.filter_cons_of_neg others, List.filter_cons_of_pos mine, booked_cons, booked_cons,
        sameIn ofRight,
        ih later (other_step here different.symm ofLeft) (mine_step here ofRight) restOwn]
      ring

def rts : Symbol := ⟨"RIM6", "RTSX"⟩

/-- Ids from 100 on belong to RTS. -/
def idOwner (tid : ℤ) : Symbol := if 100 ≤ tid then rts else si

def ownFill (first tid : ℤ) (side : OrderSide) (price : ℚ) : OwnedFill idOwner :=
  ⟨⟨first, makeUpdate (idOwner tid) tid side price 1, Int.zero_lt_one⟩, rfl⟩

instance (rm : RiskManager) (f : OwnedFill owner) : Decidable (OwnMatch rm f) :=
  match found : findOpposite f.first f.upd.side rm.openPos with
  | some kv =>
    if own : owner kv.1 = f.upd.symbol then
      .isTrue (fun other same => by rw [found] at same; exact Option.some.inj same ▸ own)
    else .isFalse (fun all => own (all kv found))
  | none => .isTrue (fun other same => by rw [found] at same; cases same)

end Instruments

end FinamRiskAccounting
