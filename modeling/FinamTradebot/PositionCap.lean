import FinamTradebot.TradingHalt
import Mathlib.Data.Finset.Card

/-!
The cap on open positions over the orders of several runners. The cap is checked against
the count of the last poll, while orders are approved, submitted and executed between
polls. An order keeps whether it is a close and how much of it is still to be executed.
-/
namespace FinamPositionCap
open FinamInterfaces FinamRunner FinamRisk FinamRiskAccounting FinamRiskApproval FinamTradingHalt Runs

structure Order where
  req : OrderRequest
  isClose : Bool
  sent : Bool
  left : ℤ
  deriving DecidableEq

/-- The manager, the positions at the exchange and the orders that a runner has decided
    on and that are not done. `opened` marks a position that an approved entry opened. -/
structure Desk where
  rm : RiskManager
  position : Symbol → ℤ
  opened : Symbol → Bool
  orders : List Order

inductive Action where
  | signal (accountId : String) (sig : Signal) (input : CheckInput)
  | submit (k : ℕ) (accepted : Bool)
  | execute (k : ℕ) (qty : ℤ)
  | cancel (k : ℕ)
  | deliver (first : ℤ) (upd : OrderUpdate)
  | poll (resp : GetAccountResponse) (now : ℤ)

section Steps
variable (instruments : Finset Symbol)

def Desk.openCount (d : Desk) : ℕ := (instruments.filter (fun s => d.position s ≠ 0)).card

def Desk.absorb (d : Desk) : Effect → Desk
  | .trip reason => { d with rm := d.rm.tripCircuitBreaker reason }
  | .submit isClose req => { d with orders := d.orders ++ [⟨req, isClose, false, req.quantity⟩] }

/-- Whether the position after an execution is one that an approved entry opened: a
    position that keeps its side keeps its origin. -/
def openedAfter (was : Bool) (isClose : Bool) (before after : ℤ) : Bool :=
  if after = 0 then false
  else if 0 < before * after then was
  else !isClose

def Desk.execute (d : Desk) (k : ℕ) (o : Order) (qty : ℤ) : Desk :=
  let s := o.req.symbol
  let after := d.position s + o.req.side.signed qty
  { d with
    position := Function.update d.position s after
    opened := Function.update d.opened s (openedAfter (d.opened s) o.isClose (d.position s) after)
    orders :=
      if o.left = qty then d.orders.eraseIdx k
      else d.orders.set k { o with left := o.left - qty } }

/-- A poll reports the number of open positions at its time. -/
def Desk.step (d : Desk) : Action → Desk
  | .signal accountId sig input =>
    if sig.symbol ∈ instruments then
      (signalEffects d.rm accountId sig input).foldl Desk.absorb d
    else d
  | .submit k accepted =>
    match d.orders[k]? with
    | some o =>
      if o.sent then d
      else if accepted then { d with orders := d.orders.set k { o with sent := true } }
      else { d with orders := d.orders.eraseIdx k }
    | none => d
  | .execute k qty =>
    match d.orders[k]? with
    | some o => if o.sent ∧ 0 < qty ∧ qty ≤ o.left then d.execute k o qty else d
    | none => d
  | .cancel k =>
    match d.orders[k]? with
    | some o => if o.sent then { d with orders := d.orders.eraseIdx k } else d
    | none => d
  | .deliver first upd => { d with rm := d.rm.onFill first upd }
  | .poll resp now =>
    let resp := { resp with positionsSize := d.openCount instruments }
    { d with rm := (d.rm.refreshAccount (.ok resp) now).1 }

def Desk.start (rm : RiskManager) (position : Symbol → ℤ) : Desk := ⟨rm, position, fun _ => false, []⟩

def Desk.Holds (d : Desk) (s : Symbol) : Prop := d.position s ≠ 0 ∧ d.opened s = true

instance (d : Desk) : DecidablePred d.Holds :=
  fun s => inferInstanceAs (Decidable (d.position s ≠ 0 ∧ d.opened s = true))

/-- An approved entry for the instrument is not done yet. -/
def Desk.Awaits (d : Desk) (s : Symbol) : Prop :=
  ∃ o ∈ d.orders, o.isClose = false ∧ o.req.symbol = s

instance (d : Desk) : DecidablePred d.Awaits :=
  fun s => inferInstanceAs (Decidable (∃ o ∈ d.orders, o.isClose = false ∧ o.req.symbol = s))

def Desk.exposed (d : Desk) : Finset Symbol := instruments.filter (fun s => d.Holds s ∨ d.Awaits s)

def CapHolds (d : Desk) : Prop :=
  ((instruments.filter d.Holds).card : ℤ) ≤ d.rm.cfg.maxPositions

/-- Where the polled count lets an entry pass, the instruments held or awaited, together
    with the one to enter, are within the cap. -/
def CountFresh (d : Desk) : Action → Prop
  | .signal _ sig _ =>
    Signal.enters sig = true → d.rm.checkPositionCount = .ok () →
      ((insert sig.symbol (d.exposed instruments)).card : ℤ) ≤ d.rm.cfg.maxPositions
  | _ => True

instance (d : Desk) : DecidablePred (CountFresh instruments d)
  | .signal _ sig _ => inferInstanceAs (Decidable (Signal.enters sig = true → _ → _ ≤ _))
  | .submit _ _ | .execute _ _ | .cancel _ | .deliver _ _ | .poll _ _ => .isTrue trivial

instance : DecidablePred (CapHolds instruments) :=
  fun d => inferInstanceAs (Decidable (_ ≤ d.rm.cfg.maxPositions))

end Steps

section Exposure
variable {instruments : Finset Symbol} {d next : Desk}

theorem signal_effects_cases (rm : RiskManager) (accountId : String) (sig : Signal)
    (input : CheckInput) :
    let effects := signalEffects rm accountId sig input
    effects = [] ∨ (∃ reason, effects = [.trip reason]) ∨
      effects = [.submit true (orderRequest accountId sig)] ∨
      (effects = [.submit false (orderRequest accountId sig)] ∧ Signal.enters sig = true ∧
        rm.check input (orderRequest accountId sig) = .ok ()) := by
  cases enters : Signal.enters sig with
  | true =>
    simp only [entry_effects rm accountId input enters]
    split_ifs with approved halts
    · exact Or.inr (Or.inr (Or.inr ⟨rfl, trivial, approved⟩))
    · exact Or.inr (Or.inl ⟨_, rfl⟩)
    · exact Or.inl rfl
  | false =>
    simp only [silent_effects rm accountId input enters]
    split_ifs
    · exact Or.inr (Or.inr (Or.inl rfl))
    · exact Or.inl rfl

theorem mem_exposed {s : Symbol} :
    s ∈ d.exposed instruments ↔ s ∈ instruments ∧ (d.Holds s ∨ d.Awaits s) := by
  simp [Desk.exposed]

theorem exposed_subset (holds : ∀ s, next.Holds s → d.Holds s ∨ d.Awaits s)
    (awaits : ∀ s, next.Awaits s → d.Awaits s) :
    next.exposed instruments ⊆ d.exposed instruments := by
  intro s member
  obtain ⟨inside, held | waiting⟩ := mem_exposed.mp member
  · exact mem_exposed.mpr ⟨inside, holds s held⟩
  · exact mem_exposed.mpr ⟨inside, Or.inr (awaits s waiting)⟩

/-- Orders that are dropped, or changed in what they leave to execute, await nothing new. -/
theorem awaits_of_orders (kept : ∀ o ∈ next.orders,
    ∃ old ∈ d.orders, old.isClose = o.isClose ∧ old.req.symbol = o.req.symbol) (s : Symbol) :
    next.Awaits s → d.Awaits s := by
  rintro ⟨o, member, entry, about⟩
  obtain ⟨old, inside, sameClose, sameSymbol⟩ := kept o member
  exact ⟨old, inside, sameClose.trans entry, sameSymbol.trans about⟩

theorem kept_of_erase (orders : List Order) (k : ℕ) :
    ∀ o ∈ orders.eraseIdx k,
      ∃ old ∈ orders, old.isClose = o.isClose ∧ old.req.symbol = o.req.symbol :=
  fun o member => ⟨o, List.mem_of_mem_eraseIdx member, rfl, rfl⟩

theorem kept_of_set {orders : List Order} {k : ℕ} {o new : Order} (here : orders[k]? = some o)
    (sameClose : new.isClose = o.isClose) (sameReq : new.req = o.req) :
    ∀ x ∈ orders.set k new,
      ∃ old ∈ orders, old.isClose = x.isClose ∧ old.req.symbol = x.req.symbol := by
  intro x member
  rcases List.mem_or_eq_of_mem_set member with old | rfl
  · exact ⟨x, old, rfl, rfl⟩
  · exact ⟨o, List.mem_of_getElem? here, sameClose.symm, by rw [sameReq]⟩

theorem execute_exposed {k : ℕ} {o : Order} (here : d.orders[k]? = some o) (qty : ℤ) :
    (d.execute k o qty).exposed instruments ⊆ d.exposed instruments := by
  have awaits : ∀ s, (d.execute k o qty).Awaits s → d.Awaits s := by
    apply awaits_of_orders
    simp only [Desk.execute]
    split
    · exact kept_of_erase d.orders k
    · exact kept_of_set here rfl rfl
  refine exposed_subset ?_ awaits
  intro s holds
  by_cases traded : s = o.req.symbol
  · subst traded
    obtain ⟨after, origin⟩ := holds
    simp only [Desk.execute, Function.update_self] at after origin
    unfold openedAfter at origin
    rw [if_neg after] at origin
    split at origin
    · rename_i sameSide
      exact Or.inl ⟨left_ne_zero_of_mul sameSide.ne', origin⟩
    · exact Or.inr ⟨o, List.mem_of_getElem? here, by simpa using origin, rfl⟩
  · left
    simpa [Desk.Holds, Desk.execute, traded] using holds

theorem entry_exposed (accountId : String) {sig : Signal} :
    (d.absorb (.submit false (orderRequest accountId sig))).exposed instruments ⊆
      insert sig.symbol (d.exposed instruments) := by
  intro s member
  obtain ⟨inside, held | ⟨o, listed, entry, about⟩⟩ := mem_exposed.mp member
  · exact Finset.mem_insert_of_mem (mem_exposed.mpr ⟨inside, Or.inl held⟩)
  · simp only [Desk.absorb, List.mem_append, List.mem_singleton] at listed
    rcases listed with old | rfl
    · exact Finset.mem_insert_of_mem (mem_exposed.mpr ⟨inside, Or.inr ⟨o, old, entry, about⟩⟩)
    · exact Finset.mem_insert.mpr (Or.inl about.symm)

theorem close_exposed (req : OrderRequest) :
    (d.absorb (.submit true req)).exposed instruments ⊆ d.exposed instruments := by
  refine exposed_subset (fun s holds => Or.inl holds) ?_
  rintro s ⟨o, listed, entry, about⟩
  simp only [Desk.absorb, List.mem_append, List.mem_singleton] at listed
  rcases listed with old | rfl
  · exact ⟨o, old, entry, about⟩
  · cases entry

def WithinCap (instruments : Finset Symbol) (d : Desk) : Prop :=
  ((d.exposed instruments).card : ℤ) ≤ d.rm.cfg.maxPositions

theorem within_of_subset (within : WithinCap instruments d) (cfg : next.rm.cfg = d.rm.cfg)
    (subset : next.exposed instruments ⊆ d.exposed instruments) : WithinCap instruments next := by
  have fewer := Finset.card_le_card subset
  unfold WithinCap at *
  rw [cfg]
  omega

theorem within_of_manager (within : WithinCap instruments d) {rm : RiskManager}
    (cfg : rm.cfg = d.rm.cfg) : WithinCap instruments { d with rm := rm } :=
  within_of_subset within cfg (exposed_subset (fun _ holds => Or.inl holds) (fun _ awaits => awaits))

theorem within_of_orders (within : WithinCap instruments d) {orders : List Order}
    (kept : ∀ o ∈ orders,
      ∃ old ∈ d.orders, old.isClose = o.isClose ∧ old.req.symbol = o.req.symbol) :
    WithinCap instruments { d with orders := orders } :=
  within_of_subset within rfl (exposed_subset (fun _ holds => Or.inl holds) (awaits_of_orders kept))

theorem signal_within (within : WithinCap instruments d) {accountId : String} {sig : Signal}
    {input : CheckInput} (fresh : CountFresh instruments d (.signal accountId sig input)) :
    WithinCap instruments ((signalEffects d.rm accountId sig input).foldl Desk.absorb d) := by
  rcases signal_effects_cases d.rm accountId sig input with
    none_ | ⟨reason, trips⟩ | closes | ⟨enters, entry, approved⟩
  · rw [none_]
    exact within
  · rw [trips]
    obtain ⟨text, eq⟩ := trip_frame d.rm reason
    exact within_of_manager within (by rw [eq])
  · rw [closes]
    exact within_of_subset within rfl (close_exposed _)
  · rw [enters]
    have cap := fresh entry (check_ok_iff.mp approved).2.2.2.1
    have grown : ((d.absorb (.submit false (orderRequest accountId sig))).exposed instruments).card ≤
        (insert sig.symbol (d.exposed instruments)).card :=
      Finset.card_le_card (entry_exposed accountId)
    unfold WithinCap
    simp only [List.foldl_cons, List.foldl_nil]
    exact le_trans (by exact_mod_cast grown) cap

theorem step_within (within : WithinCap instruments d) {a : Action}
    (fresh : CountFresh instruments d a) : WithinCap instruments (d.step instruments a) := by
  cases a with
  | signal accountId sig input =>
    simp only [Desk.step]
    split
    · exact signal_within within fresh
    · exact within
  | submit k accepted =>
    simp only [Desk.step]
    split
    · rename_i o here
      split_ifs
      · exact within
      · exact within_of_orders within (kept_of_set here rfl rfl)
      · exact within_of_orders within (kept_of_erase d.orders k)
    · exact within
  | execute k qty =>
    simp only [Desk.step]
    split
    · rename_i o here
      split_ifs
      · exact within_of_subset within rfl (execute_exposed here qty)
      · exact within
    · exact within
  | cancel k =>
    simp only [Desk.step]
    split
    · split_ifs
      · exact within_of_orders within (kept_of_erase d.orders k)
      · exact within
    · exact within
  | deliver first upd =>
    obtain ⟨pnl, peak, entries, eq⟩ := on_fill_frame d.rm first upd
    exact within_of_manager within (by rw [eq])
  | poll resp now => exact within_of_manager within rfl

theorem cap_of_within (within : WithinCap instruments d) : CapHolds instruments d := by
  have subset : instruments.filter d.Holds ⊆ d.exposed instruments := by
    intro s member
    obtain ⟨inside, holds⟩ := Finset.mem_filter.mp member
    exact mem_exposed.mpr ⟨inside, Or.inl holds⟩
  have fewer := Finset.card_le_card subset
  unfold WithinCap at within
  unfold CapHolds
  omega

end Exposure

/-- In every run in which the polled count never lets an entry pass beyond the cap on the
    instruments held or awaited, the positions that approved entries opened stay within
    the cap. -/
theorem cap_holds_of_fresh_counts (instruments : Finset Symbol) (rm : RiskManager)
    (nonneg : 0 ≤ rm.cfg.maxPositions) (position : Symbol → ℤ) (acts : List Action)
    (fresh : Along (Desk.step instruments) (CountFresh instruments) (.start rm position) acts) :
    Visits (Desk.step instruments) (CapHolds instruments) (.start rm position) acts := by
  have start : WithinCap instruments (.start rm position) := by
    have nothing : (Desk.start rm position).exposed instruments = ∅ := by
      simp [Desk.exposed, Desk.Holds, Desk.Awaits, Desk.start]
    unfold WithinCap
    rw [nothing]
    exact nonneg
  have within := visits_of_along (I := WithinCap instruments)
    (fun d a within fresh => step_within within fresh) start fresh
  exact visits_mono (fun d within => cap_of_within within) within

/-- One instrument or the other, with room for one position. -/
def both : Finset Symbol := {si, rts}

def oneAtATime : RiskManager := .init { maxPositions := 1 }

def flat : Desk := .start oneAtATime (fun _ => 0)

def entryFor (symbol : Symbol) : Action :=
  .signal "A" { symbol := symbol, direction := .buy, quantity := 1 } tenEach

def funded : Action := .poll ⟨"1000", "0", "1000", "0", 0⟩ 0

theorem cap_holds_with_polls :
    Visits (Desk.step both) (CapHolds both) flat
      [funded, entryFor si, .submit 0 true, .execute 0 1, funded, entryFor rts] :=
  cap_holds_of_fresh_counts both oneAtATime (by decide) (fun _ => 0) _ (by decide +kernel)

/-- Two runners enter between two polls: both entries pass a cap of one. -/
theorem two_entries_between_polls :
    let acts := [funded, entryFor si, entryFor rts, .submit 0 true, .submit 1 true, .execute 0 1,
      .execute 0 1]
    let last := run (Desk.step both) flat acts
    last.rm.cfg.maxPositions = 1 ∧ (both.filter last.Holds).card = 2 ∧
      ¬Visits (Desk.step both) (CapHolds both) flat acts := by
  decide +kernel

end FinamPositionCap
