import FinamTradebot.ConfluenceStrategy
import FinamTradebot.Runs

/-!
The public calls of the strategy in any order. A call returns at most one signal; the
calls that return nothing in the source give `none`.
-/
namespace FinamCalls
open FinamInterfaces FinamOrderBook FinamConfluence

inductive Call where
  | bar (b : Bar)
  | quote (q : Quote)
  | bbo (bid ask : ℚ)
  | book (e : BookLevelEvent)
  | trade (e : TradeEvent)
  | order (upd : OrderUpdate)
  | sessionOpen

def perform (libm : Libm) (s : ConfluenceStrategy) : Call → ConfluenceStrategy × Option Signal
  | .bar b => ((s.onBar b).1, some (s.onBar b).2)
  | .quote q => ((s.onQuote q).1, some (s.onQuote q).2)
  | .bbo bid ask => (s.updateBbo bid ask, none)
  | .book e => s.onBookEvent libm e
  | .trade e => s.onTradeEvent e
  | .order upd => (s.onOrderUpdate upd, none)
  | .sessionOpen => (s.onSessionOpen, none)

def callStep (libm : Libm) (s : ConfluenceStrategy) (c : Call) : ConfluenceStrategy :=
  (perform libm s c).1

/-- The calls that run `on_session_open`. -/
def callResets (s : ConfluenceStrategy) : Call → Bool
  | .bar b => s.barResets b
  | .quote q => s.quoteResets q
  | .sessionOpen => true
  | .bbo _ _ | .book _ | .trade _ | .order _ => false

/-- The time of a call that can return an entry. -/
def flowTs : Call → Option ℤ
  | .book e => some e.ts
  | .trade e => some e.ts
  | .bar _ | .quote _ | .bbo _ _ | .order _ | .sessionOpen => none

theorem flow_cases {c : Call} {ts : ℤ} (flow : flowTs c = some ts) :
    (∃ e, c = .book e ∧ ts = e.ts) ∨ ∃ e, c = .trade e ∧ ts = e.ts := by
  cases c with
  | book e =>
    cases flow
    exact Or.inl ⟨e, rfl, rfl⟩
  | trade e =>
    cases flow
    exact Or.inr ⟨e, rfl, rfl⟩
  | bar b => cases flow
  | quote q => cases flow
  | bbo bid ask => cases flow
  | order upd => cases flow
  | sessionOpen => cases flow

/-- Such a call updates its component and ends in `try_enter`, whose checks before the
    votes read nothing that was updated. -/
theorem flow_enters (libm : Libm) {s : ConfluenceStrategy} {c : Call} {ts : ℤ}
    (flow : flowTs c = some ts) : ∃ updated : ConfluenceStrategy,
      perform libm s c = updated.tryEnter ts ∧
      updated.position = s.position ∧ updated.sessionCtx = s.sessionCtx ∧
      updated.lastSignalTs = s.lastSignalTs := by
  rcases flow_cases flow with ⟨e, rfl, rfl⟩ | ⟨e, rfl, rfl⟩
  · exact ⟨_, rfl, rfl, rfl, rfl⟩
  · exact ⟨_, rfl, rfl, rfl, rfl⟩

end FinamCalls
