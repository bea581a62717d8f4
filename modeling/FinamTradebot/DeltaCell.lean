import Mathlib.Algebra.Order.Ring.Int
import Mathlib.Algebra.BigOperators.Group.List.Basic

/-!
A cell that holds the last cumulative report and two writers of it. Each write is
three steps: read the old quantity, store the report, deliver the difference. The
feed writes its reports one after the other; the opener writes a report of quantity
zero at any moment.
-/
namespace DeltaCell
variable {σ : Type}

structure Report (σ : Type) where
  status : σ
  qty : ℤ

inductive Upsert (σ : Type) where
  | read (r : Report σ)
  | write (r : Report σ) (delta : ℤ)
  | notify (delta : ℤ)

@[ext] structure Cell (σ : Type) where
  record : Option (Report σ) := none
  feed : Option (Upsert σ) := none
  opener : Option (Upsert σ) := none
  last : Option (Report σ) := none
  deltas : List ℤ := []

inductive Act (σ : Type) where
  | take (r : Report σ)
  | feedStep
  | start (status : σ)
  | openerStep
  | stay

def quantity : Option (Report σ) → ℤ
  | none => 0
  | some r => r.qty

@[simp] theorem quantity_some (r : Report σ) : quantity (some r) = r.qty := rfl

def Cell.advance (c : Cell σ) : Upsert σ → Cell σ × Option (Upsert σ)
  | .read r => (c, some (.write r (r.qty - quantity c.record)))
  | .write r delta => ({ c with record := some r }, some (.notify delta))
  | .notify delta => ({ c with deltas := c.deltas ++ [delta] }, none)

def Cell.step (c : Cell σ) : Act σ → Cell σ
  | .take r =>
    match c.feed with
    | none => { c with feed := some (.read r), last := some r }
    | some _ => c
  | .feedStep =>
    match c.feed with
    | none => c
    | some u => { (c.advance u).1 with feed := (c.advance u).2 }
  | .start status =>
    match c.opener with
    | none => { c with opener := some (.read ⟨status, 0⟩) }
    | some _ => c
  | .openerStep =>
    match c.opener with
    | none => c
    | some u => { (c.advance u).1 with opener := (c.advance u).2 }
  | .stay => c

section Laws
variable (terminal : σ → Prop)

def Cell.Ended (c : Cell σ) : Prop := ∃ r, c.record = some r ∧ terminal r.status

def agrees (s : σ) : Option (Report σ) → Prop
  | none => True
  | some old => old.status = s

/-- Unless the feed is about to store over it, the opener's write must change nothing;
    and it must not end the record before a report of the feed that does not. -/
def Cell.FitsFeed (c : Cell σ) (r : Report σ) : Option (Upsert σ) → Prop
  | some (.read next) => quantity c.record = 0 ∧ (terminal r.status → terminal next.status)
  | some (.write next _) => terminal r.status → terminal next.status
  | some (.notify _) | none => quantity c.record = 0 ∧ agrees r.status c.record

def Cell.OpenerFits (c : Cell σ) : Option (Upsert σ) → Prop
  | some (.read _) => quantity c.record = 0
  | some (.write r _) => (c.Ended terminal → terminal r.status) ∧ c.FitsFeed terminal r c.feed
  | some (.notify _) | none => True

/-- The condition on the state before a step under which the writers do not disturb
    each other. -/
def Cell.Orderly (c : Cell σ) : Act σ → Prop
  | .take r => quantity c.record ≤ r.qty ∧ (c.Ended terminal → terminal r.status)
  | .openerStep => c.OpenerFits terminal c.opener
  | .feedStep | .start _ | .stay => True

section Decide
variable [DecidablePred terminal] [DecidableEq σ]

instance (c : Cell σ) : Decidable (c.Ended terminal) :=
  match held : c.record with
  | none => .isFalse (by simp [Cell.Ended, held])
  | some r => decidable_of_iff (terminal r.status) (by simp [Cell.Ended, held])

instance (s : σ) : (r : Option (Report σ)) → Decidable (agrees s r)
  | none => .isTrue trivial
  | some old => inferInstanceAs (Decidable (old.status = s))

instance (c : Cell σ) (r : Report σ) : (u : Option (Upsert σ)) → Decidable (c.FitsFeed terminal r u)
  | some (.read _) | some (.notify _) | none => inferInstanceAs (Decidable (_ ∧ _))
  | some (.write _ _) => inferInstanceAs (Decidable (_ → _))

instance (c : Cell σ) : (u : Option (Upsert σ)) → Decidable (c.OpenerFits terminal u)
  | some (.read _) => inferInstanceAs (Decidable (_ = _))
  | some (.write _ _) => inferInstanceAs (Decidable (_ ∧ _))
  | some (.notify _) | none => .isTrue trivial

instance (c : Cell σ) : (a : Act σ) → Decidable (c.Orderly terminal a)
  | .take _ => inferInstanceAs (Decidable (_ ∧ _))
  | .openerStep => inferInstanceAs (Decidable (c.OpenerFits terminal c.opener))
  | .feedStep | .start _ | .stay => .isTrue trivial

end Decide

def Cell.Current (c : Cell σ) : Prop :=
  (∀ r, c.last = some r → c.record = some r) ∧ quantity c.record = quantity c.last

def Cell.FeedInv (c : Cell σ) : Prop :=
  match c.feed with
  | none => c.Current ∧ c.deltas.sum = quantity c.last
  | some (.read r) => c.last = some r ∧ quantity c.record ≤ r.qty ∧
      c.deltas.sum = quantity c.record ∧ (c.Ended terminal → terminal r.status)
  | some (.write r delta) => c.last = some r ∧ 0 ≤ delta ∧ c.deltas.sum + delta = r.qty ∧
      (c.Ended terminal → terminal r.status)
  | some (.notify delta) => c.Current ∧ 0 ≤ delta ∧ c.deltas.sum + delta = quantity c.last

def Cell.OpenerInv (c : Cell σ) : Prop :=
  match c.opener with
  | none => True
  | some (.read r) => r.qty = 0
  | some (.write r delta) => r.qty = 0 ∧ delta = 0
  | some (.notify delta) => delta = 0

structure Cell.Inv (c : Cell σ) : Prop where
  feed : c.FeedInv terminal
  opener : c.OpenerInv
  increasing : ∀ delta ∈ c.deltas, 0 ≤ delta

variable {terminal} {c : Cell σ}

theorem inv_init : ({} : Cell σ).Inv terminal := by
  refine ⟨⟨⟨?_, rfl⟩, rfl⟩, trivial, ?_⟩
  · intro r impossible
    cases impossible
  · intro delta member
    simp at member

theorem take_inv {r : Report σ} (inv : c.Inv terminal) (orderly : c.Orderly terminal (.take r)) :
    (c.step (.take r)).Inv terminal := by
  cases stage : c.feed with
  | some u =>
    simp only [Cell.step, stage]
    exact inv
  | none =>
    have feed := inv.feed
    simp only [Cell.FeedInv, stage] at feed
    obtain ⟨current, total⟩ := feed
    simp only [Cell.step, stage]
    exact ⟨⟨rfl, orderly.1, total.trans current.2.symm, orderly.2⟩, inv.opener, inv.increasing⟩

theorem nonneg_append {deltas : List ℤ} {delta : ℤ} (all : ∀ d ∈ deltas, 0 ≤ d)
    (nonneg : 0 ≤ delta) : ∀ d ∈ deltas ++ [delta], 0 ≤ d := by
  intro d member
  rcases List.mem_append.mp member with old | new
  · exact all d old
  · rw [List.mem_singleton.mp new]
    exact nonneg

theorem feed_inv (inv : c.Inv terminal) : (c.step .feedStep).Inv terminal := by
  have feed := inv.feed
  cases stage : c.feed with
  | none =>
    simp only [Cell.step, stage]
    exact inv
  | some u =>
    simp only [Cell.FeedInv, stage] at feed
    cases u with
    | read r =>
      obtain ⟨last, most, total, ended⟩ := feed
      simp only [Cell.step, stage, Cell.advance]
      refine ⟨⟨last, ?_, ?_, ended⟩, inv.opener, inv.increasing⟩
      · omega
      · simp only
        omega
    | write r delta =>
      obtain ⟨last, nonneg, total, -⟩ := feed
      simp only [Cell.step, stage, Cell.advance]
      have same : quantity (some r) = quantity c.last := by rw [last]
      refine ⟨⟨⟨?_, same⟩, nonneg, ?_⟩, inv.opener, inv.increasing⟩
      · intro newest is_last
        exact last.symm.trans is_last
      · exact total.trans same
    | notify delta =>
      obtain ⟨current, nonneg, total⟩ := feed
      simp only [Cell.step, stage, Cell.advance]
      refine ⟨⟨current, ?_⟩, inv.opener, nonneg_append inv.increasing nonneg⟩
      simpa using total

theorem start_inv {status : σ} (inv : c.Inv terminal) : (c.step (.start status)).Inv terminal := by
  cases stage : c.opener with
  | some u =>
    simp only [Cell.step, stage]
    exact inv
  | none =>
    simp only [Cell.step, stage]
    exact ⟨inv.feed, rfl, inv.increasing⟩

theorem write_inv {r : Report σ} {opener : Option (Upsert σ)} (feed : c.FeedInv terminal)
    (zero : r.qty = 0) (fits : c.FitsFeed terminal r c.feed) :
    ({ c with record := some r, opener := opener } : Cell σ).FeedInv terminal := by
  have ends : ({ c with record := some r, opener := opener } : Cell σ).Ended terminal →
      terminal r.status := by
    rintro ⟨stored, same, ended⟩
    cases same
    exact ended
  have unchanged (empty : quantity c.record = 0) (agree : agrees r.status c.record)
      (current : c.Current) :
      ({ c with record := some r, opener := opener } : Cell σ).Current := by
    refine ⟨fun newest is_last => ?_, zero.trans (empty.symm.trans current.2)⟩
    have held := current.1 newest is_last
    have qty : newest.qty = 0 := by simpa [held] using empty
    have status : newest.status = r.status := by simpa [held, agrees] using agree
    cases newest
    cases r
    simp_all
  cases stage : c.feed with
  | none =>
    simp only [Cell.FeedInv, Cell.FitsFeed, stage] at feed fits ⊢
    exact ⟨unchanged fits.1 fits.2 feed.1, feed.2⟩
  | some u =>
    cases u with
    | read next =>
      simp only [Cell.FeedInv, Cell.FitsFeed, stage] at feed fits ⊢
      obtain ⟨last, most, total, -⟩ := feed
      refine ⟨last, ?_, ?_, fun ended => fits.2 (ends ended)⟩
      · simpa [zero, fits.1] using most
      · simpa [zero, fits.1] using total
    | write next delta =>
      simp only [Cell.FeedInv, Cell.FitsFeed, stage] at feed fits ⊢
      obtain ⟨last, nonneg, total, -⟩ := feed
      exact ⟨last, nonneg, total, fun ended => fits (ends ended)⟩
    | notify delta =>
      simp only [Cell.FeedInv, Cell.FitsFeed, stage] at feed fits ⊢
      exact ⟨unchanged fits.1 fits.2 feed.1, feed.2⟩

theorem opener_inv (inv : c.Inv terminal) (orderly : c.Orderly terminal .openerStep) :
    (c.step .openerStep).Inv terminal := by
  have opener := inv.opener
  cases stage : c.opener with
  | none =>
    simp only [Cell.step, stage]
    exact inv
  | some u =>
    simp only [Cell.OpenerInv, Cell.Orderly, Cell.OpenerFits, stage] at opener orderly
    cases u with
    | read r =>
      simp only [Cell.step, stage, Cell.advance]
      exact ⟨inv.feed, ⟨opener, by simp only at opener orderly; omega⟩, inv.increasing⟩
    | write r delta =>
      simp only [Cell.step, stage, Cell.advance]
      exact ⟨write_inv inv.feed opener.1 orderly.2, opener.2, inv.increasing⟩
    | notify delta =>
      subst opener
      simp only [Cell.step, stage, Cell.advance]
      refine ⟨?_, trivial, nonneg_append inv.increasing (Int.le_refl 0)⟩
      have feed := inv.feed
      simp only [Cell.FeedInv, List.sum_append, List.sum_singleton, add_zero] at feed ⊢
      exact feed

theorem step_inv {a : Act σ} (inv : c.Inv terminal) (orderly : c.Orderly terminal a) :
    (c.step a).Inv terminal := by
  cases a with
  | take r => exact take_inv inv orderly
  | feedStep => exact feed_inv inv
  | start status => exact start_inv inv
  | openerStep => exact opener_inv inv orderly
  | stay => exact inv

/-- An orderly step never takes the record back from a terminal status. -/
theorem step_ended {a : Act σ} (inv : c.Inv terminal) (orderly : c.Orderly terminal a)
    (ended : c.Ended terminal) : (c.step a).Ended terminal := by
  cases a with
  | take r =>
    simp only [Cell.step]
    split <;> exact ended
  | start status =>
    simp only [Cell.step]
    split <;> exact ended
  | stay => exact ended
  | feedStep =>
    have feed := inv.feed
    cases stage : c.feed with
    | none =>
      simp only [Cell.step, stage]
      exact ended
    | some u =>
      simp only [Cell.FeedInv, stage] at feed
      cases u with
      | read r | notify delta =>
        simp only [Cell.step, stage, Cell.advance]
        exact ended
      | write r delta =>
        simp only [Cell.step, stage, Cell.advance]
        exact ⟨r, rfl, feed.2.2.2 ended⟩
  | openerStep =>
    cases stage : c.opener with
    | none =>
      simp only [Cell.step, stage]
      exact ended
    | some u =>
      simp only [Cell.Orderly, Cell.OpenerFits, stage] at orderly
      cases u with
      | read r | notify delta =>
        simp only [Cell.step, stage, Cell.advance]
        exact ended
      | write r delta =>
        simp only [Cell.step, stage, Cell.advance]
        exact ⟨r, rfl, orderly.1 ended⟩

end Laws

end DeltaCell
