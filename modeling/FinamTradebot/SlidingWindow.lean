import Mathlib.Algebra.Order.Ring.Int
import Mathlib.Data.List.Basic

/-!
A deque of timed entries that is trimmed at its front. As long as the entries arrive in
the order of their times, trimming the front is filtering the whole.
-/
namespace SlidingWindow
variable {α : Type} {time : α → ℤ} {history held : List α} {cutoff now span : ℤ}

def InOrder (time : α → ℤ) (history : List α) : Prop :=
  history.Pairwise fun first second => time first ≤ time second

def trim (time : α → ℤ) (cutoff : ℤ) (held : List α) : List α :=
  held.dropWhile fun x => decide (time x < cutoff)

def since (time : α → ℤ) (cutoff : ℤ) (history : List α) : List α :=
  history.filter fun x => decide (cutoff ≤ time x)

theorem trim_in_order (ordered : InOrder time history) :
    trim time cutoff history = since time cutoff history := by
  induction history with
  | nil => rfl
  | cons first rest ih =>
    obtain ⟨ahead, later⟩ := List.pairwise_cons.mp ordered
    unfold trim since at *
    by_cases old : time first < cutoff
    · rw [List.dropWhile_cons_of_pos (by simpa using old), List.filter_cons_of_neg (by simpa using old)]
      exact ih later
    · rw [List.dropWhile_cons_of_neg (by simpa using old)]
      refine (List.filter_eq_self.mpr ?_).symm
      intro x member
      rcases List.mem_cons.mp member with rfl | behind
      · simpa using old
      · have order := ahead x behind
        simp only [decide_eq_true_eq]
        omega

theorem since_since {later : ℤ} (le : cutoff ≤ later) :
    since time later (since time cutoff history) = since time later history := by
  unfold since
  rw [List.filter_filter]
  apply List.filter_congr
  intro x _
  simp only [← Bool.decide_and]
  apply decide_eq_decide.mpr
  omega

theorem since_append (first second : List α) : since time cutoff (first ++ second) =
    since time cutoff first ++ since time cutoff second :=
  List.filter_append _ _

theorem in_order_append {x : α} (ordered : InOrder time (history ++ [x])) :
    InOrder time history ∧ ∀ y ∈ history, time y ≤ time x := by
  obtain ⟨before, -, across⟩ := List.pairwise_append.mp ordered
  exact ⟨before, fun y member => across y member x (List.mem_singleton_self x)⟩

/-- Trimmed at any time not before the history, the deque shows the history since then. -/
def Shows (time : α → ℤ) (span : ℤ) (history held : List α) : Prop :=
  ∀ now, (∀ x ∈ history, time x ≤ now) →
    trim time (now - span) held = since time (now - span) history

theorem shows_nothing : Shows time span [] [] := fun _ _ => rfl

/-- An entry pushed after a trim at its own time. -/
theorem shows_push (shows : Shows time span history held) {x : α}
    (ordered : InOrder time (history ++ [x])) :
    Shows time span (history ++ [x]) (trim time (time x - span) held ++ [x]) := by
  obtain ⟨before, latest⟩ := in_order_append ordered
  have kept : trim time (time x - span) held = since time (time x - span) history :=
    shows (time x) latest
  intro now ahead
  have le : time x ≤ now := ahead x (by simp)
  have inner : InOrder time (since time (time x - span) history ++ [x]) := by
    refine List.Pairwise.sublist ?_ ordered
    exact List.filter_sublist.append_right [x]
  rw [kept, trim_in_order inner, since_append, since_since (by omega), since_append]

theorem push_shows (shows : Shows time span history held) {x : α}
    (ordered : InOrder time (history ++ [x])) (forward : 0 ≤ span) :
    trim time (time x - span) held ++ [x] = since time (time x - span) (history ++ [x]) := by
  have own : since time (time x - span) [x] = [x] := by
    simp only [since, List.filter_cons, List.filter_nil]
    rw [if_pos (by simp only [decide_eq_true_eq]; omega)]
  rw [since_append, own, shows (time x) (in_order_append ordered).2]

section Capacity

/-- The last `n` of a history, all of it if there are fewer. -/
def latest (n : ℕ) (history : List α) : List α := history.drop (history.length - n)

theorem latest_length (n : ℕ) (history : List α) : (latest n history).length = min n history.length := by
  rw [latest, List.length_drop]
  omega

/-- A deque that drops its front when it grows past `n` holds the last `n`. -/
theorem latest_snoc (n : ℕ) (history : List α) (x : α) :
    latest n (history ++ [x]) =
      if n < (latest n history ++ [x]).length then (latest n history ++ [x]).tail
      else latest n history ++ [x] := by
  have length : (latest n history ++ [x]).length = min n history.length + 1 := by
    rw [List.length_append, latest_length, List.length_singleton]
  rw [length]
  by_cases full : n < min n history.length + 1
  · rw [if_pos full, latest, latest, ← List.drop_append_of_le_length (Nat.sub_le _ _), List.tail_drop]
    congr 1
    rw [List.length_append, List.length_singleton]
    omega
  · rw [if_neg full, latest, latest, ← List.drop_append_of_le_length (Nat.sub_le _ _)]
    congr 1
    rw [List.length_append, List.length_singleton]
    omega

end Capacity

end SlidingWindow
