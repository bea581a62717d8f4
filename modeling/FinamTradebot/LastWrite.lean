import Mathlib.Data.List.Induction
import Mathlib.Order.Std

/-!
Replay of keyed writes into an ordered map. A write stores a value under its key or
removes the key, and the map after a replay holds for every key what its last write says.
-/
namespace LastWrite
variable {K V : Type} {cmp : K → K → Ordering}

structure Write (K V : Type) where
  key : K
  value : Option V

def put (m : Std.TreeMap K V cmp) (w : Write K V) : Std.TreeMap K V cmp :=
  match w.value with
  | some v => m.insert w.key v
  | none => m.erase w.key

def replay (m : Std.TreeMap K V cmp) (writes : List (Write K V)) : Std.TreeMap K V cmp :=
  writes.foldl put m

def lastWrite [DecidableEq K] (k : K) (writes : List (Write K V)) : Option (Write K V) :=
  (writes.filter (fun w => decide (w.key = k))).getLast?

theorem replay_append (m : Std.TreeMap K V cmp) (first second : List (Write K V)) :
    replay m (first ++ second) = replay (replay m first) second :=
  List.foldl_append

section Lookup
variable [DecidableEq K] [Std.TransCmp cmp] [Std.LawfulEqCmp cmp]

theorem get_put (m : Std.TreeMap K V cmp) (w : Write K V) (k : K) :
    (put m w)[k]? = if w.key = k then w.value else m[k]? := by
  unfold put
  cases w.value with
  | some v => simp only [Std.TreeMap.getElem?_insert, Std.LawfulEqCmp.compare_eq_iff_eq]
  | none => simp only [Std.TreeMap.getElem?_erase, Std.LawfulEqCmp.compare_eq_iff_eq]

theorem last_write_append (k : K) (writes : List (Write K V)) (w : Write K V) :
    lastWrite k (writes ++ [w]) = if w.key = k then some w else lastWrite k writes := by
  unfold lastWrite
  by_cases same : w.key = k
  · simp [List.filter_append, same]
  · simp [List.filter_append, same]

/-- The last write wins, and a key that was never written keeps its value. -/
theorem get_replay (m : Std.TreeMap K V cmp) (writes : List (Write K V)) (k : K) :
    (replay m writes)[k]? = ((lastWrite k writes).map Write.value).getD m[k]? := by
  induction writes using List.reverseRecOn with
  | nil => rfl
  | append_singleton rest w ih =>
    have step : replay m (rest ++ [w]) = put (replay m rest) w := replay_append m rest [w]
    rw [step, get_put, last_write_append, ih]
    split <;> rfl

/-- The values of a replay into the empty map, in the order of their keys. -/
theorem mem_replay {writes : List (Write K V)} {v : V} :
    v ∈ (replay (∅ : Std.TreeMap K V cmp) writes).toList.map Prod.snd ↔
      ∃ w, lastWrite w.key writes = some w ∧ w.value = some v := by
  simp only [List.mem_map, Prod.exists, exists_eq_right, Std.TreeMap.mem_toList_iff_getElem?_eq_some,
    get_replay]
  constructor
  · rintro ⟨k, found⟩
    cases last : lastWrite k writes with
    | none => simp [last] at found
    | some w =>
      have member := List.mem_of_getLast? last
      have same : w.key = k := by simpa using (List.mem_filter.mp member).2
      refine ⟨w, by rw [same, last], ?_⟩
      simpa [last] using found
  · rintro ⟨w, last, value⟩
    exact ⟨w.key, by simp [last, value]⟩

theorem replay_ordered {writes : List (Write K V)} {key : V → K}
    (keyed : ∀ w ∈ writes, ∀ v ∈ w.value, key v = w.key) :
    ((replay (∅ : Std.TreeMap K V cmp) writes).toList.map Prod.snd).Pairwise
      (fun a b => cmp (key a) (key b) = .lt) := by
  have stored : ∀ entry ∈ (replay (∅ : Std.TreeMap K V cmp) writes).toList, key entry.2 = entry.1 := by
    rintro ⟨k, v⟩ member
    rw [Std.TreeMap.mem_toList_iff_getElem?_eq_some, get_replay] at member
    cases last : lastWrite k writes with
    | none => simp [last] at member
    | some w =>
      have written := List.mem_filter.mp (List.mem_of_getLast? last)
      have same : w.key = k := by simpa using written.2
      rw [← same]
      exact keyed w written.1 v (by simpa [last] using member)
  refine List.pairwise_map.mpr (Std.TreeMap.ordered_keys_toList.imp_of_mem ?_)
  intro a b inA inB ordered
  rw [stored a inA, stored b inB]
  exact ordered

end Lookup

end LastWrite
