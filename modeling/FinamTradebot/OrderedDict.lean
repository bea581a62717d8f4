import Mathlib.Data.List.Induction
import Mathlib.Data.List.Sort
import Mathlib.Order.Basic

/-!
A dictionary that keeps the order in which its keys were first set, and the fold that
keeps under each key the best element seen, the first of equals. What is kept under a key
depends on the elements alone, so once sorted the dictionary forgets their order.
-/
namespace OrderedDict

structure Dict (κ ν : Type) where
  entries : List (κ × ν)
  distinct : (entries.map Prod.fst).Nodup

/-- Two lists in strictly increasing order with the same elements are one. -/
theorem increasing_ext {κ α : Type} [LinearOrder κ] {key : α → κ} {xs ys : List α}
    (first : xs.Pairwise fun a b => key a < key b)
    (second : ys.Pairwise fun a b => key a < key b) (same : ∀ x, x ∈ xs ↔ x ∈ ys) : xs = ys := by
  have irrefl : Std.Irrefl fun a b : α => key a < key b := ⟨fun _ => lt_irrefl _⟩
  have antisymm : Std.Antisymm fun a b : α => key a < key b :=
    ⟨fun _ _ less more => absurd less (lt_asymm more)⟩
  exact first.eq_of_mem_iff second same

section Leaders
variable {κ α ρ : Type} [LinearOrder ρ] {key : α → κ} {rank : α → ρ}

/-- The first element of the list among those of greatest rank under its key. -/
def Leads (key : α → κ) (rank : α → ρ) (xs : List α) (x : α) : Prop :=
  ∃ before after, xs = before ++ x :: after ∧
    (∀ y ∈ before, key y = key x → rank y < rank x) ∧ ∀ y ∈ after, key y = key x → rank y ≤ rank x

theorem leads_mem {xs : List α} {x : α} (leads : Leads key rank xs x) : x ∈ xs := by
  obtain ⟨before, after, rfl, -⟩ := leads
  simp

theorem leads_le {xs : List α} {x : α} (leads : Leads key rank xs x) :
    ∀ y ∈ xs, key y = key x → rank y ≤ rank x := by
  obtain ⟨before, after, rfl, lower, upper⟩ := leads
  intro y member same
  rcases List.mem_append.mp member with earlier | here
  · exact (lower y earlier same).le
  · rcases List.mem_cons.mp here with rfl | later
    · exact le_rfl
    · exact upper y later same

theorem leads_append {xs : List α} {x y : α} : Leads key rank (xs ++ [y]) x ↔
    (Leads key rank xs x ∧ (key y = key x → rank y ≤ rank x)) ∨
      (x = y ∧ ∀ z ∈ xs, key z = key x → rank z < rank x) := by
  constructor
  · rintro ⟨before, after, split, lower, upper⟩
    rcases List.eq_nil_or_concat after with rfl | ⟨middle, last, rfl⟩
    · obtain ⟨rfl, rfl⟩ : xs = before ∧ y = x := by simpa using List.append_inj' split rfl
      exact Or.inr ⟨rfl, lower⟩
    · rw [List.concat_eq_append] at split upper
      obtain ⟨rfl, rfl⟩ : xs = before ++ x :: middle ∧ y = last := by
        have aligned : xs ++ [y] = (before ++ x :: middle) ++ [last] := by rw [split]; simp
        simpa using List.append_inj' aligned rfl
      refine Or.inl ⟨⟨before, middle, rfl, lower, ?_⟩, upper y (by simp)⟩
      intro z member
      exact upper z (List.mem_append_left [y] member)
  · rintro (⟨⟨before, after, rfl, lower, upper⟩, bound⟩ | ⟨rfl, lower⟩)
    · refine ⟨before, after ++ [y], by simp, lower, ?_⟩
      intro z member
      rcases List.mem_append.mp member with old | new
      · exact upper z old
      · rw [List.mem_singleton.mp new]
        exact bound
    · exact ⟨xs, [], rfl, lower, by simp⟩

/-- An element that is beaten by nobody before it leads, and one that is not is behind a
    leader of its key. -/
theorem leader_exists (key : α → κ) (rank : α → ρ) (xs : List α) :
    ∀ z ∈ xs, ∃ x, key x = key z ∧ Leads key rank xs x := by
  induction xs using List.reverseRecOn with
  | nil => simp
  | append_singleton xs y ih =>
    intro z member
    have settled (x : α) (same : key x = key y) (leads : Leads key rank xs x) :
        ∃ w, key w = key y ∧ Leads key rank (xs ++ [y]) w := by
      by_cases beaten : rank x < rank y
      · refine ⟨y, rfl, leads_append.mpr (Or.inr ⟨rfl, ?_⟩)⟩
        intro w old equal
        exact (leads_le leads w old (equal.trans same.symm)).trans_lt beaten
      · exact ⟨x, same, leads_append.mpr (Or.inl ⟨leads, fun _ => not_lt.mp beaten⟩)⟩
    rcases List.mem_append.mp member with old | new
    · obtain ⟨x, same, leads⟩ := ih z old
      by_cases equal : key x = key y
      · obtain ⟨w, like, ahead⟩ := settled x equal leads
        exact ⟨w, like.trans (equal.symm.trans same), ahead⟩
      · exact ⟨x, same, leads_append.mpr (Or.inl ⟨leads, fun here => absurd here.symm equal⟩)⟩
    · rw [List.mem_singleton.mp new]
      by_cases alone : ∀ w ∈ xs, key w = key y → rank w < rank y
      · exact ⟨y, rfl, leads_append.mpr (Or.inr ⟨rfl, alone⟩)⟩
      · push Not at alone
        obtain ⟨w, old, equal, -⟩ := alone
        obtain ⟨x, same, leads⟩ := ih w old
        exact settled x (same.trans equal) leads

def DistinctRanks (key : α → κ) (rank : α → ρ) (xs : List α) : Prop :=
  xs.Pairwise fun a b => key a = key b → rank a ≠ rank b

theorem leads_of_distinct {xs : List α} (distinct : DistinctRanks key rank xs) {x : α} :
    Leads key rank xs x ↔ x ∈ xs ∧ ∀ y ∈ xs, key y = key x → rank y ≤ rank x := by
  constructor
  · intro leads
    exact ⟨leads_mem leads, leads_le leads⟩
  · rintro ⟨member, bound⟩
    obtain ⟨before, after, rfl⟩ := List.append_of_mem member
    have across := (List.pairwise_append.mp distinct).2.2
    refine ⟨before, after, rfl, ?_, ?_⟩
    · intro y earlier same
      have le := bound y (List.mem_append_left _ earlier) same
      exact lt_of_le_of_ne le (across y earlier x List.mem_cons_self same)
    · intro y later
      exact bound y (List.mem_append_right _ (List.mem_cons_of_mem x later))

end Leaders

variable {κ ν : Type} [DecidableEq κ]

def Dict.empty : Dict κ ν := ⟨[], List.nodup_nil⟩

def lookup : List (κ × ν) → κ → Option ν
  | [], _ => none
  | (key, value) :: rest, k => if key = k then some value else lookup rest k

/-- The value of a key is replaced where the key stands; a new key comes last. -/
def assign : List (κ × ν) → κ → ν → List (κ × ν)
  | [], k, v => [(k, v)]
  | (key, value) :: rest, k, v =>
    if key = k then (k, v) :: rest else (key, value) :: assign rest k v

section Entries
variable {entries : List (κ × ν)} {k other : κ} {v : ν}

theorem assign_keys : ∀ key ∈ (assign entries k v).map Prod.fst,
    key = k ∨ key ∈ entries.map Prod.fst := by
  induction entries with
  | nil => simp [assign]
  | cons entry rest ih =>
    obtain ⟨key, value⟩ := entry
    intro found member
    simp only [assign] at member
    split_ifs at member with same
    · simp only [List.map_cons, List.mem_cons] at member ⊢
      rcases member with rfl | later
      · exact Or.inl rfl
      · exact Or.inr (Or.inr later)
    · simp only [List.map_cons, List.mem_cons] at member ⊢
      rcases member with rfl | later
      · exact Or.inr (Or.inl rfl)
      · exact (ih found later).imp_right Or.inr

theorem assign_distinct (distinct : (entries.map Prod.fst).Nodup) :
    ((assign entries k v).map Prod.fst).Nodup := by
  induction entries with
  | nil => simp [assign]
  | cons entry rest ih =>
    obtain ⟨key, value⟩ := entry
    rw [List.map_cons, List.nodup_cons] at distinct
    simp only [assign]
    split_ifs with same
    · rw [List.map_cons, List.nodup_cons, ← same]
      exact distinct
    · rw [List.map_cons, List.nodup_cons]
      refine ⟨fun member => ?_, ih distinct.2⟩
      rcases assign_keys key member with rfl | old
      · exact same rfl
      · exact distinct.1 old

theorem lookup_assign : lookup (assign entries k v) other =
    if other = k then some v else lookup entries other := by
  induction entries with
  | nil =>
    simp only [assign, lookup]
    split_ifs <;> simp_all
  | cons entry rest ih =>
    obtain ⟨key, value⟩ := entry
    simp only [assign]
    split_ifs with same equal equal
    · simp [lookup, equal]
    · simp [lookup, same, Ne.symm equal]
    · simp only [lookup, ih, if_pos equal]
      rw [if_neg (fun here => same (here.trans equal))]
    · simp [lookup, ih, equal]

theorem lookup_iff (distinct : (entries.map Prod.fst).Nodup) :
    lookup entries k = some v ↔ (k, v) ∈ entries := by
  induction entries with
  | nil => simp [lookup]
  | cons entry rest ih =>
    obtain ⟨key, value⟩ := entry
    rw [List.map_cons, List.nodup_cons] at distinct
    simp only [lookup, List.mem_cons, Prod.mk.injEq]
    split_ifs with same
    · subst same
      have absent : (key, v) ∉ rest := by
        intro member
        have again : key ∈ rest.map Prod.fst := List.mem_map_of_mem (f := Prod.fst) member
        exact distinct.1 again
      simp [absent, eq_comm]
    · rw [ih distinct.2]
      simp [Ne.symm same]

end Entries

def Dict.get? (d : Dict κ ν) (k : κ) : Option ν := lookup d.entries k

def Dict.set (d : Dict κ ν) (k : κ) (v : ν) : Dict κ ν :=
  ⟨assign d.entries k v, assign_distinct d.distinct⟩

def Dict.values (d : Dict κ ν) : List ν := d.entries.map Prod.snd

theorem get_set (d : Dict κ ν) (k other : κ) (v : ν) :
    (d.set k v).get? other = if other = k then some v else d.get? other := lookup_assign

theorem mem_values {d : Dict κ ν} {v : ν} : v ∈ d.values ↔ ∃ k, d.get? k = some v := by
  have found (k : κ) : d.get? k = some v ↔ (k, v) ∈ d.entries := lookup_iff d.distinct
  simp [Dict.values, found]

section Best
variable {α ρ : Type} [LinearOrder ρ] {key : α → κ} {rank : α → ρ}

def keepBest (key : α → κ) (rank : α → ρ) (seen : Dict κ α) (x : α) : Dict κ α :=
  match seen.get? (key x) with
  | none => seen.set (key x) x
  | some y => if rank y < rank x then seen.set (key x) x else seen

def best (key : α → κ) (rank : α → ρ) (xs : List α) : Dict κ α :=
  xs.foldl (keepBest key rank) Dict.empty

theorem best_append (xs : List α) (y : α) :
    best key rank (xs ++ [y]) = keepBest key rank (best key rank xs) y := by
  simp [best]

/-- A dictionary of leaders keeps them when a new element ahead of its key is stored. -/
theorem set_leader_get {xs : List α} {y : α} {seen : Dict κ α}
    (leaders : ∀ k x, seen.get? k = some x ↔ key x = k ∧ Leads key rank xs x)
    (ahead : ∀ z ∈ xs, key z = key y → rank z < rank y) (k : κ) (x : α) :
    (seen.set (key y) y).get? k = some x ↔ key x = k ∧
      ((Leads key rank xs x ∧ (key y = key x → rank y ≤ rank x)) ∨
        (x = y ∧ ∀ z ∈ xs, key z = key x → rank z < rank x)) := by
  rw [get_set]
  split_ifs with own
  · constructor
    · intro same
      obtain rfl := Option.some.inj same
      exact ⟨own.symm, Or.inr ⟨rfl, ahead⟩⟩
    · rintro ⟨rfl, ⟨leads, bound⟩ | ⟨rfl, -⟩⟩
      · exact absurd (bound own.symm) (not_le.mpr (ahead x (leads_mem leads) own))
      · rfl
  · rw [leaders]
    constructor
    · rintro ⟨rfl, leads⟩
      exact ⟨rfl, Or.inl ⟨leads, fun same => absurd same.symm own⟩⟩
    · rintro ⟨rfl, ⟨leads, -⟩ | ⟨rfl, -⟩⟩
      · exact ⟨rfl, leads⟩
      · exact absurd rfl own

/-- Under each key stands the leader of the elements of that key. -/
theorem best_get (xs : List α) : ∀ k x,
    (best key rank xs).get? k = some x ↔ key x = k ∧ Leads key rank xs x := by
  induction xs using List.reverseRecOn with
  | nil =>
    intro k x
    have nothing : ¬Leads key rank [] x := fun leads => by simpa using leads_mem leads
    simp [best, Dict.get?, Dict.empty, lookup, nothing]
  | append_singleton xs y ih =>
    intro k x
    rw [best_append, leads_append]
    unfold keepBest
    cases held : (best key rank xs).get? (key y) with
    | none =>
      refine set_leader_get ih ?_ k x
      intro z member same
      obtain ⟨w, equal, leads⟩ := leader_exists key rank xs z member
      have found := (ih (key y) w).mpr ⟨equal.trans same, leads⟩
      rw [held] at found
      cases found
    | some z =>
      obtain ⟨same, leads⟩ := (ih (key y) z).mp held
      dsimp only
      split_ifs with beaten
      · refine set_leader_get ih ?_ k x
        intro w member equal
        exact (leads_le leads w member (equal.trans same.symm)).trans_lt beaten
      · rw [ih]
        refine and_congr_right fun own => ⟨fun ahead => Or.inl ⟨ahead, fun equal => ?_⟩, ?_⟩
        · have found := (ih (key y) x).mpr ⟨equal.symm, ahead⟩
          rw [held] at found
          obtain rfl := Option.some.inj found
          exact not_lt.mp beaten
        · rintro (⟨ahead, -⟩ | ⟨rfl, ahead⟩)
          · exact ahead
          · exact absurd (ahead z (leads_mem leads) same) beaten

theorem best_values {xs : List α} {x : α} :
    x ∈ (best key rank xs).values ↔ Leads key rank xs x := by
  rw [mem_values]
  constructor
  · rintro ⟨k, held⟩
    exact ((best_get xs k x).mp held).2
  · intro leads
    exact ⟨key x, (best_get xs (key x) x).mpr ⟨rfl, leads⟩⟩

theorem best_keys (xs : List α) : ((best key rank xs).values.map key).Nodup := by
  have keys : (best key rank xs).values.map key = (best key rank xs).entries.map Prod.fst := by
    rw [Dict.values, List.map_map]
    apply List.map_congr_left
    intro entry member
    have held := (lookup_iff (best key rank xs).distinct).mpr member
    exact ((best_get xs entry.1 entry.2).mp held).1
  rw [keys]
  exact (best key rank xs).distinct

end Best

section Sorted
variable {κ α ρ : Type} [LinearOrder κ] [DecidableEq κ] [LinearOrder ρ] {key : α → κ} {rank : α → ρ}

def sortedBest (key : α → κ) (rank : α → ρ) (xs : List α) : List α :=
  (best key rank xs).values.mergeSort fun a b => decide (key a ≤ key b)

theorem mem_sorted {xs : List α} {x : α} :
    x ∈ sortedBest key rank xs ↔ Leads key rank xs x := by
  rw [sortedBest, List.mem_mergeSort, best_values]

theorem sorted_increasing (key : α → κ) (rank : α → ρ) (xs : List α) :
    (sortedBest key rank xs).Pairwise fun a b => key a < key b := by
  have ordered : (sortedBest key rank xs).Pairwise fun a b => decide (key a ≤ key b) = true := by
    apply List.pairwise_mergeSort
    · intro a b c first second
      simp only [decide_eq_true_eq] at *
      exact first.trans second
    · intro a b
      simpa using le_total (key a) (key b)
  have perm := List.mergeSort_perm (best key rank xs).values fun a b => decide (key a ≤ key b)
  have distinct : ((sortedBest key rank xs).map key).Nodup :=
    (perm.map key).nodup_iff.mpr (best_keys xs)
  rw [List.Nodup, List.pairwise_map] at distinct
  refine (ordered.and distinct).imp ?_
  intro a b both
  exact lt_of_le_of_ne (by simpa using both.1) both.2

theorem sorted_perm {xs ys : List α} (distinct : DistinctRanks key rank xs) (perm : ys.Perm xs) :
    sortedBest key rank ys = sortedBest key rank xs := by
  have distinct' : DistinctRanks key rank ys := by
    refine (perm.pairwise_iff ?_).mpr distinct
    intro a b apart same
    exact (apart same.symm).symm
  apply increasing_ext (sorted_increasing key rank ys) (sorted_increasing key rank xs)
  intro x
  rw [mem_sorted, mem_sorted, leads_of_distinct distinct', leads_of_distinct distinct]
  simp only [perm.mem_iff]

theorem sorted_again (xs : List α) :
    sortedBest key rank (sortedBest key rank xs) = sortedBest key rank xs := by
  have increasing := sorted_increasing key rank xs
  have distinct : DistinctRanks key rank (sortedBest key rank xs) :=
    increasing.imp fun less same => absurd same less.ne
  apply increasing_ext (sorted_increasing key rank _) increasing
  intro x
  rw [mem_sorted, leads_of_distinct distinct, and_iff_left_iff_imp]
  intro member y other same
  have keys : ((sortedBest key rank xs).map key).Nodup :=
    List.pairwise_map.mpr (increasing.imp fun less => less.ne)
  rw [List.inj_on_of_nodup_map keys other member same]

end Sorted

end OrderedDict
