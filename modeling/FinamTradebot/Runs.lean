import Mathlib.Data.List.Basic

/-!
Runs of a total step function over a finite list of actions. An interleaving of
several threads is a list of actions, and a disabled action leaves the state as
it is, so a statement about every list is a statement about every schedule.
-/
namespace Runs
variable {S A : Type}

def run (step : S → A → S) : S → List A → S
  | s, [] => s
  | s, a :: rest => run step (step s a) rest

/-- Every step of the run satisfies `P`, read on the state before the step. -/
def Along (step : S → A → S) (P : S → A → Prop) : S → List A → Prop
  | _, [] => True
  | s, a :: rest => P s a ∧ Along step P (step s a) rest

/-- Every state of the run satisfies `Q`, the first and the last included. -/
def Visits (step : S → A → S) (Q : S → Prop) : S → List A → Prop
  | s, [] => Q s
  | s, a :: rest => Q s ∧ Visits step Q (step s a) rest

instance decidableAlong (step : S → A → S) (P : S → A → Prop) [∀ s a, Decidable (P s a)] :
    (s : S) → (acts : List A) → Decidable (Along step P s acts)
  | _, [] => .isTrue trivial
  | s, a :: rest => @instDecidableAnd _ _ _ (decidableAlong step P (step s a) rest)

instance decidableVisits (step : S → A → S) (Q : S → Prop) [DecidablePred Q] :
    (s : S) → (acts : List A) → Decidable (Visits step Q s acts)
  | s, [] => inferInstanceAs (Decidable (Q s))
  | s, a :: rest => @instDecidableAnd _ _ _ (decidableVisits step Q (step s a) rest)

variable {step : S → A → S} {P C : S → A → Prop} {Q I : S → Prop}

theorem visits_first {s : S} {acts : List A} (all : Visits step Q s acts) : Q s := by
  cases acts with
  | nil => exact all
  | cons a rest => exact all.1

theorem visits_last {s : S} {acts : List A} (all : Visits step Q s acts) :
    Q (run step s acts) := by
  induction acts generalizing s with
  | nil => exact all
  | cons a rest ih => exact ih all.2

theorem run_append (s : S) (first later : List A) :
    run step s (first ++ later) = run step (run step s first) later := by
  induction first generalizing s with
  | nil => rfl
  | cons a rest ih => exact ih (step s a)

theorem run_eq_foldl (s : S) (acts : List A) : run step s acts = acts.foldl step s := by
  induction acts generalizing s with
  | nil => rfl
  | cons a rest ih => exact ih (step s a)

theorem along_intro (every : ∀ s a, P s a) (s : S) (acts : List A) : Along step P s acts := by
  induction acts generalizing s with
  | nil => trivial
  | cons a rest ih => exact ⟨every s a, ih (step s a)⟩

theorem visits_mono (weaken : ∀ s, I s → Q s) {s : S} {acts : List A}
    (all : Visits step I s acts) : Visits step Q s acts := by
  induction acts generalizing s with
  | nil => exact weaken s all
  | cons a rest ih => exact ⟨weaken s all.1, ih all.2⟩

/-- The invariant rule: a step that meets `C` keeps `I`, so `I` holds in every
    state of a run whose steps all meet `C`. -/
theorem visits_of_along (keep : ∀ s a, I s → C s a → I (step s a)) {s : S} {acts : List A}
    (start : I s) (all : Along step C s acts) : Visits step I s acts := by
  induction acts generalizing s with
  | nil => exact start
  | cons a rest ih => exact ⟨start, ih (keep s a start all.1) all.2⟩

theorem visits_invariant (keep : ∀ s a, I s → I (step s a)) {s : S} (acts : List A)
    (start : I s) : Visits step I s acts :=
  visits_of_along (C := fun _ _ => True) (fun s a holds _ => keep s a holds) start
    (along_intro (fun _ _ => trivial) s acts)

theorem run_invariant (keep : ∀ s a, I s → I (step s a)) {s : S} (acts : List A)
    (start : I s) : I (run step s acts) :=
  visits_last (visits_invariant keep acts start)

theorem good_run_of_along (safe : ∀ s a, I s → Q s → C s a → P s a ∧ Q (step s a))
    (keep : ∀ s a, I s → Q s → C s a → I (step s a)) {s : S} {acts : List A}
    (inv : I s) (start : Q s) (meets : Along step C s acts) :
    Along step P s acts ∧ Visits step Q s acts := by
  induction acts generalizing s with
  | nil => exact ⟨trivial, start⟩
  | cons a rest ih =>
    obtain ⟨here, later⟩ := meets
    obtain ⟨good, next⟩ := safe s a inv start here
    obtain ⟨along, visits⟩ := ih (keep s a inv start here) next later
    exact ⟨⟨good, along⟩, start, visits⟩

theorem along_of_good_run (needed : ∀ s a, I s → Q s → P s a → Q (step s a) → C s a)
    (keep : ∀ s a, I s → Q s → C s a → I (step s a)) {s : S} {acts : List A}
    (inv : I s) (along : Along step P s acts) (visits : Visits step Q s acts) :
    Along step C s acts := by
  induction acts generalizing s with
  | nil => trivial
  | cons a rest ih =>
    have next := visits_first visits.2
    have here := needed s a inv visits.1 along.1 next
    exact ⟨here, ih (keep s a inv visits.1 here) along.2 visits.2⟩

/-- The exactness rule: when one step is good exactly if it meets `C`, a whole run is
    good exactly if all its steps meet `C`. -/
theorem good_run_iff (exact : ∀ s a, I s → Q s → (P s a ∧ Q (step s a) ↔ C s a))
    (keep : ∀ s a, I s → Q s → C s a → I (step s a)) {s : S} {acts : List A}
    (inv : I s) (start : Q s) :
    Along step P s acts ∧ Visits step Q s acts ↔ Along step C s acts := by
  constructor
  · rintro ⟨along, visits⟩
    exact along_of_good_run (fun s a inv holds here next => (exact s a inv holds).mp ⟨here, next⟩)
      keep inv along visits
  · exact good_run_of_along (fun s a inv holds => (exact s a inv holds).mpr) keep inv start

theorem visits_iff_along (exact : ∀ s a, I s → Q s → (Q (step s a) ↔ C s a))
    (keep : ∀ s a, I s → Q s → C s a → I (step s a)) {s : S} {acts : List A}
    (inv : I s) (start : Q s) : Visits step Q s acts ↔ Along step C s acts := by
  have both : Along step (fun _ _ => True) s acts ∧ Visits step Q s acts ↔ Along step C s acts :=
    good_run_iff (fun s a inv holds => by rw [true_and]; exact exact s a inv holds) keep inv start
  rwa [and_iff_right (along_intro (fun _ _ => trivial) s acts)] at both

theorem along_iff_of_invariant (same : ∀ s a, I s → (P s a ↔ C s a))
    (keep : ∀ s a, I s → I (step s a)) {s : S} {acts : List A} (start : I s) :
    Along step P s acts ↔ Along step C s acts := by
  induction acts generalizing s with
  | nil => rfl
  | cons a rest ih => exact and_congr (same s a start) (ih (keep s a start))

theorem along_and_iff {s : S} {acts : List A} :
    Along step (fun s a => P s a ∧ C s a) s acts ↔ Along step P s acts ∧ Along step C s acts := by
  induction acts generalizing s with
  | nil => simp [Along]
  | cons a rest ih =>
    simp only [Along, ih]
    exact and_and_and_comm

theorem along_iff_forall (D : A → Prop) (s : S) (acts : List A) :
    Along step (fun _ a => D a) s acts ↔ ∀ a ∈ acts, D a := by
  induction acts generalizing s with
  | nil => simp [Along]
  | cons a rest ih => simp [Along, ih]

theorem along_of_invariant (safe : ∀ s a, I s → C s a → P s a)
    (keep : ∀ s a, I s → C s a → I (step s a)) {s : S} {acts : List A} (start : I s)
    (meets : Along step C s acts) : Along step P s acts :=
  (good_run_of_along (Q := I) (fun s a _ inv here => ⟨safe s a inv here, keep s a inv here⟩)
    (fun _ _ _ _ _ => trivial) (I := fun _ => True) trivial start meets).1

theorem along_invariant (safe : ∀ s a, I s → P s a) (keep : ∀ s a, I s → I (step s a)) {s : S}
    (acts : List A) (start : I s) : Along step P s acts :=
  along_of_invariant (C := fun _ _ => True) (fun s a inv _ => safe s a inv)
    (fun s a inv _ => keep s a inv) start (along_intro (fun _ _ => trivial) s acts)

theorem along_append {s : S} {first later : List A} :
    Along step P s (first ++ later) ↔ Along step P s first ∧ Along step P (run step s first) later := by
  induction first generalizing s with
  | nil => simp [Along, run]
  | cons a rest ih =>
    simp only [List.cons_append, Along, run, ih]
    exact and_assoc.symm

/-- Actions in order: where the state remembers no action that was not taken, every
    action comes after all those remembered. -/
theorem along_ordered {R : A → A → Prop} (past : S → List A)
    (grow : ∀ s a, ∀ b ∈ past (step s a), b ∈ past s ∨ b = a) {s : S} {acts : List A}
    (ordered : acts.Pairwise R) (ahead : ∀ b ∈ past s, ∀ a ∈ acts, R b a) :
    Along step (fun s a => ∀ b ∈ past s, R b a) s acts := by
  induction acts generalizing s with
  | nil => trivial
  | cons a rest ih =>
    obtain ⟨first, later⟩ := List.pairwise_cons.mp ordered
    refine ⟨fun b old => ahead b old a List.mem_cons_self, ih later ?_⟩
    intro b remembered c member
    rcases grow s a b remembered with old | rfl
    · exact ahead b old c (List.mem_cons_of_mem a member)
    · exact first c member

section Outputs
variable {T B O U : Type}

/-- What a step function with an output gives along a run. -/
def outputs (step : S → A → S × O) : S → List A → List O
  | _, [] => []
  | s, a :: rest => (step s a).2 :: outputs step (step s a).1 rest

/-- The simulation rule: related states take related actions to related states and
    related outputs, so related runs have related outputs. -/
theorem outputs_simulated {first : S → A → S × O} {second : T → B → T × U} {R : S → T → Prop}
    {V : A → Prop} {f : A → B} {g : O → U}
    (keep : ∀ s t a, R s t → V a → R (first s a).1 (second t (f a)).1)
    (agree : ∀ s t a, R s t → V a → (second t (f a)).2 = g (first s a).2)
    {s : S} {t : T} {acts : List A} (start : R s t) (valid : ∀ a ∈ acts, V a) :
    outputs second t (acts.map f) = (outputs first s acts).map g := by
  induction acts generalizing s t with
  | nil => rfl
  | cons a rest ih =>
    have here := valid a List.mem_cons_self
    have later := ih (keep s t a start here) (fun b member => valid b (List.mem_cons_of_mem a member))
    simp only [List.map_cons, outputs, agree s t a start here, later]

end Outputs

section Echoes
variable {T B : Type}

/-- What a second machine is made to do along a run of the first. -/
def echoes (step : S → A → S) (echo : S → A → List B) : S → List A → List B
  | _, [] => []
  | s, a :: rest => echo s a ++ echoes step echo (step s a) rest

/-- The shadowing rule: where each step that meets `C` moves the image of a state as its
    echo does, a run of such steps moves it as all their echoes do. -/
theorem run_echoes {other : T → B → T} {image : S → T} {echo : S → A → List B}
    (follow : ∀ s a, C s a → run other (image s) (echo s a) = image (step s a)) {s : S} {acts : List A}
    (meets : Along step C s acts) :
    run other (image s) (echoes step echo s acts) = image (run step s acts) := by
  induction acts generalizing s with
  | nil => rfl
  | cons a rest ih =>
    simp only [echoes, run_append, follow s a meets.1]
    exact ih meets.2

end Echoes

/-- A run together with the actions taken since the last marked one. A marked
    action opens a new log and is its first entry. -/
structure Logged (S A : Type) where
  state : S
  log : List A

def Logged.record (step : S → A → S) (mark : S → A → Bool) (l : Logged S A) (a : A) :
    Logged S A :=
  ⟨step l.state a, if mark l.state a then [a] else l.log ++ [a]⟩

theorem record_grows (step : S → A → S) (mark : S → A → Bool) (l : Logged S A) (a : A) :
    ∀ b ∈ (l.record step mark a).log, b ∈ l.log ∨ b = a := by
  intro b member
  simp only [Logged.record] at member
  split at member
  · exact Or.inr (List.mem_singleton.mp member)
  · exact (List.mem_append.mp member).imp_right List.mem_singleton.mp

end Runs
