import FinamTradebot.TradingHalt

/-!
The circuit breaker under any number of threads. A thread is at one of the accesses it
makes to the shared manager: the load of `tripped_`, the read of `trip_reason_`, the
sub-checks, the exchange of the flag and the write of the reason. Each access is one
step, and steps of different threads interleave freely.
-/
namespace FinamCircuitBreaker
open FinamInterfaces FinamRunner FinamRisk FinamTradingHalt Runs

/-- A `handle_signal` call. `late` records whether the breaker was set when the call or its
    check began. -/
structure Call where
  accountId : String
  sig : Signal
  input : CheckInput
  late : Bool

def Call.request (c : Call) : OrderRequest := orderRequest c.accountId c.sig

inductive Stage where
  | dailyLoss | drawdown | positionCount | expiry | margin
  deriving DecidableEq

def Stage.next : Stage → Option Stage
  | .dailyLoss => some .drawdown
  | .drawdown => some .positionCount
  | .positionCount => some .expiry
  | .expiry => some .margin
  | .margin => none

def Call.verdict (c : Call) (rm : RiskManager) : Stage → Result Unit
  | .dailyLoss => rm.checkDailyLoss
  | .drawdown => rm.checkDrawdown
  | .positionCount => rm.checkPositionCount
  | .expiry => checkExpiry rm.cfg.rolloverDays c.input.now c.request.symbol
  | .margin => rm.checkMargin c.input.params c.request

inductive Pc where
  | idle
  | breaker (call : Call)
  | reason (call : Call)
  | stage (at_ : Stage) (call : Call)
  | exchange (message : String)
  | write (message : String)
  | submit (call : Call)

/-- The manager, its threads, whether the reason of a trip has been written, the verdicts
    of the checks and the orders submitted. -/
structure Board where
  rm : RiskManager
  threads : ℕ → Pc
  written : Bool
  verdicts : List (Call × Result Unit)
  submitted : List (Call × OrderRequest)

inductive Action where
  | call (t : ℕ) (accountId : String) (sig : Signal) (input : CheckInput)
  | trip (t : ℕ) (message : String)
  | advance (t : ℕ)
  | fill (first : ℤ) (upd : OrderUpdate)
  | poll (reply : Except String GetAccountResponse) (now : ℤ)

def Board.goto (s : Board) (t : ℕ) (pc : Pc) : Board :=
  { s with threads := Function.update s.threads t pc }

def Board.record (s : Board) (call : Call) (verdict : Result Unit) : Board :=
  { s with verdicts := s.verdicts ++ [(call, verdict)] }

/-- A check returned an error: the runner trips the breaker on two of the codes. -/
def Board.refuse (s : Board) (t : ℕ) (call : Call) (e : Error) : Board :=
  (s.record call (.error e)).goto t (if Halts (.error e) then .exchange e.message else .idle)

def Board.approve (s : Board) (t : ℕ) (call : Call) : Board :=
  (s.record call (.ok ())).goto t (.submit call)

def Board.begin (s : Board) (t : ℕ) (call : Call) : Board :=
  match call.sig.direction with
  | .none => s
  | .close => s.goto t (.submit call)
  | .buy | .sell => s.goto t (.breaker call)

def Board.advance (s : Board) (t : ℕ) : Board :=
  match s.threads t with
  | .idle => s
  | .breaker call =>
    let call := { call with late := call.late || s.rm.tripped }
    s.goto t (if s.rm.tripped then .reason call else .stage .dailyLoss call)
  | .reason call =>
    s.refuse t call ⟨.riskLimitExceeded, "circuit breaker tripped: " ++ s.rm.tripReason⟩
  | .stage at_ call =>
    match call.verdict s.rm at_ with
    | .error e => s.refuse t call e
    | .ok () =>
      match at_.next with
      | some next => s.goto t (.stage next call)
      | none => s.approve t call
  | .exchange message =>
    if s.rm.tripped then s.goto t .idle
    else { s with rm := { s.rm with tripped := true } }.goto t (.write message)
  | .write message =>
    { s with rm := { s.rm with tripReason := message }, written := true }.goto t .idle
  | .submit call =>
    { s with submitted := s.submitted ++ [(call, call.request)] }.goto t .idle

def Board.step (s : Board) : Action → Board
  | .call t accountId sig input =>
    match s.threads t with
    | .idle => s.begin t ⟨accountId, sig, input, s.rm.tripped⟩
    | _ => s
  | .trip t message =>
    match s.threads t with
    | .idle => s.goto t (.exchange message)
    | _ => s
  | .advance t => s.advance t
  | .fill first upd => { s with rm := s.rm.react (.fill first upd) }
  | .poll reply now => { s with rm := s.rm.react (.poll reply now) }

def Board.start (cfg : RiskConfig) : Board := ⟨.init cfg, fun _ => .idle, false, [], []⟩

/-- What holds of a thread: a call that began after the trip does not get past the load of
    the flag, unless it is a close. -/
def PcSound (tripped : Bool) : Pc → Prop
  | .breaker call => call.late = true → tripped = true
  | .stage _ call => call.late = false
  | .submit call => call.late = true → call.sig.direction = .close
  | .idle | .reason _ | .exchange _ | .write _ => True

def IsWriter : Pc → Prop
  | .write _ => True
  | _ => False

structure Sound (s : Board) : Prop where
  threads : ∀ t, PcSound s.rm.tripped (s.threads t)
  writerTripped : ∀ t, IsWriter (s.threads t) → s.rm.tripped = true ∧ s.written = false
  oneWriter : ∀ t t', IsWriter (s.threads t) → IsWriter (s.threads t') → t = t'
  writtenTripped : s.written = true → s.rm.tripped = true
  verdicts : ∀ v ∈ s.verdicts, v.1.late = true →
    ∃ message, v.2 = .error ⟨.riskLimitExceeded, message⟩
  submitted : ∀ o ∈ s.submitted, o.1.late = true → o.1.sig.direction = .close

section Soundness
variable {s : Board} {t : ℕ} {call : Call}

theorem sound_goto (sound : Sound s) {pc : Pc} (here : PcSound s.rm.tripped pc)
    (reader : ¬IsWriter pc) : Sound (s.goto t pc) := by
  have writers : ∀ u, IsWriter ((s.goto t pc).threads u) → IsWriter (s.threads u) := by
    intro u writes
    by_cases same : u = t
    · subst same
      simp only [Board.goto, Function.update_self] at writes
      exact absurd writes reader
    · simpa [Board.goto, same] using writes
  constructor
  · intro u
    by_cases same : u = t
    · subst same
      simpa [Board.goto] using here
    · simpa [Board.goto, same] using sound.threads u
  · exact fun u writes => sound.writerTripped u (writers u writes)
  · exact fun u v first second => sound.oneWriter u v (writers u first) (writers v second)
  · exact sound.writtenTripped
  · exact sound.verdicts
  · exact sound.submitted

theorem sound_record (sound : Sound s) {verdict : Result Unit}
    (good : call.late = true → ∃ message, verdict = .error ⟨.riskLimitExceeded, message⟩) :
    Sound (s.record call verdict) := by
  refine ⟨sound.threads, sound.writerTripped, sound.oneWriter, sound.writtenTripped, ?_,
    sound.submitted⟩
  intro v member
  rcases List.mem_append.mp member with old | new
  · exact sound.verdicts v old
  · rw [List.mem_singleton.mp new]
    exact good

theorem sound_refuse (sound : Sound s) {e : Error}
    (good : call.late = true → e.code = .riskLimitExceeded) : Sound (s.refuse t call e) := by
  unfold Board.refuse
  have recorded : Sound (s.record call (.error e)) := by
    apply sound_record sound
    intro late
    exact ⟨e.message, by rw [← good late]⟩
  split
  · exact sound_goto recorded trivial id
  · exact sound_goto recorded trivial id

/-- The manager may change in everything but the flag. -/
theorem sound_manager (sound : Sound s) {rm : RiskManager} (same : rm.tripped = s.rm.tripped) :
    Sound { s with rm := rm } := by
  refine ⟨?_, ?_, sound.oneWriter, ?_, sound.verdicts, sound.submitted⟩
  · simpa only [same] using sound.threads
  · simpa only [same] using sound.writerTripped
  · simpa only [same] using sound.writtenTripped

theorem pc_sound_tripped {tripped : Bool} {pc : Pc} (sound : PcSound tripped pc) :
    PcSound true pc := by
  cases pc with
  | breaker call => exact fun _ => rfl
  | idle | reason | stage | exchange | write | submit => exact sound

theorem sound_exchange (sound : Sound s) (untripped : s.rm.tripped = false) (message : String) :
    Sound ({ s with rm := { s.rm with tripped := true } }.goto t (.write message)) := by
  have noWriter : ∀ u, ¬IsWriter (s.threads u) := by
    intro u writes
    have tripped := (sound.writerTripped u writes).1
    rw [untripped] at tripped
    cases tripped
  have unwritten : s.written = false := by
    cases written : s.written with
    | false => rfl
    | true =>
      have tripped := sound.writtenTripped written
      rw [untripped] at tripped
      cases tripped
  have writers : ∀ u, IsWriter (Function.update s.threads t (.write message) u) → u = t := by
    intro u writes
    by_contra other
    rw [Function.update_of_ne other] at writes
    exact noWriter u writes
  constructor
  · intro u
    by_cases same : u = t
    · subst same
      simp [Board.goto, PcSound]
    · simpa [Board.goto, same] using pc_sound_tripped (sound.threads u)
  · exact fun u _ => ⟨rfl, unwritten⟩
  · exact fun u v first second => (writers u first).trans (writers v second).symm
  · exact fun _ => rfl
  · exact sound.verdicts
  · exact sound.submitted

theorem sound_write (sound : Sound s) {message : String} (here : s.threads t = .write message) :
    Sound ({ s with rm := { s.rm with tripReason := message }, written := true }.goto t .idle) := by
  have tripped := (sound.writerTripped t (by rw [here]; trivial)).1
  have noWriter : ∀ u, ¬IsWriter (Function.update s.threads t .idle u) := by
    intro u writes
    by_cases same : u = t
    · subst same
      rw [Function.update_self] at writes
      exact writes
    · rw [Function.update_of_ne same] at writes
      exact same (sound.oneWriter u t writes (by rw [here]; trivial))
  constructor
  · intro u
    by_cases same : u = t
    · subst same
      simp [Board.goto, PcSound]
    · simpa [Board.goto, same] using sound.threads u
  · exact fun u writes => absurd writes (noWriter u)
  · exact fun u _ writes _ => absurd writes (noWriter u)
  · exact fun _ => tripped
  · exact sound.verdicts
  · exact sound.submitted

theorem sound_submit (sound : Sound s) (here : s.threads t = .submit call) :
    Sound ({ s with submitted := s.submitted ++ [(call, call.request)] }.goto t .idle) := by
  have closes := sound.threads t
  rw [here] at closes
  have logged : Sound { s with submitted := s.submitted ++ [(call, call.request)] } := by
    refine ⟨sound.threads, sound.writerTripped, sound.oneWriter, sound.writtenTripped,
      sound.verdicts, ?_⟩
    intro o member
    rcases List.mem_append.mp member with old | new
    · exact sound.submitted o old
    · rw [List.mem_singleton.mp new]
      exact closes
  exact sound_goto logged trivial id

theorem sound_advance (sound : Sound s) (t : ℕ) : Sound (s.advance t) := by
  have here := sound.threads t
  unfold Board.advance
  split
  · exact sound
  · rename_i call at_
    rw [at_] at here
    cases tripped : s.rm.tripped with
    | true => exact sound_goto sound trivial id
    | false =>
      rw [tripped] at here
      refine sound_goto sound ?_ id
      cases late : call.late with
      | false => rfl
      | true => cases here late
  · exact sound_refuse sound (fun _ => rfl)
  · rename_i stage call at_
    rw [at_] at here
    have early : call.late = true → False := by
      intro late
      rw [show call.late = false from here] at late
      cases late
    split
    · exact sound_refuse sound (fun late => (early late).elim)
    · split
      · exact sound_goto sound here id
      · have recorded : Sound (s.record call (.ok ())) :=
          sound_record sound (fun late => (early late).elim)
        exact sound_goto recorded (fun late => (early late).elim) id
  · rename_i message at_
    split
    · exact sound_goto sound trivial id
    · rename_i untripped
      exact sound_exchange sound (by simpa using untripped) message
  · rename_i message at_
    exact sound_write sound at_
  · rename_i call at_
    exact sound_submit sound at_

theorem sound_step (sound : Sound s) (a : Action) : Sound (s.step a) := by
  cases a with
  | call t accountId sig input =>
    simp only [Board.step, Board.begin]
    split
    · split
      · exact sound
      · rename_i closes
        exact sound_goto sound (fun _ => closes) id
      · exact sound_goto sound id id
      · exact sound_goto sound id id
    · exact sound
  | trip t message =>
    simp only [Board.step]
    split
    · exact sound_goto sound trivial id
    · exact sound
  | advance t => exact sound_advance sound t
  | fill first upd =>
    obtain ⟨pnl, peak, entries, eq⟩ := on_fill_frame s.rm first upd
    apply sound_manager sound
    rw [RiskManager.react, eq]
  | poll reply now =>
    obtain ⟨state, peak, eq⟩ := refresh_frame s.rm reply now
    apply sound_manager sound
    rw [RiskManager.react, eq]

end Soundness

section Latch
variable {s : Board}

theorem sound_start (cfg : RiskConfig) : Sound (.start cfg) := by
  constructor <;> simp [Board.start, PcSound, IsWriter]

theorem sound_run (sound : Sound s) (acts : List Action) : Sound (run Board.step s acts) :=
  run_invariant (I := Sound) (fun _ a holds => sound_step holds a) acts sound

/-- What one step can do to the flag, to the reason and to the note that it was written. -/
inductive Touches (s s' : Board) : Prop
  | kept (flag : s'.rm.tripped = s.rm.tripped) (reason : s'.rm.tripReason = s.rm.tripReason)
      (note : s'.written = s.written)
  | exchanged (flag : s'.rm.tripped = true) (reason : s'.rm.tripReason = s.rm.tripReason)
      (note : s'.written = s.written)
  | wrote (t : ℕ) (message : String) (here : s.threads t = .write message)
      (flag : s'.rm.tripped = s.rm.tripped)

theorem touches_begin (s : Board) (t : ℕ) (call : Call) : Touches s (s.begin t call) := by
  unfold Board.begin
  split <;> exact .kept rfl rfl rfl

theorem touches_advance (s : Board) (t : ℕ) : Touches s (s.advance t) := by
  unfold Board.advance
  split
  · exact .kept rfl rfl rfl
  · exact .kept rfl rfl rfl
  · exact .kept rfl rfl rfl
  · split
    · exact .kept rfl rfl rfl
    · split <;> exact .kept rfl rfl rfl
  · split
    · exact .kept rfl rfl rfl
    · exact .exchanged rfl rfl rfl
  · rename_i message here
    exact .wrote t message here rfl
  · exact .kept rfl rfl rfl

theorem touches_step (s : Board) (a : Action) : Touches s (s.step a) := by
  cases a with
  | call t accountId sig input =>
    simp only [Board.step]
    split
    · exact touches_begin s t _
    · exact .kept rfl rfl rfl
  | trip t message =>
    simp only [Board.step]
    split <;> exact .kept rfl rfl rfl
  | advance t => exact touches_advance s t
  | fill first upd =>
    obtain ⟨pnl, peak, entries, eq⟩ := on_fill_frame s.rm first upd
    simp only [Board.step, RiskManager.react, eq]
    exact .kept rfl rfl rfl
  | poll reply now =>
    obtain ⟨state, peak, eq⟩ := refresh_frame s.rm reply now
    simp only [Board.step, RiskManager.react, eq]
    exact .kept rfl rfl rfl

theorem step_tripped (a : Action) (tripped : s.rm.tripped = true) :
    (s.step a).rm.tripped = true := by
  cases touches_step s a with
  | kept flag reason note => exact flag.trans tripped
  | exchanged flag reason note => exact flag
  | wrote t message here flag => exact flag.trans tripped

/-- The reason stands: it has been written and is `message`. -/
def ReasonIs (message : String) (s : Board) : Prop :=
  Sound s ∧ s.written = true ∧ s.rm.tripReason = message

theorem step_reason {message : String} (stands : ReasonIs message s) (a : Action) :
    ReasonIs message (s.step a) := by
  obtain ⟨sound, written, same⟩ := stands
  refine ⟨sound_step sound a, ?_⟩
  cases touches_step s a with
  | kept flag reason note => exact ⟨note.trans written, reason.trans same⟩
  | exchanged flag reason note => exact ⟨note.trans written, reason.trans same⟩
  | wrote t new here flag =>
    have unwritten := (sound.writerTripped t (by rw [here]; trivial)).2
    rw [written] at unwritten
    cases unwritten

def Action.thread : Action → Option ℕ
  | .call t _ _ _ | .trip t _ | .advance t => some t
  | .fill _ _ | .poll _ _ => none

theorem goto_other (s : Board) {t u : ℕ} (pc : Pc) (other : u ≠ t) :
    (s.goto u pc).threads t = s.threads t := by
  simp [Board.goto, other.symm]

theorem advance_other {t u : ℕ} (other : u ≠ t) : (s.advance u).threads t = s.threads t := by
  unfold Board.advance
  split
  · rfl
  · exact goto_other s _ other
  · exact goto_other _ _ other
  · split
    · exact goto_other _ _ other
    · split <;> exact goto_other _ _ other
  · split <;> exact goto_other _ _ other
  · exact goto_other _ _ other
  · exact goto_other _ _ other

theorem step_other {t : ℕ} {a : Action} (other : a.thread ≠ some t) :
    (s.step a).threads t = s.threads t := by
  cases a with
  | call u accountId sig input =>
    have apart : u ≠ t := by simpa [Action.thread] using other
    simp only [Board.step, Board.begin]
    split
    · split
      · rfl
      · exact goto_other s _ apart
      · exact goto_other s _ apart
      · exact goto_other s _ apart
    · rfl
  | trip u message =>
    have apart : u ≠ t := by simpa [Action.thread] using other
    simp only [Board.step]
    split
    · exact goto_other s _ apart
    · rfl
  | advance u => exact advance_other (by simpa [Action.thread] using other)
  | fill first upd => rfl
  | poll reply now => rfl

theorem run_others {t : ℕ} {acts : List Action} (others : ∀ a ∈ acts, a.thread ≠ some t)
    (s : Board) : (run Board.step s acts).threads t = s.threads t := by
  induction acts generalizing s with
  | nil => rfl
  | cons a rest ih =>
    have later := ih (fun b member => others b (List.mem_cons_of_mem a member)) (s.step a)
    exact later.trans (step_other (others a List.mem_cons_self))

theorem advance_submit {t : ℕ} {call : Call} (here : s.threads t = .submit call) :
    s.advance t = { s with submitted := s.submitted ++ [(call, call.request)] }.goto t .idle := by
  simp only [Board.advance, here]

/-- A close goes straight to the executor, whatever the other threads do meanwhile. -/
theorem close_reaches_executor {t : ℕ} (idle : s.threads t = .idle) (accountId : String)
    {sig : Signal} (closes : sig.direction = .close) (input : CheckInput) {others : List Action}
    (apart : ∀ a ∈ others, a.thread ≠ some t) :
    (⟨accountId, sig, input, s.rm.tripped⟩, orderRequest accountId sig) ∈
      ((run Board.step (s.step (.call t accountId sig input)) others).step (.advance t)).submitted := by
  have begun : (s.step (.call t accountId sig input)).threads t =
      .submit ⟨accountId, sig, input, s.rm.tripped⟩ := by
    simp [Board.step, Board.begin, idle, closes, Board.goto]
  have waiting := (run_others apart (s.step (.call t accountId sig input))).trans begun
  change _ ∈ ((run Board.step _ others).advance t).submitted
  rw [advance_submit waiting]
  exact List.mem_append_right _ (List.mem_singleton.mpr rfl)

end Latch

section Alone
variable {s : Board} {t : ℕ} {call : Call}

/-- Left to itself, the thread ends its call with this verdict: it trips the breaker on a
    halting error and submits its order on an approval. -/
def Settles (s : Board) (t : ℕ) (call : Call) (verdict : Result Unit) : Prop :=
  ∃ n, let after := run Board.step s (List.replicate n (.advance t))
    after.threads t = .idle ∧
      after.rm = (if Halts verdict then s.rm.tripCircuitBreaker (verdictMessage verdict) else s.rm) ∧
      after.submitted = s.submitted ++ (if verdict = .ok () then [(call, call.request)] else [])

theorem settles_of_advance {verdict : Result Unit} (manager : (s.advance t).rm = s.rm)
    (orders : (s.advance t).submitted = s.submitted) (later : Settles (s.advance t) t call verdict) :
    Settles s t call verdict := by
  obtain ⟨n, idle, rm, submitted⟩ := later
  rw [manager] at rm
  rw [orders] at submitted
  exact ⟨n + 1, idle, rm, submitted⟩

theorem goto_here (s : Board) (t : ℕ) (pc : Pc) : (s.goto t pc).threads t = pc := by
  simp [Board.goto]

theorem settles_submit (here : s.threads t = .submit call) : Settles s t call (.ok ()) := by
  refine ⟨1, ?_⟩
  simp [run, Board.step, advance_submit here, goto_here, Halts]
  simp [Board.goto]

theorem settles_refuse (s : Board) (t : ℕ) (call checked : Call) (e : Error) :
    Settles (s.refuse t checked e) t call (.error e) := by
  by_cases halts : Halts (.error e)
  · cases tripped : s.rm.tripped with
    | true =>
      refine ⟨1, ?_⟩
      simp [run, Board.step, Board.advance, Board.refuse, halts, tripped, Board.goto,
        Board.record, RiskManager.tripCircuitBreaker]
    | false =>
      refine ⟨2, ?_⟩
      simp [run, Board.step, Board.advance, Board.refuse, halts, tripped, Board.goto,
        Board.record, RiskManager.tripCircuitBreaker, verdictMessage]
  · refine ⟨0, ?_⟩
    simp [run, Board.refuse, halts, goto_here]

theorem settles_goto {pc : Pc} {verdict : Result Unit} (moved : s.advance t = s.goto t pc)
    (later : Settles (s.goto t pc) t call verdict) : Settles s t call verdict := by
  apply settles_of_advance
  · rw [moved]; rfl
  · rw [moved]; rfl
  · rwa [moved]

theorem settles_refused {checked : Call} {e : Error} (moved : s.advance t = s.refuse t checked e) :
    Settles s t call (.error e) := by
  apply settles_of_advance
  · rw [moved]; rfl
  · rw [moved]; rfl
  · rw [moved]
    exact settles_refuse s t call checked e

theorem settles_stage (rest : RiskManager → Result Unit) {at_ next : Stage}
    (follows : at_.next = some next)
    (later : ∀ s : Board, s.threads t = .stage next call → Settles s t call (rest s.rm))
    (s : Board) (here : s.threads t = .stage at_ call) :
    Settles s t call (do call.verdict s.rm at_; rest s.rm) := by
  cases verdict : call.verdict s.rm at_ with
  | error e =>
    have moved : s.advance t = s.refuse t call e := by simp only [Board.advance, here, verdict]
    exact settles_refused moved
  | ok _ =>
    have moved : s.advance t = s.goto t (.stage next call) := by
      simp only [Board.advance, here, verdict, follows]
    exact settles_goto moved (later (s.goto t (.stage next call)) (goto_here s t _))

theorem settles_margin (s : Board) (here : s.threads t = .stage .margin call) :
    Settles s t call (call.verdict s.rm .margin) := by
  cases verdict : call.verdict s.rm .margin with
  | error e =>
    have moved : s.advance t = s.refuse t call e := by simp only [Board.advance, here, verdict]
    exact settles_refused moved
  | ok _ =>
    have moved : s.advance t = s.approve t call := by
      simp only [Board.advance, here, verdict, Stage.next]
    apply settles_of_advance
    · rw [moved]; rfl
    · rw [moved]; rfl
    · rw [moved]
      exact settles_submit (goto_here _ t _)

def Call.afterCount (c : Call) (rm : RiskManager) : Result Unit := do
  c.verdict rm .expiry
  c.verdict rm .margin

def Call.afterDailyLoss (c : Call) (rm : RiskManager) : Result Unit := do
  c.verdict rm .drawdown
  c.verdict rm .positionCount
  c.afterCount rm

theorem settles_drawdown (s : Board) (here : s.threads t = .stage .drawdown call) :
    Settles s t call (call.afterDailyLoss s.rm) := by
  have expiry : ∀ s : Board, s.threads t = .stage .expiry call →
      Settles s t call (call.afterCount s.rm) :=
    settles_stage (fun rm => call.verdict rm .margin) rfl settles_margin
  have count : ∀ s : Board, s.threads t = .stage .positionCount call →
      Settles s t call (do call.verdict s.rm .positionCount; call.afterCount s.rm) :=
    settles_stage call.afterCount rfl expiry
  exact settles_stage (fun rm => do call.verdict rm .positionCount; call.afterCount rm) rfl count s
    here

theorem settles_check (here : s.threads t = .breaker call) :
    Settles s t call (s.rm.check call.input call.request) := by
  cases tripped : s.rm.tripped with
  | true =>
    have refused : s.rm.check call.input call.request =
        .error ⟨.riskLimitExceeded, "circuit breaker tripped: " ++ s.rm.tripReason⟩ := by
      simp only [RiskManager.check, RiskManager.checkCircuitBreaker, tripped, ↓reduceIte]
      rfl
    obtain ⟨checked, same⟩ : ∃ checked, checked = { call with late := call.late || true } := ⟨_, rfl⟩
    have loaded : s.advance t = s.goto t (.reason checked) := by
      simp only [Board.advance, here, tripped, same, ↓reduceIte]
    have read : (s.goto t (.reason checked)).advance t = (s.goto t (.reason checked)).refuse t checked
        ⟨.riskLimitExceeded, "circuit breaker tripped: " ++ s.rm.tripReason⟩ := by
      simp only [Board.advance, goto_here]
      rfl
    rw [refused]
    exact settles_goto loaded (settles_refused read)
  | false =>
    have passed : s.rm.check call.input call.request =
        (do call.verdict s.rm .dailyLoss; call.afterDailyLoss s.rm) := by
      simp only [RiskManager.check, RiskManager.checkCircuitBreaker, tripped, Bool.false_eq_true,
        ↓reduceIte]
      rfl
    have loaded : s.advance t = s.goto t (.stage .dailyLoss call) := by
      simp only [Board.advance, here, tripped, Bool.or_false, Bool.false_eq_true, ↓reduceIte]
    rw [passed]
    exact settles_goto loaded
      (settles_stage call.afterDailyLoss rfl settles_drawdown _ (goto_here s t _))

def orders (effects : List Effect) : List OrderRequest :=
  effects.filterMap (fun | .submit _ req => some req | .trip _ => none)

theorem begin_entry (s : Board) (t : ℕ) (enters : Signal.enters call.sig = true) :
    s.begin t call = s.goto t (.breaker call) := by
  have entry : call.sig.direction ≠ .none ∧ call.sig.direction ≠ .close := by
    simpa [Signal.enters] using enters
  unfold Board.begin
  split
  · rename_i nothing
    exact absurd nothing entry.1
  · rename_i closes
    exact absurd closes entry.2
  · rfl
  · rfl

/-- A call that no other thread disturbs does to the manager and to the executor what
    `handleSignal` says in one piece. -/
theorem alone_is_handle_signal (idle : s.threads t = .idle) (accountId : String) (sig : Signal)
    (input : CheckInput) : ∃ n,
    let after := run Board.step s (.call t accountId sig input :: List.replicate n (.advance t))
    let effects := signalEffects s.rm accountId sig input
    after.threads t = .idle ∧ after.rm = effects.foldl RiskManager.absorb s.rm ∧
      after.submitted.map Prod.snd = s.submitted.map Prod.snd ++ orders effects := by
  obtain ⟨call, same⟩ : ∃ call, call = Call.mk accountId sig input s.rm.tripped := ⟨_, rfl⟩
  have begun : s.step (.call t accountId sig input) = s.begin t call := by
    simp only [Board.step, idle, same]
  cases enters : Signal.enters sig with
  | true =>
    have checked : s.begin t call = s.goto t (.breaker call) :=
      begin_entry s t (by rwa [same])
    obtain ⟨n, done, rm, submitted⟩ := settles_check (goto_here s t (.breaker call))
    refine ⟨n, ?_⟩
    have verdict : (s.goto t (.breaker call)).rm.check call.input call.request =
        s.rm.check input (orderRequest accountId sig) := by
      rw [same]
      rfl
    rw [verdict] at rm submitted
    simp only [run, begun, checked]
    refine ⟨done, ?_, ?_⟩
    · rw [rm]
      exact (signal_step s.rm accountId input enters).symm
    · rw [submitted, entry_effects s.rm accountId input enters]
      simp only [same]
      split_ifs <;> simp [orders, Call.request, Board.goto]
  | false =>
    have silent := silent_effects s.rm accountId input enters
    by_cases closes : sig.direction = .close
    · obtain ⟨n, done, rm, submitted⟩ := settles_submit (goto_here s t (.submit call))
      refine ⟨n, ?_⟩
      have direct : s.begin t call = s.goto t (.submit call) := by
        simp [Board.begin, same, closes]
      simp only [run, begun, direct, silent, closes]
      refine ⟨done, rm, ?_⟩
      rw [submitted]
      simp [same, orders, Call.request, Board.goto]
    · have nothing : sig.direction = .none := by
        simpa [Signal.enters, closes] using enters
      have ignored : s.begin t call = s := by simp [Board.begin, same, nothing]
      refine ⟨0, ?_⟩
      simp only [run, begun, ignored, silent, closes, List.replicate]
      exact ⟨idle, rfl, by simp [orders]⟩

end Alone

end FinamCircuitBreaker
