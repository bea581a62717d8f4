import FinamTradebot.Interfaces
import FinamTradebot.Runs

/-!
auth/token_manager.cpp. `init` runs before there is any other thread; after it the renewal
thread, the threads that make requests and `shutdown` interleave. The renewal thread tests
the flag, blocks in a read, stores a token and sleeps in steps of their own. The trace, newest
event first, is kept for the statements.
-/
namespace FinamAuth
open FinamInterfaces Runs

/-- `run_renewal_stream` before the test of its outer loop, before that of its inner loop, in
    `Read`, before the test behind the inner loop, in the sleep of five seconds, before
    `secure_zero`, and after it. -/
inductive RenewalPc where
  | testing | polling | blocked | broken | asleep | zeroing | ended
  deriving DecidableEq

/-- `secret` is the copy that the renewal thread owns; without a thread there is none. -/
structure TokenManager where
  jwt : String := ""
  accountIds : List String := []
  stop : Bool := false
  renewal : Option RenewalPc := none
  secret : String := ""

def TokenManager.storeJwt (m : TokenManager) (jwt : String) : TokenManager := { m with jwt := jwt }

/-- The replies of `Auth` and `TokenDetails`; an error is the message of its status. -/
def TokenManager.init (m : TokenManager) (secret : String) (auth : Except String String)
    (details : Except String (List String)) : TokenManager × Result Unit :=
  match auth with
  | .error message => (m, .error ⟨.rpcError, message⟩)
  | .ok token =>
    let m := m.storeJwt token
    match details with
    | .error message => (m, .error ⟨.rpcError, message⟩)
    | .ok ids =>
      let m := { m with accountIds := m.accountIds ++ ids }
      if m.accountIds = [] then (m, .error ⟨.invalidArgument, "no account_ids"⟩)
      else ({ m with renewal := some .testing, secret := secret }, .ok ())

/-- `none` is the exception before `init`. -/
def TokenManager.primaryAccountId (m : TokenManager) : Option String := m.accountIds.head?

def secureZero (s : String) : String := String.ofList (s.toList.map fun _ => Char.ofNat 0)

inductive Event where
  | opened
  | received (token : String)
  | slept
  | request (authorization : String)
  deriving DecidableEq

structure Auth where
  manager : TokenManager
  trace : List Event := []

def Auth.moves (s : Auth) (pc : RenewalPc) : Auth := { s with manager := { s.manager with renewal := some pc } }

def Auth.logs (s : Auth) (e : Event) : Auth := { s with trace := e :: s.trace }

/-- `token` is what `Read` returns, `none` at the end of the stream. -/
def Auth.renew (s : Auth) (token : Option String) : Auth :=
  match s.manager.renewal with
  | none | some .ended => s
  | some .testing => if s.manager.stop then s.moves .zeroing else (s.logs .opened).moves .polling
  | some .polling => if s.manager.stop then s.moves .broken else s.moves .blocked
  | some .blocked =>
    match token with
    | none => s.moves .broken
    | some token =>
      let s := s.logs (.received token)
      let s := if token = "" then s else { s with manager := s.manager.storeJwt token }
      s.moves .polling
  | some .broken => if s.manager.stop then s.moves .zeroing else s.moves .asleep
  | some .asleep => (s.logs .slept).moves .testing
  | some .zeroing =>
    { s with manager := { s.manager with secret := secureZero s.manager.secret, renewal := some .ended } }

/-- A request is the `make_context` of any client. -/
inductive Action where
  | renewal (token : Option String)
  | request
  | shutdown

def Auth.step (s : Auth) : Action → Auth
  | .renewal token => s.renew token
  | .request => s.logs (.request ("Bearer " ++ s.manager.jwt))
  | .shutdown => { s with manager := { s.manager with stop := true } }

/-- The last token received that is not empty, else the first one. -/
def newest (first : String) : List Event → String
  | [] => first
  | .received token :: earlier => if token = "" then newest first earlier else token
  | .opened :: earlier | .slept :: earlier | .request _ :: earlier => newest first earlier

section Renewal
variable {s : Auth} {pc : RenewalPc}

/-- Where a step takes the renewal thread and what it logs, by the flag it finds. -/
inductive Move : Bool → RenewalPc → List Event → RenewalPc → Prop
  | quit : Move true .testing [] .zeroing
  | connect : Move false .testing [.opened] .polling
  | leave : Move true .polling [] .broken
  | block : Move false .polling [] .blocked
  | lost (stop : Bool) : Move stop .blocked [] .broken
  | receive (stop : Bool) (token : String) : Move stop .blocked [.received token] .polling
  | giveUp : Move true .broken [] .zeroing
  | pause : Move false .broken [] .asleep
  | wake (stop : Bool) : Move stop .asleep [.slept] .testing
  | zero (stop : Bool) : Move stop .zeroing [] .ended
  | rest (stop : Bool) : Move stop .ended [] .ended

structure Renewed (s next : Auth) (pc last : RenewalPc) (events : List Event) : Prop where
  move : Move s.manager.stop pc events last
  renewal : next.manager.renewal = some last
  trace : next.trace = events ++ s.trace
  jwt : next.manager.jwt = newest s.manager.jwt events
  secret : next.manager.secret =
    if pc = .zeroing then secureZero s.manager.secret else s.manager.secret
  accounts : next.manager.accountIds = s.manager.accountIds
  stop : next.manager.stop = s.manager.stop

theorem renew_eq (renewal : s.manager.renewal = some pc) (token : Option String) :
    ∃ last events, Renewed s (s.renew token) pc last events := by
  unfold Auth.renew
  rw [renewal]
  cases pc with
  | testing =>
    cases stopped : s.manager.stop with
    | true => exact ⟨.zeroing, [], stopped ▸ .quit, rfl, rfl, rfl, rfl, rfl, rfl⟩
    | false => exact ⟨.polling, [.opened], stopped ▸ .connect, rfl, rfl, rfl, rfl, rfl, rfl⟩
  | polling =>
    cases stopped : s.manager.stop with
    | true => exact ⟨.broken, [], stopped ▸ .leave, rfl, rfl, rfl, rfl, rfl, rfl⟩
    | false => exact ⟨.blocked, [], stopped ▸ .block, rfl, rfl, rfl, rfl, rfl, rfl⟩
  | broken =>
    cases stopped : s.manager.stop with
    | true => exact ⟨.zeroing, [], stopped ▸ .giveUp, rfl, rfl, rfl, rfl, rfl, rfl⟩
    | false => exact ⟨.asleep, [], stopped ▸ .pause, rfl, rfl, rfl, rfl, rfl, rfl⟩
  | asleep => exact ⟨.testing, [.slept], .wake _, rfl, rfl, rfl, rfl, rfl, rfl⟩
  | zeroing => exact ⟨.ended, [], .zero _, rfl, rfl, rfl, rfl, rfl, rfl⟩
  | ended => exact ⟨.ended, [], .rest _, renewal, rfl, rfl, rfl, rfl, rfl⟩
  | blocked =>
    cases token with
    | none => exact ⟨.broken, [], .lost _, rfl, rfl, rfl, rfl, rfl, rfl⟩
    | some token =>
      refine ⟨.polling, [.received token], .receive _ token, rfl, ?_, ?_, ?_, ?_, ?_⟩
      all_goals by_cases empty : token = "" <;> simp [empty, Auth.moves, Auth.logs, newest,
        TokenManager.storeJwt]

theorem renew_without_thread (none_ : s.manager.renewal = none) (token : Option String) :
    s.renew token = s := by
  unfold Auth.renew
  rw [none_]

end Renewal

section Tokens
variable {first : String} {ids : List String} {s : Auth}

/-- Every request carries the newest token of its time. -/
def RequestsCurrent (first : String) : List Event → Prop
  | [] => True
  | .request authorization :: earlier =>
    authorization = "Bearer " ++ newest first earlier ∧ RequestsCurrent first earlier
  | .opened :: earlier | .slept :: earlier | .received _ :: earlier => RequestsCurrent first earlier

/-- What holds of a manager whose `init` got the token `first` and the accounts `ids`. -/
structure Current (first : String) (ids : List String) (s : Auth) : Prop where
  jwt : s.manager.jwt = newest first s.trace
  requests : RequestsCurrent first s.trace
  accounts : s.manager.accountIds = ids

theorem newest_append (later earlier : List Event) :
    newest first (later ++ earlier) = newest (newest first earlier) later := by
  induction later with
  | nil => rfl
  | cons e later ih =>
    cases e with
    | received token => simp only [List.cons_append, newest, ih]
    | opened | slept | request => exact ih

theorem move_requests {stop : Bool} {pc last : RenewalPc} {events earlier : List Event}
    (move : Move stop pc events last) (requests : RequestsCurrent first earlier) :
    RequestsCurrent first (events ++ earlier) := by
  cases move <;> exact requests

theorem current_renew (current : Current first ids s) (token : Option String) :
    Current first ids (s.renew token) := by
  cases renewal : s.manager.renewal with
  | none =>
    rw [renew_without_thread renewal]
    exact current
  | some pc =>
    obtain ⟨last, events, renewed⟩ := renew_eq renewal token
    constructor
    · rw [renewed.jwt, renewed.trace, newest_append, current.jwt]
    · rw [renewed.trace]
      exact move_requests renewed.move current.requests
    · exact renewed.accounts.trans current.accounts

theorem current_step (current : Current first ids s) (a : Action) : Current first ids (s.step a) := by
  cases a with
  | renewal token => exact current_renew current token
  | request => exact ⟨current.jwt, ⟨congrArg _ current.jwt, current.requests⟩, current.accounts⟩
  | shutdown => exact ⟨current.jwt, current.requests, current.accounts⟩

theorem newest_ne_empty (some_ : first ≠ "") (trace : List Event) : newest first trace ≠ "" := by
  induction trace with
  | nil => exact some_
  | cons e earlier ih =>
    cases e with
    | received token =>
      by_cases empty : token = ""
      · simpa [newest, empty] using ih
      · simp [newest, empty]
    | opened | slept | request => exact ih

theorem bearer_nonempty (some_ : first ≠ "") {trace : List Event} (requests : RequestsCurrent first trace)
    {authorization : String} (member : .request authorization ∈ trace) : authorization ≠ "Bearer " := by
  induction trace with
  | nil => cases member
  | cons e earlier ih =>
    cases e with
    | request text =>
      rcases List.mem_cons.mp member with same | before
      · cases same
        rw [requests.1]
        intro bare
        apply newest_ne_empty some_ earlier
        simpa using congrArg String.toList bare
      · exact ih requests.2 before
    | opened | slept | received => exact ih requests (by simpa using member)

end Tokens

section Init
variable {secret : String} {auth : Except String String} {details : Except String (List String)}
variable {m : TokenManager}

theorem init_started (started : TokenManager.init {} secret auth details = (m, .ok ())) :
    ∃ token ids, auth = .ok token ∧ ids ≠ [] ∧
      m = { jwt := token, accountIds := ids, renewal := some .testing, secret := secret } := by
  cases auth with
  | error message => cases started
  | ok token =>
    cases details with
    | error message => cases started
    | ok ids =>
      cases ids with
      | nil => cases started
      | cons id rest =>
        cases started
        exact ⟨token, id :: rest, rfl, List.cons_ne_nil id rest, rfl⟩

end Init

section Shutdown
variable {s : Auth} {pc last : RenewalPc} {events : List Event} {secret : String}

def Event.isOpened : Event → Bool
  | .opened => true
  | .received _ | .slept | .request _ => false

/-- A token received or five seconds slept. -/
def Event.isBusy : Event → Bool
  | .received _ | .slept => true
  | .opened | .request _ => false

/-- Steps of a stopped thread until its end. -/
def RenewalPc.rank : RenewalPc → ℕ
  | .blocked => 4
  | .polling | .asleep => 3
  | .broken | .testing => 2
  | .zeroing => 1
  | .ended => 0

def RenewalPc.busy : RenewalPc → ℕ
  | .blocked | .asleep => 1
  | .polling | .broken | .testing | .zeroing | .ended => 0

theorem stopped_move (move : Move true pc events last) :
    last.rank ≤ pc.rank - 1 ∧ events.countP Event.isOpened = 0 ∧
      events.countP Event.isBusy + last.busy ≤ pc.busy := by
  cases move <;> simp [RenewalPc.rank, RenewalPc.busy, Event.isOpened, Event.isBusy]

/-- The thread owns the secret until it ends, and then its zeros. -/
structure Owned (secret : String) (pc : RenewalPc) (m : TokenManager) : Prop where
  renewal : m.renewal = some pc
  secret : m.secret = if pc = .ended then secureZero secret else secret

theorem owned_renewed {next : Auth} (owned : Owned secret pc s.manager)
    (renewed : Renewed s next pc last events) : Owned secret last next.manager := by
  refine ⟨renewed.renewal, ?_⟩
  have move := renewed.move
  rw [renewed.secret, owned.secret]
  generalize s.manager.stop = stop at move
  cases move <;> simp

theorem owned_step (owned : ∃ pc, Owned secret pc s.manager) (a : Action) :
    ∃ pc, Owned secret pc (s.step a).manager := by
  obtain ⟨pc, owned⟩ := owned
  cases a with
  | renewal token =>
    obtain ⟨last, events, renewed⟩ := renew_eq owned.renewal token
    exact ⟨last, owned_renewed owned renewed⟩
  | request => exact ⟨pc, owned⟩
  | shutdown => exact ⟨pc, owned.renewal, owned.secret⟩

def Action.isRenewal : Action → Bool
  | .renewal _ => true
  | .request | .shutdown => false

/-- What a stopped thread at `pc` can still do, after some of its steps. -/
structure Winding (secret : String) (pc : RenewalPc) (s next : Auth) (steps : ℕ) : Prop where
  opened : next.trace.countP Event.isOpened = s.trace.countP Event.isOpened
  left : ∃ last, Owned secret last next.manager ∧ last.rank ≤ pc.rank - steps ∧
    next.trace.countP Event.isBusy + last.busy ≤ s.trace.countP Event.isBusy + pc.busy

theorem stopped_run (stopped : s.manager.stop = true) (owned : Owned secret pc s.manager)
    (acts : List Action) :
    Winding secret pc s (run Auth.step s acts) (acts.countP Action.isRenewal) := by
  induction acts generalizing s pc with
  | nil => exact ⟨rfl, pc, owned, le_rfl, le_rfl⟩
  | cons a rest ih =>
    cases a with
    | request =>
      obtain ⟨opened, left⟩ := ih (s := s.step .request) stopped owned
      exact ⟨opened, left⟩
    | shutdown =>
      obtain ⟨opened, left⟩ := ih (s := s.step .shutdown) rfl ⟨owned.renewal, owned.secret⟩
      exact ⟨opened, left⟩
    | renewal token =>
      obtain ⟨next, events, renewed⟩ := renew_eq owned.renewal token
      obtain ⟨rank, none, busy⟩ := stopped_move (stopped ▸ renewed.move)
      obtain ⟨opened, last, lastOwned, rankLater, busyLater⟩ :=
        ih (s := s.renew token) (renewed.stop.trans stopped) (owned_renewed owned renewed)
      rw [renewed.trace, List.countP_append] at opened busyLater
      refine ⟨?_, last, lastOwned, ?_, ?_⟩
      · simp only [run, Auth.step]
        omega
      · simp only [List.countP_cons, Action.isRenewal, ↓reduceIte]
        omega
      · simp only [run, Auth.step]
        omega

end Shutdown

end FinamAuth
