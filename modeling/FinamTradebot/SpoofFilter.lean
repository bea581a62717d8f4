import FinamTradebot.Interfaces

/-!
strategy/spoof_filter.hpp. An unordered map from rounded prices is a partial
function; the counters are unbounded.
-/
namespace FinamSpoof
open FinamInterfaces

structure SpoofFilterConfig where
  minLargeQty : ℚ := 10
  maxCancelRatio : ℚ := 8 / 10
  minEvents : ℕ := 5
  spoofWindow : ℤ := 60
  flagTtl : ℤ := 300

structure LevelStats where
  adds : ℕ := 0
  cancels : ℕ := 0
  fills : ℕ := 0
  lastAddTs : ℤ := 0
  deriving DecidableEq, Repr

structure SpoofFilter where
  cfg : SpoofFilterConfig
  stats : ℤ → Option LevelStats := fun _ => none
  flagged : ℤ → Option ℤ := fun _ => none

def SpoofFilter.init (cfg : SpoofFilterConfig) : SpoofFilter := { cfg := cfg }

/-- `std::round` of the price in hundredths: halves go away from zero. -/
def roundPrice (p : ℚ) : ℤ :=
  let x := p * 100
  if 0 ≤ x then ⌊x + 1 / 2⌋ else ⌈x - 1 / 2⌉

/-- `stats_[key]` creates a missing entry with zero counters. -/
def SpoofFilter.level (s : SpoofFilter) (key : ℤ) : LevelStats := (s.stats key).getD {}

def SpoofFilter.evictOld (s : SpoofFilter) (now : ℤ) : SpoofFilter :=
  { s with stats := fun key =>
      (s.stats key).filter (fun l => !decide (s.cfg.spoofWindow * nsPerSec < now - l.lastAddTs)) }

def SpoofFilter.maybeFlag (s : SpoofFilter) (price : ℚ) (ts : ℤ) : SpoofFilter :=
  let key := roundPrice price
  let l := s.level key
  let s := { s with stats := Function.update s.stats key (some l) }
  let total := l.cancels + l.fills
  if total < s.cfg.minEvents then s
  else
    let ratio : ℚ := (l.cancels : ℚ) / (total : ℚ)
    if s.cfg.maxCancelRatio ≤ ratio then
      { s with flagged := Function.update s.flagged key (some ts) }
    else s

def SpoofFilter.onLargeAdd (s : SpoofFilter) (price : ℚ) (ts : ℤ) : SpoofFilter :=
  let key := roundPrice price
  let l := s.level key
  let added := { l with lastAddTs := ts, adds := l.adds + 1 }
  let s := { s with stats := Function.update s.stats key (some added) }
  s.evictOld ts

def SpoofFilter.onLargeCancel (s : SpoofFilter) (price : ℚ) (ts : ℤ) : SpoofFilter :=
  let key := roundPrice price
  let l := s.level key
  let s := { s with stats := Function.update s.stats key (some { l with cancels := l.cancels + 1 }) }
  (s.maybeFlag price ts).evictOld ts

def SpoofFilter.onLargeFill (s : SpoofFilter) (price : ℚ) : SpoofFilter :=
  let key := roundPrice price
  let l := s.level key
  { s with stats := Function.update s.stats key (some { l with fills := l.fills + 1 }) }

def SpoofFilter.isSpoofed (s : SpoofFilter) (price : ℚ) (now : ℤ) : Bool :=
  match s.flagged (roundPrice price) with
  | none => false
  | some since => decide (now - since < s.cfg.flagTtl * nsPerSec)

def SpoofFilter.sessionReset (s : SpoofFilter) : SpoofFilter :=
  { s with stats := fun _ => none, flagged := fun _ => none }

end FinamSpoof
