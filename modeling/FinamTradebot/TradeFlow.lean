import FinamTradebot.OrderBookState

/-!
strategy/trade_flow_analyzer.hpp: the trade flow imbalance (TFI) over a sliding
window. A deque is a list whose head is its front.
-/
namespace FinamTradeFlow
open FinamInterfaces FinamOrderBook

def nsPerMs : ℤ := 1000000

structure TradeFlowAnalyzerConfig where
  tfiWindow : ℤ := 5000
  velocityWindow : ℤ := 1000
  largePrintMult : ℚ := 4
  avgVolumePeriod : ℕ := 100
  signalThreshold : ℚ := 3 / 10

structure TfiResult where
  tfi : ℚ := 0
  cvd : ℚ := 0
  velocity : ℚ := 0
  largePrint : Bool := false
  ts : ℤ := 0
  deriving DecidableEq, Repr

structure TradeFlowAnalyzer where
  cfg : TradeFlowAnalyzerConfig
  cvd : ℚ := 0
  window : List TradeEvent := []
  velocityWindow : List ℤ := []
  recentVolumes : List ℚ := []
  lastResult : TfiResult := {}

def TradeFlowAnalyzer.init (cfg : TradeFlowAnalyzerConfig) : TradeFlowAnalyzer := { cfg := cfg }

def TradeFlowAnalyzer.evictOld (s : TradeFlowAnalyzer) (now : ℤ) : TradeFlowAnalyzer :=
  let tfiCutoff := now - s.cfg.tfiWindow * nsPerMs
  let velocityCutoff := now - s.cfg.velocityWindow * nsPerMs
  { s with
    window := s.window.dropWhile (fun t => decide (t.ts < tfiCutoff))
    velocityWindow := s.velocityWindow.dropWhile (fun t => decide (t < velocityCutoff)) ++ [now] }

def TradeFlowAnalyzer.updateAvgVolume (s : TradeFlowAnalyzer) (vol : ℚ) : TradeFlowAnalyzer :=
  let volumes := s.recentVolumes ++ [vol]
  { s with recentVolumes := if s.cfg.avgVolumePeriod < volumes.length then volumes.tail else volumes }

def sideVolume (isBuy : Bool) (trades : List TradeEvent) : ℚ :=
  ((trades.filter (fun t => t.isBuy == isBuy)).map (·.volume)).sum

def TradeFlowAnalyzer.normalizedTfi (s : TradeFlowAnalyzer) : ℚ :=
  let buyVol := sideVolume true s.window
  let sellVol := sideVolume false s.window
  let total := buyVol + sellVol
  if total < 1 / 1000000000 then 0 else (buyVol - sellVol) / total

def TradeFlowAnalyzer.avgVolume (s : TradeFlowAnalyzer) : ℚ :=
  if s.recentVolumes.isEmpty then 1 else s.recentVolumes.sum / s.recentVolumes.length

def TradeFlowAnalyzer.buildResult (s : TradeFlowAnalyzer) (e : TradeEvent) :
    TradeFlowAnalyzer × TfiResult :=
  let r : TfiResult :=
    { tfi := s.normalizedTfi
      cvd := s.cvd
      velocity := s.velocityWindow.length
      largePrint := decide (s.avgVolume * s.cfg.largePrintMult < e.volume)
      ts := e.ts }
  ({ s with lastResult := r }, r)

def TradeFlowAnalyzer.onTrade (s : TradeFlowAnalyzer) (e : TradeEvent) :
    TradeFlowAnalyzer × TfiResult :=
  let s := s.evictOld e.ts
  let s := { s with
    window := s.window ++ [e]
    cvd := s.cvd + if e.isBuy then e.volume else -e.volume }
  (s.updateAvgVolume e.volume).buildResult e

def TradeFlowAnalyzer.sessionReset (s : TradeFlowAnalyzer) : TradeFlowAnalyzer :=
  { s with cvd := 0, window := [], velocityWindow := [] }

def TradeFlowAnalyzer.vote (s : TradeFlowAnalyzer) : Vote :=
  let norm := s.normalizedTfi
  if s.cfg.signalThreshold < norm then .long
  else if norm < -s.cfg.signalThreshold then .short
  else .neutral

end FinamTradeFlow
