import SwapDesk.Order.Book

/-! The settings of a desk and what makes them valid. Intervals are in milliseconds. -/
namespace SwapDesk

structure Settings where
  gatewayUrl : String
  chain : String
  network : String
  connector : String
  wallet : String
  /-- Trading pairs as they are written. -/
  pairs : List String
  /-- Further tokens whose balances are of interest. -/
  tokens : List String
  /-- The chain's own currency, if it need not be asked for. -/
  native : Option String
  /-- Who is approved to spend tokens, if not the connector. -/
  spender : Option String
  pollInterval : Nat
  minPollInterval : Nat
  balanceInterval : Nat
  notFoundLimit : UInt32
  ambiguousLimit : Option UInt32
  /-- How long a pass waits for the hashes of new transactions. -/
  hashWait : Nat
  requestTimeout : Nat
  /-- The margin of limit prices. -/
  slippage : Decimal
  eventCapacity : Nat
deriving DecidableEq

/-- Why settings are not valid. -/
inductive SettingsFault
  | empty (field : String)
  | interval
  | notFoundLimit
  | ambiguousLimit
  | slippage (d : Decimal)
  | pair (raw : String)
deriving DecidableEq

namespace SettingsFault

def reason : SettingsFault → String
  | empty field => field ++ " must not be empty"
  | interval => "intervals must be positive"
  | notFoundLimit => "not_found_limit must be positive"
  | ambiguousLimit => "ambiguous_limit must be positive when set"
  | slippage d => "slippage_buffer " ++ d.toText ++ " outside [0, 1)"
  | pair raw => "invalid trading pair: " ++ raw

def message (f : SettingsFault) : String := "invalid config: " ++ f.reason

end SettingsFault

namespace Settings

def defaultSlippage : Decimal := ⟨1, 2, by decide, by decide⟩

/-- The least settings: four names, and everything else as it is by default. -/
def named (chain network connector wallet : String) : Settings :=
  { chain, network, connector, wallet
    gatewayUrl := "http://localhost:15888"
    pairs := []
    tokens := []
    native := none
    spender := none
    pollInterval := 10000
    minPollInterval := 1000
    balanceInterval := 30000
    notFoundLimit := Limits.default.notFound
    ambiguousLimit := Limits.default.ambiguous
    hashWait := 2000
    requestTimeout := 10000
    slippage := defaultSlippage
    eventCapacity := 256 }

def limits (s : Settings) : Limits := ⟨s.notFoundLimit, s.ambiguousLimit⟩

def spenderName (s : Settings) : String := s.spender.getD s.connector

/-- The trading pairs; the fault is the first text that is none. -/
def pairsOf : List String → Except SettingsFault (List Pair)
  | [] => .ok []
  | raw :: rest =>
    match Pair.ofText? raw with
    | none => .error (.pair raw)
    | some p => (p :: ·) <$> pairsOf rest

def tradingPairs (s : Settings) : Except SettingsFault (List Pair) := pairsOf s.pairs

def refuse (fault : SettingsFault) (bad : Bool) : Except SettingsFault Unit :=
  if bad then .error fault else .ok ()

def checkName (field value : String) : Except SettingsFault Unit :=
  refuse (.empty field) (trimChars value.toList).isEmpty

/-- The first fault, if there is one. -/
def validate (s : Settings) : Except SettingsFault Unit := do
  checkName "chain" s.chain
  checkName "network" s.network
  checkName "connector" s.connector
  checkName "wallet_address" s.wallet
  refuse .interval (s.pollInterval == 0 || s.minPollInterval == 0 || s.balanceInterval == 0)
  refuse .notFoundLimit (s.notFoundLimit == 0)
  refuse .ambiguousLimit (s.ambiguousLimit == some 0)
  refuse (.slippage s.slippage) (s.slippage.isNegative || s.slippage.cmp .one != .lt)
  discard s.tradingPairs

end Settings

end SwapDesk
