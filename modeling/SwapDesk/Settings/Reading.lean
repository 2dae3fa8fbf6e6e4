import SwapDesk.Decimal.Read
import SwapDesk.Binary64.Shortest
import SwapDesk.Settings
import SwapDesk.Text.Utf8
import SwapDesk.Toml.Document

/-! Settings are read from a TOML text. Fields that are missing take their defaults and unknown ones do not
count; four names have to be there. -/
namespace SwapDesk

/-- Why a text is not accepted as settings. -/
inductive SettingsError
  /-- There is no text to read. -/
  | unreadable
  /-- Not TOML, or a field of the wrong kind. -/
  | unparsable
  | missing (field : String)
  | invalid (fault : SettingsFault)

def SettingsError.message : SettingsError → String
  | unreadable => "cannot read config file"
  | unparsable | missing _ => "cannot parse config"
  | invalid fault => fault.message

namespace Settings

def textOf? : Toml → Option String
  | .text s => some s
  | _ => none

/-- A whole number that is not negative and below a bound. -/
def countOf? (bound : Nat) : Toml → Option Nat
  | .whole n => if 0 ≤ n ∧ n < bound then some n.toNat else none
  | _ => none

def longOf? : Toml → Option Nat := countOf? (pow2 64)

def wordOf? (v : Toml) : Option UInt32 := (countOf? (pow2 32) v).map UInt32.ofNat

/-- A decimal is a text or a number; a float stands for its shortest decimal. -/
def decimalOf? : Toml → Option Decimal
  | .text s => Decimal.ofText? s
  | .whole n => Decimal.ofParts? n 0
  | .float (some f) => Decimal.readPlain? f.toPlainText.toList
  | _ => none

def textsOf? : Toml → Option (List String)
  | .list items => items.mapM textOf?
  | _ => none

variable {α : Type}

/-- The field of a name, if it is there and of the right kind. -/
def given (doc : List (String × Toml)) (name : String) (read : Toml → Option α) :
    Except SettingsError (Option α) :=
  match lookup name doc with
  | none => .ok none
  | some v =>
    match read v with
    | some x => .ok (some x)
    | none => .error .unparsable

def needed (name : String) : Option α → Except SettingsError α
  | some x => .ok x
  | none => .error (.missing name)

/-- The settings of a table. A field of the wrong kind counts for more than a missing one. -/
def ofTable (doc : List (String × Toml)) : Except SettingsError Settings := do
  let text := fun name => given doc name textOf?
  let long := fun name => given doc name longOf?
  let word := fun name => given doc name wordOf?
  let chain ← text "chain"
  let network ← text "network"
  let connector ← text "connector"
  let wallet ← text "wallet_address"
  let gatewayUrl ← text "gateway_url"
  let pairs ← given doc "trading_pairs" textsOf?
  let tokens ← given doc "tokens" textsOf?
  let native ← text "native_currency"
  let spender ← text "spender"
  let pollInterval ← long "poll_interval_ms"
  let minPollInterval ← long "min_poll_interval_ms"
  let balanceInterval ← long "balance_interval_ms"
  let notFoundLimit ← word "not_found_limit"
  let ambiguousLimit ← word "ambiguous_limit"
  let hashWait ← long "exchange_id_wait_ms"
  let requestTimeout ← long "request_timeout_ms"
  let slippage ← given doc "slippage_buffer" decimalOf?
  let eventCapacity ← long "event_capacity"
  let s := named (← needed "chain" chain) (← needed "network" network)
    (← needed "connector" connector) (← needed "wallet_address" wallet)
  return { s with
    native, spender, ambiguousLimit
    gatewayUrl := gatewayUrl.getD s.gatewayUrl
    pairs := pairs.getD s.pairs
    tokens := tokens.getD s.tokens
    pollInterval := pollInterval.getD s.pollInterval
    minPollInterval := minPollInterval.getD s.minPollInterval
    balanceInterval := balanceInterval.getD s.balanceInterval
    notFoundLimit := notFoundLimit.getD s.notFoundLimit
    hashWait := hashWait.getD s.hashWait
    requestTimeout := requestTimeout.getD s.requestTimeout
    slippage := slippage.getD s.slippage
    eventCapacity := eventCapacity.getD s.eventCapacity }

/-- The valid settings that a text stands for. -/
def ofText (s : String) : Except SettingsError Settings := do
  let some doc := Toml.ofText? s | throw .unparsable
  let settings ← ofTable doc
  settings.validate.mapError .invalid
  return settings

/-- The settings in the bytes of a file, if there is one. -/
def ofBytes (bytes : Option (List UInt8)) : Except SettingsError Settings := do
  let some text := bytes.bind decodeUtf8? | throw .unreadable
  ofText text

end Settings

end SwapDesk
