import BeaconSeal.Error
/-! When rounds are published, in milliseconds. The first round comes at genesis and each
later one a period after the one before; there is no round zero. -/
namespace BeaconSeal.ChainInfo

def millis (info : ChainInfo) : Except Fault (Nat × Nat) :=
  if info.period = 0 then .error .zeroPeriod
  else if 1000*info.genesisTime.toNat ≥ UInt64.size then .error .genesisOutOfRange
  else if 1000*info.period.toNat ≥ UInt64.size then .error .periodOutOfRange
  else .ok (1000*info.genesisTime.toNat, 1000*info.period.toNat)

/-- The first round published at the time or later. -/
def roundAt (info : ChainInfo) (now : UInt64) : Except Error UInt64 := do
  let (genesis, period) ← info.millis.mapError Error.invalidChainInfo
  if now.toNat ≤ genesis then .ok 1
  else .ok (UInt64.ofNat ((now.toNat-genesis + (period-1))/period + 1))

def roundTime (info : ChainInfo) (round : UInt64) : Except Error UInt64 := do
  if round = 0 then .error (.invalidRound round)
  else
    let (genesis, period) ← info.millis.mapError Error.invalidChainInfo
    let time := (round.toNat-1)*period + genesis
    if time < UInt64.size then .ok (UInt64.ofNat time) else .error (.invalidRound round)

/-- The last round published by the time, or zero before genesis. -/
def currentRound (info : ChainInfo) (now : UInt64) : Except Error UInt64 := do
  let (genesis, period) ← info.millis.mapError Error.invalidChainInfo
  if now.toNat < genesis then .ok 0
  else .ok (UInt64.ofNat ((now.toNat-genesis)/period + 1))

def isAvailable (info : ChainInfo) (round now : UInt64) : Except Error Bool := do
  if round = 0 then .error (.invalidRound round)
  else .ok (round ≤ (← info.currentRound now))

end BeaconSeal.ChainInfo
