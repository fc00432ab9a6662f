import BeeEngine.Infra
import BeeEngine.Lib.ParseInt
import BeeEngine.Lib.Reporting

/-!
# Deploying a multisig

`deploy_multisig_via_giver` with the messages that it sends: a transfer that
creates the account, the deploy message, and a transfer that is held.
-/

namespace BeeEngine

namespace Multisig

/-! ## Amounts -/

/-- An amount below a bound, or an error that names its field. -/
def parseAmountBelow (bound : ℕ) (field value : String) : Except AppError ℕ :=
  (ParseInt.parse bound value).mapError fun e ↦
    .new ("invalid " ++ field ++ " amount `" ++ value ++ "`: " ++ e.message)

def parseAmount (field value : String) : Except AppError UInt64 :=
  (parseAmountBelow (2 ^ 64) field value).map UInt64.ofNat

structure MultisigBalanceConfig where
  minBalance : String
  targetBalance : String
  deriving DecidableEq, Repr

namespace MultisigBalanceConfig

def default : MultisigBalanceConfig := ⟨"0", "0"⟩

def validate (config : MultisigBalanceConfig) : Except AppError Unit := do
  let minBalance ←
    parseAmountBelow (2 ^ 128) "balance_config.min_balance" config.minBalance
  let targetBalance ←
    parseAmountBelow (2 ^ 128) "balance_config.target_balance" config.targetBalance
  if targetBalance < minBalance then
    .error (.new ("balance_config.target_balance must be >= min_balance (" ++
      config.targetBalance ++ " < " ++ config.minBalance ++ ")"))
  else .ok ()

end MultisigBalanceConfig

/-! ## The deploy message -/

structure MultisigDeploySpec where
  keys : KeyPair
  ownersPubkey : List String
  reqConfirms : UInt8
  reqConfirmsData : UInt8
  constructorValue : String
  balanceConfig : Option MultisigBalanceConfig
  deriving DecidableEq, Repr

/-- The input of the constructor.  There are no `owners_address`. -/
structure ConstructorInput where
  ownersPubkey : List String
  reqConfirms : UInt8
  reqConfirmsData : UInt8
  value : String
  minBalance : String
  targetBalance : String
  deriving DecidableEq, Repr

/-- What is encoded, beside the contract itself. -/
structure ParamsOfEncodeMessage where
  pubkey : String
  input : ConstructorInput
  signer : KeyPair
  deriving DecidableEq, Repr

namespace MultisigDeploySpec

def validate (spec : MultisigDeploySpec) : Except AppError Unit :=
  match spec.balanceConfig with
  | some config => config.validate
  | none => .ok ()

def constructorInput (spec : MultisigDeploySpec) : Except AppError ConstructorInput := do
  spec.validate
  let config := spec.balanceConfig.getD .default
  return ⟨spec.ownersPubkey, spec.reqConfirms, spec.reqConfirmsData, spec.constructorValue,
    config.minBalance, config.targetBalance⟩

def encodeParams (spec : MultisigDeploySpec) : Except AppError ParamsOfEncodeMessage := do
  let input ← spec.constructorInput
  return ⟨"0x" ++ spec.keys.publicKey, input, spec.keys⟩

end MultisigDeploySpec

/-- The encoder of messages, which gives the address.  A constructor value that
is no `uint64` is not encoded. -/
structure Encoder where
  encodeMessage : ParamsOfEncodeMessage → Except AppError String
  IsUint64 : String → Prop
  isUint64_of_ok : ∀ params address, encodeMessage params = .ok address →
    IsUint64 params.input.value

def computeMultisigAddress (encoder : Encoder) (spec : MultisigDeploySpec) :
    Except AppError String := do
  encoder.encodeMessage (← spec.encodeParams)

/-- `trim_start_matches("0:")` -/
def trimWorkchain : List Char → List Char
  | '0' :: ':' :: cs => trimWorkchain cs
  | cs => cs

def canonicalAddress (raw : String) : String :=
  let id := String.ofList (trimWorkchain raw.toList)
  id ++ "::" ++ id

/-! ## What is answered -/

inductive AccountStatus where
  | uninit
  | active
  | frozen
  | nonExist
  deriving DecidableEq, Repr

/-- How a transfer of the giver ends.  The value may be sent although the answer
is an error. -/
structure Transfer where
  sent : Bool
  answer : Except AppError Unit
  sent_of_ok : answer = .ok () → sent = true

/-- What is answered in one call. -/
structure Steps where
  createClient : Except AppError Unit
  generateKeys : Except AppError KeyPair
  fetch : Except AppError AccountStatus
  create : Transfer
  waitUninit : Except AppError Unit
  fetchAgain : Except AppError AccountStatus
  prepare : Except AppError Unit
  deploy : Except AppError (Option String)
  waitActive : Except AppError Unit
  topUp : Transfer

inductive Message where
  | sendCurrencyWithFlag (address : String) (value : UInt64) (ecc : List (UInt32 × UInt64))
      (flag : UInt8)
  | deploy (address : String)
  deriving DecidableEq, Repr

/-! ## The function -/

structure DeployOutcome where
  address : String
  alreadyDeployed : Bool
  deployTx : Option String
  deriving DecidableEq, Repr

def deployMultisig (encoder : Encoder) (steps : Steps) (spec : MultisigDeploySpec)
    (waitForActive : Bool) : Reporting Message AppError DeployOutcome := do
  let address ← computeMultisigAddress encoder spec
  let status ← steps.fetchAgain
  if status = .active then return ⟨canonicalAddress address, true, none⟩
  else
    steps.prepare
    Reporting.emit (.deploy address)
    let deployTx ← steps.deploy
    if waitForActive then Reporting.ofExcept steps.waitActive else pure ()
    return ⟨canonicalAddress address, false, deployTx⟩

structure ParamsOfDeployMultisigViaGiver where
  keys : Option KeyPair
  ownersPubkey : Option (List String)
  reqConfirms : Option UInt8
  reqConfirmsData : Option UInt8
  constructorValue : Option String
  balanceConfig : Option MultisigBalanceConfig
  giverValue : Option String
  /-- In the order in which the map gives its entries. -/
  giverEcc : Option (List (UInt32 × String))
  waitForActive : Option Bool
  deriving DecidableEq, Repr

structure ResultOfDeployMultisigViaGiver where
  address : String
  publicKey : String
  secretKey : String
  alreadyDeployed : Bool
  deployTx : Option String
  deriving DecidableEq, Repr

def shellCurrencyId : UInt32 := 2
def eccTopupGas : UInt64 := 1000000000
def defaultGiverValue : UInt64 := 1000000 * eccTopupGas
def giverFlag : UInt8 := 16

/-- The flag of a transfer whose currencies stay on a live account. -/
def heldFlag : UInt8 := 1

section

variable (encoder : Encoder) (steps : Steps) (params : ParamsOfDeployMultisigViaGiver)

def ownerKeys : Except AppError KeyPair :=
  match params.keys with
  | some keys => .ok keys
  | none => steps.generateKeys

def deploySpec (keys : KeyPair) : MultisigDeploySpec where
  keys := keys
  ownersPubkey := (params.ownersPubkey.filter (¬·.isEmpty)).getD ["0x" ++ keys.publicKey]
  reqConfirms := params.reqConfirms.getD 1
  reqConfirmsData := params.reqConfirmsData.getD 1
  constructorValue := params.constructorValue.getD "0"
  balanceConfig := params.balanceConfig

/-- The part before the account is read: the keys, and the address. -/
def resolve : Except AppError (KeyPair × String) := do
  inContext "failed to create tvm client" steps.createClient
  let keys ← ownerKeys steps params
  let address ← computeMultisigAddress encoder (deploySpec params keys)
  return (keys, address)

def giverValue : Except AppError UInt64 :=
  match params.giverValue with
  | some v => parseAmount "giver_value" v
  | none => .ok defaultGiverValue

/-- Brings the account into existence. -/
def fund (address : String) : Reporting Message AppError Unit := do
  let value ← giverValue params
  Reporting.emit (.sendCurrencyWithFlag address 0 [(shellCurrencyId, value)] giverFlag)
  inContext "giver account-creation failed (giver is available on shellnet only)"
    steps.create.answer
  steps.waitUninit

def parseGiverEcc : List (UInt32 × String) → Except AppError (List (UInt32 × UInt64))
  | [] => .ok []
  | (currency, amount) :: entries => do
      let amount ← parseAmount "giver_ecc" amount
      let giverEcc ← parseGiverEcc entries
      return (currency, amount) :: giverEcc

/-- The transfer that is held, after the deploy. -/
def topUp (address : String) : Reporting Message AppError Unit := do
  let giverEcc ← parseGiverEcc (params.giverEcc.getD [])
  if giverEcc.isEmpty then pure ()
  else
    Reporting.emit (.sendCurrencyWithFlag address eccTopupGas giverEcc heldFlag)
    inContext "giver ECC top-up failed (giver is available on shellnet only)" steps.topUp.answer

/-- The part after an account is read that is not active. -/
def fundAndDeploy (keys : KeyPair) (address : String) :
    Reporting Message AppError ResultOfDeployMultisigViaGiver := do
  fund steps params address
  let outcome ← Reporting.mapError (·.withContext "multisig deploy failed")
    (deployMultisig encoder steps (deploySpec params keys) (params.waitForActive.getD true))
  topUp steps params address
  return ⟨outcome.address, keys.publicKey, keys.secretKey, outcome.alreadyDeployed,
    outcome.deployTx⟩

def deployMultisigViaGiver : Reporting Message AppError ResultOfDeployMultisigViaGiver := do
  let (keys, address) ← resolve encoder steps params
  let status ← steps.fetch
  if status = .active then
    return ⟨canonicalAddress address, keys.publicKey, keys.secretKey, true, none⟩
  else fundAndDeploy encoder steps params keys address

end

end Multisig

end BeeEngine
