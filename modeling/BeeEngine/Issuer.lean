import BeeEngine.Infra
import BeeEngine.Lib.Base64
import BeeEngine.Lib.BitGroups
import BeeEngine.Lib.Json

/-!
# The issuer of a login

The claim of a token is cut out of its base64 text, which may begin and end in
the middle of a byte.  `get_auth_provider` reads the issuer from it, and
`get_domain_by_auth_provider` gives the domain whose keys are trusted.
-/

namespace BeeEngine

namespace Issuer

open Chunks BitGroups

/-! ## The text of a claim -/

inductive ZkCryptoError where
  | invalidInput
  | generalError (message : String)
  deriving DecidableEq, Repr

def ZkCryptoError.toString : ZkCryptoError → String
  | .invalidInput => "Invalid value was given to the function"
  | .generalError message => "General cryptographic error: " ++ message

def ZkCryptoError.toAppError (e : ZkCryptoError) : AppError := (AppError.new e.toString).withKind "zk"

abbrev ZkCryptoResult (α : Type) : Type := Except ZkCryptoError α

def base64UrlCharset : String := "ABCDEFGHIJKLMNOPQRSTUVWXYZabcdefghijklmnopqrstuvwxyz0123456789-_"

/-- The bits of a byte are set one by one, the last one at the bottom. -/
def byteOf (chunk : List Bool) : UInt8 :=
  chunk.reverse.zipIdx.foldl (fun byte bit ↦ byte ||| ((bit.1.toNat.toUInt8) <<< bit.2.toUInt8)) 0

def bitarrayToBytearray (bits : List Bool) : ZkCryptoResult Bytes :=
  if bits.length % 8 ≠ 0 then .error .invalidInput else .ok ((chunks 8 bits).map byteOf)

/-- The six bits of a digit. -/
def bitsOfChar (c : Char) : ZkCryptoResult (List Bool) :=
  match base64UrlCharset.toList.findIdx? (· = c) with
  | some index => .ok (bits 6 index)
  | none => .error .invalidInput

def base64ToBitarray (input : String) : ZkCryptoResult (List Bool) := do
  let groups ← input.toList.mapM bitsOfChar
  return groups.flatten

/-- The bits before the first whole byte are dropped. -/
def drainFirst (i : UInt8) (bits : List Bool) : ZkCryptoResult (List Bool) :=
  match i.toNat with
  | 0 => .ok bits
  | 1 => .ok (bits.drop 2)
  | 2 => .ok (bits.drop 4)
  | _ => .error (.generalError "Invalid first_char_offset")

/-- The bits behind the last whole byte are dropped. -/
def drainLast (lastCharOffset : ℕ) (bits : List Bool) : ZkCryptoResult (List Bool) :=
  match lastCharOffset with
  | 3 => .ok bits
  | 2 => .ok (bits.take (bits.length - 2))
  | 1 => .ok (bits.take (bits.length - 4))
  | _ => .error (.generalError "Invalid last_char_offset")

def decodeBase64Url (s : String) (i : UInt8) : ZkCryptoResult String :=
  if s.utf8ByteSize < 2 then .error (.generalError "Base64 string smaller than 2")
  else do
    let bits ← base64ToBitarray s
    let bits ← drainFirst i bits
    let bits ← drainLast ((i.toNat + s.utf8ByteSize - 1) % 4) bits
    if bits.length % 8 ≠ 0 then .error (.generalError "Invalid bits length")
    else
      let bytes ← bitarrayToBytearray bits
      match Bytes.fromUtf8 bytes with
      | some text => .ok text
      | none => .error (.generalError "Invalid UTF8 string")

section

variable {F : Type} (serde : SerdeJson F)

def verifyExtendedClaim (extendedClaim expectedKey : String) : ZkCryptoResult String :=
  match extendedClaim.toList.getLast? with
  | some last =>
      if last = '}' ∨ last = ',' then
        let jsonStr := String.ofList ('{' :: extendedClaim.toList.dropLast ++ ['}'])
        match serde.fromStr some jsonStr with
        | none => .error .invalidInput
        | some json =>
            match (json.get? expectedKey).bind (·.asStr?) with
            | some value => .ok value
            | none => .error .invalidInput
      else .error (.generalError "Invalid extended claim")
  | none => .error (.generalError "Invalid extended claim")

/-! ## Providers -/

inductive OIDCProvider where
  | google
  | twitch
  | facebook
  | kakao
  | apple
  | slack
  | microsoft
  | awsTenant (region tenantId : String)
  | karrierOne
  | credenza3
  | gosh
  deriving DecidableEq, Repr

/-- The text of a provider in a deploy message. -/
def OIDCProvider.toString : OIDCProvider → String
  | .google => "google"
  | .gosh => "gosh"
  | .twitch => "twitch"
  | .facebook => "facebook"
  | .kakao => "kakao"
  | .apple => "apple"
  | .slack => "slack"
  | .microsoft => "microsoft"
  | .karrierOne => "karrierOne"
  | .credenza3 => "credenza3"
  | .awsTenant region tenantId => "AwsTenant-region:" ++ region ++ "-tenant_id:" ++ tenantId

def matchMicrosoftIssSubstring (iss : String) : Bool :=
  "https://login.microsoftonline.com/".toList.isPrefixOf iss.toList &&
    "/v2.0".toList.isSuffixOf iss.toList

/-- A match of `RE_AWS_ISS` at the start of a text.  Both groups are as long as they can be:
what follows the region is a dot, which it has none of. -/
def matchAwsIss (text : String) : Option (String × String) := do
  let rest ← Text.stripPrefix "https://cognito-idp." text
  let region := rest.toList.takeWhile (· ≠ '.')
  let rest ← Text.stripPrefix ".amazonaws.com/" (.ofList (rest.toList.dropWhile (· ≠ '.')))
  let tenantId := rest.toList.takeWhile (· ≠ '/')
  if region.isEmpty || tenantId.isEmpty then none
  else return (.ofList region, .ofList tenantId)

/-- The match that begins first. -/
def parseAwsIssSubstring (url : String) : ZkCryptoResult (String × String) :=
  match url.toList.tails.findSome? fun cs ↦ matchAwsIss (.ofList cs) with
  | some captures => .ok captures
  | none => .error .invalidInput

def OIDCProvider.fromIss (iss : String) : ZkCryptoResult OIDCProvider :=
  if iss = "https://accounts.google.com" then .ok .google
  else if iss = "https://oauth.gosh.sh" then .ok .gosh
  else if iss = "https://id.twitch.tv/oauth2" then .ok .twitch
  else if iss = "https://www.facebook.com" then .ok .facebook
  else if iss = "https://kauth.kakao.com" then .ok .kakao
  else if iss = "https://appleid.apple.com" then .ok .apple
  else if iss = "https://slack.com" then .ok .slack
  else if iss = "https://accounts.karrier.one/" then .ok .karrierOne
  else if iss = "https://accounts.credenza3.com" then .ok .credenza3
  else if matchMicrosoftIssSubstring iss then .ok .microsoft
  else (parseAwsIssSubstring iss).map fun captures ↦ .awsTenant captures.1 captures.2

structure Claim where
  value : String
  indexMod4 : UInt8

/-- A step of `get_auth_provider`. -/
def zkStep {α : Type} (what : String) (x : ZkCryptoResult α) : Except AppError α :=
  inContext ("[get_auth_provider]: failed to " ++ what) (x.mapError ZkCryptoError.toAppError)

def getAuthProvider (claim : Claim) : Except AppError OIDCProvider := do
  let extClaim ← zkStep "decode claims" (decodeBase64Url claim.value claim.indexMod4)
  let iss ← zkStep "verify_extended_claim" (verifyExtendedClaim serde extClaim "iss")
  zkStep "create oidc provider" (OIDCProvider.fromIss iss)

end

/-- The provider as `{:?}` shows it. -/
def OIDCProvider.debug : OIDCProvider → String
  | .google => "Google"
  | .gosh => "Gosh"
  | .twitch => "Twitch"
  | .facebook => "Facebook"
  | .kakao => "Kakao"
  | .apple => "Apple"
  | .slack => "Slack"
  | .microsoft => "Microsoft"
  | .karrierOne => "KarrierOne"
  | .credenza3 => "Credenza3"
  | .awsTenant region tenantId => "AwsTenant((" ++ region.quote ++ ", " ++ tenantId.quote ++ "))"

def getDomainByAuthProvider (provider : OIDCProvider) : Except AppError String :=
  match provider with
  | .google => .ok "www.googleapis.com"
  | .gosh => .ok "oauth.gosh.sh"
  | .facebook => .ok "www.facebook.com"
  | other => .error (.new ("bad auth provider: " ++ other.debug))

end Issuer

end BeeEngine
