import ViewState.Base64Url
import ViewState.Files.Tree
import ViewState.Wire.Basic

/-!
Every way in which an operation of the library can fail, by cause, and the one text of each.
-/
namespace ViewState

/-- Why some text or bytes cannot be read back. -/
inductive Malformed
  | shortHeader
  | magic
  | version (found : UInt8)
  | truncated
  | payload (defect : Base64Url.Defect)
  | payloadBody (defect : Wire.Defect)
  | state (defect : Wire.Defect)
  | storedView (defect : Wire.Defect)
  | settings
deriving DecidableEq

def Malformed.message : Malformed → String
  | shortHeader => "Header too short"
  | magic => "Invalid magic bytes"
  | version found =>
    "Unsupported version: " ++ Text.Decimal.ofNat found.toNat ++ " (expected 1)"
  | truncated => "Truncated payload"
  | payload defect => "Malformed client state: " ++ defect.message
  | payloadBody defect => "Failed to decode client state: " ++ defect.message
  | state defect => "Failed to decode view state: " ++ defect.message
  | storedView defect => "Failed to decode stored view: " ++ defect.message
  | settings => "Malformed settings"

/-- Why the outside world did not take or give something. -/
inductive Unavailable
  | settings (path : String) (fault : Files.Fault)
  | directory (path : String) (fault : Files.Fault)
  | database (path : String)
  | other (message : String)
deriving DecidableEq

def Unavailable.message : Unavailable → String
  | settings path fault => "Cannot read config '" ++ path ++ "': " ++ fault.message
  | directory path fault => "Cannot read directory '" ++ path ++ "': " ++ fault.message
  | database path => "Cannot open database '" ++ path ++ "'"
  | other message => message

inductive Failure
  /-- A template could not be compiled. -/
  | construction (source message : String)
  /-- It could not be found out when a source changed last. -/
  | staleness (name cause : String)
  | unencodable (message : String)
  | malformed (cause : Malformed)
  /-- A payload does not carry the right proof of its origin. -/
  | tampered (view : String)
  | tooLarge (size limit : Nat)
  | unbalancedLevel (depth : Nat)
  | unbalancedSection (depth : Nat)
  | unbalancedMetadata
  | unavailable (cause : Unavailable)
deriving DecidableEq

def Failure.message : Failure → String
  | construction source message => "Construction failed for " ++ source ++ ": " ++ message
  | staleness name _ => "Error checking last modified for " ++ name
  | unencodable message => "Serialization error: " ++ message
  | malformed cause => "Deserialization error: " ++ cause.message
  | tampered view => "Client state for view " ++ view ++ " failed integrity check"
  | tooLarge size limit =>
    "Payload of " ++ Text.Decimal.ofNat size ++ " bytes exceeds maximum allowed " ++
      Text.Decimal.ofNat limit ++ " bytes"
  | unbalancedLevel depth =>
    "Unbalanced reconciliation level at depth " ++ Text.Decimal.ofNat depth
  | unbalancedSection depth =>
    "Unbalanced identifier section at depth " ++ Text.Decimal.ofNat depth
  | unbalancedMetadata => "Metadata region exited without matching entry"
  | unavailable cause => "I/O error: " ++ cause.message

end ViewState
