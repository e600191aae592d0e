import Custody.Failure
import Custody.Numeric.Shortest
import Custody.Secrets.Prefix

/-! The settings of the library, section by section, with their defaults. -/
namespace Custody.Config

/-- Where the audit trail is kept and what is done to it when. Times are in seconds. -/
structure AuditSettings where
  dir : Path := Path.ofText "logs/audit"
  /-- The size at which a file is followed by another, in mebibytes. -/
  maxSize : Float := 100.0
  retentionDays : Int := 90
  flushInterval : Float := 5.0
  cleanupInterval : Float := 86400.0
  cleanupDelay : Float := 3600.0
  shutdownTimeout : Float := 10.0
deriving Inhabited

/-- Where secrets come from. -/
structure SecretsSettings where
  secretsFile : Option Path := none
  envNamespace : Text := "MAIL_FACTORY_"
  masterKeyVar : Text := "MAIL_FACTORY_MASTER_KEY"
  encryptedPrefix : Text := Secrets.encryptedPrefix
deriving DecidableEq, Repr, Inhabited

structure LoggingSettings where
  level : Text := "INFO"
deriving DecidableEq, Repr, Inhabited

/-- All settings. -/
structure Settings where
  audit : AuditSettings := {}
  secrets : SecretsSettings := {}
  logging : LoggingSettings := {}
deriving Inhabited

/-- A number of mebibytes in whole bytes, at least one. Infinity is too large, and what is no number
has no bytes. -/
def mebibytes (x : Float) : Except Failure Nat :=
  let bits := x.toBits.toNat
  let b := Shortest.Binary.ofBits bits
  let e := b.exponent + 20
  if bits >>> 52 % 2048 = 2047 then (if bits % Shortest.hiddenBit = 0 then .error .overflow else .error .badValue)
  else if 0 ≤ e ∧ 1 <<< 1024 ≤ b.significand <<< e.toNat then .error .overflow
  else if Shortest.signBit ≤ bits then .ok 1
  else if 0 ≤ e then .ok (max 1 (b.significand <<< e.toNat))
  else .ok (max 1 (b.significand >>> (-e).toNat))

def AuditSettings.maxBytes (c : AuditSettings) : Except Failure Nat := mebibytes c.maxSize

end Custody.Config
