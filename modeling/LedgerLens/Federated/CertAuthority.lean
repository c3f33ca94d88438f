import LedgerLens.Library.Raising
import LedgerLens.Library.UniqueTable
import Mathlib.Data.Int.Notation
import Mathlib.Data.String.Basic

/-!
# The certificate authority of the federation

Participant certificates are recorded by common name: one row a name, which issuing deletes
and creates again, and which revoking marks. A rotation marks the row in one transaction,
issues in a second and writes its audit row in a third. Each transaction may fail, and then
the call raises and leaves what the transactions before it have committed.
-/

namespace LedgerLens.Federated

open Raising

/-- A participant certificate. -/
structure Certificate where
  /-- Its serial number. -/
  serial : ℕ
  /-- Its common name. -/
  cn : String
  /-- The models it is good for, as one string. -/
  allowedModels : String
  /-- When its validity begins. -/
  notValidBefore : ℤ
  /-- When its validity ends. -/
  notValidAfter : ℤ
  deriving DecidableEq

/-- `ParticipantCertRecord`, under its primary key `cn`. -/
structure ParticipantCertRecord where
  /-- The models, separated by commas. -/
  allowedModels : String
  /-- When the certificate was issued. -/
  issuedAt : ℤ
  /-- When it expires. -/
  expiresAt : ℤ
  /-- Whether it is revoked. -/
  revoked : Bool := false
  /-- Since when. -/
  revokedAt : Option ℤ := none
  /-- The certificate. -/
  cert : Certificate
  deriving DecidableEq

/-- The events of the audit log. -/
inductive CertAuditEvent where
  | issued
  | rotated
  | revoked
  deriving DecidableEq

/-- `CertAuditLog`, without the random id. -/
structure CertAuditLog where
  /-- What happened. -/
  event : CertAuditEvent
  /-- To which name. -/
  cn : String
  /-- By whom. -/
  actor : String
  /-- The models of the certificate. -/
  allowedModels : String
  /-- When it expires. -/
  expiresAt : ℤ
  /-- When it happened. -/
  occurredAt : ℤ
  /-- More about it. -/
  detail : Option String := none
  deriving DecidableEq

/-- The two tables. -/
structure CertDatabase where
  /-- `federated_participant_certs`. -/
  participants : UniqueTable String ParticipantCertRecord := .empty
  /-- `federated_cert_audit_log`, oldest row first. -/
  audit : List CertAuditLog := []

/-- What a call of the authority raises. -/
inductive CertError where
  /-- There is no certificate to revoke. -/
  | keyError (cn : String)
  /-- The certificate cannot be built. -/
  | builder
  /-- A transaction fails. -/
  | database
  deriving DecidableEq

/-- What is decided outside a call. -/
structure CertEnv where
  /-- The clock. -/
  now : ℤ
  /-- The random serial number. -/
  serial : ℕ
  /-- `DEFAULT_CERT_LIFETIME_DAYS`. -/
  defaultLifetimeDays : ℤ := 365
  /-- Whether the transaction that revokes commits. -/
  revokes : Bool := true
  /-- Whether the certificate can be built. -/
  builds : Bool := true
  /-- Whether the transaction that issues commits. -/
  issues : Bool := true
  /-- Whether the transaction that writes the rotation's audit row commits. -/
  audits : Bool := true

/-- What a certificate is asked for with. -/
structure CertRequest where
  /-- The common name. -/
  cn : String
  /-- The models. -/
  allowedModels : List String
  /-- The validity, if it is not the default. -/
  validityDays : Option ℤ := none
  /-- Who asks. -/
  actor : String := "ca"

/-- The lifetime of a certificate in days. -/
def CertRequest.lifetime (request : CertRequest) (env : CertEnv) : ℤ :=
  request.validityDays.getD env.defaultLifetimeDays

/-- `",".join(allowed_models)`. -/
def CertRequest.modelsStr (request : CertRequest) : String := ",".intercalate request.allowedModels

/-- The certificate that is signed for a request. -/
def CertRequest.certificate (request : CertRequest) (env : CertEnv) : Certificate where
  serial := env.serial
  cn := request.cn
  allowedModels := request.modelsStr
  notValidBefore := env.now
  notValidAfter := env.now + request.lifetime env * 86400

/-- One transaction: it commits a change, or fails and leaves everything as it was. -/
def transaction (commits : Bool) (change : CertDatabase → CertDatabase) :
    Raising CertDatabase CertError Unit :=
  if commits then modify change else throw .database

namespace CertDatabase

/-- The row of a name, marked as revoked. -/
def markRevoked (db : CertDatabase) (cn : String) (now : ℤ) :
    UniqueTable String ParticipantCertRecord :=
  db.participants.modify cn fun record => { record with revoked := true, revokedAt := some now }

/-- The transaction of `revoke_certificate` on a row that exists, and the first transaction
of `rotate_certificate`. -/
def revoke (db : CertDatabase) (cn : String) (now : ℤ) (actor : String)
    (detail : Option String) : CertDatabase :=
  match db.participants.find? cn with
  | none => db
  | some record => {
      participants := db.markRevoked cn now
      audit := db.audit ++
        [⟨.revoked, cn, actor, record.allowedModels, record.expiresAt, now, detail⟩] }

/-- The transaction of `issue_certificate`: the row of the name is deleted and added. -/
def issue (db : CertDatabase) (env : CertEnv) (request : CertRequest) : CertDatabase :=
  let cert := request.certificate env
  let record : ParticipantCertRecord := {
    allowedModels := cert.allowedModels, issuedAt := env.now, expiresAt := cert.notValidAfter,
    cert }
  { participants :=
      (db.participants.deleteWhere fun cn _ => cn = request.cn).put request.cn record
    audit := db.audit ++ [⟨.issued, request.cn, request.actor, cert.allowedModels,
      cert.notValidAfter, env.now, none⟩] }

/-- The last transaction of `rotate_certificate`. -/
def recordRotation (db : CertDatabase) (env : CertEnv) (request : CertRequest) : CertDatabase :=
  let cert := request.certificate env
  { db with
    audit := db.audit ++ [⟨.rotated, request.cn, request.actor, cert.allowedModels,
      cert.notValidAfter, env.now, none⟩] }

/-- `is_revoked`. -/
def isRevoked (db : CertDatabase) (cn : String) : Bool :=
  match db.participants.find? cn with
  | none => true
  | some record => record.revoked

/-- `is_expired`. -/
def isExpired (db : CertDatabase) (cn : String) (now : ℤ) : Bool :=
  match db.participants.find? cn with
  | none => true
  | some record => record.expiresAt ≤ now

/-- Whether a certificate with a common name is accepted. -/
def accepts (db : CertDatabase) (cn : String) (now : ℤ) : Bool :=
  !db.isRevoked cn && !db.isExpired cn now

end CertDatabase

/-- `issue_certificate`. -/
def issueCertificate (env : CertEnv) (request : CertRequest) :
    Raising CertDatabase CertError Certificate := do
  if env.builds = false then
    throw CertError.builder
  transaction env.issues fun db => db.issue env request
  return request.certificate env

/-- `revoke_certificate`. -/
def revokeCertificate (env : CertEnv) (cn actor : String) :
    Raising CertDatabase CertError Unit := do
  let db ← get
  if (db.participants.find? cn).isNone then
    throw (CertError.keyError cn)
  transaction env.revokes fun db => db.revoke cn env.now actor none

/-- `rotate_certificate`. -/
def rotateCertificate (env : CertEnv) (request : CertRequest) :
    Raising CertDatabase CertError Certificate := do
  transaction env.revokes fun db =>
    db.revoke request.cn env.now request.actor (some "superseded by rotation")
  let cert ← issueCertificate env request
  transaction env.audits fun db => db.recordRotation env request
  return cert

end LedgerLens.Federated
