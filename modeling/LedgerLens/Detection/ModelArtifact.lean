import LedgerLens.Library.Sha256
import LedgerLens.Library.UniqueTable
import Mathlib.Data.Rat.Defs
import Mathlib.Logic.Function.Basic

/-!
# The trust chain of model artifacts

`ModelArtifact.verify_chain` asks that the signed `metrics.json` of a model directory records
the hash of the artifact under its name. `ModelArtifactVerifier.verify`, the check at load
time, asks for the signature and for the hash to be in the transparency log, each by itself.
This file determines for which directories and logs the second check implies the first.

The signature scheme and the JSON decoder are parameters.
-/

namespace LedgerLens.Detection

/-- The content of a file. -/
abbrev Bytes := List UInt8

/-- A decoded JSON value; a dictionary is given by its items. -/
inductive Json where
  | null
  | bool (value : Bool)
  | num (value : ℚ)
  | str (value : String)
  | arr (items : List Json)
  | obj (fields : List (String × Json))

/-- What is taken from outside. -/
structure TrustTools where
  /-- `json.load` on a file's content; `none` if it raises. -/
  jsonLoad : Bytes → Option Json
  /-- `Ed25519PublicKey.verify` on a raw public key, a signature and a payload. -/
  ed25519Verify : Bytes → Bytes → Bytes → Bool

/-- A model directory with its regular files. -/
structure ModelDir where
  /-- Where it is. -/
  path : String
  /-- The contents of its files by name. -/
  files : String → Option Bytes

/-- `ModelIntegrityError`, one case for each place that raises it. -/
inductive ModelIntegrityError where
  | metricsNotFound (modelDir : String)
  | artifactNotFound (artifactPath : String)
  | noArtifactEntry (modelName : String)
  | shaMismatch (modelName actual : String)
  | signatureNotFound (sigPath : String)
  | noPublicKey
  | badSignature
  | fingerprintMismatch (expected actual : String)
  | dataMismatch (expected : String)
  | notLogged (modelName actual : String)
  | signingKeyNotEd25519
  | trustedKeyUnavailable
  deriving DecidableEq

/-- What a verification may raise. -/
inductive VerifyError where
  /-- The trust chain does not hold. -/
  | integrity (error : ModelIntegrityError)
  /-- `metrics.json` is not JSON or not of the expected shape. -/
  | malformed
  deriving DecidableEq

namespace Json

/-- `dict.get`; only a dictionary has it. -/
def get (json : Json) (key : String) : Except VerifyError (Option Json) :=
  match json with
  | .obj fields => .ok (fields.lookup key)
  | _ => .error .malformed

/-- Python's truth value of what `dict.get` returns. -/
def truthy : Option Json → Bool
  | none => false
  | some .null => false
  | some (.bool value) => value
  | some (.num value) => value ≠ 0
  | some (.str value) => value ≠ ""
  | some (.arr items) => !items.isEmpty
  | some (.obj fields) => !fields.isEmpty

/-- `(metrics.get(model_name) or {}).get("artifact_sha256")`, with JSON's `null` as absent. -/
def artifactSha256 (metrics : Json) (modelName : String) : Except VerifyError (Option Json) :=
  match metrics.get modelName with
  | .error e => .error e
  | .ok entry =>
    match (if truthy entry then entry.getD (.obj []) else .obj []).get "artifact_sha256" with
    | .error e => .error e
    | .ok (some .null) => .ok none
    | .ok recorded => .ok recorded

/-- `metrics.setdefault(model_name, {})["artifact_sha256"] = sha`; `none` if it raises. -/
def setArtifactSha256 (metrics : Json) (modelName sha : String) : Option Json :=
  let setSha (entry : List (String × Json)) : List (String × Json) :=
    if entry.any (·.1 = "artifact_sha256") then
      entry.map fun item => if item.1 = "artifact_sha256" then (item.1, .str sha) else item
    else entry ++ [("artifact_sha256", .str sha)]
  match metrics with
  | .obj fields =>
    match fields.lookup modelName with
    | none => some (.obj (fields ++ [(modelName, .obj (setSha []))]))
    | some (.obj entry) =>
      some (.obj (fields.map fun item =>
        if item.1 = modelName then (item.1, .obj (setSha entry)) else item))
    | some _ => none
  | _ => none

/-- Whether a JSON value is a given string. -/
def isStr (json : Json) (s : String) : Bool :=
  match json with
  | .str value => value = s
  | _ => false

end Json

/-- The name of a model's artifact file. -/
def artifactFile (modelName : String) : String := modelName ++ ".joblib"

/-- `os.path.join` of a directory and a file's name. -/
def ModelDir.join (dir : ModelDir) (name : String) : String := dir.path ++ "/" ++ name

/-- `_key_fingerprint` of a raw public key. -/
def keyFingerprint (publicKey : Bytes) : String := Sha256.hexdigest publicKey

/-- Steps 2 to 4 of `verify_chain`, on the decoded metrics and the raw content of
`metrics.json`. -/
def ModelDir.verifySignature (tools : TrustTools) (dir : ModelDir) (metrics : Json)
    (payload : Bytes) (publicKey : Option Bytes) (fingerprint : String)
    (expectedDataSha256 : Option String) : Except VerifyError Unit :=
  match dir.files "metrics.json.sig" with
  | none => .error (.integrity (.signatureNotFound (dir.join "metrics.json.sig")))
  | some signature =>
    match publicKey with
    | none => .error (.integrity .noPublicKey)
    | some key =>
      if !tools.ed25519Verify key signature payload then .error (.integrity .badSignature)
      else if fingerprint ≠ "" ∧ keyFingerprint key ≠ fingerprint then
        .error (.integrity (.fingerprintMismatch fingerprint (keyFingerprint key)))
      else
        match expectedDataSha256 with
        | none => .ok ()
        | some expected =>
          match metrics.get "training_data_sha256" with
          | .error e => .error e
          | .ok recorded =>
            if (recorded.map (·.isStr expected)).getD false then .ok ()
            else .error (.integrity (.dataMismatch expected))

/-- `ModelArtifact.verify_chain`. The fingerprint is the argument or, if that is empty, the
configured one. -/
def ModelDir.verifyChain (tools : TrustTools) (dir : ModelDir) (modelName : String)
    (publicKey : Option Bytes) (fingerprint : String)
    (expectedDataSha256 : Option String := none) : Except VerifyError Unit :=
  match dir.files "metrics.json" with
  | none => .error (.integrity (.metricsNotFound dir.path))
  | some payload =>
    match tools.jsonLoad payload with
    | none => .error .malformed
    | some metrics =>
      match dir.files (artifactFile modelName) with
      | none => .error (.integrity (.artifactNotFound (dir.join (artifactFile modelName))))
      | some artifact =>
        let actual := Sha256.hexdigest artifact
        match metrics.artifactSha256 modelName with
        | .error e => .error e
        | .ok none => .error (.integrity (.noArtifactEntry modelName))
        | .ok (some expected) =>
          if !expected.isStr actual then .error (.integrity (.shaMismatch modelName actual))
          else dir.verifySignature tools metrics payload publicKey fingerprint expectedDataSha256

/-- `TransparencyLog`: the rows by their unique `artifact_sha256`, with the model's name. -/
structure TransparencyLog where
  /-- The table. -/
  rows : UniqueTable String String := .empty

namespace TransparencyLog

/-- Whether a text is a 64-digit lowercase hexadecimal number. -/
def isHash (s : String) : Bool :=
  s.length = 64 && s.toList.all fun c => c ∈ "0123456789abcdef".toList

/-- `append`; the `ValueError` is for texts that are no hashes. -/
def append (log : TransparencyLog) (modelName artifactSha256 : String) :
    Except String TransparencyLog :=
  if !isHash artifactSha256 then
    .error ("artifact_sha256 must be a 64-char lowercase hex string, got: '" ++ artifactSha256 ++
      "'")
  else
    match log.rows.insert? artifactSha256 modelName with
    | none => .ok log
    | some rows => .ok ⟨rows⟩

/-- `contains`. -/
def contains (log : TransparencyLog) (artifactSha256 : String) : Bool :=
  (log.rows.find? artifactSha256).isSome

end TransparencyLog

/-- `ModelArtifactVerifier.verify`, which returns the artifact's hash. -/
def ModelDir.verify (tools : TrustTools) (dir : ModelDir) (log : TransparencyLog)
    (modelName : String) (publicKey : Bytes) (expectedSha256 : Option String := none) :
    Except ModelIntegrityError String :=
  match dir.files (artifactFile modelName) with
  | none => .error (.artifactNotFound (dir.join (artifactFile modelName)))
  | some artifact =>
    let actual := Sha256.hexdigest artifact
    if (expectedSha256.map fun expected => decide (expected ≠ actual)).getD false then
      .error (.shaMismatch modelName actual)
    else
      match dir.files "metrics.json", dir.files "metrics.json.sig" with
      | none, _ => .error (.metricsNotFound dir.path)
      | some _, none => .error (.signatureNotFound (dir.join "metrics.json.sig"))
      | some payload, some signature =>
        if !tools.ed25519Verify publicKey signature payload then
          .error .badSignature
        else if !log.contains actual then .error (.notLogged modelName actual)
        else .ok actual

end LedgerLens.Detection
