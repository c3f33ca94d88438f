import LedgerLens.Detection.ModelArtifact
import Mathlib.Data.List.Induction

/-!
# What the load-time verifier binds

`ModelArtifactVerifier.verify` checks the signature of `metrics.json` and looks the
artifact's hash up in the transparency log, but never compares that hash with the one that
the signed metrics record. Whatever was published once, under any name, passes in the place
of any other artifact. The binding holds exactly for the directories in which no published
artifact stands under metrics that were signed for another.
-/

namespace LedgerLens.Detection

/-- A hash is one that `TransparencyLog.append` takes. -/
theorem isHash_hexdigest (content : Bytes) :
    TransparencyLog.isHash (Sha256.hexdigest content) = true := by
  unfold TransparencyLog.isHash
  rw [Bool.and_eq_true, decide_eq_true_iff, List.all_eq_true]
  refine ⟨Sha256.length_hexdigest content, ?_⟩
  intro c hc
  exact decide_eq_true (Sha256.mem_hexdigest hc)

namespace TransparencyLog

/-- The log after calls of `append` in order; a call that raises changes nothing. -/
def after (history : List (String × String)) : TransparencyLog :=
  history.foldl (fun log entry =>
    match log.append entry.1 entry.2 with
    | .ok log' => log'
    | .error _ => log) {}

/-- One call of `append` adds its hash, if that is one, and no other. -/
theorem contains_append (log : TransparencyLog) (modelName sha sha' : String) :
    (match log.append modelName sha with
      | .ok log' => log'
      | .error _ => log).contains sha' = true ↔
    log.contains sha' = true ∨ isHash sha = true ∧ sha = sha' := by
  unfold append
  cases hhash : isHash sha with
  | false => simp
  | true =>
    cases hinsert : log.rows.insert? sha modelName with
    | none =>
      have htaken := (log.rows.insert?_eq_none_iff sha modelName).mp hinsert
      have hmember : log.contains sha = true := Option.isSome_iff_ne_none.mpr htaken
      simp only [Bool.not_true, Bool.false_eq_true, if_false, true_and]
      constructor
      · exact Or.inl
      · rintro (h | rfl)
        · exact h
        · exact hmember
    | some rows =>
      have hfind := UniqueTable.find?_of_insert? hinsert sha'
      simp only [Bool.not_true, Bool.false_eq_true, if_false, true_and, contains, hfind]
      by_cases h : sha' = sha
      · simp [h]
      · have h' : sha ≠ sha' := fun heq => h heq.symm
        simp [h, h']

/-- The log holds the hashes published, whatever the names. -/
theorem contains_after_iff (history : List (String × String)) (sha : String) :
    (after history).contains sha = true ↔
      isHash sha = true ∧ ∃ modelName, (modelName, sha) ∈ history := by
  induction history using List.reverseRecOn with
  | nil => simp [after, contains]
  | append_singleton history entry ih =>
    obtain ⟨modelName, published⟩ := entry
    rw [after, List.foldl_append, List.foldl_cons, List.foldl_nil, contains_append]
    rw [after] at ih
    rw [ih]
    constructor
    · rintro (⟨hhash, other, hmem⟩ | ⟨hhash, rfl⟩)
      · exact ⟨hhash, other, List.mem_append_left _ hmem⟩
      · exact ⟨hhash, modelName, by simp⟩
    · rintro ⟨hhash, other, hmem⟩
      rcases List.mem_append.mp hmem with hold | hnew
      · exact Or.inl ⟨hhash, other, hold⟩
      · have heq : other = modelName ∧ sha = published := by simpa using hnew
        exact Or.inr ⟨heq.2 ▸ hhash, heq.2.symm⟩

end TransparencyLog

namespace ModelDir

section

variable (tools : TrustTools) (dir : ModelDir) (modelName : String) (publicKey : Bytes)

/-- `metrics.json` records a hash as that of the model's artifact. -/
def Lists (sha : String) : Prop :=
  ∃ payload metrics, dir.files "metrics.json" = some payload ∧
    tools.jsonLoad payload = some metrics ∧
    metrics.artifactSha256 modelName = .ok (some (.str sha))

/-- `metrics.json` has a valid signature beside it. -/
def Signed : Prop :=
  ∃ payload signature, dir.files "metrics.json" = some payload ∧
    dir.files "metrics.json.sig" = some signature ∧
    tools.ed25519Verify publicKey signature payload = true

/-- The key is the one whose fingerprint is configured, if one is. -/
def TrustedKey (fingerprint : String) (publicKey : Bytes) : Prop :=
  fingerprint = "" ∨ keyFingerprint publicKey = fingerprint

variable {tools dir modelName publicKey}

/-- When the verifier returns, and what. -/
theorem verify_eq_ok_iff {log : TransparencyLog} {sha : String} :
    dir.verify tools log modelName publicKey = .ok sha ↔
      (∃ artifact, dir.files (artifactFile modelName) = some artifact ∧
        Sha256.hexdigest artifact = sha) ∧
      dir.Signed tools publicKey ∧ log.contains sha = true := by
  unfold verify Signed
  cases hartifact : dir.files (artifactFile modelName) with
  | none => simp
  | some artifact =>
    cases hmetrics : dir.files "metrics.json" with
    | none => simp
    | some payload =>
      cases hsig : dir.files "metrics.json.sig" with
      | none => simp
      | some signature =>
        cases hvalid : tools.ed25519Verify publicKey signature payload with
        | false => simp [hvalid]
        | true =>
          cases hlog : log.contains (Sha256.hexdigest artifact) with
          | false =>
            have hnot : Sha256.hexdigest artifact = sha → ¬log.contains sha = true := by
              rintro rfl
              simp [hlog]
            simpa [hvalid, hlog] using hnot
          | true =>
            constructor
            · intro h
              have heq : Sha256.hexdigest artifact = sha := by simpa [hvalid, hlog] using h
              refine ⟨⟨artifact, rfl, heq⟩, ⟨payload, signature, rfl, rfl, hvalid⟩, ?_⟩
              exact heq ▸ hlog
            · rintro ⟨⟨content, hcontent, rfl⟩, -, -⟩
              obtain rfl := Option.some.inj hcontent
              simp [hvalid, hlog]

/-- A string that a JSON value is. -/
theorem isStr_iff {json : Json} {s : String} : json.isStr s = true ↔ json = .str s := by
  cases json <;> simp [Json.isStr]

/-- When the signature and the key pass. -/
theorem verifySignature_eq_ok_iff {metrics : Json} {payload : Bytes} {fingerprint : String} :
    dir.verifySignature tools metrics payload (some publicKey) fingerprint none = .ok () ↔
      (∃ signature, dir.files "metrics.json.sig" = some signature ∧
        tools.ed25519Verify publicKey signature payload = true) ∧
      TrustedKey fingerprint publicKey := by
  unfold verifySignature TrustedKey
  cases hsig : dir.files "metrics.json.sig" with
  | none => simp
  | some signature =>
    cases hvalid : tools.ed25519Verify publicKey signature payload with
    | false => simp [hvalid]
    | true =>
      by_cases hkey : fingerprint ≠ "" ∧ keyFingerprint publicKey ≠ fingerprint
      · simp [hvalid, hkey]
      · have htrusted : fingerprint = "" ∨ keyFingerprint publicKey = fingerprint := by
          by_cases hempty : fingerprint = ""
          · exact Or.inl hempty
          · exact Or.inr (not_not.mp fun hne => hkey ⟨hempty, hne⟩)
        simp [hvalid, hkey, htrusted]

/-- When `verify_chain` accepts, without an expected hash of the training data. -/
theorem verifyChain_eq_ok_iff {fingerprint : String} :
    dir.verifyChain tools modelName (some publicKey) fingerprint = .ok () ↔
      (∃ artifact, dir.files (artifactFile modelName) = some artifact ∧
        dir.Lists tools modelName (Sha256.hexdigest artifact)) ∧
      dir.Signed tools publicKey ∧ TrustedKey fingerprint publicKey := by
  unfold verifyChain Lists Signed
  cases hmetrics : dir.files "metrics.json" with
  | none => simp
  | some payload =>
    cases hload : tools.jsonLoad payload with
    | none => simp [hload]
    | some metrics =>
      cases hartifact : dir.files (artifactFile modelName) with
      | none => simp [hload]
      | some artifact =>
        cases hentry : metrics.artifactSha256 modelName with
        | error e => simp [hload, hentry]
        | ok recorded =>
          cases recorded with
          | none => simp [hload, hentry]
          | some expected =>
            by_cases hsame : expected = .str (Sha256.hexdigest artifact)
            · subst hsame
              simp [hload, hentry, Json.isStr, verifySignature_eq_ok_iff]
            · have hstr : expected.isStr (Sha256.hexdigest artifact) = false := by
                rw [Bool.eq_false_iff]
                exact fun h => hsame (isStr_iff.mp h)
              simp [hload, hentry, hstr, hsame]

/-- No artifact's file is the metrics file or its signature. -/
theorem artifactFile_ne {modelName file : String} (hfile : file.toList.getLast? ≠ some 'b') :
    file ≠ artifactFile modelName := by
  rintro rfl
  apply hfile
  simp [artifactFile, String.toList_append, List.getLast?_append]

/-- The binding of an accepted artifact: the signed metrics list its hash under its own
name, and `verify_chain` accepts it too. -/
def Bound (tools : TrustTools) (dir : ModelDir) (log : TransparencyLog) (modelName : String)
    (publicKey : Bytes) (fingerprint : String) : Prop :=
  ∀ sha, dir.verify tools log modelName publicKey = .ok sha →
    dir.Lists tools modelName sha ∧
      dir.verifyChain tools modelName (some publicKey) fingerprint = .ok ()

/-- A directory with a published artifact in a place that its signed metrics do not give
it, or signed with another key than the configured one. -/
structure Misplaced (tools : TrustTools) (dir : ModelDir) (history : List (String × String))
    (modelName : String) (publicKey : Bytes) (fingerprint : String) (artifact : Bytes) :
    Prop where
  /-- The artifact is the model's file. -/
  present : dir.files (artifactFile modelName) = some artifact
  /-- It was published, under whatever name. -/
  published : ∃ publishedName, (publishedName, Sha256.hexdigest artifact) ∈ history
  /-- The metrics are signed. -/
  signed : dir.Signed tools publicKey
  /-- They do not list it under the model's name, or the key is not the configured one. -/
  unbound : ¬(dir.Lists tools modelName (Sha256.hexdigest artifact) ∧
    TrustedKey fingerprint publicKey)

/-- The verifier binds artifacts to names for exactly the directories without a published
artifact out of its place. -/
theorem bound_iff_not_misplaced (tools : TrustTools) (dir : ModelDir)
    (history : List (String × String)) (modelName : String) (publicKey : Bytes)
    (fingerprint : String) :
    dir.Bound tools (.after history) modelName publicKey fingerprint ↔
      ∀ artifact, ¬dir.Misplaced tools history modelName publicKey fingerprint artifact := by
  constructor
  · intro hbound artifact hmisplaced
    have hlogged : (TransparencyLog.after history).contains (Sha256.hexdigest artifact) = true :=
      (TransparencyLog.contains_after_iff history _).mpr
        ⟨isHash_hexdigest artifact, hmisplaced.published⟩
    have hverify : dir.verify tools (.after history) modelName publicKey =
        .ok (Sha256.hexdigest artifact) :=
      verify_eq_ok_iff.mpr ⟨⟨artifact, hmisplaced.present, rfl⟩, hmisplaced.signed, hlogged⟩
    obtain ⟨hlists, hchain⟩ := hbound _ hverify
    exact hmisplaced.unbound ⟨hlists, (verifyChain_eq_ok_iff.mp hchain).2.2⟩
  · intro hplaced sha hverify
    obtain ⟨⟨artifact, hpresent, rfl⟩, hsigned, hlogged⟩ := verify_eq_ok_iff.mp hverify
    have hpublished := ((TransparencyLog.contains_after_iff history _).mp hlogged).2
    have hbound : dir.Lists tools modelName (Sha256.hexdigest artifact) ∧
        TrustedKey fingerprint publicKey := by
      by_contra hunbound
      exact hplaced artifact ⟨hpresent, hpublished, hsigned, hunbound⟩
    refine ⟨hbound.1, verifyChain_eq_ok_iff.mpr ?_⟩
    exact ⟨⟨artifact, hpresent, hbound.1⟩, hsigned, hbound.2⟩

end

/-- A number in `n` bytes, the least significant first, as keys and signatures are written. -/
def littleEndian : ℕ → ℕ → Bytes
  | 0, _ => []
  | n + 1, x => UInt8.ofNat (x % 256) :: littleEndian n (x / 256)

/-- A public key. -/
def signingKey : Bytes :=
  littleEndian 32 0x1a5107f7681a02af2523a6daf372e10e3a0764c9d3fe4bd5b70ab18201985ad7

/-- Metrics that list the hash of the one-byte artifact `2` as that of the model `rf`. -/
def signedMetrics : Bytes :=
  ("\x7b\n  \"rf\": \x7b\n    \"artifact_sha256\": " ++
    "\"dbc1b4c900ffe48d575b5da5c638040125f65db0fe3e24494b76ea986457d986\"\n  \x7d\n\x7d"
    ).toUTF8.data.toList

/-- Their signature under that key. -/
def metricsSignature : Bytes :=
  littleEndian 32 0x6a648674edafac18dcca6730144b2950a67e068757efc153571ac0a4162b68b0 ++
    littleEndian 32 0x7b605cc606f37678a75ed165196ea515d17e716fa910c653d3853116b7b63ea

/-- The decoder and the signature scheme on these metrics. -/
def metricsTools : TrustTools where
  jsonLoad content :=
    if content = signedMetrics then
      some (.obj [("rf", .obj [("artifact_sha256", .str (Sha256.hexdigest [2]))])])
    else none
  ed25519Verify publicKey signature payload :=
    publicKey = signingKey && signature = metricsSignature && payload = signedMetrics

/-- A directory with the artifact `1` of an earlier publication under these metrics. -/
def outdatedDir : ModelDir where
  path := "models"
  files name :=
    if name = "rf.joblib" then some [1]
    else if name = "metrics.json" then some signedMetrics
    else if name = "metrics.json.sig" then some metricsSignature
    else none

/-- After two publications of a model the verifier takes the first artifact under the
metrics that were signed for the second. -/
theorem outdated_artifact_not_bound :
    ¬outdatedDir.Bound metricsTools
      (.after [("rf", Sha256.hexdigest [1]), ("rf", Sha256.hexdigest [2])]) "rf" signingKey "" := by
  intro hbound
  have hverify : outdatedDir.verify metricsTools
      (.after [("rf", Sha256.hexdigest [1]), ("rf", Sha256.hexdigest [2])]) "rf" signingKey =
        .ok (Sha256.hexdigest [1]) := by
    decide +kernel
  have hrefused : outdatedDir.verifyChain metricsTools "rf" (some signingKey) "" =
      .error (.integrity (.shaMismatch "rf" (Sha256.hexdigest [1]))) := by
    decide +kernel
  have hchain := (hbound _ hverify).2
  rw [hrefused] at hchain
  cases hchain

end ModelDir

end LedgerLens.Detection
