import LedgerLens.Federated.CertAuthority
import LedgerLens.Library.Runs

/-!
# What a revocation is worth

Whether a certificate is accepted depends on the row of its common name only, and issuing
replaces that row. This file follows whole histories of the authority: a revoked certificate
is never accepted again, and a rotation that raises changes nobody's status, exactly in the
histories that issue nothing to a name with a revoked certificate and in which no rotation
breaks off after its first transaction with something to lose.
-/

namespace LedgerLens.Federated

open Raising Transition

/-- Certificates none of whose names is accepted, in a table that is in order. -/
structure CertDatabase.Covered (db : CertDatabase) (now : ℤ) (retired : List Certificate) :
    Prop where
  /-- Their names are not accepted. -/
  refused : ∀ cert ∈ retired, db.accepts cert.cn now = false
  /-- Their names have a row. -/
  known : ∀ cert ∈ retired, db.participants.find? cert.cn ≠ none
  /-- Each certificate is recorded under its name. -/
  named : ∀ cn record, db.participants.find? cn = some record → record.cert.cn = cn

/-- A call of the authority. -/
inductive CertCall where
  /-- `issue_certificate`. -/
  | issue (request : CertRequest)
  /-- `revoke_certificate`. -/
  | revoke (cn actor : String)
  /-- `rotate_certificate`. -/
  | rotate (request : CertRequest)

/-- One call of a history. -/
structure CertOperation where
  /-- The time since the previous call. -/
  elapsed : ℕ
  /-- What is decided outside; its clock is not used. -/
  env : CertEnv
  /-- The call. -/
  call : CertCall

/-- The authority in the course of time. -/
structure CertHistory where
  /-- The database. -/
  db : CertDatabase := {}
  /-- The clock. -/
  now : ℤ
  /-- The certificates that have been revoked, by name or in the course of a rotation. -/
  retired : List Certificate := []
  /-- For each rotation that has raised, whether its name was accepted before and after. -/
  brokenOff : List (Bool × Bool) := []

/-- The certificate that is recorded for a name. -/
def CertDatabase.recorded (db : CertDatabase) (cn : String) : Option Certificate :=
  (db.participants.find? cn).map ParticipantCertRecord.cert

/-- The certificate that a call revokes: the one recorded for the name, if the transaction
that revokes commits. -/
def CertCall.retires (call : CertCall) (env : CertEnv) (db : CertDatabase) : Option Certificate :=
  match call with
  | issue _ => none
  | revoke cn _ => if env.revokes then db.recorded cn else none
  | rotate request => if env.revokes then db.recorded request.cn else none

/-- Run a call: whether it returns, and the database it leaves. -/
def CertCall.run (call : CertCall) (env : CertEnv) (db : CertDatabase) : Bool × CertDatabase :=
  match call with
  | issue request =>
    let r := exec (issueCertificate env request) db
    (r.1.isOk, r.2)
  | revoke cn actor =>
    let r := exec (revokeCertificate env cn actor) db
    (r.1.isOk, r.2)
  | rotate request =>
    let r := exec (rotateCertificate env request) db
    (r.1.isOk, r.2)

namespace CertHistory

/-- What is decided outside a call, with the clock of the history. -/
def env (h : CertHistory) (op : CertOperation) : CertEnv :=
  { op.env with now := h.now + op.elapsed }

/-- One call. -/
def step (h : CertHistory) (op : CertOperation) : CertHistory where
  db := (op.call.run (h.env op) h.db).2
  now := h.now + op.elapsed
  retired := h.retired ++ (op.call.retires (h.env op) h.db).toList
  brokenOff :=
    match op.call with
    | .rotate request =>
      if (op.call.run (h.env op) h.db).1 then h.brokenOff
      else h.brokenOff ++ [(h.db.accepts request.cn (h.now + op.elapsed),
        (op.call.run (h.env op) h.db).2.accepts request.cn (h.now + op.elapsed))]
    | _ => h.brokenOff

/-- What a revocation is meant to be worth. -/
structure Final (h : CertHistory) : Prop where
  /-- No revoked certificate is accepted. -/
  retired : ∀ cert ∈ h.retired, h.db.accepts cert.cn h.now = false
  /-- No rotation that has raised has changed the status of its name. -/
  brokenOff : ∀ statuses ∈ h.brokenOff, statuses.1 = statuses.2

/-- The condition under which a call keeps that. An issued certificate is for a name none of
whose certificates are revoked, or valid for no time. A rotation that gets past its first
transaction either goes through, for a name without a certificate or with no validity, or
raises with no status to lose and no validity to give. -/
def Harmless (h : CertHistory) (op : CertOperation) : Prop :=
  match op.call with
  | .issue request =>
    (h.env op).builds = true → (h.env op).issues = true → 0 < request.lifetime (h.env op) →
      ∀ cert ∈ h.retired, cert.cn ≠ request.cn
  | .revoke _ _ => True
  | .rotate request =>
    (h.env op).revokes = true →
      if (h.env op).builds = true ∧ (h.env op).issues = true then
        if (h.env op).audits = true then
          0 < request.lifetime (h.env op) → h.db.recorded request.cn = none
        else
          request.lifetime (h.env op) ≤ 0 ∧
            h.db.accepts request.cn (h.now + op.elapsed) = false
      else
        h.db.accepts request.cn (h.now + op.elapsed) = false

/-- The invariant of the harmless histories. -/
structure Settled (h : CertHistory) : Prop where
  /-- No name of a revoked certificate is accepted. -/
  covered : h.db.Covered h.now h.retired
  /-- No rotation that has raised has changed the status of its name. -/
  brokenOff : ∀ statuses ∈ h.brokenOff, statuses.1 = statuses.2

/-- The invariant implies what a revocation is meant to be worth. -/
theorem Settled.final {h : CertHistory} (hs : h.Settled) : h.Final :=
  ⟨hs.covered.refused, hs.brokenOff⟩

end CertHistory

/-- A transaction. -/
theorem exec_transaction (commits : Bool) (change : CertDatabase → CertDatabase)
    (db : CertDatabase) :
    exec (transaction commits change) db =
      if commits then (.ok ⟨⟩, change db) else (.error .database, db) := by
  cases commits <;> rfl

/-- When an issue goes through, and what it leaves. -/
theorem exec_issueCertificate (env : CertEnv) (request : CertRequest) (db : CertDatabase) :
    exec (issueCertificate env request) db =
      if env.builds = true then
        if env.issues = true then (.ok (request.certificate env), db.issue env request)
        else (.error .database, db)
      else (.error .builder, db) := by
  unfold issueCertificate
  cases env.builds <;> cases env.issues <;> rfl

/-- A revocation leaves the row marked if there is one. -/
theorem run_revoke (env : CertEnv) (cn actor : String) (db : CertDatabase) :
    ((CertCall.revoke cn actor).run env db).2 =
      if env.revokes = true then db.revoke cn env.now actor none else db := by
  show (exec (revokeCertificate env cn actor) db).2 = _
  rw [revokeCertificate, exec_bind_of_ok (exec_get db)]
  cases hfind : db.participants.find? cn with
  | none =>
    have hsame : db.revoke cn env.now actor none = db := by rw [CertDatabase.revoke, hfind]
    simp [hsame]
  | some record =>
    simp only [Option.isNone_some, Bool.false_eq_true, if_false]
    rw [exec_transaction]
    split <;> rfl

/-- When a rotation goes through, and what it leaves. -/
theorem run_rotate (env : CertEnv) (request : CertRequest) (db : CertDatabase) :
    (CertCall.rotate request).run env db =
      let db₁ := db.revoke request.cn env.now request.actor (some "superseded by rotation")
      let db₂ := db₁.issue env request
      if env.revokes = true then
        if env.builds = true ∧ env.issues = true then
          if env.audits = true then (true, db₂.recordRotation env request)
          else (false, db₂)
        else (false, db₁)
      else (false, db) := by
  simp only [CertCall.run, rotateCertificate, exec_bind, exec_transaction,
    exec_issueCertificate]
  cases env.revokes <;> cases env.builds <;> cases env.issues <;> cases env.audits <;> rfl

namespace CertDatabase

/-- A revocation marks the row of its name. -/
theorem find?_revoke (db : CertDatabase) (cn cn' actor : String) (now : ℤ)
    (detail : Option String) :
    (db.revoke cn now actor detail).participants.find? cn' =
      if cn' = cn then
        (db.participants.find? cn).map fun record =>
          { record with revoked := true, revokedAt := some now }
      else db.participants.find? cn' := by
  unfold revoke
  cases hfind : db.participants.find? cn with
  | none =>
    by_cases hcn : cn' = cn
    · rw [if_pos hcn, hcn]
      exact hfind
    · rw [if_neg hcn]
  | some record =>
    simp only [markRevoked, UniqueTable.find?_modify, hfind]

/-- An issue leaves an unrevoked row for its name. -/
theorem find?_issue (db : CertDatabase) (env : CertEnv) (request : CertRequest) (cn : String) :
    (db.issue env request).participants.find? cn =
      if cn = request.cn then
        some {
          allowedModels := request.modelsStr
          issuedAt := env.now
          expiresAt := (request.certificate env).notValidAfter
          cert := request.certificate env }
      else db.participants.find? cn := by
  simp only [issue, UniqueTable.find?_put, UniqueTable.find?_deleteWhere]
  by_cases hcn : cn = request.cn
  · rw [if_pos hcn, if_pos hcn]
    rfl
  · rw [if_neg hcn, if_neg hcn]
    cases db.participants.find? cn <;> simp [hcn]

/-- Who is accepted after a revocation. -/
theorem accepts_revoke (db : CertDatabase) (cn cn' actor : String) (now now' : ℤ)
    (detail : Option String) :
    (db.revoke cn now actor detail).accepts cn' now' =
      if cn' = cn then false else db.accepts cn' now' := by
  unfold accepts isRevoked isExpired
  rw [find?_revoke]
  by_cases hcn : cn' = cn
  · rw [if_pos hcn, if_pos hcn]
    cases db.participants.find? cn <;> rfl
  · rw [if_neg hcn, if_neg hcn]

/-- Who is accepted after an issue. -/
theorem accepts_issue (db : CertDatabase) (env : CertEnv) (request : CertRequest)
    (cn : String) :
    (db.issue env request).accepts cn env.now =
      if cn = request.cn then decide (0 < request.lifetime env)
      else db.accepts cn env.now := by
  unfold accepts isRevoked isExpired
  rw [find?_issue]
  by_cases hcn : cn = request.cn
  · rw [if_pos hcn, if_pos hcn]
    have hexpires : (request.certificate env).notValidAfter =
        env.now + request.lifetime env * 86400 := rfl
    rw [Bool.not_false, Bool.true_and]
    by_cases hpos : 0 < request.lifetime env
    · have hvalid : ¬(request.certificate env).notValidAfter ≤ env.now := by
        rw [hexpires]
        omega
      rw [decide_eq_true hpos]
      exact congrArg not (decide_eq_false hvalid)
    · have hexpired : (request.certificate env).notValidAfter ≤ env.now := by
        rw [hexpires]
        omega
      rw [decide_eq_false hpos]
      exact congrArg not (decide_eq_true hexpired)
  · rw [if_neg hcn, if_neg hcn]

/-- A name that is not accepted is not accepted later. -/
theorem accepts_later {db : CertDatabase} {cn : String} {now now' : ℤ} (hle : now ≤ now')
    (h : db.accepts cn now = false) : db.accepts cn now' = false := by
  unfold accepts isExpired at h ⊢
  cases hfind : db.participants.find? cn with
  | none => simp
  | some record =>
    simp only [hfind, Bool.and_eq_false_iff, Bool.not_eq_false', decide_eq_true_eq] at h ⊢
    obtain hrevoked | hexpired := h
    · exact .inl hrevoked
    · exact .inr (hexpired.trans hle)

/-- A name that is accepted has a certificate. -/
theorem exists_recorded_of_accepts {db : CertDatabase} {cn : String} {now : ℤ}
    (h : db.accepts cn now = true) : ∃ cert, db.recorded cn = some cert := by
  unfold accepts isRevoked at h
  unfold recorded
  cases hfind : db.participants.find? cn with
  | none => simp [hfind] at h
  | some record => exact ⟨record.cert, rfl⟩

variable {db : CertDatabase} {now : ℤ} {retired : List Certificate}

/-- Time changes nothing for the better. -/
theorem Covered.later {now' : ℤ} (h : db.Covered now retired) (hle : now ≤ now') :
    db.Covered now' retired where
  refused cert hcert := accepts_later hle (h.refused cert hcert)
  known := h.known
  named := h.named

/-- A revocation covers the certificate that is recorded for its name. -/
theorem Covered.revoke (h : db.Covered now retired) (cn actor : String) (now' : ℤ)
    (detail : Option String) :
    (db.revoke cn now' actor detail).Covered now (retired ++ (db.recorded cn).toList) := by
  have hsplit : ∀ cert ∈ retired ++ (db.recorded cn).toList,
      cert ∈ retired ∨ cert.cn = cn ∧ db.participants.find? cn ≠ none := by
    intro cert hcert
    rw [List.mem_append, Option.mem_toList, recorded] at hcert
    obtain hold | hnew := hcert
    · exact .inl hold
    · obtain ⟨record, hfind, rfl⟩ := Option.map_eq_some_iff.mp hnew
      exact .inr ⟨h.named cn record hfind, by simp [hfind]⟩
  constructor
  case refused =>
    intro cert hcert
    rw [accepts_revoke]
    by_cases hcn : cert.cn = cn
    · rw [if_pos hcn]
    · rw [if_neg hcn]
      obtain hold | ⟨hnew, -⟩ := hsplit cert hcert
      · exact h.refused cert hold
      · exact absurd hnew hcn
  case known =>
    intro cert hcert
    rw [find?_revoke]
    by_cases hcn : cert.cn = cn
    · rw [if_pos hcn]
      obtain hold | ⟨-, hfind⟩ := hsplit cert hcert
      · have hfind := h.known cert hold
        rw [hcn] at hfind
        simpa using hfind
      · simpa using hfind
    · rw [if_neg hcn]
      obtain hold | ⟨hnew, -⟩ := hsplit cert hcert
      · exact h.known cert hold
      · exact absurd hnew hcn
  case named =>
    intro cn' record hfind
    rw [find?_revoke] at hfind
    by_cases hcn : cn' = cn
    · rw [if_pos hcn] at hfind
      obtain ⟨record', hfind', rfl⟩ := Option.map_eq_some_iff.mp hfind
      rw [hcn]
      exact h.named cn record' hfind'
    · rw [if_neg hcn] at hfind
      exact h.named cn' record hfind

/-- An issue leaves the revoked certificates covered unless it is good for the name of one. -/
theorem Covered.issue (env : CertEnv) (request : CertRequest) (h : db.Covered env.now retired)
    (hother : 0 < request.lifetime env → ∀ cert ∈ retired, cert.cn ≠ request.cn) :
    (db.issue env request).Covered env.now retired := by
  constructor
  case refused =>
    intro cert hcert
    rw [accepts_issue]
    by_cases hcn : cert.cn = request.cn
    · rw [if_pos hcn, decide_eq_false_iff_not]
      exact fun hpos => hother hpos cert hcert hcn
    · rw [if_neg hcn]
      exact h.refused cert hcert
  case known =>
    intro cert hcert
    rw [find?_issue]
    by_cases hcn : cert.cn = request.cn
    · simp [hcn]
    · rw [if_neg hcn]
      exact h.known cert hcert
  case named =>
    intro cn record hfind
    rw [find?_issue] at hfind
    by_cases hcn : cn = request.cn
    · rw [if_pos hcn, Option.some.injEq] at hfind
      rw [← hfind, hcn]
      rfl
    · rw [if_neg hcn] at hfind
      exact h.named cn record hfind

/-- The audit row of a rotation changes nothing. -/
theorem Covered.recordRotation (h : db.Covered now retired) (env : CertEnv)
    (request : CertRequest) : (db.recordRotation env request).Covered now retired :=
  ⟨h.refused, h.known, h.named⟩

end CertDatabase

namespace CertHistory

/-- A rotation that raises is recorded with the status before and after. -/
theorem brokenOff_rotate {h : CertHistory} {op : CertOperation} {request : CertRequest}
    (hcall : op.call = .rotate request) {db : CertDatabase}
    (hrun : (CertCall.rotate request).run (h.env op) h.db = (false, db)) :
    (h.step op).brokenOff = h.brokenOff ++
      [(h.db.accepts request.cn (h.now + op.elapsed),
        db.accepts request.cn (h.now + op.elapsed))] := by
  simp only [step, hcall, hrun]
  rfl

/-- A harmless issue keeps the invariant. -/
theorem Settled.issue {h : CertHistory} {op : CertOperation} {request : CertRequest}
    (hs : h.Settled) (hcall : op.call = .issue request) (hcond : h.Harmless op) :
    (h.step op).Settled := by
  rw [Harmless, hcall] at hcond
  have hlater := hs.covered.later (show h.now ≤ h.now + op.elapsed by omega)
  constructor
  · simp only [step, hcall, CertCall.run, CertCall.retires, Option.toList_none,
      List.append_nil, exec_issueCertificate]
    split
    · split
      · rename_i hbuilds hissues
        exact hlater.issue (h.env op) request fun hpos => hcond hbuilds hissues hpos
      · exact hlater
    · exact hlater
  · simp only [step, hcall]
    exact hs.brokenOff

/-- A revocation keeps the invariant. -/
theorem Settled.revoke {h : CertHistory} {op : CertOperation} {cn actor : String}
    (hs : h.Settled) (hcall : op.call = .revoke cn actor) : (h.step op).Settled := by
  have hlater := hs.covered.later (show h.now ≤ h.now + op.elapsed by omega)
  constructor
  · simp only [step, hcall, run_revoke, CertCall.retires]
    split
    · exact hlater.revoke cn actor _ none
    · rw [Option.toList_none, List.append_nil]
      exact hlater
  · simp only [step, hcall]
    exact hs.brokenOff

/-- The database after a rotation. -/
theorem db_rotate {h : CertHistory} {op : CertOperation} {request : CertRequest}
    (hcall : op.call = .rotate request) {result : Bool × CertDatabase}
    (hrun : (CertCall.rotate request).run (h.env op) h.db = result) :
    (h.step op).db = result.2 := by
  simp only [step, hcall, hrun]

/-- A rotation revokes what was recorded for its name if its first transaction commits. -/
theorem retired_rotate {h : CertHistory} {op : CertOperation} {request : CertRequest}
    (hcall : op.call = .rotate request) :
    (h.step op).retired = h.retired ++
      if (h.env op).revokes then (h.db.recorded request.cn).toList else [] := by
  simp only [step, hcall, CertCall.retires]
  cases (h.env op).revokes <;> rfl

/-- A rotation that raises keeps the invariant if it leaves the revoked certificates covered
and the status of its name as it was. -/
theorem Settled.raises {h : CertHistory} {op : CertOperation} {request : CertRequest}
    (hs : h.Settled) (hcall : op.call = .rotate request) {db : CertDatabase}
    (hrun : (CertCall.rotate request).run (h.env op) h.db = (false, db))
    (hcovered : db.Covered (h.now + op.elapsed) (h.step op).retired)
    (hsame : h.db.accepts request.cn (h.now + op.elapsed) =
      db.accepts request.cn (h.now + op.elapsed)) : (h.step op).Settled where
  covered := by
    rw [db_rotate hcall hrun]
    exact hcovered
  brokenOff statuses hmem := by
    rw [brokenOff_rotate hcall hrun, List.mem_append, List.mem_singleton] at hmem
    obtain hold | rfl := hmem
    · exact hs.brokenOff statuses hold
    · exact hsame

/-- A harmless rotation keeps the invariant. -/
theorem Settled.rotate {h : CertHistory} {op : CertOperation} {request : CertRequest}
    (hs : h.Settled) (hcall : op.call = .rotate request) (hcond : h.Harmless op) :
    (h.step op).Settled := by
  rw [Harmless, hcall] at hcond
  have hlater := hs.covered.later (show h.now ≤ h.now + op.elapsed by omega)
  have hrun := run_rotate (h.env op) request h.db
  have hretired := retired_rotate (h := h) hcall
  by_cases hrevokes : (h.env op).revokes = true
  · have hrevoked := hlater.revoke request.cn request.actor (h.env op).now
      (some "superseded by rotation")
    have hcond := hcond hrevokes
    rw [if_pos hrevokes] at hretired hrun
    by_cases hissued : (h.env op).builds = true ∧ (h.env op).issues = true
    · rw [if_pos hissued] at hcond hrun
      by_cases haudits : (h.env op).audits = true
      · -- The rotation goes through.
        rw [if_pos haudits] at hcond hrun
        constructor
        · rw [db_rotate hcall hrun, hretired]
          refine (hrevoked.issue (h.env op) request fun hpos => ?_).recordRotation _ _
          intro cert hcert hcn
          have hnone := hcond hpos
          rw [hnone, Option.toList_none, List.append_nil] at hcert
          have hfind := hs.covered.known cert hcert
          rw [CertDatabase.recorded, Option.map_eq_none_iff] at hnone
          rw [hcn] at hfind
          exact hfind hnone
        · simp only [step, hcall, hrun]
          exact hs.brokenOff
      · -- It raises after the second transaction.
        rw [if_neg haudits] at hcond hrun
        obtain ⟨hlifetime, hrefused⟩ := hcond
        refine hs.raises hcall hrun ?_ ?_
        · rw [hretired]
          exact hrevoked.issue (h.env op) request fun hpos =>
            absurd hpos (not_lt.mpr hlifetime)
        · have hissue := (h.db.revoke request.cn (h.env op).now request.actor
            (some "superseded by rotation")).accepts_issue (h.env op) request request.cn
          rw [if_pos rfl, decide_eq_false (not_lt.mpr hlifetime)] at hissue
          exact hrefused.trans hissue.symm
    · -- It raises after the first transaction.
      rw [if_neg hissued] at hcond hrun
      refine hs.raises hcall hrun ?_ ?_
      · rw [hretired]
        exact hrevoked
      · rw [hcond, CertDatabase.accepts_revoke, if_pos rfl]
  · -- It raises before it has done anything.
    rw [if_neg hrevokes] at hretired hrun
    refine hs.raises hcall hrun ?_ rfl
    rw [hretired, List.append_nil]
    exact hlater

/-- A harmless call keeps the invariant. -/
theorem Settled.step {h : CertHistory} {op : CertOperation} (hs : h.Settled)
    (hcond : h.Harmless op) : (h.step op).Settled := by
  cases hcall : op.call with
  | issue request => exact hs.issue hcall hcond
  | revoke cn actor => exact hs.revoke hcall
  | rotate request => exact hs.rotate hcall hcond

/-- A certificate is revoked and its name accepted in the same step. -/
theorem not_final_of_accepts {h : CertHistory} {cert : Certificate} (hmem : cert ∈ h.retired)
    (haccepts : h.db.accepts cert.cn h.now = true) : ¬h.Final := by
  intro hfinal
  rw [hfinal.retired cert hmem] at haccepts
  cases haccepts

/-- An issue that is not harmless makes a revoked certificate acceptable again. -/
theorem not_final_issue {h : CertHistory} {op : CertOperation} {request : CertRequest}
    (hcall : op.call = .issue request) (hcond : ¬h.Harmless op) : ¬(h.step op).Final := by
  rw [Harmless, hcall] at hcond
  simp only [not_forall, not_not] at hcond
  obtain ⟨hbuilds, hissues, hpos, cert, hcert, hcn⟩ := hcond
  refine not_final_of_accepts (List.mem_append_left _ hcert) ?_
  have hdb : (h.step op).db = h.db.issue (h.env op) request := by
    simp only [step, hcall, CertCall.run, exec_issueCertificate]
    rw [if_pos hbuilds, if_pos hissues]
  rw [hdb, hcn]
  exact (h.db.accepts_issue _ _ _).trans (by rw [if_pos rfl, decide_eq_true hpos])

/-- In a history that stays final, a rotation that raises leaves the status of its name. -/
theorem Final.accepts_eq {h : CertHistory} {op : CertOperation} {request : CertRequest}
    (hfinal : (h.step op).Final) (hcall : op.call = .rotate request) {db : CertDatabase}
    (hrun : (CertCall.rotate request).run (h.env op) h.db = (false, db)) :
    h.db.accepts request.cn (h.now + op.elapsed) =
      db.accepts request.cn (h.now + op.elapsed) := by
  have hmem : (h.db.accepts request.cn (h.now + op.elapsed),
      db.accepts request.cn (h.now + op.elapsed)) ∈ (h.step op).brokenOff := by
    rw [brokenOff_rotate hcall hrun]
    exact List.mem_append_right _ List.mem_cons_self
  exact hfinal.brokenOff _ hmem

/-- In such a history, a rotation that revokes a certificate leaves its name refused. -/
theorem Final.refuses {h : CertHistory} {op : CertOperation} {request : CertRequest}
    (hs : h.Settled) (hfinal : (h.step op).Final) (hcall : op.call = .rotate request)
    (hrevokes : (h.env op).revokes = true) {cert : Certificate}
    (hcert : h.db.recorded request.cn = some cert) {result : Bool × CertDatabase}
    (hrun : (CertCall.rotate request).run (h.env op) h.db = result) :
    result.2.accepts request.cn (h.now + op.elapsed) = false := by
  have hmem : cert ∈ (h.step op).retired := by
    rw [retired_rotate hcall, if_pos hrevokes, hcert]
    simp
  have hcn : cert.cn = request.cn := by
    obtain ⟨record, hfind, rfl⟩ := Option.map_eq_some_iff.mp hcert
    exact hs.covered.named _ record hfind
  have hrefused := hfinal.retired cert hmem
  rwa [db_rotate hcall hrun, hcn] at hrefused

/-- A rotation that is not harmless makes the certificate that it revokes acceptable again,
or raises and has changed the status of its name. -/
theorem not_final_rotate {h : CertHistory} {op : CertOperation} {request : CertRequest}
    (hs : h.Settled) (hcall : op.call = .rotate request) (hcond : ¬h.Harmless op) :
    ¬(h.step op).Final := by
  intro hfinal
  rw [Harmless, hcall] at hcond
  simp only [Classical.not_imp] at hcond
  obtain ⟨hrevokes, hcond⟩ := hcond
  have hrun := run_rotate (h.env op) request h.db
  have haccepts := (h.db.revoke request.cn (h.env op).now request.actor
    (some "superseded by rotation")).accepts_issue (h.env op) request request.cn
  rw [if_pos rfl] at haccepts
  rw [if_pos hrevokes] at hrun
  by_cases hissued : (h.env op).builds = true ∧ (h.env op).issues = true
  · rw [if_pos hissued] at hcond hrun
    by_cases haudits : (h.env op).audits = true
    · rw [if_pos haudits, Classical.not_imp, ← ne_eq, Option.ne_none_iff_exists'] at hcond
      obtain ⟨hpos, cert, hcert⟩ := hcond
      rw [if_pos haudits] at hrun
      have hrefused := hfinal.refuses hs hcall hrevokes hcert hrun
      have haccepted := haccepts.trans (decide_eq_true hpos)
      exact Bool.false_ne_true (hrefused.symm.trans haccepted)
    · rw [if_neg haudits, not_and_or] at hcond
      rw [if_neg haudits] at hrun
      have hsame := hfinal.accepts_eq hcall hrun
      by_cases hpos : 0 < request.lifetime (h.env op)
      · have haccepted := haccepts.trans (decide_eq_true hpos)
        obtain ⟨cert, hcert⟩ := CertDatabase.exists_recorded_of_accepts (hsame.trans haccepted)
        have hrefused := hfinal.refuses hs hcall hrevokes hcert hrun
        exact Bool.false_ne_true (hrefused.symm.trans haccepted)
      · obtain hlifetime | hbefore := hcond
        · exact hlifetime (not_lt.mp hpos)
        · exact hbefore (hsame.trans (haccepts.trans (decide_eq_false hpos)))
  · rw [if_neg hissued] at hcond hrun
    have hsame := hfinal.accepts_eq hcall hrun
    rw [CertDatabase.accepts_revoke, if_pos rfl] at hsame
    exact hcond hsame

/-- A call that is not harmless does harm. -/
theorem not_final_of_not_harmless {h : CertHistory} {op : CertOperation} (hs : h.Settled)
    (hcond : ¬h.Harmless op) : ¬(h.step op).Final := by
  cases hcall : op.call with
  | issue request => exact not_final_issue hcall hcond
  | revoke cn actor =>
    rw [Harmless, hcall] at hcond
    exact absurd trivial hcond
  | rotate request => exact not_final_rotate hs hcall hcond

/-- A history starts with the invariant. -/
theorem settled_start (now : ℤ) : Settled { now } where
  covered := by
    constructor
    case refused =>
      intro cert hcert
      cases hcert
    case known =>
      intro cert hcert
      cases hcert
    case named =>
      intro cn record hfind
      cases hfind
  brokenOff statuses hmem := by cases hmem

/-- In every history that starts with an empty database, whichever transactions fail, no
revoked certificate is accepted again and no rotation that raises changes a status exactly
when all calls are harmless. -/
theorem always_final_iff (now : ℤ) (ops : List CertOperation) :
    Always step Final { now } ops ↔ Meets step Harmless { now } ops :=
  always_iff_meets Settled (fun _ hs => hs.final) (fun _ _ hs hcond => hs.step hcond)
    (fun _ _ hs hcond => not_final_of_not_harmless hs hcond)
    (settled_start now) ops

/-- A rotation whose second transaction fails. -/
def failedRotation : List CertOperation :=
  [{ elapsed := 0, env := { now := 0, serial := 1 },
     call := .issue { cn := "participant-A", allowedModels := ["m1"] } },
   { elapsed := 60, env := { now := 0, serial := 2, issues := false },
     call := .rotate { cn := "participant-A", allowedModels := ["m1"] } }]

/-- A certificate that is revoked, and another that is issued to its name. -/
def revokedAndReissued : List CertOperation :=
  [{ elapsed := 0, env := { now := 0, serial := 1 },
     call := .issue { cn := "participant-A", allowedModels := ["m1"] } },
   { elapsed := 60, env := { now := 0, serial := 2 },
     call := .revoke "participant-A" "ca" },
   { elapsed := 60, env := { now := 0, serial := 3 },
     call := .issue { cn := "participant-A", allowedModels := ["m1"] } }]

/-- The rotation that raises leaves its name without a certificate that is accepted, and the
revoked certificate is accepted again. -/
theorem revocation_not_final :
    ¬Always step Final { now := 0 } failedRotation ∧
      ¬Always step Final { now := 0 } revokedAndReissued := by
  constructor
  · intro halways
    have hsame := halways.last.brokenOff (true, false) (by decide +kernel)
    cases hsame
  · intro halways
    have hrefused := halways.last.retired ⟨1, "participant-A", "m1", 0, 31536000⟩
      (by decide +kernel)
    revert hrefused
    decide +kernel

end CertHistory

end LedgerLens.Federated
