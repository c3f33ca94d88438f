import LedgerLens.Library.Json
import Mathlib.Data.Rat.Defs

/-!
# Canonical dedup keys and decisions

The vocabulary of `pipeline/exactly_once.py` that both backends share: the key of a
logical unit of work, the states of its dedup record, and the answer a backend gives.
Times are seconds on a common clock and are kept as rationals.

The canonical form of a key joins the tenant, the source and the external id by colons, and all
three may have colons themselves. This file shows for which keys no other key has the same form.
-/

namespace LedgerLens.ExactlyOnce

/-- `DedupKey`: a logical unit of work. The tenant slot is reserved. -/
structure DedupKey where
  /-- The logical stream or job type. -/
  source : String
  /-- The unit within that source. -/
  externalId : String
  /-- The reserved tenant slot. -/
  tenantId : Option String := none
  deriving DecidableEq

/-- `DedupKey.canonical`. -/
def DedupKey.canonical (key : DedupKey) : String :=
  key.tenantId.getD "_" ++ ":" ++ key.source ++ ":" ++ key.externalId

/-- `DedupState`. -/
inductive DedupState where
  | new
  | staged
  | committed
  | failed
  | ttlExpiredReverify
  deriving DecidableEq, Repr

/-- The string a state is stored and compared as. -/
def DedupState.value : DedupState → String
  | .new => "new"
  | .staged => "staged"
  | .committed => "committed"
  | .failed => "failed"
  | .ttlExpiredReverify => "ttl_expired_reverify"

/-- `DedupDecision`: the state a caller is answered, with the stored payload if any. -/
structure DedupDecision (Payload : Type*) where
  /-- The answer itself. -/
  state : DedupState
  /-- What an earlier commit stored. -/
  payload : Option Payload := none
  deriving DecidableEq

/-- What the canonical form of a key is made of. -/
theorem DedupKey.toList_canonical (key : DedupKey) : key.canonical.toList =
    (key.tenantId.getD "_").toList ++
      ':' :: (key.source.toList ++ ':' :: key.externalId.toList) := by
  simp [canonical]

/-- The text before a colon and the text behind it. -/
theorem exists_split {text : String} (h : ':' ∈ text.toList) :
    ∃ left right : String, text = left ++ ":" ++ right ∧ left ≠ text ∧ right ≠ text := by
  obtain ⟨left, right, hsplit⟩ := List.append_of_mem h
  have htext : text = String.ofList left ++ ":" ++ String.ofList right := by
    rw [← String.toList_inj, hsplit]
    simp
  refine ⟨_, _, htext, fun hleft => ?_, fun hright => ?_⟩
  · have hlength := congrArg String.length (hleft.trans htext)
    simp only [String.length_append] at hlength
    have hone : ":".length = 1 := rfl
    omega
  · have hlength := congrArg String.length (hright.trans htext)
    simp only [String.length_append] at hlength
    have hone : ":".length = 1 := rfl
    omega

section

variable {key other : DedupKey}

/-- A key shares its form with another one if there is no tenant, if the tenant is written as none
would be, or if there is a colon in a field. -/
theorem exists_other (h : (key.tenantId = none ∨ key.tenantId = some "_") ∨
    (∃ tenant, key.tenantId = some tenant ∧ ':' ∈ tenant.toList) ∨ ':' ∈ key.source.toList ∨
      ':' ∈ key.externalId.toList) :
    ∃ other : DedupKey, other.canonical = key.canonical ∧ other ≠ key := by
  obtain ⟨source, externalId, tenantId⟩ := key
  obtain (rfl | rfl) | ⟨tenant, rfl, hcolon⟩ | hcolon | hcolon := h
  · exact ⟨⟨source, externalId, some "_"⟩, rfl, by simp⟩
  · exact ⟨⟨source, externalId, none⟩, rfl, by simp⟩
  · -- the tenant's last part can as well begin the source
    obtain ⟨left, right, rfl, hleft, -⟩ := exists_split hcolon
    refine ⟨⟨right ++ ":" ++ source, externalId, some left⟩, ?_, fun heq => ?_⟩
    · simp [DedupKey.canonical, String.append_assoc]
    · exact hleft (Option.some.inj (congrArg DedupKey.tenantId heq))
  · obtain ⟨left, right, rfl, hleft, -⟩ := exists_split hcolon
    refine ⟨⟨left, right ++ ":" ++ externalId, tenantId⟩, ?_, fun heq => ?_⟩
    · simp [DedupKey.canonical, String.append_assoc]
    · exact hleft (congrArg DedupKey.source heq)
  · obtain ⟨left, right, rfl, -, hright⟩ := exists_split hcolon
    refine ⟨⟨source ++ ":" ++ left, right, tenantId⟩, ?_, fun heq => ?_⟩
    · simp [DedupKey.canonical, String.append_assoc]
    · exact hright (congrArg DedupKey.externalId heq)

/-- The fields are read off a form in which the first two of them have no colon. -/
theorem fields_eq (htenant : ':' ∉ (key.tenantId.getD "_").toList)
    (hsource : ':' ∉ key.source.toList) (htenant' : ':' ∉ (other.tenantId.getD "_").toList)
    (hsource' : ':' ∉ other.source.toList) (h : other.canonical = key.canonical) :
    other.tenantId.getD "_" = key.tenantId.getD "_" ∧ other.source = key.source ∧
      other.externalId = key.externalId := by
  have hlists := congrArg String.toList h
  rw [DedupKey.toList_canonical, DedupKey.toList_canonical] at hlists
  obtain ⟨hgetD, hrest⟩ := Json.first_inj htenant' htenant hlists
  obtain ⟨hs, he⟩ := Json.first_inj hsource' hsource hrest
  exact ⟨String.toList_inj.mp hgetD, String.toList_inj.mp hs, String.toList_inj.mp he⟩

/-- If a form has two colons only, no field of a key of that form has any. -/
theorem colon_notMem (h : other.canonical = key.canonical)
    (htenant : ':' ∉ (key.tenantId.getD "_").toList) (hsource : ':' ∉ key.source.toList)
    (hexternalId : ':' ∉ key.externalId.toList) :
    ':' ∉ (other.tenantId.getD "_").toList ∧ ':' ∉ other.source.toList := by
  have hcount := congrArg (fun text => text.toList.count ':') h
  simp only [DedupKey.toList_canonical, List.count_append, List.count_cons_self,
    List.count_eq_zero_of_not_mem htenant, List.count_eq_zero_of_not_mem hsource,
    List.count_eq_zero_of_not_mem hexternalId] at hcount
  exact ⟨List.count_eq_zero.mp (by omega), List.count_eq_zero.mp (by omega)⟩

end

/-- A unit has a record of its own exactly if its tenant is given and is not an underscore, and no
field has a colon. -/
theorem canonical_unique_iff (key : DedupKey) :
    (∀ other : DedupKey, other.canonical = key.canonical → other = key) ↔
      (∃ tenant, key.tenantId = some tenant ∧ tenant ≠ "_" ∧ ':' ∉ tenant.toList) ∧
        ':' ∉ key.source.toList ∧ ':' ∉ key.externalId.toList := by
  constructor
  · intro hunique
    have hno : ¬∃ other : DedupKey, other.canonical = key.canonical ∧ other ≠ key :=
      fun ⟨other, hsame, hne⟩ => hne (hunique other hsame)
    refine ⟨?_, fun hcolon => hno (exists_other (.inr (.inr (.inl hcolon)))),
      fun hcolon => hno (exists_other (.inr (.inr (.inr hcolon))))⟩
    cases htenant : key.tenantId with
    | none => exact absurd (exists_other (.inl (.inl htenant))) hno
    | some tenant =>
      refine ⟨tenant, rfl, ?_, fun hcolon => hno (exists_other (.inr (.inl ⟨_, htenant, hcolon⟩)))⟩
      rintro rfl
      exact hno (exists_other (.inl (.inr htenant)))
  · rintro ⟨⟨tenant, htenant, hne, hcolon⟩, hsource, hexternalId⟩ other h
    have hkey : key.tenantId.getD "_" = tenant := by rw [htenant, Option.getD_some]
    rw [← hkey] at hcolon
    obtain ⟨htenant', hsource'⟩ := colon_notMem h hcolon hsource hexternalId
    obtain ⟨hgetD, hs, he⟩ := fields_eq hcolon hsource htenant' hsource' h
    obtain ⟨source', externalId', tenantId'⟩ := other
    obtain ⟨source, externalId, tenantId⟩ := key
    cases tenantId' with
    | none => exact absurd (hkey ▸ hgetD).symm hne
    | some tenant' =>
      obtain rfl : tenantId = some tenant := htenant
      obtain rfl : tenant' = tenant := hgetD
      obtain rfl : source' = source := hs
      obtain rfl : externalId' = externalId := he
      rfl

/-- Two trades of different sources with one record. -/
theorem canonical_colon : (⟨"horizon_trade:XLM", "1:7", none⟩ : DedupKey).canonical =
      (⟨"horizon_trade", "XLM:1:7", none⟩ : DedupKey).canonical ∧
    ¬∀ key other : DedupKey, other.canonical = key.canonical → other = key := by
  refine ⟨rfl, fun hall => ?_⟩
  have heq := hall ⟨"horizon_trade:XLM", "1:7", none⟩ ⟨"horizon_trade", "XLM:1:7", none⟩ rfl
  exact absurd (congrArg DedupKey.source heq) (by decide)

end LedgerLens.ExactlyOnce
