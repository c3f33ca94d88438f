import Mathlib.Data.List.Basic

/-!
# Files with one record a line

Records are written to a file one on each line. A crash during a write leaves some first part
of what was to be written: it can end in the middle of a line or right before the newline. A
line that is put after such an end is run together with it, and neither is a record then.
-/

namespace LedgerLens

/-- Where a crash cuts the writing of a line. -/
inductive Cut where
  /-- Nothing of the line is written. -/
  | before
  /-- Some of the record is written, but not all of it. -/
  | torn
  /-- The record is written, but not the newline. -/
  | unterminated
  /-- The whole line is written. -/
  | after
deriving DecidableEq

/-- A file of lines. -/
structure LineFile (Record : Type*) where
  /-- The lines, each with its record unless it is not one. -/
  lines : List (Option Record) := []
  /-- What follows the last newline, if anything does. -/
  rest : Option (Option Record) := none

namespace LineFile

variable {Record : Type*}

/-- All lines of the file, also one that does not end in a newline. -/
def allLines (f : LineFile Record) : List (Option Record) := f.lines ++ f.rest.toList

/-- The records of the file, nothing if one of its lines is not a record. -/
def read? (f : LineFile Record) : Option (List Record) :=
  if f.allLines.all Option.isSome then some (f.allLines.filterMap id) else none

/-- The file with these records. -/
def ofRecords (records : List Record) : LineFile Record where
  lines := records.map some

/-- A line put at the end of the file. -/
def append (f : LineFile Record) (r : Record) : LineFile Record where
  lines := f.lines ++ [if f.rest.isSome then none else some r]

/-- The file if a crash cuts the writing of a line at its end. -/
def appendPart (f : LineFile Record) (r : Record) : Cut → LineFile Record
  | .before => f
  | .torn => { f with rest := some none }
  | .unterminated => { f with rest := some (if f.rest.isSome then none else some r) }
  | .after => f.append r

/-- The file if a crash cuts the writing of records into a new file in the line that follows the
first `n`. -/
def writePart (records : List Record) (n : ℕ) (cut : Cut) : LineFile Record :=
  match records.drop n with
  | [] => ofRecords records
  | r :: _ => (ofRecords (records.take n)).appendPart r cut

/-- A file that can be read and ends in a newline. -/
def Intact (f : LineFile Record) : Prop := f.rest = none ∧ f.read? ≠ none

/-- A file that can be read and has a record with some property. -/
def Holds (f : LineFile Record) (p : Record → Prop) : Prop :=
  ∃ records, f.read? = some records ∧ ∃ r ∈ records, p r

variable {f : LineFile Record} {r : Record} {records : List Record} {p : Record → Prop}

theorem not_holds (h : f.read? = none) : ¬f.Holds p := by
  rintro ⟨records, hread, -⟩
  rw [h] at hread
  cases hread

/-- Records that are written into a new file can be read from it. -/
@[simp] theorem read?_ofRecords (records : List Record) :
    (ofRecords records).read? = some records := by
  unfold read? allLines ofRecords
  simp [List.filterMap_map]

theorem holds_ofRecords_iff : (ofRecords records).Holds p ↔ ∃ r ∈ records, p r := by
  simp [Holds]

/-- A file with one more record. -/
theorem read?_of_allLines {f' : LineFile Record} (h : f'.allLines = f.allLines ++ [some r])
    (hread : f.read? = some records) : f'.read? = some (records ++ [r]) := by
  unfold read? at hread
  split_ifs at hread with hall
  obtain rfl := Option.some.inj hread
  unfold read?
  simp only [h, List.all_append, hall, List.all_cons, Option.isSome_some, List.all_nil,
    Bool.and_self, if_true, List.filterMap_append]
  rfl

/-- A file with a line that is not a record cannot be read. -/
theorem read?_of_mem (h : none ∈ f.allLines) : f.read? = none := by
  unfold read?
  rw [if_neg]
  intro hall
  have hsome := List.all_eq_true.mp hall none h
  cases hsome

/-- After a newline a record can be appended. -/
theorem read?_append (hrest : f.rest = none) (hread : f.read? = some records) :
    (f.append r).read? = some (records ++ [r]) := by
  refine read?_of_allLines ?_ hread
  simp [allLines, append, hrest]

/-- Other files cannot be read once a line is appended to them. -/
theorem read?_append_of_not_intact (h : ¬f.Intact) : (f.append r).read? = none := by
  cases hrest : f.rest with
  | some piece =>
    refine read?_of_mem ?_
    simp [allLines, append, hrest]
  | none =>
    have hread : f.read? = none := by
      by_contra hne
      exact h ⟨hrest, hne⟩
    unfold read? at hread ⊢
    split_ifs at hread with hall
    refine if_neg fun hall' => hall ?_
    have hlines : f.lines.all Option.isSome = true := by
      simpa [allLines, append, hrest] using hall'
    simpa [allLines, hrest] using hlines

/-- After a newline a line that is cut off spoils the file only if it is torn. -/
theorem holds_appendPart (hrest : f.rest = none) {cut : Cut} (hcut : cut ≠ .torn)
    (hholds : f.Holds p) : (f.appendPart r cut).Holds p := by
  obtain ⟨records, hread, r', hr', hp⟩ := hholds
  have hmore : (f.append r).Holds p :=
    ⟨records ++ [r], read?_append hrest hread, r', List.mem_append_left _ hr', hp⟩
  cases cut with
  | before => exact ⟨records, hread, r', hr', hp⟩
  | torn => exact absurd rfl hcut
  | unterminated =>
    have hlast : (f.appendPart r .unterminated).read? = some (records ++ [r]) := by
      refine read?_of_allLines ?_ hread
      simp [allLines, appendPart, hrest]
    exact ⟨records ++ [r], hlast, r', List.mem_append_left _ hr', hp⟩
  | after => exact hmore

/-- Any other line that is cut off spoils the file, unless nothing of it is written. -/
theorem read?_appendPart {cut : Cut} (hbefore : cut ≠ .before)
    (hspoilt : ¬(f.rest = none ∧ cut ≠ .torn)) : (f.appendPart r cut).read? = none := by
  have hrest : cut ≠ .torn → f.rest.isSome = true := by
    intro hcut
    rw [Option.isSome_iff_ne_none]
    exact fun hnone => hspoilt ⟨hnone, hcut⟩
  cases cut with
  | before => exact absurd rfl hbefore
  | torn => exact read?_of_mem (by simp [allLines, appendPart])
  | unterminated =>
    have hsome := hrest (by decide)
    exact read?_of_mem (by simp [allLines, appendPart, hsome])
  | after =>
    have hsome := hrest (by decide)
    refine read?_append_of_not_intact fun hintact => ?_
    rw [hintact.1] at hsome
    cases hsome

end LineFile

end LedgerLens
