import LedgerLens.Data.Partitioning

/-!
# Partition keys as directories

When no identifier is sanitised to nothing, to two dots or, without time parts, to one dot,
the directories of different keys are different, lie properly below the root, and none is inside
another.
-/

namespace LedgerLens.Data

open FileTree

/-- A text of digits. -/
def DigitText (text : String) : Prop := text.toList ≠ [] ∧ ∀ ch ∈ text.toList, ch.isDigit = true

theorem toList_padded (width n : ℕ) : (padded width n).toList =
    List.replicate (width - (Nat.toDigits 10 n).length) '0' ++ Nat.toDigits 10 n :=
  String.toList_ofList

theorem digitText_padded (width n : ℕ) : DigitText (padded width n) := by
  unfold DigitText
  rw [toList_padded]
  refine ⟨by simp [Nat.toDigits_ne_nil], fun ch hch => ?_⟩
  rcases List.mem_append.mp hch with hch | hch
  · rw [List.eq_of_mem_replicate hch]
    rfl
  · exact Nat.isDigit_of_mem_toDigits (by omega) (by omega) hch

/-- Leading zeros do not change the number. -/
theorem ofDigitChars_padded (width n : ℕ) :
    Nat.ofDigitChars 10 (padded width n).toList 0 = n := by
  rw [toList_padded, Nat.ofDigitChars_append, Nat.ofDigitChars_replicate_zero, Nat.mul_zero]
  exact Nat.ofDigitChars_ten_toDigits

/-- A text of digits is a proper name. -/
theorem DigitText.proper {text : String} (h : DigitText text) :
    text ≠ "" ∧ text ≠ "." ∧ text ≠ ".." ∧ '/' ∉ text.toList := by
  refine ⟨?_, ?_, ?_, fun hslash => absurd (h.2 _ hslash) (by decide)⟩
  · rintro rfl
    exact h.1 rfl
  · rintro rfl
    exact absurd (h.2 '.' (by simp)) (by decide)
  · rintro rfl
    exact absurd (h.2 '.' (by simp)) (by decide)

theorem slash_notMem_safePathComponent (value : String) :
    '/' ∉ (safePathComponent value).toList := by
  unfold safePathComponent
  rw [String.toList_ofList, List.mem_map]
  rintro ⟨ch, -, hch⟩
  split_ifs at hch with hsafe
  · subst hch
    exact absurd hsafe (by decide)
  · exact absurd hch (by decide)

section

variable {Row : Type} {upper : String → String} {s : PartitionStrategy Row} {row row' : Row}
  {name : String}

/-- The condition on a row: its identifier is not sanitised to nothing, to two dots or, without
time parts, to one dot. -/
def PartitionStrategy.Proper (upper : String → String) (s : PartitionStrategy Row) (row : Row) :
    Prop :=
  ∀ name ∈ s.component upper row, name ≠ "" ∧ name ≠ ".." ∧ (name = "." → s.timeParts row ≠ [])

instance (upper : String → String) (s : PartitionStrategy Row) (row : Row) :
    Decidable (s.Proper upper row) :=
  inferInstanceAs (Decidable (∀ name ∈ s.component upper row,
    name ≠ "" ∧ name ≠ ".." ∧ (name = "." → s.timeParts row ≠ [])))

theorem mem_parts {p : Period} {ts : Timestamp} (h : name ∈ p.parts ts) : DigitText name := by
  cases p <;> simp only [Period.parts, List.mem_cons, List.not_mem_nil, or_false] at h
  · rw [h]
    exact digitText_padded _ _
  · rcases h with rfl | rfl <;> exact digitText_padded _ _
  · rcases h with rfl | rfl | rfl <;> exact digitText_padded _ _
  · rcases h with rfl | rfl | rfl | rfl <;> exact digitText_padded _ _

theorem mem_includedTime {includeTime : Bool} {ts : Timestamp}
    (h : name ∈ includedTime includeTime ts) : DigitText name := by
  cases includeTime with
  | false => cases h
  | true => exact mem_parts (p := .month) h

/-- The time parts of a key are digits. -/
theorem digitText_of_mem_timeParts (h : name ∈ s.timeParts row) : DigitText name := by
  cases s with
  | time s => exact mem_parts h
  | pair s => exact mem_includedTime h
  | wallet s => exact mem_includedTime h

/-- All keys of a strategy have as many time parts. -/
theorem length_timeParts (s : PartitionStrategy Row) (row row' : Row) :
    (s.timeParts row).length = (s.timeParts row').length := by
  have hincluded (includeTime : Bool) (ts ts' : Timestamp) :
      (includedTime includeTime ts).length = (includedTime includeTime ts').length := by
    cases includeTime <;> rfl
  cases s with
  | time s =>
    rw [timeParts_time, timeParts_time]
    cases s.period <;> rfl
  | pair s => exact hincluded _ _ _
  | wallet s => exact hincluded _ _ _

/-- All keys of a strategy have an identifier or none has. -/
theorem component_eq_none (h : s.component upper row = none) :
    s.component upper row' = none := by
  cases s with
  | time s => rfl
  | pair s => cases h
  | wallet s => cases h

/-- Beside an identifier the time parts are year and month. -/
theorem timeParts_of_component (h : s.component upper row = some name)
    (htime : s.timeParts row ≠ []) :
    ∃ ts : Timestamp, s.timeParts row = [padded 0 ts.year, padded 2 ts.month] := by
  have hincluded {includeTime : Bool} {ts : Timestamp} (hne : includedTime includeTime ts ≠ []) :
      includedTime includeTime ts = [padded 0 ts.year, padded 2 ts.month] := by
    cases includeTime with
    | false => exact absurd rfl hne
    | true => rfl
  cases s with
  | time s => cases h
  | pair s => exact ⟨_, hincluded htime⟩
  | wallet s => exact ⟨_, hincluded htime⟩

/-- No part of a key has a slash. -/
theorem slash_notMem_keyParts (h : name ∈ s.keyParts upper row) : '/' ∉ name.toList := by
  rcases List.mem_append.mp h with h | h
  · rw [Option.mem_toList] at h
    cases s with
    | time s => cases h
    | pair s =>
      obtain rfl := Option.some.inj h
      exact slash_notMem_safePathComponent _
    | wallet s =>
      obtain rfl := Option.some.inj h
      exact slash_notMem_safePathComponent _
  · exact (digitText_of_mem_timeParts h).proper.2.2.2

/-- The parts of a key that count in its path. -/
def PartitionStrategy.pathParts (upper : String → String) (s : PartitionStrategy Row) (row : Row) :
    List String :=
  (s.keyParts upper row).filter fun name => name ≠ "" ∧ name ≠ "."

/-- Of a proper key all parts count but a single dot. -/
theorem pathParts_eq (h : s.Proper upper row) : s.pathParts upper row =
    (s.component upper row).toList.filter (fun name => name ≠ ".") ++ s.timeParts row := by
  have htime : (s.timeParts row).filter (fun name => name ≠ "" ∧ name ≠ ".") =
      s.timeParts row := by
    rw [List.filter_eq_self]
    intro name hname
    have hproper := (digitText_of_mem_timeParts hname).proper
    simp [hproper.1, hproper.2.1]
  unfold PartitionStrategy.pathParts PartitionStrategy.keyParts
  rw [List.filter_append, htime]
  cases hcomponent : s.component upper row with
  | none => rfl
  | some name =>
    have hname := (h name hcomponent).1
    by_cases hdot : name = "."
    · simp [hdot]
    · simp [hdot, hname]

/-- A proper key has a part that counts, and none is empty or a double dot. -/
theorem pathParts_proper (h : s.Proper upper row) :
    s.pathParts upper row ≠ [] ∧ ".." ∉ s.pathParts upper row := by
  rw [pathParts_eq h]
  refine ⟨fun hempty => ?_, fun hmem => ?_⟩
  · obtain ⟨hcomponent, htime⟩ := List.append_eq_nil_iff.mp hempty
    cases hname : s.component upper row with
    | none =>
      cases s with
      | time s =>
        rw [timeParts_time] at htime
        cases hperiod : s.period <;> rw [hperiod] at htime <;> cases htime
      | pair s => cases hname
      | wallet s => cases hname
    | some name =>
      by_cases hdot : name = "."
      · exact (h name hname).2.2 hdot htime
      · simp [hname, hdot] at hcomponent
  · rcases List.mem_append.mp hmem with hmem | hmem
    · exact (h _ (Option.mem_toList.mp (List.mem_of_mem_filter hmem))).2.1 rfl
    · exact (digitText_of_mem_timeParts hmem).proper.2.2.1 rfl

/-- A key whose path is the beginning of another's is that key. -/
theorem keyParts_eq_of_isPrefix (h : s.Proper upper row) (h' : s.Proper upper row')
    (hstart : s.pathParts upper row <+: s.pathParts upper row') :
    s.keyParts upper row = s.keyParts upper row' := by
  have hlength := length_timeParts s row row'
  rw [pathParts_eq h, pathParts_eq h'] at hstart
  unfold PartitionStrategy.keyParts
  cases hname : s.component upper row with
  | none =>
    rw [hname, component_eq_none hname] at hstart
    rw [component_eq_none hname]
    exact hstart.eq_of_length (by simpa using hlength)
  | some name =>
    cases hname' : s.component upper row' with
    | none => cases (component_eq_none hname').symm.trans hname
    | some name' =>
      rw [hname, hname'] at hstart
      by_cases hdot : name = "."
      · by_cases hdot' : name' = "."
        · have htime : s.timeParts row <+: s.timeParts row' := by
            simpa [hdot, hdot'] using hstart
          rw [hdot, hdot', htime.eq_of_length hlength]
        · -- a month would have to be a year
          have htime : s.timeParts row <+: name' :: s.timeParts row' := by
            simpa [hdot, hdot'] using hstart
          have hne := (h name hname).2.2 hdot
          obtain ⟨ts, hts⟩ := timeParts_of_component hname hne
          have hne' : s.timeParts row' ≠ [] := by
            intro hnil
            rw [hnil, hts] at hlength
            cases hlength
          obtain ⟨ts', hts'⟩ := timeParts_of_component hname' hne'
          rw [hts, hts'] at htime
          have hmonth : padded 2 ts.month = padded 0 ts'.year := by
            simpa using (List.cons_prefix_cons.mp (List.cons_prefix_cons.mp htime).2).1
          have hvalue := congrArg (fun text => Nat.ofDigitChars 10 text.toList 0) hmonth
          simp only [ofDigitChars_padded] at hvalue
          have hfirst := ts.month_mem.2
          have hsecond := ts'.year_mem.1
          omega
      · by_cases hdot' : name' = "."
        · have htime : name :: s.timeParts row <+: s.timeParts row' := by
            simpa [hdot, hdot'] using hstart
          have hle := htime.length_le
          rw [List.length_cons] at hle
          omega
        · have htime : name :: s.timeParts row <+: name' :: s.timeParts row' := by
            simpa [hdot, hdot'] using hstart
          obtain ⟨heq, hrest⟩ := List.cons_prefix_cons.mp htime
          rw [heq, hrest.eq_of_length hlength]

theorem keyParts_ne_nil (h : s.Proper upper row) : s.keyParts upper row ≠ [] := by
  intro hnil
  have hpath := (pathParts_proper h).1
  unfold PartitionStrategy.pathParts at hpath
  rw [hnil] at hpath
  exact hpath rfl

/-- The first part of a proper key is not empty. -/
theorem head_keyParts_ne (h : s.Proper upper row) : (s.keyParts upper row).head? ≠ some "" := by
  intro hhead
  have hmem := List.mem_of_mem_head? hhead
  rcases List.mem_append.mp hmem with hmem | hmem
  · exact (h "" (Option.mem_toList.mp hmem)).1 rfl
  · exact (digitText_of_mem_timeParts hmem).proper.1 rfl

end

namespace PartitionedDatasetWriter

variable {Row : Type} {w : PartitionedDatasetWriter Row} {key key' : String}

/-- The directory of a partition. -/
def dirOf (w : PartitionedDatasetWriter Row) (key : String) : List String :=
  resolve (w.partitionDir key)

/-- A key of a row that meets the condition. -/
def ProperKey (w : PartitionedDatasetWriter Row) (key : String) : Prop :=
  ∃ row, w.strategy.Proper w.upper row ∧ w.strategy.partitionKey w.upper row = key

/-- A proper key is joined to the root part by part. -/
theorem partitionDir_eq {row : Row} (h : w.strategy.Proper w.upper row) :
    w.partitionDir (w.strategy.partitionKey w.upper row) =
      w.root ++ w.strategy.pathParts w.upper row := by
  have hsplit : splitPath (w.strategy.partitionKey w.upper row) =
      w.strategy.keyParts w.upper row :=
    splitPath_intercalate (keyParts_ne_nil h) fun name hname => slash_notMem_keyParts hname
  have hhead : (w.strategy.partitionKey w.upper row).toList.head? ≠ some '/' := by
    intro hslash
    refine head_keyParts_ne h ?_
    rw [← hsplit]
    exact head_splitPath hslash
  unfold partitionDir joinPath
  dsimp only
  rw [if_neg hhead, hsplit]
  rfl

/-- The directory of a proper key. -/
theorem dirOf_eq {row : Row} (h : w.strategy.Proper w.upper row) :
    w.dirOf (w.strategy.partitionKey w.upper row) =
      w.root ++ w.strategy.pathParts w.upper row := by
  unfold dirOf
  rw [partitionDir_eq h, resolve_eq_self]
  rw [List.mem_append, not_or]
  exact ⟨w.root_resolved, (pathParts_proper h).2⟩

/-- It lies properly below the root. -/
theorem ProperKey.below (h : w.ProperKey key) : Below w.root (w.dirOf key) := by
  obtain ⟨row, hrow, rfl⟩ := h
  rw [dirOf_eq hrow]
  exact Below.append (pathParts_proper hrow).1

/-- Its parent is at or below the root. -/
theorem ProperKey.parent (h : w.ProperKey key) :
    ∃ names, resolve (w.partitionDir key).dropLast = w.root ++ names := by
  obtain ⟨row, hrow, rfl⟩ := h
  obtain ⟨hne, hdots⟩ := pathParts_proper hrow
  refine ⟨(w.strategy.pathParts w.upper row).dropLast, ?_⟩
  rw [partitionDir_eq hrow, List.dropLast_append_of_ne_nil hne, resolve_eq_self]
  rw [List.mem_append, not_or]
  exact ⟨w.root_resolved, fun hmem => hdots (List.mem_of_mem_dropLast hmem)⟩

/-- No partition is inside another. -/
theorem ProperKey.eq_of_isPrefix (h : w.ProperKey key) (h' : w.ProperKey key')
    (hstart : w.dirOf key <+: w.dirOf key') : key = key' := by
  obtain ⟨row, hrow, rfl⟩ := h
  obtain ⟨row', hrow', rfl⟩ := h'
  rw [dirOf_eq hrow, dirOf_eq hrow', List.prefix_append_right_inj] at hstart
  unfold PartitionStrategy.partitionKey
  rw [keyParts_eq_of_isPrefix hrow hrow' hstart]

end PartitionedDatasetWriter

end LedgerLens.Data
