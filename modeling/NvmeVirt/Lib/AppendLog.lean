import NvmeVirt.Lib.System
import NvmeVirt.Lib.Tiling

/-!
# Logs that are only appended to

A log lies over blocks of `b` places each. A record has its first block, its number of blocks and, once
it is filled, its values; the records tile the blocks from the origin of the log to the next block it
takes. A place shows the value of the filled record it lies in, and without one what the log was cleared
with. A record is appended empty and is filled once; it goes when its log is cleared, and not before.
-/

set_option autoImplicit false

namespace NvmeVirt

structure LogRecord (ν : Type) where
  start : Nat
  len : Nat
  data : Option (Nat → ν)

namespace LogRecord

variable {ν : Type} (r : LogRecord ν) (b a : Nat)

def range : Nat × Nat := (r.start, r.len)

/-- The place lies in the record. -/
def Covers : Prop := r.start * b ≤ a ∧ a < (r.start + r.len) * b

instance : Decidable (r.Covers b a) := inferInstanceAs (Decidable (_ ∧ _))

/-- What the record shows at a place in it. -/
def value (blank : Nat → ν) : ν :=
  match r.data with
  | some d => d (a - r.start * b)
  | none => blank a

end LogRecord

structure AppendLog (ν : Type) where
  origin : Nat
  next : Nat
  blank : Nat → ν
  records : List (LogRecord ν)
  tiles : Tiles (records.map LogRecord.range) origin next

namespace AppendLog

variable {ν : Type} (log : AppendLog ν) (b : Nat)

/-- What the log shows at a place. -/
def read (a : Nat) : ν :=
  match log.records.find? fun r => r.Covers b a with
  | some r => r.value b a log.blank
  | none => log.blank a

/-- One more record, which is empty. -/
def append (n : Nat) (hn : 0 < n) : AppendLog ν where
  origin := log.origin
  next := log.next + n
  blank := log.blank
  records := log.records ++ [⟨log.next, n, none⟩]
  tiles := by
    rw [List.map_append]
    exact log.tiles.snoc hn

/-- The record that starts at a block, with values. -/
def filled (start : Nat) (d : Nat → ν) (r : LogRecord ν) : LogRecord ν :=
  if r.start = start then { r with data := some d } else r

/-- The range of a record is fixed. -/
theorem range_filled (start : Nat) (d : Nat → ν) (r : LogRecord ν) :
    (filled start d r).range = r.range := by
  unfold filled
  split
  · rfl
  · rfl

theorem map_range_filled (records : List (LogRecord ν)) (start : Nat) (d : Nat → ν) :
    (records.map (filled start d)).map LogRecord.range = records.map LogRecord.range := by
  rw [List.map_map]
  exact List.map_congr_left fun r _ => range_filled start d r

/-- The record that starts at the block takes its values. -/
def fill (start : Nat) (d : Nat → ν) : AppendLog ν :=
  { log with
    records := log.records.map (filled start d)
    tiles := by
      rw [map_range_filled]
      exact log.tiles }

/-- The log without its records. -/
def clear (blank : Nat → ν) : AppendLog ν where
  origin := log.origin
  next := log.origin
  blank := blank
  records := []
  tiles := rfl

/-! ## One record at a place -/

section Read

variable {log b} {a start n : Nat} {d blank : Nat → ν} {r r' : LogRecord ν}

/-- A record ends before the next one starts. -/
theorem below_next (h : r ∈ log.records) : r.start + r.len ≤ log.next :=
  (log.tiles.within r.range (List.mem_map_of_mem h)).2

/-- None starts before the log. -/
theorem origin_le (h : r ∈ log.records) : log.origin ≤ r.start :=
  (log.tiles.within r.range (List.mem_map_of_mem h)).1

/-- The block of a place a record covers. -/
theorem block_of_covers (h : r.Covers b a) : r.start ≤ a / b ∧ a / b < r.start + r.len := by
  have hb : 0 < b := Nat.pos_of_mul_pos_left (Nat.lt_of_le_of_lt (Nat.zero_le a) h.2)
  exact ⟨(Nat.le_div_iff_mul_le hb).mpr h.1, (Nat.div_lt_iff_lt_mul hb).mpr h.2⟩

/-- A place lies in one record. -/
theorem record_unique (h : r ∈ log.records) (h' : r' ∈ log.records) (hat : r.Covers b a)
    (hat' : r'.Covers b a) : r = r' :=
  log.tiles.map_unique h h' (block_of_covers hat) (block_of_covers hat')

/-- Records that start at one block are one. -/
theorem start_unique (h : r ∈ log.records) (h' : r' ∈ log.records) (hstart : r.start = r'.start) :
    r = r' := by
  have hpos : 0 < r.len := log.tiles.pos r.range (List.mem_map_of_mem h)
  have hpos' : 0 < r'.len := log.tiles.pos r'.range (List.mem_map_of_mem h')
  refine @Tiles.map_unique _ _ _ LogRecord.range log.records log.tiles r r' h h' r.start ?_ ?_
  · exact ⟨Nat.le_refl _, Nat.lt_add_of_pos_right hpos⟩
  · exact ⟨hstart.ge, hstart ▸ Nat.lt_add_of_pos_right hpos'⟩

/-- What a place in a record shows. -/
theorem read_of_mem (h : r ∈ log.records) (hat : r.Covers b a) :
    log.read b a = r.value b a log.blank := by
  unfold read
  cases hfound : log.records.find? fun r => r.Covers b a with
  | none => exact absurd hat (by simpa using List.find?_eq_none.mp hfound r h)
  | some r' =>
    have hat' : r'.Covers b a := by simpa using List.find?_some hfound
    rw [record_unique (List.mem_of_find?_eq_some hfound) h hat' hat]

/-- A place outside all records shows what was there before. -/
theorem read_of_none (h : ∀ r ∈ log.records, ¬ r.Covers b a) : log.read b a = log.blank a := by
  unfold read
  have hnone : (log.records.find? fun r => r.Covers b a) = none := by
    refine List.find?_eq_none.mpr fun r hr => ?_
    simpa using h r hr
  rw [hnone]

/-- A cleared log shows what it was cleared with. -/
@[simp] theorem read_clear : (log.clear blank).read b = blank := rfl

/-- Appending changes no place. -/
@[simp] theorem read_append {hn : 0 < n} : (log.append n hn).read b = log.read b := by
  funext a
  by_cases hold : ∃ r ∈ log.records, r.Covers b a
  · obtain ⟨r, hr, hat⟩ := hold
    have hnew : r ∈ (log.append n hn).records := List.mem_append_left _ hr
    exact (read_of_mem hnew hat).trans (read_of_mem hr hat).symm
  · have hnone : ∀ r ∈ log.records, ¬ r.Covers b a := fun r hr hat => hold ⟨r, hr, hat⟩
    rw [read_of_none hnone]
    by_cases hlast : (⟨log.next, n, none⟩ : LogRecord ν).Covers b a
    · have hnew : ⟨log.next, n, none⟩ ∈ (log.append n hn).records := List.mem_concat_self
      exact read_of_mem hnew hlast
    · refine read_of_none fun r hr hat => ?_
      rcases List.mem_append.mp hr with hin | hin
      · exact hnone r hin hat
      · exact hlast (List.mem_singleton.mp hin ▸ hat)

theorem mem_fill : r' ∈ (log.fill start d).records ↔ ∃ r ∈ log.records, filled start d r = r' :=
  List.mem_map

theorem filled_of_ne (h : r.start ≠ start) : filled start d r = r := if_neg h

theorem filled_self : filled r.start d r = { r with data := some d } := if_pos rfl

theorem covers_filled : (filled start d r).Covers b a ↔ r.Covers b a := by
  unfold filled
  split
  · exact Iff.rfl
  · exact Iff.rfl

/-- A filled record shows its values, and the other places show what they did. -/
theorem read_fill (h : r ∈ log.records) : (log.fill r.start d).read b a =
    if r.Covers b a then d (a - r.start * b) else log.read b a := by
  by_cases hat : r.Covers b a
  · rw [if_pos hat]
    have hmem := mem_fill.mpr ⟨r, h, filled_self (d := d)⟩
    exact read_of_mem hmem hat
  · rw [if_neg hat]
    by_cases hold : ∃ r' ∈ log.records, r'.Covers b a
    · obtain ⟨r', hr', hat'⟩ := hold
      have hother : filled r.start d r' = r' :=
        filled_of_ne fun hstart => hat (start_unique hr' h hstart ▸ hat')
      have hmem := mem_fill.mpr ⟨r', hr', hother⟩
      exact (read_of_mem hmem hat').trans (read_of_mem hr' hat').symm
    · have hnone : ∀ r ∈ log.records, ¬ r.Covers b a := fun r hr hat => hold ⟨r, hr, hat⟩
      rw [read_of_none hnone]
      refine read_of_none fun r' hr' hat' => ?_
      obtain ⟨r'', hr'', rfl⟩ := mem_fill.mp hr'
      exact hnone r'' hr'' (covers_filled.mp hat')

end Read

end AppendLog

/-! ## Runs of several logs -/

inductive LogEvent (ι ν : Type) where
  | append (i : ι) (n : Nat)
  | fill (i : ι) (start : Nat) (d : Nat → ν)
  | clear (P : ι → Prop)
  | quiet

/-- The steps of a family of logs; `blank` is what a log is cleared with. -/
inductive LogStep {ι ν : Type} [DecidableEq ι] (blank : Nat → ν) :
    (ι → AppendLog ν) → LogEvent ι ν → (ι → AppendLog ν) → Prop where
  | append {logs : ι → AppendLog ν} {i : ι} {n : Nat} (hn : 0 < n) :
    LogStep blank logs (.append i n) (Function.update logs i ((logs i).append n hn))
  | fill {logs : ι → AppendLog ν} {i : ι} {r : LogRecord ν} {d : Nat → ν} :
    r ∈ (logs i).records → r.data = none →
    LogStep blank logs (.fill i r.start d) (Function.update logs i ((logs i).fill r.start d))
  | clear {logs logs' : ι → AppendLog ν} {P : ι → Prop} :
    (∀ i, P i → logs' i = (logs i).clear blank) → (∀ i, ¬ P i → logs' i = logs i) →
    LogStep blank logs (.clear P) logs'
  | quiet {logs : ι → AppendLog ν} : LogStep blank logs .quiet logs

/-- The runs of logs that are empty at first. -/
def appendLogs {ι ν : Type} [DecidableEq ι] (blank : Nat → ν) :
    System (ι → AppendLog ν) (LogEvent ι ν) where
  init logs := ∀ i, (logs i).records = []
  step := LogStep blank

section Runs

variable {ι ν : Type} [DecidableEq ι] {blank : Nat → ν} {logs logs' : ι → AppendLog ν}
  {e : LogEvent ι ν} {i : ι} {r : LogRecord ν}

/-- A filled record stays as it is until its log is cleared. -/
theorem LogStep.keeps (h : LogStep blank logs e logs') (hr : r ∈ (logs i).records)
    (hfull : r.data ≠ none) (hclear : ∀ P, e = .clear P → ¬ P i) : r ∈ (logs' i).records := by
  cases h with
  | @append j n hn =>
    by_cases hi : i = j
    · subst hi
      rw [Function.update_self]
      exact List.mem_append_left _ hr
    · rw [Function.update_of_ne hi]
      exact hr
  | @fill j r' d hr' hempty =>
    by_cases hi : i = j
    · subst hi
      rw [Function.update_self]
      refine AppendLog.mem_fill.mpr ⟨r, hr, AppendLog.filled_of_ne fun hstart => hfull ?_⟩
      rw [AppendLog.start_unique hr hr' hstart, hempty]
    · rw [Function.update_of_ne hi]
      exact hr
  | clear _ hothers =>
    rw [hothers i (hclear _ rfl)]
    exact hr
  | quiet => exact hr

end Runs

end NvmeVirt
