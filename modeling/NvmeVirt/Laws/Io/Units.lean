import NvmeVirt.Io.Units
import NvmeVirt.Lib.Ring
import NvmeVirt.Lib.System
import NvmeVirt.Lib.Timetable

/-!
# The busy times of the I/O units

A request books its units one after the other, each from when the unit before is through. What the
loop stores is the timetable after these bookings (`serveIoUnits_eq`), but it only looks at the
first unit before it books: the bookings of a later unit are kept as long as that unit is not busy
any more when the request gets to it (`Fits`).

For a request that fits, the bookings are those computed without a wrap (`Fits.pieces_eq`), none
starts before its unit is free (`Fits.start_free`), none ends after the time its unit is left with
(`Fits.stop_le`), and the request is answered at the end of one of them (`Fits.completion_le`).
`Booked.schedule` puts these together into the step of a run, with the rules of `Lib/Timetable` for
booking after booking.

The loop is written twice in the source, for the namespaces of `simple_ftl.c` and of `kv_ftl.c`.
Both are `scheduleIoUnits` at times of their own, so all of this is about either.
-/

set_option autoImplicit false

namespace NvmeVirt

namespace IoUnitConfig

variable (cfg : IoUnitConfig) (times : IoTimes)

/-! ## The bookings of a request -/

/-- The rounds of the loop. -/
def pieceCount (length : Nat) : Nat := max 1 (divRoundUp length cfg.ioUnitSize)

/-- The `j`-th round from `latest` on: the unit is served until the time it is left with. -/
def piece (client nrIoUnits ioUnit latest j : Nat) : Booking Nat where
  client := client
  place := (ioUnit + j) % cfg.nrIoUnits
  start := u64 (latest + j * times.latency)
  stop :=
    if j < nrIoUnits then u64 (u64 (latest + (j + 1) * times.latency) + times.trailing)
    else u64 (latest + (j + 1) * times.latency)

/-- The bookings of a request. -/
def pieces (client lba length nsecsStart : Nat) (stat : Nat → Nat) : List (Booking Nat) :=
  (List.range (cfg.pieceCount (u32 length))).map
    (cfg.piece times client
      (min cfg.nrIoUnits (u32 (u32 length + cfg.ioUnitSize - 1) / cfg.ioUnitSize))
      (cfg.firstUnit lba) (u64 (max nsecsStart (stat (cfg.firstUnit lba)) + times.delay)))

variable {cfg times}

/-- The loop makes at least one round. -/
theorem pieceCount_pos (length : Nat) : 0 < cfg.pieceCount length :=
  Nat.lt_of_lt_of_le Nat.one_pos (Nat.le_max_left ..)

/-- A request that fits in a unit makes one. -/
theorem pieceCount_single {length : Nat} (h : length ≤ cfg.ioUnitSize) :
    cfg.pieceCount length = 1 := by
  have hpos := cfg.ioUnitSize_pos
  apply Nat.max_eq_left
  unfold divRoundUp
  apply Nat.le_of_lt_succ
  apply Nat.div_lt_of_lt_mul
  omega

/-- A longer one makes one more than the rest of it does. -/
theorem pieceCount_more {length : Nat} (h : cfg.ioUnitSize < length) :
    cfg.pieceCount length = cfg.pieceCount (length - cfg.ioUnitSize) + 1 := by
  have hpos := cfg.ioUnitSize_pos
  have hrest : divRoundUp length cfg.ioUnitSize =
      divRoundUp (length - cfg.ioUnitSize) cfg.ioUnitSize + 1 := by
    unfold divRoundUp
    rw [← Nat.add_div_right _ hpos]
    congr 1
    omega
  have hone : 1 ≤ divRoundUp (length - cfg.ioUnitSize) cfg.ioUnitSize := by
    unfold divRoundUp
    apply (Nat.one_le_div_iff hpos).mpr
    omega
  unfold pieceCount
  rw [hrest, Nat.max_eq_right hone]
  exact Nat.max_eq_right (Nat.le_add_left ..)

theorem u64_add_u64 (a b : Nat) : u64 (u64 a + b) = u64 (a + b) := Nat.mod_add_mod a (2 ^ 64) b

/-- A later round is an earlier one of the rest of the request. -/
theorem piece_succ (client nrIoUnits ioUnit latest j : Nat) :
    cfg.piece times client nrIoUnits ioUnit latest (j + 1) =
      cfg.piece times client (nrIoUnits - 1) ((ioUnit + 1) % cfg.nrIoUnits)
        (u64 (latest + times.latency)) j := by
  have hplace : (ioUnit + (j + 1)) % cfg.nrIoUnits =
      ((ioUnit + 1) % cfg.nrIoUnits + j) % cfg.nrIoUnits := by
    rw [Nat.mod_add_mod]
    congr 1
    omega
  have htime : ∀ i, u64 (u64 (latest + times.latency) + i * times.latency) =
      u64 (latest + (i + 1) * times.latency) := by
    intro i
    rw [u64_add_u64, Nat.add_mul, Nat.one_mul]
    congr 1
    omega
  have hcount : j + 1 < nrIoUnits ↔ j < nrIoUnits - 1 := by omega
  unfold piece
  simp only [hplace, htime, hcount]

/-- The loop stores the timetable after the bookings, and answers the end of the last round. -/
theorem serveIoUnits_eq (client length nrIoUnits ioUnit latest : Nat) (stat : Nat → Nat)
    (hunit : ioUnit < cfg.nrIoUnits) :
    cfg.serveIoUnits times length nrIoUnits ioUnit latest stat =
      (u64 (latest + cfg.pieceCount length * times.latency),
        bookAll stat ((List.range (cfg.pieceCount length)).map
          (cfg.piece times client nrIoUnits ioUnit latest))) := by
  induction length using Nat.strongRecOn generalizing nrIoUnits ioUnit latest stat with
  | ind length ih =>
    have hpos := cfg.ioUnitSize_pos
    have hfirst : Function.update stat ioUnit
        (if 0 < nrIoUnits then u64 (u64 (latest + times.latency) + times.trailing)
          else u64 (latest + times.latency)) =
        bookAll stat [cfg.piece times client nrIoUnits ioUnit latest 0] := by
      show _ = Function.update stat ((ioUnit + 0) % cfg.nrIoUnits) (if 0 < nrIoUnits then
        u64 (u64 (latest + (0 + 1) * times.latency) + times.trailing)
        else u64 (latest + (0 + 1) * times.latency))
      rw [Nat.add_zero, Nat.mod_eq_of_lt hunit, Nat.zero_add, Nat.one_mul]
    have hnext : (if cfg.nrIoUnits ≤ ioUnit + 1 then 0 else ioUnit + 1) =
        (ioUnit + 1) % cfg.nrIoUnits := by
      rw [succ_mod_ring cfg.nrIoUnits_pos, Nat.mod_eq_of_lt hunit]
      congr 1
      exact propext ⟨fun h => Nat.le_antisymm hunit h, fun h => Nat.le_of_eq h.symm⟩
    unfold serveIoUnits
    dsimp only
    rw [hfirst, hnext]
    rcases Nat.lt_or_ge cfg.ioUnitSize length with hmore | hlast
    · have hmin : min length cfg.ioUnitSize = cfg.ioUnitSize := Nat.min_eq_right (Nat.le_of_lt hmore)
      rw [hmin, if_pos (Nat.sub_pos_of_lt hmore), pieceCount_more hmore,
        ih _ (by omega) _ _ _ _ (Nat.mod_lt _ cfg.nrIoUnits_pos), List.range_succ_eq_map,
        List.map_cons, List.map_map]
      congr 1
      · rw [u64_add_u64, Nat.add_mul, Nat.one_mul]
        congr 1
        omega
      · show _ = bookAll (bookAll stat [_]) _
        congr 1
        apply List.map_congr_left
        intro j _
        exact (piece_succ client nrIoUnits ioUnit latest j).symm
    · have hmin : min length cfg.ioUnitSize = length := Nat.min_eq_left hlast
      rw [hmin, Nat.sub_self, if_neg (Nat.lt_irrefl 0), pieceCount_single hlast, Nat.one_mul]
      rfl

/-- The two copies differ in their times only. -/
theorem scheduleIoUnits_eq (client lba length nsecsStart : Nat) (stat : Nat → Nat) :
    cfg.scheduleIoUnits times lba length nsecsStart stat =
      (u64 (max nsecsStart (stat (cfg.firstUnit lba)) + times.delay +
          cfg.pieceCount (u32 length) * times.latency),
        bookAll stat (cfg.pieces times client lba length nsecsStart stat)) := by
  unfold scheduleIoUnits pieces
  dsimp only
  rw [serveIoUnits_eq client _ _ _ _ _ (cfg.firstUnit_lt lba), u64_add_u64]

/-! ## Requests that keep the bookings -/

section Fits

variable {lba length nsecsStart : Nat} {stat : Nat → Nat}

/-- When the first unit of a request begins. -/
def beginning (cfg : IoUnitConfig) (times : IoTimes) (lba nsecsStart : Nat) (stat : Nat → Nat) : Nat :=
  max nsecsStart (stat (cfg.firstUnit lba)) + times.delay

/-- No later unit is busy when the request gets to it, a unit that is passed more than once is left
only after its trailing time, and no time passes `2^64`. -/
structure Fits (cfg : IoUnitConfig) (times : IoTimes) (lba length nsecsStart : Nat)
    (stat : Nat → Nat) : Prop where
  later : ∀ i, 1 ≤ i → i < cfg.nrIoUnits → i < cfg.pieceCount (u32 length) →
    stat ((cfg.firstUnit lba + i) % cfg.nrIoUnits) ≤
      cfg.beginning times lba nsecsStart stat + i * times.latency
  laps : ∀ i, i + cfg.nrIoUnits < cfg.pieceCount (u32 length) → i < cfg.nrIoUnits →
    times.trailing ≤
      (cfg.pieceCount (u32 length) - 1 - i) / cfg.nrIoUnits * cfg.nrIoUnits * times.latency
  below : cfg.beginning times lba nsecsStart stat +
    cfg.pieceCount (u32 length) * times.latency + times.trailing < 2 ^ 64

variable {client : Nat}

/-- The units that get a trailing time. -/
def trailed (cfg : IoUnitConfig) (length : Nat) : Nat :=
  min cfg.nrIoUnits (u32 (u32 length + cfg.ioUnitSize - 1) / cfg.ioUnitSize)

/-- The `j`-th booking, without a wrap. -/
def slot (cfg : IoUnitConfig) (times : IoTimes) (client lba length nsecsStart : Nat)
    (stat : Nat → Nat) (j : Nat) : Booking Nat where
  client := client
  place := (cfg.firstUnit lba + j) % cfg.nrIoUnits
  start := cfg.beginning times lba nsecsStart stat + j * times.latency
  stop := cfg.beginning times lba nsecsStart stat + (j + 1) * times.latency +
    if j < cfg.trailed length then times.trailing else 0

/-- The bookings of a request that fits do not wrap. -/
theorem Fits.pieces_eq (h : cfg.Fits times lba length nsecsStart stat) :
    cfg.pieces times client lba length nsecsStart stat =
      (List.range (cfg.pieceCount (u32 length))).map
        (cfg.slot times client lba length nsecsStart stat) := by
  have hbelow := h.below
  have hbegin : u64 (cfg.beginning times lba nsecsStart stat) =
      cfg.beginning times lba nsecsStart stat := Nat.mod_eq_of_lt (by omega)
  unfold pieces
  rw [show max nsecsStart (stat (cfg.firstUnit lba)) + times.delay =
    cfg.beginning times lba nsecsStart stat from rfl, hbegin]
  apply List.map_congr_left
  intro j hj
  have hround : (j + 1) * times.latency ≤ cfg.pieceCount (u32 length) * times.latency :=
    Nat.mul_le_mul_right _ (List.mem_range.mp hj)
  have hbefore : j * times.latency ≤ (j + 1) * times.latency :=
    Nat.mul_le_mul_right _ (Nat.le_succ j)
  have hstart : u64 (cfg.beginning times lba nsecsStart stat + j * times.latency) =
      cfg.beginning times lba nsecsStart stat + j * times.latency := Nat.mod_eq_of_lt (by omega)
  have hdone : u64 (cfg.beginning times lba nsecsStart stat + (j + 1) * times.latency) =
      cfg.beginning times lba nsecsStart stat + (j + 1) * times.latency :=
    Nat.mod_eq_of_lt (by omega)
  have htrailing : u64 (cfg.beginning times lba nsecsStart stat + (j + 1) * times.latency +
      times.trailing) = cfg.beginning times lba nsecsStart stat + (j + 1) * times.latency +
      times.trailing := Nat.mod_eq_of_lt (by omega)
  unfold piece slot
  rw [hstart, hdone, htrailing]
  congr 1
  unfold trailed
  split
  · rfl
  · exact (Nat.add_zero _).symm

/-- Each of them is that of a round. -/
theorem Fits.mem_pieces (h : cfg.Fits times lba length nsecsStart stat) {b : Booking Nat}
    (hb : b ∈ cfg.pieces times client lba length nsecsStart stat) :
    ∃ j, j < cfg.pieceCount (u32 length) ∧
      b = cfg.slot times client lba length nsecsStart stat j := by
  rw [h.pieces_eq] at hb
  obtain ⟨j, hj, rfl⟩ := List.mem_map.mp hb
  exact ⟨j, List.mem_range.mp hj, rfl⟩

/-- Each unit is free when it is booked. -/
theorem Fits.start_free (h : cfg.Fits times lba length nsecsStart stat) {b : Booking Nat}
    (hb : b ∈ cfg.pieces times client lba length nsecsStart stat) : stat b.place ≤ b.start := by
  obtain ⟨j, hj, rfl⟩ := h.mem_pieces hb
  -- the first lap decides, and a later one comes later
  have hlap : (cfg.firstUnit lba + j) % cfg.nrIoUnits =
      (cfg.firstUnit lba + j % cfg.nrIoUnits) % cfg.nrIoUnits := (Nat.add_mod_mod ..).symm
  have hle : j % cfg.nrIoUnits * times.latency ≤ j * times.latency :=
    Nat.mul_le_mul_right _ (Nat.mod_le j _)
  have hfirst : stat ((cfg.firstUnit lba + j % cfg.nrIoUnits) % cfg.nrIoUnits) ≤
      cfg.beginning times lba nsecsStart stat + j % cfg.nrIoUnits * times.latency := by
    rcases Nat.eq_zero_or_pos (j % cfg.nrIoUnits) with hzero | hpos
    · rw [hzero, Nat.add_zero, Nat.mod_eq_of_lt (cfg.firstUnit_lt lba), Nat.zero_mul, Nat.add_zero]
      exact Nat.le_trans (Nat.le_max_right ..) (Nat.le_add_right ..)
    · exact h.later _ hpos (Nat.mod_lt _ cfg.nrIoUnits_pos) (Nat.lt_of_le_of_lt (Nat.mod_le j _) hj)
  unfold slot
  dsimp only
  rw [hlap]
  omega

/-- They end after they start. -/
theorem Fits.start_le_stop (h : cfg.Fits times lba length nsecsStart stat) {b : Booking Nat}
    (hb : b ∈ cfg.pieces times client lba length nsecsStart stat) : b.start ≤ b.stop := by
  obtain ⟨j, hj, rfl⟩ := h.mem_pieces hb
  unfold slot
  dsimp only
  have hround : j * times.latency ≤ (j + 1) * times.latency :=
    Nat.mul_le_mul_right _ (Nat.le_succ j)
  omega

/-- Each unit is known to be busy as long as it is booked. -/
theorem Fits.stop_le (h : cfg.Fits times lba length nsecsStart stat) {b : Booking Nat}
    (hb : b ∈ cfg.pieces times client lba length nsecsStart stat) :
    b.stop ≤ bookAll stat (cfg.pieces times client lba length nsecsStart stat) b.place := by
  obtain ⟨j, hj, rfl⟩ := h.mem_pieces hb
  have hpos := cfg.nrIoUnits_pos
  -- the last lap over the unit of this booking
  obtain ⟨laps, hlaps⟩ : ∃ laps, laps = (cfg.pieceCount (u32 length) - 1 - j) / cfg.nrIoUnits :=
    ⟨_, rfl⟩
  have hdiv := Nat.div_add_mod (cfg.pieceCount (u32 length) - 1 - j) cfg.nrIoUnits
  have hmod := Nat.mod_lt (cfg.pieceCount (u32 length) - 1 - j) hpos
  rw [← hlaps, Nat.mul_comm] at hdiv
  have hlast : j + laps * cfg.nrIoUnits < cfg.pieceCount (u32 length) := by omega
  have hplace : (cfg.slot times client lba length nsecsStart stat (j + laps * cfg.nrIoUnits)).place =
      (cfg.slot times client lba length nsecsStart stat j).place := by
    show (cfg.firstUnit lba + (j + laps * cfg.nrIoUnits)) % cfg.nrIoUnits = _
    rw [← Nat.add_assoc]
    exact Nat.add_mul_mod_self_right ..
  have hother : ∀ i, j + laps * cfg.nrIoUnits < i → i < cfg.pieceCount (u32 length) →
      (cfg.slot times client lba length nsecsStart stat i).place ≠
        (cfg.slot times client lba length nsecsStart stat (j + laps * cfg.nrIoUnits)).place := by
    intro i hi hik hsame
    have hsame : (cfg.firstUnit lba + i) % cfg.nrIoUnits =
      (cfg.firstUnit lba + (j + laps * cfg.nrIoUnits)) % cfg.nrIoUnits := hsame
    have hdvd := Nat.dvd_of_mod_eq_zero (Nat.sub_mod_eq_zero_of_mod_eq hsame)
    have hle := Nat.le_of_dvd (by omega) hdvd
    omega
  have hend : (cfg.slot times client lba length nsecsStart stat j).stop ≤
      (cfg.slot times client lba length nsecsStart stat (j + laps * cfg.nrIoUnits)).stop := by
    rcases Nat.eq_zero_or_pos laps with rfl | hagain
    · apply Nat.le_of_eq
      rw [Nat.zero_mul, Nat.add_zero]
    · have hlap : cfg.nrIoUnits ≤ laps * cfg.nrIoUnits := Nat.le_mul_of_pos_left _ hagain
      have htime : (j + laps * cfg.nrIoUnits + 1) * times.latency =
          (j + 1) * times.latency + laps * cfg.nrIoUnits * times.latency := by
        rw [← Nat.add_mul]
        congr 1
        omega
      unfold slot
      dsimp only
      rw [htime]
      by_cases hj : j < cfg.trailed length
      · have hfirst : j < cfg.nrIoUnits := Nat.lt_of_lt_of_le hj (Nat.min_le_left ..)
        have hover := h.laps j (by omega) hfirst
        rw [← hlaps] at hover
        rw [if_pos hj]
        omega
      · rw [if_neg hj]
        omega
  rw [h.pieces_eq, ← hplace, bookAll_range_last hlast hother]
  exact hend

/-- The unit of the last round is busy until the request is complete. -/
theorem Fits.completion_le (h : cfg.Fits times lba length nsecsStart stat) :
    ∃ u, u < cfg.nrIoUnits ∧ (cfg.scheduleIoUnits times lba length nsecsStart stat).1 ≤
      bookAll stat (cfg.pieces times client lba length nsecsStart stat) u := by
  have hpos : 0 < cfg.pieceCount (u32 length) := pieceCount_pos _
  obtain ⟨k, hk⟩ : ∃ k, cfg.pieceCount (u32 length) = k + 1 := Nat.exists_eq_add_of_lt hpos |>.imp
    fun k hk => by omega
  have hmem : cfg.slot times client lba length nsecsStart stat k ∈
      cfg.pieces times client lba length nsecsStart stat := by
    rw [h.pieces_eq, hk]
    exact List.mem_map_of_mem (List.mem_range.mpr (Nat.lt_succ_self k))
  refine ⟨_, Nat.mod_lt _ cfg.nrIoUnits_pos, Nat.le_trans ?_ (h.stop_le hmem)⟩
  have hbelow := h.below
  have htime : (cfg.scheduleIoUnits times lba length nsecsStart stat).1 =
      cfg.beginning times lba nsecsStart stat + cfg.pieceCount (u32 length) * times.latency := by
    rw [scheduleIoUnits_eq client]
    exact Nat.mod_eq_of_lt (by show cfg.beginning times lba nsecsStart stat + _ < _; omega)
  rw [htime, hk]
  exact Nat.le_add_right ..

end Fits

/-- A flush waits for every unit. -/
theorem le_scheduleFlush (stat : Nat → Nat) {u : Nat} (hu : u < cfg.nrIoUnits) :
    stat u ≤ cfg.scheduleFlush stat := by
  have hfold : ∀ (units : List Nat) (latest : Nat),
      latest ≤ units.foldl (fun latest i => max latest (stat i)) latest ∧
        ∀ u ∈ units, stat u ≤ units.foldl (fun latest i => max latest (stat i)) latest := by
    intro units
    induction units with
    | nil => exact fun latest => ⟨Nat.le_refl latest, nofun⟩
    | cons i units ih =>
      intro latest
      obtain ⟨hle, hall⟩ := ih (max latest (stat i))
      refine ⟨Nat.le_trans (Nat.le_max_left ..) hle, fun u hu => ?_⟩
      rcases List.mem_cons.mp hu with rfl | hu
      · exact Nat.le_trans (Nat.le_max_right ..) hle
      · exact hall u hu
  exact (hfold _ 0).2 u (List.mem_range.mpr hu)

/-! ## Runs -/

end IoUnitConfig

/-- The two copies of `__schedule_io_units`. -/
inductive IoUnitFtl where
  | simple | kv
  deriving DecidableEq, Repr

namespace IoUnitFtl

/-- The times a copy takes for an opcode. -/
def ioTimes (cfg : IoUnitConfig) : IoUnitFtl → UnitOpcode → IoTimes
  | .simple => cfg.simpleIoTimes
  | .kv => cfg.kvIoTimes

/-- `__schedule_io_units` of a copy. -/
def scheduleIoUnits (cfg : IoUnitConfig) :
    IoUnitFtl → UnitOpcode → Nat → Nat → Nat → (Nat → Nat) → Nat × (Nat → Nat)
  | .simple => cfg.simpleScheduleIoUnits
  | .kv => cfg.kvScheduleIoUnits

theorem scheduleIoUnits_eq (cfg : IoUnitConfig) (ftl : IoUnitFtl) (opcode : UnitOpcode)
    (lba length nsecsStart : Nat) (stat : Nat → Nat) :
    ftl.scheduleIoUnits cfg opcode lba length nsecsStart stat =
      cfg.scheduleIoUnits (ftl.ioTimes cfg opcode) lba length nsecsStart stat := by
  cases ftl with
  | simple => rfl
  | kv => rfl

end IoUnitFtl

/-- The arguments of a call. -/
structure UnitRequest where
  opcode : UnitOpcode
  lba : Nat
  length : Nat
  nsecsStart : Nat
  deriving DecidableEq, Repr

/-- The busy times, with what was booked, answered and known before. -/
structure IoUnitRun where
  stat : Nat → Nat
  bookings : List (Booking Nat)
  completions : List Nat
  past : List (Nat → Nat)
  requests : Nat
  lastStart : Nat

/-- A request is scheduled. -/
def IoUnitRun.scheduled (cfg : IoUnitConfig) (ftl : IoUnitFtl) (s : IoUnitRun) (r : UnitRequest) :
    IoUnitRun where
  stat := (ftl.scheduleIoUnits cfg r.opcode r.lba r.length r.nsecsStart s.stat).2
  bookings := s.bookings ++
    cfg.pieces (ftl.ioTimes cfg r.opcode) s.requests r.lba r.length r.nsecsStart s.stat
  completions := s.completions ++
    [(ftl.scheduleIoUnits cfg r.opcode r.lba r.length r.nsecsStart s.stat).1]
  past := s.past ++ [s.stat]
  requests := s.requests + 1
  lastStart := r.nsecsStart

/-- Requests come with start times that do not go back. -/
inductive IoUnitStep (cfg : IoUnitConfig) (ftl : IoUnitFtl) :
    IoUnitRun → UnitRequest → IoUnitRun → Prop where
  | schedule {s : IoUnitRun} {r : UnitRequest} : s.lastStart ≤ r.nsecsStart →
    IoUnitStep cfg ftl s r (s.scheduled cfg ftl r)

/-- No unit has been used. -/
def IoUnitRun.zero : IoUnitRun where
  stat := fun _ => 0
  bookings := []
  completions := []
  past := []
  requests := 0
  lastStart := 0

/-- The runs of a copy, from zeroed units on. -/
def ioUnitRuns (cfg : IoUnitConfig) (ftl : IoUnitFtl) : System IoUnitRun UnitRequest where
  init s := s = .zero
  step := IoUnitStep cfg ftl

/-- Busy times do not go back, different requests do not share a unit at a time, and a flush waits for
all of them. -/
structure BusyKept (cfg : IoUnitConfig) (s : IoUnitRun) : Prop where
  grows : ∀ old ∈ s.past, ∀ u, old u ≤ s.stat u
  apart : ∀ b ∈ s.bookings, ∀ c ∈ s.bookings, b.client ≠ c.client → b.place = c.place →
    b.stop ≤ c.start ∨ c.stop ≤ b.start
  flush : ∀ target ∈ s.completions, target ≤ cfg.scheduleFlush s.stat

/-- The request keeps the bookings of the ones before. -/
def FitsIn (cfg : IoUnitConfig) (ftl : IoUnitFtl) (s : IoUnitRun) (r : UnitRequest) : Prop :=
  cfg.Fits (ftl.ioTimes cfg r.opcode) r.lba r.length r.nsecsStart s.stat

section Runs

variable {cfg : IoUnitConfig} {ftl : IoUnitFtl} {s : IoUnitRun} {r : UnitRequest}

/-- What a run keeps: the busy times are those of its timetable. -/
structure Booked (cfg : IoUnitConfig) (s : IoUnitRun) : Prop where
  timetable : Timetable s.bookings s.stat
  clients : ∀ b ∈ s.bookings, b.client < s.requests
  grows : ∀ old ∈ s.past, ∀ u, old u ≤ s.stat u
  completions : ∀ target ∈ s.completions, ∃ u, u < cfg.nrIoUnits ∧ target ≤ s.stat u

/-- A request leaves the units with the timetable after its bookings. -/
theorem scheduled_stat (cfg : IoUnitConfig) (ftl : IoUnitFtl) (s : IoUnitRun) (r : UnitRequest) :
    (s.scheduled cfg ftl r).stat = bookAll s.stat
      (cfg.pieces (ftl.ioTimes cfg r.opcode) s.requests r.lba r.length r.nsecsStart s.stat) := by
  show (ftl.scheduleIoUnits cfg r.opcode r.lba r.length r.nsecsStart s.stat).2 = _
  rw [IoUnitFtl.scheduleIoUnits_eq, IoUnitConfig.scheduleIoUnits_eq s.requests]

/-- A request that fits keeps the timetable. -/
theorem Booked.schedule (h : Booked cfg s) (hfits : FitsIn cfg ftl s r) :
    Booked cfg (s.scheduled cfg ftl r) := by
  have hstat := scheduled_stat cfg ftl s r
  have hgrow : ∀ u, s.stat u ≤ (s.scheduled cfg ftl r).stat u := by
    rw [hstat]
    exact le_bookAll fun b hb => Nat.le_trans (hfits.start_free hb) (hfits.start_le_stop hb)
  have hclient : ∀ b ∈ cfg.pieces (ftl.ioTimes cfg r.opcode) s.requests r.lba r.length
      r.nsecsStart s.stat, b.client = s.requests := by
    intro b hb
    obtain ⟨j, _, rfl⟩ := hfits.mem_pieces hb
    rfl
  refine ⟨?_, ?_, ?_, ?_⟩
  · apply h.timetable.extend hgrow
    · exact fun b hb => hfits.start_free hb
    · rw [hstat]
      exact fun b hb => hfits.stop_le hb
    · exact fun b hb c hc => (hclient b hb).trans (hclient c hc).symm
  · intro b hb
    rcases List.mem_append.mp hb with hold | hnew
    · exact Nat.lt_succ_of_lt (h.clients b hold)
    · rw [hclient b hnew]
      exact Nat.lt_succ_self _
  · intro old hold u
    rcases List.mem_append.mp hold with hpast | hlast
    · exact Nat.le_trans (h.grows old hpast u) (hgrow u)
    · rw [List.mem_singleton.mp hlast]
      exact hgrow u
  · intro target htarget
    rcases List.mem_append.mp htarget with hpast | hlast
    · obtain ⟨u, hu, hle⟩ := h.completions target hpast
      exact ⟨u, hu, Nat.le_trans hle (hgrow u)⟩
    · rw [List.mem_singleton.mp hlast, hstat, IoUnitFtl.scheduleIoUnits_eq]
      exact hfits.completion_le

/-- By induction over the requests, each of which fits the timetable it finds. -/
theorem booked_of_reachable (h : ((ioUnitRuns cfg ftl).guarded (FitsIn cfg ftl)).Reachable s) :
    Booked cfg s := by
  induction h with
  | init h₀ =>
    obtain rfl : _ = IoUnitRun.zero := h₀
    exact ⟨.nil _, nofun, nofun, nofun⟩
  | step _ hstep ih =>
    obtain ⟨hfits, ⟨_⟩⟩ := hstep
    exact ih.schedule hfits

/-- In every run whose requests fit, the busy times of the units only grow, no two requests are
given the same unit at the same time, and a flush ends after all requests so far. It holds of both
copies of the scheduler. A request fits when it does not get to a later unit while that one is busy,
leaves no unit it passes again before its trailing time, and reaches no time of 2⁶⁴; the source
checks none of this. Start times do not go back, as those of one dispatcher do not. -/
theorem busy_time_kept (h : ((ioUnitRuns cfg ftl).guarded (FitsIn cfg ftl)).Reachable s) :
    BusyKept cfg s := by
  have hbooked := booked_of_reachable h
  refine ⟨hbooked.grows, ?_, ?_⟩
  · intro b hb c hc hne hplace
    exact hbooked.timetable.apart_of_mem hb hc hne hplace
  · intro target htarget
    obtain ⟨u, hu, hle⟩ := hbooked.completions target htarget
    exact Nat.le_trans hle (IoUnitConfig.le_scheduleFlush s.stat hu)

/-- Two units, a page each, whose writes take 100 and whose reads take 1. -/
def twoUnits : IoUnitConfig where
  nrIoUnits := 2
  ioUnitShift := 12
  readDelay := 0
  readTime := 1
  readTrailing := 0
  writeDelay := 0
  writeTime := 100
  writeTrailing := 0
  nrIoUnits_pos := by decide
  lbaBits_le := by decide
  ioUnitShift_lt := by decide

/-- A read of both units, from the first one on. -/
def readBoth : UnitRequest := ⟨.read, 0, 8192, 0⟩

/-- A write of both units. -/
def writeBoth : UnitRequest := ⟨.write, 0, 8192, 0⟩

/-- Nothing is booked before the read. -/
theorem readBoth_fits : FitsIn twoUnits .simple .zero readBoth where
  later i _ _ _ := Nat.zero_le _
  laps i hi _ := Nat.zero_le _
  below := by decide

/-- The write gets to the second unit long after the read has left it. -/
theorem writeBoth_fits :
    FitsIn twoUnits .simple (IoUnitRun.zero.scheduled twoUnits .simple readBoth) writeBoth where
  later i hi hlt _ := by
    obtain rfl : i = 1 := Nat.le_antisymm (Nat.le_of_lt_succ hlt) hi
    unfold IoUnitConfig.beginning
    rw [scheduled_stat]
    decide
  laps i hi _ := Nat.zero_le _
  below := by
    unfold IoUnitConfig.beginning
    rw [scheduled_stat]
    decide

/-- A read and then a write of both units. -/
theorem busy_time_kept_two : ∃ s, ((ioUnitRuns twoUnits .simple).guarded
      (FitsIn twoUnits .simple)).Reachable s ∧
    s.requests = 2 ∧ s.bookings.length = 4 ∧ s.stat 1 = 201 ∧ BusyKept twoUnits s := by
  have hread : ((ioUnitRuns twoUnits .simple).guarded (FitsIn twoUnits .simple)).Reachable
      (IoUnitRun.zero.scheduled twoUnits .simple readBoth) :=
    System.Reachable.guarded_step (.init rfl) (.schedule (Nat.le_refl 0)) readBoth_fits
  have hwrite :=
    hread.guarded_step (@IoUnitStep.schedule _ _ _ writeBoth (Nat.le_refl 0)) writeBoth_fits
  refine ⟨_, hwrite, rfl, rfl, ?_, busy_time_kept hwrite⟩
  rw [scheduled_stat, scheduled_stat]
  decide

/-- Both copies lose a booking. -/
theorem busy_time_lost (ftl : IoUnitFtl) :
    ¬ ∀ s, (ioUnitRuns twoUnits ftl).Reachable s → BusyKept twoUnits s := by
  intro hall
  have hwrite := System.Reachable.step (S := ioUnitRuns twoUnits ftl) (.init rfl)
    (@IoUnitStep.schedule _ _ _ ⟨.write, 8, 4096, 0⟩ (Nat.le_refl 0))
  have hread := hwrite.step (@IoUnitStep.schedule _ _ _ readBoth (Nat.le_refl 0))
  have hgrows := (hall _ hread).grows _ (List.mem_append_right _ (List.mem_singleton.mpr rfl)) 1
  simp only [scheduled_stat] at hgrows
  cases ftl with
  | simple => exact absurd hgrows (by decide)
  | kv => exact absurd hgrows (by decide)

/-- A write to the second unit, and then a read of both from the first: the read forgets that the
second unit is busy until 100. -/
theorem busy_time_forgotten :
    (¬ ∀ s, (ioUnitRuns twoUnits .simple).Reachable s → BusyKept twoUnits s) ∧
      ¬ ∀ s, (ioUnitRuns twoUnits .kv).Reachable s → BusyKept twoUnits s :=
  ⟨busy_time_lost .simple, busy_time_lost .kv⟩

end Runs

end NvmeVirt
