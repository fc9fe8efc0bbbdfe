import NvmeVirt.Lib.System
import NvmeVirt.Lib.Window
import NvmeVirt.Ssd.Channel

/-!
# The bandwidth model never oversubscribes an interval

`avail_credits` is a window of the timeline of 4 µs intervals. `channelRuns` keeps, beside the
model, what each interval was charged since the start: the credits its slot lost in each request.
The window then holds what is left of `max_credits` in every interval it covers
(`ChannelModel.Tracks`).

A request first moves the window up to the clock, which gives the slots that come in their full
credits, and then takes credits interval by interval until its data are through
(`chmodelCharge_spec`, by induction on the passes). Times are added as `uint64_t`, and intervals
counted in 32 bits; `Admits` is what a request needs of its times and length for that.

A device without credits is left out: its loop takes nothing from any interval.
-/

set_option autoImplicit false

namespace NvmeVirt

open Outcome

/-! ## The charging loop -/

/-- The loop of `chmodel_request` leaves by the exit "No free entry". -/
def noFreeEntry (head : Nat) : Nat → (Nat → Nat) → Nat → Nat → Bool
  | 0, _, _, _ => true
  | passes + 1, avail, pos, remaining =>
    let consumed := min remaining (avail pos)
    let avail := Function.update avail pos (avail pos - consumed)
    let remaining := remaining - consumed
    if remaining = 0 then false
    else
      let nextPos := (pos + 1) % nrCreditEntries
      if nextPos = head then true else noFreeEntry head passes avail nextPos remaining

/-- What the loop does when it starts at the `d`-th slot: it takes credits from the slots `d` to `e`
and no others, all that remained unless no entry was free. -/
structure TookCredits (head d remaining : Nat) (avail : Nat → Nat) (full : Bool) (e : Nat)
    (avail' : Nat → Nat) : Prop where
  le : d ≤ e
  lt : e < nrCreditEntries
  avail_le : ∀ i, avail' i ≤ avail i
  outside : ∀ j, j < nrCreditEntries → j < d ∨ e < j →
    avail' (ringSlot nrCreditEntries head j) = avail (ringSlot nrCreditEntries head j)
  total : full = false → ∑ j ∈ Finset.range nrCreditEntries,
    (avail (ringSlot nrCreditEntries head j) - avail' (ringSlot nrCreditEntries head j)) = remaining

/-- The window after `consumed` credits were taken from the `d`-th slot. -/
def takeCredits (head d : Nat) (avail : Nat → Nat) (consumed : Nat) : Nat → Nat :=
  Function.update avail (ringSlot nrCreditEntries head d)
    (avail (ringSlot nrCreditEntries head d) - consumed)

section Loop

variable {head d e consumed remaining : Nat} {avail avail' : Nat → Nat} {full : Bool}

/-- No slot gains credits. -/
theorem takeCredits_le (i : Nat) : takeCredits head d avail consumed i ≤ avail i := by
  unfold takeCredits
  by_cases hi : i = ringSlot nrCreditEntries head d
  · rw [hi, Function.update_self]
    exact Nat.sub_le ..
  · rw [Function.update_of_ne hi]

theorem takeCredits_self : takeCredits head d avail consumed (ringSlot nrCreditEntries head d) =
    avail (ringSlot nrCreditEntries head d) - consumed := Function.update_self ..

/-- Other intervals keep theirs. -/
theorem takeCredits_of_ne (hhead : head < nrCreditEntries) (hd : d < nrCreditEntries) {j : Nat}
    (hj : j < nrCreditEntries) (hne : j ≠ d) :
    takeCredits head d avail consumed (ringSlot nrCreditEntries head j) =
      avail (ringSlot nrCreditEntries head j) :=
  Function.update_of_ne (fun h => hne (ringSlot_inj hhead hj hd h)) ..

/-- Taking credits from one slot lowers the sum over all slots by them. -/
theorem sum_takeCredits (hhead : head < nrCreditEntries) (hd : d < nrCreditEntries)
    (hconsumed : consumed ≤ avail (ringSlot nrCreditEntries head d))
    (hle : ∀ i, avail' i ≤ takeCredits head d avail consumed i) :
    ∑ j ∈ Finset.range nrCreditEntries,
        (avail (ringSlot nrCreditEntries head j) - avail' (ringSlot nrCreditEntries head j)) =
      consumed + ∑ j ∈ Finset.range nrCreditEntries,
        (takeCredits head d avail consumed (ringSlot nrCreditEntries head j) -
          avail' (ringSlot nrCreditEntries head j)) := by
  have hmem : d ∈ Finset.range nrCreditEntries := Finset.mem_range.mpr hd
  have hrest : ∀ j ∈ (Finset.range nrCreditEntries).erase d,
      avail (ringSlot nrCreditEntries head j) - avail' (ringSlot nrCreditEntries head j) =
        takeCredits head d avail consumed (ringSlot nrCreditEntries head j) -
          avail' (ringSlot nrCreditEntries head j) := by
    intro j hj
    obtain ⟨hne, hj⟩ := Finset.mem_erase.mp hj
    rw [takeCredits_of_ne hhead hd (Finset.mem_range.mp hj) hne]
  have hslot := hle (ringSlot nrCreditEntries head d)
  rw [takeCredits_self] at hslot
  rw [← Finset.add_sum_erase _ _ hmem, Finset.sum_congr rfl hrest,
    ← Finset.add_sum_erase _ (fun j => takeCredits head d avail consumed _ - _) hmem,
    takeCredits_self, ← Nat.add_assoc]
  congr 1
  omega

/-- The slot has all that remains. -/
theorem TookCredits.last (hhead : head < nrCreditEntries) (hd : d < nrCreditEntries)
    (hconsumed : remaining ≤ avail (ringSlot nrCreditEntries head d)) :
    TookCredits head d remaining avail false d (takeCredits head d avail remaining) where
  le := Nat.le_refl d
  lt := hd
  avail_le := takeCredits_le
  outside j hj hjd := takeCredits_of_ne hhead hd hj (by omega)
  total _ := by
    rw [sum_takeCredits hhead hd hconsumed fun _ => Nat.le_refl _]
    simp

/-- The slot is the last of the window and has too little. -/
theorem TookCredits.short (hhead : head < nrCreditEntries) (hd : d + 1 = nrCreditEntries) :
    TookCredits head d remaining avail true d (takeCredits head d avail consumed) where
  le := Nat.le_refl d
  lt := by omega
  avail_le := takeCredits_le
  outside j hj hjd := takeCredits_of_ne hhead (by omega) hj (by omega)
  total := nofun

/-- The slot has too little, and the next ones pay the rest. -/
theorem TookCredits.next (hhead : head < nrCreditEntries)
    (hconsumed : consumed ≤ avail (ringSlot nrCreditEntries head d)) (hle : consumed ≤ remaining)
    (h : TookCredits head (d + 1) (remaining - consumed) (takeCredits head d avail consumed) full e
      avail') : TookCredits head d remaining avail full e avail' := by
  have hd : d < nrCreditEntries := Nat.lt_of_succ_le (h.le.trans h.lt.le)
  refine ⟨(Nat.le_succ d).trans h.le, h.lt, fun i => (h.avail_le i).trans (takeCredits_le i),
    fun j hj hjd => ?_, fun hfull => ?_⟩
  · have hle := h.le
    rw [h.outside j hj (by omega), takeCredits_of_ne hhead hd hj (by omega)]
  · rw [sum_takeCredits hhead hd hconsumed h.avail_le, h.total hfull]
    omega

/-- The loop charges interval after interval, and ends. -/
theorem chmodelCharge_spec (hhead : head < nrCreditEntries) :
    ∀ (passes : Nat) (avail : Nat → Nat) (d delay remaining : Nat), d < nrCreditEntries →
      nrCreditEntries ≤ d + passes →
      ∃ e, (chmodelCharge head passes avail (ringSlot nrCreditEntries head d) delay remaining).2.1 =
          ringSlot nrCreditEntries head e ∧
        TookCredits head d remaining avail
          (noFreeEntry head passes avail (ringSlot nrCreditEntries head d) remaining) e
          (chmodelCharge head passes avail (ringSlot nrCreditEntries head d) delay remaining).1
  | 0, _, _, _, _, hd, hpasses => absurd hd (Nat.not_lt.mpr hpasses)
  | passes + 1, avail, d, delay, remaining, hd, hpasses => by
    have hconsumed := Nat.min_le_right remaining (avail (ringSlot nrCreditEntries head d))
    have hle := Nat.min_le_left remaining (avail (ringSlot nrCreditEntries head d))
    have hends := ringSlot_succ_eq_head hhead hd
    have hnext : (ringSlot nrCreditEntries head d + 1) % nrCreditEntries =
        ringSlot nrCreditEntries head (d + 1) := Nat.mod_add_mod ..
    have htake : ∀ c, Function.update avail (ringSlot nrCreditEntries head d)
        (avail (ringSlot nrCreditEntries head d) - c) = takeCredits head d avail c := fun _ => rfl
    unfold chmodelCharge noFreeEntry
    dsimp only
    rw [htake]
    generalize hc : min remaining (avail (ringSlot nrCreditEntries head d)) = consumed at *
    by_cases hdone : remaining - consumed = 0
    · rw [if_pos hdone, if_pos hdone]
      have hall : consumed = remaining := by omega
      rw [hall] at hconsumed ⊢
      exact ⟨d, rfl, .last hhead hd hconsumed⟩
    · rw [if_neg hdone, if_neg hdone]
      by_cases hlast : d + 1 = nrCreditEntries
      · rw [if_pos (hends.mpr hlast), if_pos (hends.mpr hlast)]
        exact ⟨d, rfl, .short hhead hlast⟩
      · rw [if_neg (mt hends.mp hlast), if_neg (mt hends.mp hlast), hnext]
        obtain ⟨e, hpos, hcharged⟩ := chmodelCharge_spec hhead passes
          (takeCredits head d avail consumed) (d + 1) (delay + 1) (remaining - consumed) (by omega)
          (by omega)
        exact ⟨e, hpos, hcharged.next hhead hconsumed hle⟩

/-- More passes than there are slots change nothing: the loop has left before. -/
theorem chmodelCharge_passes (hhead : head < nrCreditEntries) :
    ∀ (passes : Nat) (avail : Nat → Nat) (d delay remaining more : Nat), d < nrCreditEntries →
      nrCreditEntries ≤ d + passes →
      chmodelCharge head (passes + more) avail (ringSlot nrCreditEntries head d) delay remaining =
        chmodelCharge head passes avail (ringSlot nrCreditEntries head d) delay remaining
  | 0, _, _, _, _, _, hd, hpasses => absurd hd (Nat.not_lt.mpr hpasses)
  | passes + 1, avail, d, delay, remaining, more, hd, hpasses => by
    have hends := ringSlot_succ_eq_head hhead hd
    have hnext : (ringSlot nrCreditEntries head d + 1) % nrCreditEntries =
        ringSlot nrCreditEntries head (d + 1) := Nat.mod_add_mod ..
    rw [Nat.add_right_comm]
    unfold chmodelCharge
    dsimp only
    by_cases hlast : d + 1 = nrCreditEntries
    · rw [if_pos (hends.mpr hlast), if_pos (hends.mpr hlast)]
    · rw [if_neg (mt hends.mp hlast), if_neg (mt hends.mp hlast), hnext,
        chmodelCharge_passes hhead passes _ (d + 1) (delay + 1) _ more (by omega) (by omega)]

end Loop

/-! ## The window moves on -/

/-- The two `MEMSET`s fill the slots the window leaves. -/
theorem fillSlots {head offs cap d : Nat} (hhead : head < nrCreditEntries) (hcap : cap < 2 ^ 8)
    (avail : Nat → Nat) (hd : d < nrCreditEntries) :
    (if nrCreditEntries ≤ head + offs then
      memset (memset avail head cap (nrCreditEntries - head)) 0 cap (offs - (nrCreditEntries - head))
    else memset avail head cap offs) (ringSlot nrCreditEntries head d) =
      if d < offs then cap else avail (ringSlot nrCreditEntries head d) := by
  have hvalue : cap % 2 ^ 8 = cap := Nat.mod_eq_of_lt hcap
  obtain hin | hwrap := Nat.lt_or_ge (head + d) nrCreditEntries
  · rw [ringSlot_of_lt hin]
    split
    · rename_i hfull
      rw [if_pos (by omega)]
      unfold memset
      rw [hvalue]
      split
      · rfl
      · rw [if_pos (by omega)]
    · unfold memset
      rw [hvalue]
      by_cases hlt : d < offs
      · rw [if_pos (by omega), if_pos hlt]
      · rw [if_neg (by omega), if_neg hlt]
  · rw [ringSlot_of_wrap hhead hd.le hwrap]
    split
    · unfold memset
      rw [hvalue]
      by_cases hlt : d < offs
      · rw [if_pos (by omega), if_pos hlt]
      · rw [if_neg (by omega), if_neg (by omega), if_neg hlt]
    · rw [if_neg (by omega)]
      unfold memset
      rw [if_neg (by omega)]

/-- The current interval of the model. -/
def ChannelModel.interval (ch : ChannelModel) : Nat := ch.curTime / unitTimeInterval

/-- The model's window, with what each interval was charged so far. -/
structure ChannelModel.Tracks (ch : ChannelModel) (cap : Nat) (charged : Nat → Nat) : Prop where
  window : Window nrCreditEntries cap ch.availCredits ch.head ch.interval ch.validLen charged
  maxCredits : ch.maxCredits = cap
  commandCredits : ch.commandCredits = 0

/-- The clock has not gone back since the last request, and what went by fits in 32 bits. -/
structure ChannelModel.ClockOk (ch : ChannelModel) (curTime : Nat) : Prop where
  forward : ch.curTime ≤ curTime
  width : curTime / unitTimeInterval - ch.interval < 2 ^ 32

/-- The distance of two times in intervals, where it fits. -/
theorem sub32_interval {a b : Nat} (hle : b ≤ a)
    (hwidth : a / unitTimeInterval - b / unitTimeInterval < 2 ^ 32) :
    sub32 (a / unitTimeInterval) (b / unitTimeInterval) =
      a / unitTimeInterval - b / unitTimeInterval := by
  have hdiv : b / unitTimeInterval ≤ a / unitTimeInterval := Nat.div_le_div_right hle
  generalize a / unitTimeInterval = x at *
  generalize b / unitTimeInterval = y at *
  unfold sub32 u32
  omega

section Request

variable {ch : ChannelModel} {cap curTime : Nat} {charged : Nat → Nat}

/-- The window moves on. -/
theorem ChannelModel.Tracks.advance (h : ch.Tracks cap charged) (hcap : cap < 2 ^ 8)
    (hclock : ch.ClockOk curTime) : (chmodelAdvance ch curTime).Tracks cap charged := by
  have hle : ch.interval ≤ curTime / unitTimeInterval := Nat.div_le_div_right hclock.forward
  have hsub : sub32 (curTime / unitTimeInterval) (ch.curTime / unitTimeInterval) =
      curTime / unitTimeInterval - ch.interval := sub32_interval hclock.forward hclock.width
  have hlen := h.window.len_le
  refine ⟨?_, h.maxCredits, h.commandCredits⟩
  unfold chmodelAdvance
  dsimp only
  rw [hsub, h.maxCredits]
  have hoffs : (if curTime / unitTimeInterval - ch.interval < ch.validLen then
      curTime / unitTimeInterval - ch.interval else ch.validLen) =
        min (curTime / unitTimeInterval - ch.interval) ch.validLen := by
    split
    all_goals omega
  generalize (if curTime / unitTimeInterval - ch.interval < ch.validLen then
    curTime / unitTimeInterval - ch.interval else ch.validLen) = offs at hoffs ⊢
  exact h.window.advance hle hoffs fun d hd =>
    fillSlots h.window.head_lt hcap ch.availCredits hd

/-! ## The transfer -/

/-- A transfer of `units` units from the `d`-th interval on. -/
theorem ChannelModel.Tracks.transfer (h : ch.Tracks cap charged) (requestTime : Nat) {d units : Nat}
    (hd : d < nrCreditEntries) (hunits : units < 2 ^ 32) {ch' : ChannelModel} {answer : Nat}
    (hrun : chmodelTransfer ch requestTime (ringSlot nrCreditEntries ch.head d) units =
      (ch', answer)) :
    ch'.Tracks cap (fun k => charged k +
        paid nrCreditEntries ch.head ch.interval ch.availCredits ch'.availCredits k) ∧
      (∀ k, k < ch.interval + d →
        paid nrCreditEntries ch.head ch.interval ch.availCredits ch'.availCredits k = 0) ∧
      (noFreeEntry ch.head nrCreditEntries ch.availCredits
          (ringSlot nrCreditEntries ch.head d) units = false →
        ∑ k ∈ Finset.Ico ch.interval (ch.interval + nrCreditEntries),
          paid nrCreditEntries ch.head ch.interval ch.availCredits ch'.availCredits k = units) := by
  have hhead := h.window.head_lt
  have hremaining : chmodelCredits ch units = units := by
    have hone : units * unitXferCredits = units := Nat.mul_one units
    unfold chmodelCredits
    rw [h.commandCredits, hone]
    unfold u32
    omega
  unfold chmodelTransfer at hrun
  dsimp only at hrun
  rw [hremaining] at hrun
  obtain ⟨e, hpos, hc⟩ := chmodelCharge_spec hhead nrCreditEntries ch.availCredits d 0 units hd
    (Nat.le_add_left _ _)
  rw [hpos] at hrun
  generalize (chmodelCharge ch.head nrCreditEntries ch.availCredits
    (ringSlot nrCreditEntries ch.head d) 0 units).1 = avail' at hrun hc
  have hlast : (if ch.head ≤ ringSlot nrCreditEntries ch.head e then
      ringSlot nrCreditEntries ch.head e - ch.head + 1
    else nrCreditEntries - (ch.head - ringSlot nrCreditEntries ch.head e - 1)) = e + 1 := by
    have hlt := hc.lt
    obtain hin | hwrap := Nat.lt_or_ge (ch.head + e) nrCreditEntries
    · rw [ringSlot_of_lt hin]
      split
      all_goals omega
    · rw [ringSlot_of_wrap hhead hlt.le hwrap]
      split
      all_goals omega
  rw [hlast] at hrun
  obtain ⟨rfl, rfl⟩ := Prod.mk.inj hrun
  refine ⟨⟨?_, h.maxCredits, h.commandCredits⟩, fun k hk => ?_, fun hfull => ?_⟩
  · exact h.window.pay hc.lt (fun j _ => hc.avail_le _) fun j hj hej => hc.outside j hj (.inr hej)
  · obtain hpast | hnow := Nat.lt_or_ge k ch.interval
    · exact paid_outside (.inl hpast)
    · obtain ⟨j, rfl⟩ := Nat.exists_eq_add_of_le hnow
      have hj : j < nrCreditEntries := by omega
      rw [paid_add hj]
      show _ - avail' _ = 0
      rw [hc.outside j hj (.inl (by omega)), Nat.sub_self]
  · rw [sum_paid]
    exact hc.total hfull

end Request

/-! ## Requests -/

/-- What `cpu_clock` answers next. -/
def Env.now (env : Env) : Nat := u64 (env.cpuClock env.tick)

theorem cpuClock_bind {α : Type} (f : Nat → FtlM α) (env : Env) :
    (cpuClock >>= f).run env = (f env.now).run { env with tick := env.tick + 1 } := rfl

/-- What the model relies on: the clock does not go back, and the time differences in intervals and
the length in units fit in 32 bits. A request time is one of 64 bits. -/
structure ChannelModel.Admits (ch : ChannelModel) (requestTime length curTime : Nat) : Prop where
  request : requestTime < 2 ^ 64
  clock : ch.ClockOk curTime
  width : curTime ≤ requestTime →
    requestTime / unitTimeInterval - curTime / unitTimeInterval < 2 ^ 32
  units : divRoundUp length unitXferSize < 2 ^ 32

/-- One of the two returns before the loop. -/
def ReturnsEarly (requestTime curTime : Nat) : Prop :=
  requestTime < curTime ∨
    nrCreditEntries ≤ requestTime / unitTimeInterval - curTime / unitTimeInterval

/-- The exit "No free entry" of a request that gets to the loop. -/
def ChannelModel.NoFreeEntry (ch : ChannelModel) (requestTime length curTime : Nat) : Prop :=
  noFreeEntry (chmodelAdvance ch curTime).head nrCreditEntries
    (chmodelAdvance ch curTime).availCredits
    (((chmodelAdvance ch curTime).head +
      (requestTime / unitTimeInterval - curTime / unitTimeInterval)) % nrCreditEntries)
    (divRoundUp length unitXferSize) = true

/-- What a request at `curTime` that gets to the loop adds to its time. -/
def ChannelModel.latency (ch : ChannelModel) (requestTime length curTime : Nat) : Nat :=
  chmodelLatency (chmodelAdvance ch curTime)
    (((chmodelAdvance ch curTime).head +
      (requestTime / unitTimeInterval - curTime / unitTimeInterval)) % nrCreditEntries)
    (divRoundUp length unitXferSize)

/-- `request_time + total_latency` fits in 64 bits. -/
def ChannelModel.SumFits (ch : ChannelModel) (requestTime length curTime : Nat) : Prop :=
  ReturnsEarly requestTime curTime ∨ requestTime + ch.latency requestTime length curTime < 2 ^ 64

/-- The request ends before 2⁶⁴ however long it takes: it adds nothing to its time, or that is early
enough for the longest transfer. -/
def EndsInTime (requestTime curTime : Nat) : Prop :=
  ReturnsEarly requestTime curTime ∨ requestTime + maxTransferLat < 2 ^ 64

/-- Where the end fits so do the sums on the way. -/
theorem EndsInTime.sumFits {requestTime curTime : Nat} (h : EndsInTime requestTime curTime)
    (ch : ChannelModel) (length : Nat) : ch.SumFits requestTime length curTime := by
  refine h.imp_right fun hfits => ?_
  have hlat : ch.latency requestTime length curTime ≤ maxTransferLat := chmodelLatency_le _ _ _
  omega

/-- The credits a request at `curTime` took from each interval: what the slot of the interval lost,
once the window had moved on. -/
def ChannelModel.charges (ch : ChannelModel) (curTime : Nat) (ch' : ChannelModel) : Nat → Nat :=
  paid nrCreditEntries (chmodelAdvance ch curTime).head (curTime / unitTimeInterval)
    (chmodelAdvance ch curTime).availCredits ch'.availCredits

/-- What a request does to a model that tracks its charges. -/
structure Served (ch : ChannelModel) (cap : Nat) (charged : Nat → Nat)
    (requestTime length curTime : Nat) (ch' : ChannelModel) (answer : Nat) : Prop where
  tracks : ch'.Tracks cap fun k => charged k + ch.charges curTime ch' k
  answer : requestTime ≤ answer ↔ ch.SumFits requestTime length curTime
  early : ReturnsEarly requestTime curTime → ∀ k, ch.charges curTime ch' k = 0
  before : ∀ k, k < requestTime / unitTimeInterval → ch.charges curTime ch' k = 0
  exact : ¬ ReturnsEarly requestTime curTime → ¬ ch.NoFreeEntry requestTime length curTime →
    ∑ k ∈ Finset.Ico (curTime / unitTimeInterval) (curTime / unitTimeInterval + nrCreditEntries),
      ch.charges curTime ch' k = divRoundUp length unitXferSize

section Serve

variable {ch : ChannelModel} {cap requestTime length : Nat} {charged : Nat → Nat}

/-- What a request answers at the time `curTime`. -/
def servedAt (ch : ChannelModel) (requestTime length curTime : Nat) : ChannelModel × Nat :=
  if requestTime < curTime ∨
      nrCreditEntries ≤ sub32 (requestTime / unitTimeInterval) (curTime / unitTimeInterval) then
    (chmodelAdvance ch curTime, requestTime)
  else
    chmodelTransfer (chmodelAdvance ch curTime) requestTime
      (((chmodelAdvance ch curTime).head +
        sub32 (requestTime / unitTimeInterval) (curTime / unitTimeInterval)) % nrCreditEntries)
      (u32 (divRoundUp length unitXferSize))

/-- A request is computed without a fault. -/
theorem chmodelRequest_run (ch : ChannelModel) (requestTime length : Nat) (env : Env)
    (hvalid : (chmodelAdvance ch env.now).validLen ≤ nrCreditEntries) :
    (chmodelRequest ch requestTime length).run env =
      .ok (servedAt ch requestTime length env.now, { env with tick := env.tick + 1 }) := by
  unfold chmodelRequest servedAt
  rw [cpuClock_bind]
  dsimp only
  rw [nvmevAssert_holds hvalid, pure_bind]
  split
  · rfl
  · rfl

/-- A request keeps it, and charges what it takes. -/
theorem ChannelModel.Tracks.request (h : ch.Tracks cap charged) (hcap : cap < 2 ^ 8) {env : Env}
    (ha : ch.Admits requestTime length env.now) :
    ∃ ch' answer env', (chmodelRequest ch requestTime length).run env = .ok ((ch', answer), env') ∧
      Served ch cap charged requestTime length env.now ch' answer := by
  have hadv := h.advance hcap ha.clock
  have hunits : u32 (divRoundUp length unitXferSize) = divRoundUp length unitXferSize :=
    Nat.mod_eq_of_lt ha.units
  have hrun := chmodelRequest_run ch requestTime length env hadv.window.len_le
  unfold servedAt at hrun
  rw [hunits] at hrun
  have hsub : env.now ≤ requestTime →
      sub32 (requestTime / unitTimeInterval) (env.now / unitTimeInterval) =
        requestTime / unitTimeInterval - env.now / unitTimeInterval :=
    fun hle => sub32_interval hle (ha.width hle)
  have hearly : (requestTime < env.now ∨ nrCreditEntries ≤
      sub32 (requestTime / unitTimeInterval) (env.now / unitTimeInterval)) ↔
        ReturnsEarly requestTime env.now := by
    unfold ReturnsEarly
    by_cases hlt : requestTime < env.now
    · exact iff_of_true (.inl hlt) (.inl hlt)
    · rw [hsub (Nat.le_of_not_lt hlt)]
  by_cases hreturn : ReturnsEarly requestTime env.now
  · rw [if_pos (hearly.mpr hreturn)] at hrun
    have hnone : ∀ k, ch.charges env.now (chmodelAdvance ch env.now) k = 0 := fun k => paid_self k
    refine ⟨_, _, _, hrun, ?_, iff_of_true (Nat.le_refl _) (.inl hreturn), fun _ => hnone,
      fun k _ => hnone k,
      fun hnot => absurd hreturn hnot⟩
    simp only [hnone, Nat.add_zero]
    exact hadv
  · have hle : env.now ≤ requestTime := Nat.le_of_not_lt fun hlt => hreturn (.inl hlt)
    have hd : requestTime / unitTimeInterval - env.now / unitTimeInterval < nrCreditEntries :=
      Nat.lt_of_not_le fun hge => hreturn (.inr hge)
    have hfrom : env.now / unitTimeInterval ≤ requestTime / unitTimeInterval :=
      Nat.div_le_div_right hle
    rw [if_neg (mt hearly.mp hreturn), hsub hle] at hrun
    obtain ⟨htracks, hbefore, hexact⟩ :=
      hadv.transfer requestTime hd ha.units (Prod.mk.eta).symm
    have hends : requestTime ≤ u64 (requestTime + ch.latency requestTime length env.now) ↔
        ch.SumFits requestTime length env.now := by
      have hlat : ch.latency requestTime length env.now ≤ maxTransferLat := chmodelLatency_le _ _ _
      have hmax : maxTransferLat < 2 ^ 34 := by decide
      have hfits := ha.request
      unfold ChannelModel.SumFits u64
      rw [or_iff_right hreturn]
      omega
    refine ⟨_, _, _, hrun, htracks, hends, fun hnot => absurd hnot hreturn,
      fun k hk => ?_, fun _ hfree => hexact (Bool.eq_false_iff.mpr hfree)⟩
    refine hbefore k ?_
    show k < env.now / unitTimeInterval + _
    omega

end Serve

/-! ## Runs -/

/-- A model with the credits charged to each interval since the start. -/
structure ChannelRun where
  ch : ChannelModel
  charged : Nat → Nat

structure ChannelRequest where
  requestTime : Nat
  length : Nat
  answer : Nat

/-- Sequences of requests to a model of the given bandwidth. `ssd_init_ch` makes the latency of a unit
longer before the first one. -/
def channelRuns (bandwidth : Nat) : System ChannelRun ChannelRequest where
  init s := (∃ xferLat, s.ch = { chmodelInit bandwidth with xferLat }) ∧ s.charged = fun _ => 0
  step s req s' := ∃ env env', s.ch.Admits req.requestTime req.length env.now ∧
    (chmodelRequest s.ch req.requestTime req.length).run env = .ok ((s'.ch, req.answer), env') ∧
      s'.charged = fun k => s.charged k + s.ch.charges env.now s'.ch k

/-- A model whose entries are all full has charged nothing. -/
theorem ChannelModel.tracks_of_full {ch : ChannelModel} (hhead : ch.head = 0) (hlen : ch.validLen = 0)
    (hcommand : ch.commandCredits = 0)
    (havail : ch.availCredits = memset (fun _ => 0) 0 ch.maxCredits nrCreditEntries)
    (hcap : ch.maxCredits < 2 ^ 8) : ch.Tracks ch.maxCredits fun _ => 0 := by
  refine ⟨⟨?_, ?_, fun d hd => ?_, fun _ _ => rfl, fun _ => Nat.zero_le _⟩, rfl, hcommand⟩
  · rw [hhead]
    decide
  · rw [hlen]
    exact Nat.zero_le _
  · have hlt : ringSlot nrCreditEntries ch.head d < nrCreditEntries := ringSlot_lt (by decide)
    rw [havail, Nat.add_zero]
    unfold memset
    rw [if_pos ⟨Nat.zero_le _, by omega⟩, Nat.mod_eq_of_lt hcap]

/-- At the start nothing is charged. -/
theorem chmodelInit_tracks {bandwidth : Nat} (hcap : (chmodelInit bandwidth).maxCredits < 2 ^ 8)
    (xferLat : Nat) : ChannelModel.Tracks { chmodelInit bandwidth with xferLat }
      (chmodelInit bandwidth).maxCredits fun _ => 0 :=
  @ChannelModel.tracks_of_full { chmodelInit bandwidth with xferLat } rfl rfl rfl rfl hcap

/-- The window tracks the charges in every run of admitted requests, of any lengths. -/
theorem channelRuns_tracks {bandwidth : Nat} (hcap : (chmodelInit bandwidth).maxCredits < 2 ^ 8) :
    (channelRuns bandwidth).Invariant fun s =>
      s.ch.Tracks (chmodelInit bandwidth).maxCredits s.charged where
  init := by
    rintro ⟨ch, charged⟩ ⟨⟨xferLat, hch⟩, hcharged⟩
    dsimp only at hch hcharged ⊢
    rw [hch, hcharged]
    exact chmodelInit_tracks hcap xferLat
  step := by
    rintro ⟨ch, charged⟩ req ⟨ch', charged'⟩ htracks ⟨env, env', hadmits, hrun, hcharged⟩
    obtain ⟨ch₁, answer, env₁, hserved, hs⟩ := ChannelModel.Tracks.request htracks hcap hadmits
    rw [hserved] at hrun
    obtain ⟨hpair, _⟩ := Prod.mk.inj (Except.ok.inj hrun)
    obtain ⟨hch, _⟩ := Prod.mk.inj hpair
    dsimp only at hch hcharged ⊢
    rw [hcharged, ← hch]
    exact hs.tracks

/-- **Bandwidth.** In every run of requests no interval is charged more than `max_credits`, the window
is in shape, and the next request is answered: it charges what it needs to intervals from its time on,
unless it returns early or finds no free entry. The answer is no earlier than the request's time as long
as the transfer ends before 2⁶⁴, and exactly when `request_time + total_latency` does not wrap. The
loop is done after as many passes as there are entries. -/
theorem channel_never_oversubscribed {bandwidth : Nat}
    (hcap : 1 ≤ (chmodelInit bandwidth).maxCredits ∧ (chmodelInit bandwidth).maxCredits ≤ 255)
    {s : ChannelRun}
    (hs : (channelRuns bandwidth).Reachable s) :
    s.ch.maxCredits = (chmodelInit bandwidth).maxCredits ∧ s.ch.head < nrCreditEntries ∧
      s.ch.validLen ≤ nrCreditEntries ∧
      (∀ d, s.ch.validLen ≤ d → d < nrCreditEntries →
        s.ch.availCredits ((s.ch.head + d) % nrCreditEntries) = s.ch.maxCredits) ∧
      (∀ k, s.charged k ≤ s.ch.maxCredits) ∧
      (∀ env requestTime length, s.ch.Admits requestTime length env.now →
        ∃ ch' answer env',
          (chmodelRequest s.ch requestTime length).run env = .ok ((ch', answer), env') ∧
            (EndsInTime requestTime env.now → requestTime ≤ answer) ∧
            (requestTime ≤ answer ↔ s.ch.SumFits requestTime length env.now) ∧
            (ReturnsEarly requestTime env.now → ∀ k, s.ch.charges env.now ch' k = 0) ∧
            (∀ k, k < requestTime / unitTimeInterval → s.ch.charges env.now ch' k = 0) ∧
            (¬ ReturnsEarly requestTime env.now → ¬ s.ch.NoFreeEntry requestTime length env.now →
              ∑ k ∈ Finset.Ico (env.now / unitTimeInterval)
                  (env.now / unitTimeInterval + nrCreditEntries),
                s.ch.charges env.now ch' k = divRoundUp length unitXferSize)) ∧
      ∀ curTime avail offs remaining more, offs < nrCreditEntries →
        chmodelCharge (chmodelAdvance s.ch curTime).head (nrCreditEntries + more) avail
            (((chmodelAdvance s.ch curTime).head + offs) % nrCreditEntries) 0 remaining =
          chmodelCharge (chmodelAdvance s.ch curTime).head nrCreditEntries avail
            (((chmodelAdvance s.ch curTime).head + offs) % nrCreditEntries) 0 remaining := by
  have hlt : (chmodelInit bandwidth).maxCredits < 2 ^ 8 := Nat.lt_succ_of_le hcap.2
  have htracks := (channelRuns_tracks hlt).reachable hs
  have hw := htracks.window
  rw [htracks.maxCredits]
  refine ⟨rfl, hw.head_lt, hw.len_le, fun d hlen hd => hw.full hlen hd, hw.le_cap, ?_, ?_⟩
  · intro env requestTime length hadmits
    obtain ⟨ch', answer, env', hrun, hserved⟩ := htracks.request hlt hadmits
    exact ⟨ch', answer, env', hrun, fun hfits => hserved.answer.mpr (hfits.sumFits _ _),
      hserved.answer, hserved.early, hserved.before, hserved.exact⟩
  · intro curTime avail offs remaining more hoffs
    have hhead : (chmodelAdvance s.ch curTime).head < nrCreditEntries := Nat.mod_lt _ (by decide)
    exact chmodelCharge_passes hhead nrCreditEntries avail offs 0 remaining more hoffs
      (Nat.le_add_left _ _)

/-! ## A channel of 3360 MB/s -/

/-- A clock that stands still. -/
def Env.standing (now : Nat) : Env := { Env.zero with cpuClock := fun _ => now }

theorem Env.standing_now {now : Nat} (h : now < 2 ^ 64) : (Env.standing now).now = now :=
  Nat.mod_eq_of_lt h

/-- The state after a request at `curTime`. -/
def ChannelRun.served (s : ChannelRun) (requestTime length curTime : Nat) : ChannelRun where
  ch := (servedAt s.ch requestTime length curTime).1
  charged := fun k => s.charged k +
    s.ch.charges curTime (servedAt s.ch requestTime length curTime).1 k

theorem ChannelRun.served_step (bandwidth : Nat) {s : ChannelRun} (requestTime length curTime : Nat)
    (hadmits : s.ch.Admits requestTime length curTime) (hcur : curTime < 2 ^ 64)
    (hvalid : (chmodelAdvance s.ch curTime).validLen ≤ nrCreditEntries) :
    (channelRuns bandwidth).step s
      ⟨requestTime, length, (servedAt s.ch requestTime length curTime).2⟩
      (s.served requestTime length curTime) := by
  have hnow := Env.standing_now hcur
  have hrun := chmodelRequest_run s.ch requestTime length (Env.standing curTime) (hnow.symm ▸ hvalid)
  rw [hnow] at hrun
  exact ⟨Env.standing curTime, _, hnow.symm ▸ hadmits, hrun, by rw [hnow]; rfl⟩

/-- 16 KiB over the channel at time 0, and 16 KiB again one interval later. The first transfer takes
all of interval 0 and some of interval 1, the second the rest of that. -/
theorem channel_two_transfers : ∃ s, (channelRuns 3360).Reachable s ∧
    s.charged 0 = s.ch.maxCredits ∧ s.charged 1 = s.ch.maxCredits ∧ 0 < s.charged 2 ∧
      s.ch.validLen ≤ nrCreditEntries ∧ ∀ k, s.charged k ≤ s.ch.maxCredits := by
  have hcap : 1 ≤ (chmodelInit 3360).maxCredits ∧ (chmodelInit 3360).maxCredits ≤ 255 := by
    decide +kernel
  have hinit : (channelRuns 3360).Reachable ⟨chmodelInit 3360, fun _ => 0⟩ :=
    .init ⟨⟨(chmodelInit 3360).xferLat, rfl⟩, rfl⟩
  have hone := hinit.step (ChannelRun.served_step 3360 0 (2 ^ 14) 0
    ⟨by decide, ⟨Nat.zero_le _, by decide +kernel⟩, fun _ => by decide +kernel, by decide +kernel⟩
    (by decide) (by decide +kernel))
  have htwo := hone.step (ChannelRun.served_step 3360 4000 (2 ^ 14) 4000
    ⟨by decide, ⟨by decide +kernel, by decide +kernel⟩, fun _ => by decide +kernel,
      by decide +kernel⟩ (by decide) (by decide +kernel))
  obtain ⟨_, _, hlen, _, hle, _⟩ := channel_never_oversubscribed hcap htwo
  exact ⟨_, htwo, by decide +kernel, by decide +kernel, by decide +kernel, hlen, hle⟩

/-- The channel when nothing was charged and the last request came at `curTime`. -/
def idleChannel (curTime : Nat) : ChannelModel := { chmodelInit 3360 with curTime }

/-- A window that covers no interval stays as it is. -/
theorem idleChannel_advance (a b : Nat) : chmodelAdvance (idleChannel a) b = idleChannel b := by
  have hoffs : ∀ n, (if n < 0 then n else 0) = 0 := fun n => if_neg (Nat.not_lt_zero n)
  have hfill : ∀ f : Nat → Nat, memset f 0 (chmodelInit 3360).maxCredits 0 = f := fun f =>
    funext fun i => if_neg (by omega)
  unfold chmodelAdvance idleChannel
  dsimp only
  have hlen : (chmodelInit 3360).validLen = 0 := rfl
  have hhead : (chmodelInit 3360).head = 0 := rfl
  rw [hlen, hoffs, hhead, if_neg (by decide), hfill]
  rfl

/-- A request that comes too late moves the clock of an idle channel and charges nothing. -/
theorem idleChannel_waits {charged : Nat → Nat} {a b : Nat}
    (hs : (channelRuns 3360).Reachable ⟨idleChannel a, charged⟩) (hle : a ≤ b) (hpos : 0 < b)
    (hb : b < 2 ^ 64) (hwidth : b - a < 2 ^ 43) :
    ∃ charged', (channelRuns 3360).Reachable ⟨idleChannel b, charged'⟩ := by
  have hclock : (idleChannel a).ClockOk b := by
    refine ⟨hle, ?_⟩
    show b / unitTimeInterval - a / unitTimeInterval < 2 ^ 32
    unfold unitTimeInterval
    omega
  have hserved := ChannelRun.served_step 3360 (s := ⟨idleChannel a, charged⟩) 0 0 b
    ⟨by decide, hclock, fun hzero => absurd hpos (by omega), by decide⟩ hb
    (by rw [idleChannel_advance]; exact Nat.zero_le _)
  have hearly : servedAt (idleChannel a) 0 0 b = (idleChannel b, 0) := by
    unfold servedAt
    rw [if_pos (.inl hpos), idleChannel_advance]
  unfold ChannelRun.served at hserved
  rw [hearly] at hserved
  exact ⟨_, hs.step hserved⟩

/-- Any time is reached by waiting. -/
theorem idleChannel_reachable : ∀ (n : Nat) {t : Nat}, t < 2 ^ 64 → t < n * 2 ^ 42 →
    ∃ charged, (channelRuns 3360).Reachable ⟨idleChannel t, charged⟩
  | 0, _, _, hlt => absurd hlt (by omega)
  | n + 1, t, ht, hlt => by
    obtain hzero | hpos := Nat.eq_zero_or_pos t
    · subst hzero
      exact ⟨_, .init ⟨⟨(chmodelInit 3360).xferLat, rfl⟩, rfl⟩⟩
    · have hbefore : t - 2 ^ 42 < n * 2 ^ 42 ∨ t < 2 ^ 42 := by omega
      obtain hbefore | hfirst := hbefore
      · obtain ⟨_, hreach⟩ := idleChannel_reachable n (t := t - 2 ^ 42) (by omega) hbefore
        exact idleChannel_waits hreach (by omega) hpos ht (by omega)
      · have hinit : (channelRuns 3360).Reachable ⟨idleChannel 0, fun _ => 0⟩ :=
          .init ⟨⟨(chmodelInit 3360).xferLat, rfl⟩, rfl⟩
        exact idleChannel_waits hinit (Nat.zero_le t) hpos ht (by omega)

/-- In the last nanosecond of the clock a transfer of 128 bytes is answered with a time long past. -/
theorem channel_answer_wraps : ∃ s req s', (channelRuns 3360).Reachable s ∧
    (channelRuns 3360).step s req s' ∧ req.length = 128 ∧ req.answer < req.requestTime := by
  obtain ⟨charged, hreach⟩ := idleChannel_reachable (2 ^ 22) (t := 2 ^ 64 - 1) (by decide) (by decide)
  have hclock : (idleChannel (2 ^ 64 - 1)).Admits (2 ^ 64 - 1) 128 (2 ^ 64 - 1) :=
    ⟨by decide, ⟨Nat.le_refl _, by decide +kernel⟩, fun _ => by decide +kernel, by decide +kernel⟩
  have hvalid : (chmodelAdvance (idleChannel (2 ^ 64 - 1)) (2 ^ 64 - 1)).validLen ≤ nrCreditEntries := by
    decide +kernel
  have hanswer : (servedAt (idleChannel (2 ^ 64 - 1)) (2 ^ 64 - 1) 128 (2 ^ 64 - 1)).2 < 2 ^ 64 - 1 := by
    decide +kernel
  exact ⟨_, _, _, hreach, ChannelRun.served_step 3360 (s := ⟨_, charged⟩) _ _ _ hclock (by decide) hvalid,
    rfl, hanswer⟩

end NvmeVirt
