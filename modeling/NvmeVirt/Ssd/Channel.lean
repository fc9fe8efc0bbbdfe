import Mathlib.Tactic.Linarith
import NvmeVirt.Kernel

/-!
# The bandwidth model (`channel_model.c`)

A channel hands out credits per 4 µs interval. `avail_credits` is a circular window over the
intervals from `cur_time` on, `head` being the current one; a transfer takes the credits it needs
from its interval and, when they run out, from the following ones.

Here and in the rest of the timing model a point in time is a number of nanoseconds in 64 bits, and a
sum of times wraps as the source's does. The 32-bit differences of interval numbers are taken as the
source takes them.
-/

set_option autoImplicit false

namespace NvmeVirt

/-- `NR_CREDIT_ENTRIES`. -/
def nrCreditEntries : Nat := 1024 * 96

/-- `UNIT_TIME_INTERVAL`, in nanoseconds. -/
def unitTimeInterval : Nat := 4000

/-- `UNIT_XFER_SIZE`, in bytes, and the credits one unit costs. -/
def unitXferSize : Nat := 128
def unitXferCredits : Nat := 1

structure ChannelModel where
  curTime : Nat
  head : Nat
  validLen : Nat
  maxCredits : Nat
  commandCredits : Nat
  xferLat : Nat
  availCredits : Nat → Nat

/-- `MEMSET(&a[start], value, length)`; a credit is one byte. -/
def memset (a : Nat → Nat) (start value length : Nat) : Nat → Nat :=
  fun i => if start ≤ i ∧ i < start + length then value % 2 ^ 8 else a i

/-- `chmodel_init`, with `BANDWIDTH_TO_MAX_CREDITS` and `BANDWIDTH_TO_TX_TIME`. -/
def chmodelInit (bandwidth : Nat) : ChannelModel :=
  let maxCredits :=
    bandwidth * 2 ^ 20 * unitTimeInterval / 1000000000 / unitXferSize * unitXferCredits
  { curTime := 0, head := 0, validLen := 0, maxCredits, commandCredits := 0
    xferLat := unitXferSize * 1000000000 / (bandwidth * 2 ^ 20)
    availCredits := memset (fun _ => 0) 0 maxCredits nrCreditEntries }

/-- The charging loop of `chmodel_request`: the window, the last interval charged and the delay.
The loop leaves at the latest when it comes round to `head`, so `nrCreditEntries` passes do. -/
def chmodelCharge (head : Nat) : Nat → (Nat → Nat) → Nat → Nat → Nat → (Nat → Nat) × Nat × Nat
  | 0, avail, pos, delay, _ => (avail, pos, delay)
  | passes + 1, avail, pos, delay, remaining =>
    let consumed := min remaining (avail pos)
    let avail := Function.update avail pos (avail pos - consumed)
    let remaining := remaining - consumed
    if remaining = 0 then (avail, pos, delay)
    else
      let nextPos := (pos + 1) % nrCreditEntries
      if nextPos = head then (avail, pos, delay)
      else chmodelCharge head passes avail nextPos (delay + 1) remaining

/-- The first part of `chmodel_request`: the window moves on to the current interval, and the
intervals it leaves become fresh. -/
def chmodelAdvance (ch : ChannelModel) (curTime : Nat) : ChannelModel :=
  let offs := sub32 (curTime / unitTimeInterval) (ch.curTime / unitTimeInterval)
  let offs := if offs < ch.validLen then offs else ch.validLen
  let avail :=
    if nrCreditEntries ≤ ch.head + offs then
      memset (memset ch.availCredits ch.head ch.maxCredits (nrCreditEntries - ch.head)) 0
        ch.maxCredits (offs - (nrCreditEntries - ch.head))
    else memset ch.availCredits ch.head ch.maxCredits offs
  { ch with
    availCredits := avail
    head := (ch.head + offs) % nrCreditEntries
    curTime
    validLen := ch.validLen - offs }

/-- `remaining_credits` before the loop of `chmodel_request`. -/
def chmodelCredits (ch : ChannelModel) (unitsToXfer : Nat) : Nat :=
  u32 (u32 (unitsToXfer * unitXferCredits) + ch.commandCredits)

/-- `total_latency`, for a transfer from interval `pos` on: the intervals that were full are a delay. It
stays below 2³³. -/
def chmodelLatency (ch : ChannelModel) (pos unitsToXfer : Nat) : Nat :=
  let remaining := chmodelCredits ch unitsToXfer
  let defaultDelay := remaining / ch.maxCredits
  let delay := (chmodelCharge ch.head nrCreditEntries ch.availCredits pos 0 remaining).2.2
  let delay := if defaultDelay < delay then delay - defaultDelay else 0
  u32 (ch.xferLat * unitsToXfer) + delay * unitTimeInterval

/-- The last part of `chmodel_request`: charge the units from interval `pos` on, and add the latency. -/
def chmodelTransfer (ch : ChannelModel) (requestTime pos unitsToXfer : Nat) : ChannelModel × Nat :=
  let charged := chmodelCharge ch.head nrCreditEntries ch.availCredits pos 0
    (chmodelCredits ch unitsToXfer)
  let last := charged.2.1
  let validLength := if ch.head ≤ last then last - ch.head + 1
    else nrCreditEntries - (ch.head - last - 1)
  ({ ch with availCredits := charged.1, validLen := max ch.validLen validLength },
    u64 (requestTime + chmodelLatency ch pos unitsToXfer))

/-- `chmodel_request`: the model after the transfer, and the time the transfer ends. -/
def chmodelRequest (ch : ChannelModel) (requestTime length : Nat) : FtlM (ChannelModel × Nat) := do
  let curTime ← cpuClock
  let unitsToXfer := u32 (divRoundUp length unitXferSize)
  let ch := chmodelAdvance ch curTime
  nvmevAssert (ch.validLen ≤ nrCreditEntries)
  let requestTimeOffs := sub32 (requestTime / unitTimeInterval) (curTime / unitTimeInterval)
  if requestTime < curTime ∨ nrCreditEntries ≤ requestTimeOffs then
    pure (ch, requestTime)
  else
    pure (chmodelTransfer ch requestTime ((ch.head + requestTimeOffs) % nrCreditEntries) unitsToXfer)

/-! ## The window never claims more intervals than it has -/

/-- The assertion of `chmodel_request`, kept between two requests. -/
def ChannelModel.InWindow (ch : ChannelModel) : Prop := ch.validLen ≤ nrCreditEntries

theorem chmodelInit_inWindow (bandwidth : Nat) : (chmodelInit bandwidth).InWindow :=
  Nat.zero_le _

theorem ChannelModel.InWindow.withXferLat {ch : ChannelModel} (h : ch.InWindow) (lat : Nat) :
    { ch with xferLat := lat }.InWindow := h

theorem chmodelCharge_pos_lt {head : Nat} :
    ∀ (passes : Nat) (avail : Nat → Nat) (pos delay remaining : Nat), pos < nrCreditEntries →
      (chmodelCharge head passes avail pos delay remaining).2.1 < nrCreditEntries
  | 0, _, _, _, _, h => h
  | passes + 1, avail, pos, delay, remaining, h => by
    unfold chmodelCharge
    dsimp only
    split
    · exact h
    · split
      · exact h
      · exact chmodelCharge_pos_lt passes _ _ _ _ (Nat.mod_lt _ (by decide))

theorem chmodelCharge_delay_le (head : Nat) :
    ∀ (passes : Nat) (avail : Nat → Nat) (pos delay remaining : Nat),
      (chmodelCharge head passes avail pos delay remaining).2.2 ≤ delay + passes
  | 0, _, _, _, _ => Nat.le_refl _
  | passes + 1, avail, pos, delay, remaining => by
    unfold chmodelCharge
    dsimp only
    split
    · exact Nat.le_add_right _ _
    · split
      · exact Nat.le_add_right _ _
      · have hrest := chmodelCharge_delay_le head passes
          (Function.update avail pos (avail pos - min remaining (avail pos)))
          ((pos + 1) % nrCreditEntries) (delay + 1) (remaining - min remaining (avail pos))
        omega

/-- The longest a transfer can take. -/
def maxTransferLat : Nat := 2 ^ 32 + nrCreditEntries * unitTimeInterval

theorem chmodelLatency_le (ch : ChannelModel) (pos units : Nat) :
    chmodelLatency ch pos units ≤ maxTransferLat := by
  have hdelay := chmodelCharge_delay_le ch.head nrCreditEntries ch.availCredits pos 0
    (chmodelCredits ch units)
  have hxfer : u32 (ch.xferLat * units) < 2 ^ 32 := Nat.mod_lt _ (by decide)
  unfold chmodelLatency maxTransferLat
  dsimp only
  generalize (chmodelCharge ch.head nrCreditEntries ch.availCredits pos 0
    (chmodelCredits ch units)).2.2 = delay at hdelay ⊢
  generalize chmodelCredits ch units / ch.maxCredits = defaultDelay
  unfold nrCreditEntries unitTimeInterval at *
  split
  · omega
  · omega

theorem chmodelTransfer_inWindow {ch : ChannelModel} (h : ch.InWindow) (requestTime : Nat) {pos : Nat}
    (hpos : pos < nrCreditEntries) (units : Nat) :
    (chmodelTransfer ch requestTime pos units).1.InWindow := by
  unfold chmodelTransfer ChannelModel.InWindow
  dsimp only
  have hlast : (chmodelCharge ch.head nrCreditEntries ch.availCredits pos 0
      (chmodelCredits ch units)).2.1 < nrCreditEntries := chmodelCharge_pos_lt _ _ _ _ _ hpos
  generalize chmodelCharge ch.head nrCreditEntries ch.availCredits pos 0
    (chmodelCredits ch units) = charged at hlast ⊢
  refine max_le h ?_
  split
  · omega
  · exact Nat.sub_le ..

theorem chmodelRequest_ensures {E : Fault → Prop} {ch : ChannelModel} (h : ch.InWindow)
    (requestTime length : Nat) :
    Outcome.Ensures E (chmodelRequest ch requestTime length) (fun r => r.1.InWindow) := by
  unfold chmodelRequest
  refine cpuClock_ensures.bind fun curTime _ => ?_
  have hadv : (chmodelAdvance ch curTime).validLen ≤ nrCreditEntries := (Nat.sub_le ..).trans h
  refine (nvmevAssert_ensures hadv).bind fun _ _ => ?_
  refine .ite (fun _ => .pure hadv) fun _ => .pure ?_
  exact chmodelTransfer_inWindow hadv _ (Nat.mod_lt _ (by decide)) _

end NvmeVirt
