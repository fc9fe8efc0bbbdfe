import NvmeVirt.Conv.Pages
import NvmeVirt.Conv.Rl

/-!
# Garbage collection

`do_gc` takes one victim line, copies its valid pages through one of the two GC streams, erases its
blocks as their last flash page is cleaned, and returns the line to the free list. `gc_mode` is read
once for each collection.

The function is cut where the laws need it: `gcSelect` finds the victim, `gcCollect` is all that
follows. The flash commands of a collection go to the timing model only if `enable_gc_delay` is set,
as in the source.
-/

set_option autoImplicit false

namespace NvmeVirt

open Outcome

/-- `GC_MODE_GREEDY`, `GC_MODE_CB`, `GC_MODE_CAT`, `GC_MODE_RL`; any other value is `other`. -/
inductive GcMode where
  | greedy | cb | cat | rl | other
  deriving DecidableEq, Repr

/-- The mode a value of the parameter `gc_mode` stands for. -/
def GcMode.ofInt (n : Int) : GcMode :=
  if n = 0 then .greedy else if n = 1 then .cb else if n = 2 then .cat else if n = 3 then .rl
  else .other

/-- The flash command of a GC step, when GC costs time. -/
def gcAdvanceNand (ftl : ConvFtl) (ncmd : NandCmd) : FtlM ConvFtl :=
  if ftl.cp.enableGcDelay = true then do
    let (ssd, _) ← ssdAdvanceNand ftl.ssd ncmd
    pure { ftl.record ncmd.events with ssd }
  else pure ftl

/-- `struct nand_cmd` as the GC path fills it. -/
def gcCmd (cmd : NandOp) (xferSize : Nat) (ppa : Ppa) : NandCmd :=
  { type := .gcIo, cmd, xferSize, stime := 0, interleavePciDma := false, ppa }

/-- The command of a copied page: the last page of a wordline programs it. -/
def gcWriteCmd (spp : SsdParams) (newPpa : Ppa) : NandCmd :=
  if lastPgInWordline spp newPpa = true then
    gcCmd .write (spp.pgsz * spp.pgsPerOneshotpg) newPpa
  else gcCmd .nop 0 newPpa

/-- `gc_write_page`. -/
def gcWritePage (ftl : ConvFtl) (oldPpa : Ppa) : FtlM ConvFtl := do
  let lpn ← ftl.getRmapEnt oldPpa
  let now ← ktimeGetNs
  nvmevAssert (validLpn ftl.ssd.sp lpn = true)
  let wpType : Stream := if ftl.pageIsHot lpn now = true then .gcIoHot else .gcIoCold
  let (ftl, newPpa) ← getNewPage ftl wpType
  let ftl ← ftl.setMaptblEnt lpn newPpa
  let ftl ← ftl.setRmapEnt lpn newPpa
  let ftl ← markPageValid ftl newPpa
  let ftl := { ftl.record [.copy oldPpa newPpa] with gcCopiedPages := ftl.gcCopiedPages + 1 }
  let ftl ← advanceWritePointer ftl wpType
  gcAdvanceNand ftl (gcWriteCmd ftl.ssd.sp newPpa)

/-- The page `copy` points to after `i` steps; its page field is 16 bits wide. -/
def Ppa.after (ppa : Ppa) (i : Nat) : Ppa := { ppa with pg := (ppa.pg + i) % 2 ^ 16 }

/-- The first loop of `clean_one_flashpg`: how many pages are valid. -/
def countValid (ftl : ConvFtl) (ppa : Ppa) : FtlM Nat :=
  forRange ftl.ssd.sp.pgsPerFlashpg 0 fun i cnt => do
    nvmevAssert (ftl.ssd.getPg (ppa.after i) ≠ .free)
    pure (if ftl.ssd.getPg (ppa.after i) = .valid then cnt + 1 else cnt)

/-- `clean_one_flashpg`. -/
def cleanOneFlashpg (ftl : ConvFtl) (ppa : Ppa) : FtlM ConvFtl := do
  let spp := ftl.ssd.sp
  let cnt ← countValid ftl ppa
  if cnt = 0 then pure ftl
  else do
    let ftl ← gcAdvanceNand ftl (gcCmd .read (spp.pgsz * cnt) ppa)
    forRange spp.pgsPerFlashpg ftl fun i ftl =>
      if ftl.ssd.getPg (ppa.after i) = .valid then gcWritePage ftl (ppa.after i) else pure ftl

/-- The erase of a block, after its last flash page was cleaned. -/
def gcEraseBlock (ftl : ConvFtl) (ppa : Ppa) : FtlM ConvFtl := do
  let ftl ← gcAdvanceNand (markBlockFree ftl ppa) (gcCmd .erase 0 ppa)
  let lunp := ftl.ssd.getLun ppa
  pure { ftl with
    ssd := ftl.ssd.setLun ppa.ch ppa.lun { lunp with gcEndtime := lunp.nextLunAvailTime } }

/-- The body of the triple loop of `do_gc`. -/
def gcVisit (ftl : ConvFtl) (v flashpg ch lun : Nat) : FtlM ConvFtl := do
  let spp := ftl.ssd.sp
  let ppa := Ppa.ofFields ch lun 0 v (flashpg * spp.pgsPerFlashpg)
  let ftl ← cleanOneFlashpg ftl ppa
  if flashpg = spp.flashpgsPerBlk - 1 then gcEraseBlock ftl ppa else pure ftl

/-- The triple loop of `do_gc` over the victim line. -/
def gcCleanLine (ftl : ConvFtl) (v : Nat) : FtlM ConvFtl :=
  forRange ftl.ssd.sp.flashpgsPerBlk ftl fun flashpg ftl =>
    forRange ftl.ssd.sp.nchs ftl fun ch ftl =>
      forRange ftl.ssd.sp.lunsPerCh ftl fun lun ftl => gcVisit ftl v flashpg ch lun

/-- The first part of `do_gc`: the learner's choice or the given function selects the victim. -/
def gcSelect (ftl : ConvFtl) (mode : GcMode) (force : Bool) (selectFn : Option VictimSelectFn) :
    FtlM (ConvFtl × Option Nat) :=
  if mode = .rl then do
    let state ← rlGetState ftl
    let action ← rlSelectAction ftl.rl state
    let ftl := { ftl with rl := rlDecodeAction { ftl.rl with curState := state } action }
    selectVictimScored ftl ftl.rl.alphaLevel ftl.rl.deltaLevel
  else
    match selectFn with
    | none => throw .nullSelect
    | some select => select ftl force

/-- The end of `do_gc` under `GC_MODE_RL`. -/
def rlFinish (ftl : ConvFtl) (mode : GcMode) : FtlM ConvFtl :=
  if mode = .rl then do
    let newState ← rlGetState ftl
    pure (rlUpdate ftl newState)
  else pure ftl

/-- The bookkeeping `do_gc` does before it touches the victim `v`. -/
def gcStart (ftl : ConvFtl) (mode : GcMode) (v : Nat) : ConvFtl :=
  { ftl with
    gcCount := ftl.gcCount + 1
    rl := if mode = .rl then { ftl.rl with lastVictimEc := (ftl.lm.lines v).eraseCnt } else ftl.rl
    wfc := { ftl.wfc with creditsToRefill := (ftl.lm.lines v).ipc } }

/-- `do_gc` once it has its victim `v`. -/
def gcCollect (ftl : ConvFtl) (mode : GcMode) (v : Nat) : FtlM ConvFtl := do
  let blk := (ftl.lm.lines v).id
  let ftl ← gcCleanLine (gcStart ftl mode v) blk
  let ftl := markLineFree ftl (Ppa.ofFields 0 0 0 blk 0)
  rlFinish (updateWearGap ftl) mode

/-- `do_gc`: the instance, and 0, or -1 when there is no victim. -/
def doGc (ftl : ConvFtl) (mode : GcMode) (force : Bool) (selectFn : Option VictimSelectFn) :
    FtlM (ConvFtl × Int) := do
  let (ftl, victim) ← gcSelect ftl mode force selectFn
  match victim with
  | none => pure ({ ftl with wfc := { ftl.wfc with creditsToRefill := 0 } }, -1)
  | some v => do
    let ftl ← gcCollect ftl mode v
    pure (ftl, 0)

/-- The function `foreground_gc` passes for each mode. -/
def GcMode.selectFn : GcMode → Option VictimSelectFn
  | .greedy => some selectVictimGreedy
  | .cb => some selectVictimCb
  | .cat => some selectVictimCat
  | .rl => none
  | .other => some selectVictimGreedy

/-- `foreground_gc`. -/
def foregroundGc (ftl : ConvFtl) : FtlM ConvFtl :=
  if ftl.shouldGcHigh = true then do
    let mode ← readGcMode
    let r ← doGc ftl (.ofInt mode) true (GcMode.ofInt mode).selectFn
    pure r.1
  else pure ftl

/-! ## Write credits -/

/-- `consume_write_credit`; `write_credits` is a `uint32_t`. -/
def consumeWriteCredit (ftl : ConvFtl) : ConvFtl :=
  { ftl with wfc := { ftl.wfc with writeCredits := sub32 ftl.wfc.writeCredits 1 } }

/-- The refill of `check_and_refill_write_credit`. -/
def WriteFlowControl.refill (wfc : WriteFlowControl) : WriteFlowControl :=
  { wfc with
    writeCredits :=
      if 0 < wfc.creditsToRefill then u32 (wfc.writeCredits + wfc.creditsToRefill) else 1 }

/-- `check_and_refill_write_credit`. -/
def checkAndRefillWriteCredit (ftl : ConvFtl) : FtlM ConvFtl :=
  if ftl.wfc.writeCredits = 0 then do
    let ftl ← foregroundGc ftl
    pure { ftl with wfc := ftl.wfc.refill }
  else pure ftl

end NvmeVirt
