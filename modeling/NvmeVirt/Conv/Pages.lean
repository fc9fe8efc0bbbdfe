import NvmeVirt.Conv.Score

/-!
# Write pointers and page states

A write pointer walks its line wordline by wordline across the channels and LUNs. A page goes from
free to valid when it is written, from valid to invalid when its logical page is written again, and
back to free when its block is erased; each step also moves the page counts of the block and of the
line, and a line moves between the free list, the write pointers, the full list and the victim
queue.

Every assertion of the source is a step of its own, which stops the run where it fails. What each
function does to pages, lines and blocks is also entered in the `trace` of the instance, which none
of them reads.
-/

set_option autoImplicit false

namespace NvmeVirt

/-! ## Write pointers -/

/-- `check_addr`. -/
def checkAddr (a max : Nat) : FtlM Unit := nvmevAssert (a < max)

/-- `get_next_free_line`: the head of the free list, and the line management without it. -/
def LineMgmt.getNextFreeLine (lm : LineMgmt) : Option (Nat × LineMgmt) :=
  match lm.freeLineList with
  | [] => none
  | cur :: rest => some (cur, { lm with freeLineList := rest, freeLineCnt := lm.freeLineCnt - 1 })

/-- A write pointer at the start of the line `cur`. -/
def LineMgmt.openWp (lm : LineMgmt) (cur : Nat) : WritePointer :=
  { curline := cur, ch := 0, lun := 0, pg := 0, blk := (lm.lines cur).id, pl := 0 }

/-- `prepare_write_pointer`. -/
def prepareWritePointer (ftl : ConvFtl) (ioType : Stream) : FtlM ConvFtl :=
  match ftl.lm.getNextFreeLine with
  | none => throw .bugOn
  | some (cur, lm) =>
    pure (({ ftl with lm }.setWp ioType (lm.openWp cur)).record [.opened ioType cur])

/-- The line goes to the full list. -/
def LineMgmt.addFull (lm : LineMgmt) (l : Nat) : LineMgmt :=
  { lm with fullLineList := lm.fullLineList ++ [l], fullLineCnt := lm.fullLineCnt + 1 }

/-- The line goes to the victim queue. -/
def LineMgmt.addVictim (lm : LineMgmt) (l : Nat) : LineMgmt :=
  let r := lm.victimLinePq.insert victimLine lm.lines l
  { lm with victimLinePq := r.1, lines := r.2, victimLineCnt := lm.victimLineCnt + 1 }

/-- The transition of a written line in `advance_write_pointer`. -/
def LineMgmt.closeLine (lm : LineMgmt) (spp : SsdParams) (l : Nat) : FtlM LineMgmt :=
  if (lm.lines l).vpc = spp.pgsPerLine then do
    nvmevAssert ((lm.lines l).ipc = 0)
    pure (lm.addFull l)
  else do
    nvmevAssert (0 < (lm.lines l).ipc)
    pure (lm.addVictim l)

/-- The end of `advance_write_pointer` at the end of a block: close the line and open the next one.
The returned line is used without a check. -/
def openNextLine (ftl : ConvFtl) (ioType : Stream) (wpp : WritePointer) : FtlM ConvFtl := do
  let closed := wpp.curline
  let lm ← ftl.lm.closeLine ftl.ssd.sp wpp.curline
  checkAddr wpp.blk ftl.ssd.sp.blksPerPl
  match lm.getNextFreeLine with
  | none => throw .nullCurline
  | some (cur, lm) => do
    let wpp := { wpp with curline := cur, blk := (lm.lines cur).id }
    checkAddr wpp.blk ftl.ssd.sp.blksPerPl
    nvmevAssert (wpp.pg = 0 ∧ wpp.lun = 0 ∧ wpp.ch = 0 ∧ wpp.pl = 0)
    pure (({ ftl with lm }.setWp ioType wpp).record [.closed ioType closed, .opened ioType cur])

/-- `advance_write_pointer`: page, then channel, then LUN, then wordline. -/
def advanceWritePointer (ftl : ConvFtl) (ioType : Stream) : FtlM ConvFtl := do
  let spp := ftl.ssd.sp
  let wpp := ftl.wp ioType
  checkAddr wpp.pg spp.pgsPerBlk
  let wpp := { wpp with pg := wpp.pg + 1 }
  if wpp.pg % spp.pgsPerOneshotpg ≠ 0 then
    pure (ftl.setWp ioType wpp)
  else do
    let wpp := { wpp with pg := wpp.pg - spp.pgsPerOneshotpg }
    checkAddr wpp.ch spp.nchs
    let wpp := { wpp with ch := wpp.ch + 1 }
    if wpp.ch ≠ spp.nchs then
      pure (ftl.setWp ioType wpp)
    else do
      let wpp := { wpp with ch := 0 }
      checkAddr wpp.lun spp.lunsPerCh
      let wpp := { wpp with lun := wpp.lun + 1 }
      if wpp.lun ≠ spp.lunsPerCh then
        pure (ftl.setWp ioType wpp)
      else do
        let wpp := { wpp with lun := 0, pg := wpp.pg + spp.pgsPerOneshotpg }
        if wpp.pg ≠ spp.pgsPerBlk then
          pure (ftl.setWp ioType wpp)
        else
          openNextLine ftl ioType { wpp with pg := 0 }

/-- The address `get_new_page` builds from a write pointer. -/
def WritePointer.ppa (wp : WritePointer) : Ppa := Ppa.ofFields wp.ch wp.lun wp.pl wp.blk wp.pg

/-- `get_new_page`. -/
def getNewPage (ftl : ConvFtl) (ioType : Stream) : FtlM (ConvFtl × Ppa) := do
  nvmevAssert ((ftl.wp ioType).ppa.pl = 0)
  pure (ftl.record [.page ioType (ftl.wp ioType).ppa], (ftl.wp ioType).ppa)

/-! ## Page states -/

/-- The block part of `mark_page_invalid`. -/
def NandBlock.invalidate (blk : NandBlock) (pg : Nat) : NandBlock :=
  { blk with pg := Function.update blk.pg pg .invalid, ipc := blk.ipc + 1, vpc := blk.vpc - 1 }

/-- The valid count of line `l` drops by one, through the queue if the line is in it. -/
def LineMgmt.dropVpc (lm : LineMgmt) (l : Nat) : LineMgmt :=
  if (lm.lines l).pos ≠ 0 then
    let r := lm.victimLinePq.changePriority victimLine lm.lines ((lm.lines l).vpc - 1) l
    { lm with victimLinePq := r.1, lines := r.2 }
  else lm.setLine l { lm.lines l with vpc := (lm.lines l).vpc - 1 }

/-- The line part of `mark_page_invalid`: the counts, and the move from the full list to the queue. -/
def LineMgmt.invalidate (lm : LineMgmt) (spp : SsdParams) (l : Nat) : LineMgmt :=
  let lm' := (lm.setLine l { lm.lines l with ipc := (lm.lines l).ipc + 1 }).dropVpc l
  if (lm.lines l).vpc = spp.pgsPerLine then
    { lm' with fullLineList := lm'.fullLineList.erase l, fullLineCnt := lm'.fullLineCnt - 1 }.addVictim l
  else lm'

/-- `mark_page_invalid` after its assertion, at time `now`. -/
def ConvFtl.invalidate (ftl : ConvFtl) (ppa : Ppa) (now : Nat) : ConvFtl :=
  let lm := ftl.lm.invalidate ftl.ssd.sp ppa.blk
  { ftl with
    ssd := ftl.ssd.setBlk ppa.toBlkId ((ftl.ssd.getBlk ppa).invalidate ppa.pg)
    lm := lm.setLine ppa.blk { lm.lines ppa.blk with lastModifiedTime := now } }

/-- `mark_page_invalid`. -/
def markPageInvalid (ftl : ConvFtl) (ppa : Ppa) : FtlM ConvFtl := do
  nvmevAssert (ftl.ssd.getPg ppa = .valid)
  let now ← ktimeGetNs
  pure (ftl.invalidate ppa now)

/-- The block part of `mark_page_valid`. -/
def NandBlock.validate (blk : NandBlock) (pg : Nat) : NandBlock :=
  { blk with pg := Function.update blk.pg pg .valid, vpc := blk.vpc + 1 }

/-- `mark_page_valid` after its assertion. -/
def ConvFtl.validate (ftl : ConvFtl) (ppa : Ppa) : ConvFtl :=
  { ftl with
    ssd := ftl.ssd.setBlk ppa.toBlkId ((ftl.ssd.getBlk ppa).validate ppa.pg)
    lm := ftl.lm.setLine ppa.blk { ftl.getLine ppa with vpc := (ftl.getLine ppa).vpc + 1 } }

/-- `mark_page_valid`. -/
def markPageValid (ftl : ConvFtl) (ppa : Ppa) : FtlM ConvFtl := do
  nvmevAssert (ftl.ssd.getPg ppa = .free)
  pure (ftl.validate ppa)

/-- The block part of `mark_block_free`. -/
def NandBlock.erase (blk : NandBlock) (pgsPerBlk : Nat) : NandBlock :=
  { pg := fun i => if i < pgsPerBlk then .free else blk.pg i
    ipc := 0, vpc := 0, eraseCnt := blk.eraseCnt + 1 }

/-- `mark_block_free`. -/
def markBlockFree (ftl : ConvFtl) (ppa : Ppa) : ConvFtl :=
  { ftl.record [.erased ppa.toBlkId] with
    ssd := ftl.ssd.setBlk ppa.toBlkId ((ftl.ssd.getBlk ppa).erase ftl.ssd.sp.pgsPerBlk) }

/-- The effect of `mark_line_free` on the line `l`. -/
def LineMgmt.markLineFree (lm : LineMgmt) (l : Nat) : LineMgmt :=
  { lm.setLine l { lm.lines l with ipc := 0, vpc := 0, eraseCnt := (lm.lines l).eraseCnt + 1 } with
    freeLineList := lm.freeLineList ++ [l]
    freeLineCnt := lm.freeLineCnt + 1 }

/-- `mark_line_free`. -/
def markLineFree (ftl : ConvFtl) (ppa : Ppa) : ConvFtl :=
  { ftl with lm := ftl.lm.markLineFree ppa.blk }

end NvmeVirt
