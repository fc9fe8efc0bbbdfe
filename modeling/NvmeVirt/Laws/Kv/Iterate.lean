import NvmeVirt.Lib.Paging
import NvmeVirt.Kv.Iter
import NvmeVirt.Laws.Io.Transfer

/-!
# Iteration over the keys

One read is one page of the table (`iterScan_page`): the loop stops at the slot that does not fit
and keeps its position, or at the end of the table, where it reports the end. So the reads of an
iterator return the matching slots of the table one after the other, as long as nobody else changes
the table or the handle.

`KvFtl.iterLoop_shows` is the induction over the loop: its buffer holds the records of the slots of
a `Paging.Page`, the library's reading of a table page by page. `IterReads.going` puts the reads
together as long as none has reported the end, and `IterReads.finish` is about the last one.

A record has twenty bytes, and a buffer has room for 51 of them (`iterRoom`).
-/

set_option autoImplicit false

namespace NvmeVirt

/-- How many keys a response has room for. -/
def iterRoom : Nat := 51

/-- The response with the keys of these slots. -/
def KvFtl.iterResponse (ftl : KvFtl) (slots : List Nat) : List UInt8 :=
  intBytes slots.length ++ slots.flatMap fun slot => (ftl.kvMappingTable slot).iterRecord

section Responses

variable {ftl : KvFtl} {handle : KvIterContext}

/-- An `int` has four bytes. -/
theorem intBytes_length (n : Nat) : (intBytes n).length = 4 := rfl

/-- A record has twenty. -/
theorem MappingEntry.iterRecord_length (e : MappingEntry) : e.iterRecord.length = 20 := by
  simp [MappingEntry.iterRecord, MappingEntry.keyBytes, intBytes, iterKeylen]

/-- A response has four bytes and twenty for each key. -/
theorem KvFtl.iterResponse_length (ftl : KvFtl) (slots : List Nat) :
    (ftl.iterResponse slots).length = 4 + 20 * slots.length := by
  have hrecords : (slots.flatMap fun slot => (ftl.kvMappingTable slot).iterRecord).length =
      20 * slots.length := by
    induction slots with
    | nil => rfl
    | cons slot slots ih =>
      rw [List.flatMap_cons, List.length_append, ih, MappingEntry.iterRecord_length,
        List.length_cons]
      omega
  unfold KvFtl.iterResponse
  rw [List.length_append, intBytes_length, hrecords]

/-- `r` is `s` with a page appended to its buffer. -/
structure IterScan.Shows (ftl : KvFtl) (s : IterScan) (page : Paging.Page) (r : IterScan) : Prop where
  pos : r.pos = page.pos
  ended : r.ended = page.ended
  nrKeys : r.nrKeys = s.nrKeys + page.taken.length
  buf : r.buf = s.buf ++ page.taken.flatMap fun slot => (ftl.kvMappingTable slot).iterRecord
  bufOffset : r.bufOffset = 4 + 20 * r.nrKeys

/-- The loop with `nr_keys` keys in the buffer goes through a page with room for the other keys. -/
theorem KvFtl.iterLoop_shows {s : IterScan} (hoff : s.bufOffset = 4 + 20 * s.nrKeys)
    (hroom : s.nrKeys ≤ iterRoom) (hend : s.ended = false) :
    s.Shows ftl (Paging.scan (ftl.iterMatches handle) ftl.hashSlots (iterRoom - s.nrKeys) s.pos)
      (ftl.iterLoop handle s) := by
  have hsize : iterRecordSize = 20 := rfl
  have hkeylen : iterKeylen = 16 := rfl
  have hbuf : iterBufSize = 1024 := rfl
  have hrooms : iterRoom = 51 := rfl
  fun_induction ftl.iterLoop handle s with
  | case1 s hlt hfull =>
    -- the slot matches and no key fits any more
    have hnone : iterRoom - s.nrKeys = 0 := by omega
    rw [hnone, Paging.scan_full hlt hfull.1]
    exact ⟨rfl, hend, rfl, (List.append_nil _).symm, hoff⟩
  | case2 s hlt hfits next hlast =>
    by_cases hmatch : ftl.iterMatches handle s.pos = true
    · have hfit : ¬ iterBufSize < s.bufOffset + 4 + iterKeylen := fun hlong => hfits ⟨hmatch, hlong⟩
      obtain ⟨room, hmore⟩ : ∃ room, iterRoom - s.nrKeys = room + 1 :=
        ⟨iterRoom - s.nrKeys - 1, by omega⟩
      have hnext : next = _ := if_pos hmatch
      rw [hmore, Paging.scan_take_last hlast hmatch, hnext]
      refine ⟨hlast, rfl, rfl, by simp, ?_⟩
      show s.bufOffset + iterRecordSize = 4 + 20 * (s.nrKeys + 1)
      omega
    · have hnext : next = s := if_neg hmatch
      rw [Paging.scan_skip_last hlast hmatch, hnext]
      exact ⟨hlast, rfl, rfl, (List.append_nil _).symm, hoff⟩
  | case3 s hlt hfits next hmore ih =>
    by_cases hmatch : ftl.iterMatches handle s.pos = true
    · have hfit : ¬ iterBufSize < s.bufOffset + 4 + iterKeylen := fun hlong => hfits ⟨hmatch, hlong⟩
      obtain ⟨room, hroom'⟩ : ∃ room, iterRoom - s.nrKeys = room + 1 :=
        ⟨iterRoom - s.nrKeys - 1, by omega⟩
      have hnext : next = { s with
          bufOffset := s.bufOffset + iterRecordSize
          nrKeys := s.nrKeys + 1
          buf := s.buf ++ (ftl.kvMappingTable s.pos).iterRecord } := if_pos hmatch
      clear_value next
      subst hnext
      have hrest := ih (by dsimp only; omega) (by dsimp only; omega) hend
      dsimp only at hrest
      rw [show iterRoom - (s.nrKeys + 1) = room by omega] at hrest
      rw [hroom', Paging.scan_take (by omega) hmatch]
      refine ⟨hrest.pos, hrest.ended, ?_, ?_, hrest.bufOffset⟩
      · rw [hrest.nrKeys]
        simp only [List.length_cons]
        omega
      · rw [hrest.buf]
        simp
    · have hnext : next = s := if_neg hmatch
      clear_value next
      subst hnext
      rw [Paging.scan_skip (by omega) hmatch]
      have hrest := ih hoff hroom hend
      exact ⟨hrest.pos, hrest.ended, hrest.nrKeys, hrest.buf, hrest.bufOffset⟩
  | case4 s hstop =>
    rw [Paging.scan_beyond hstop]
    exact ⟨rfl, hend, rfl, (List.append_nil _).symm, hoff⟩

/-- The page a read goes through. -/
def KvFtl.iterPage (ftl : KvFtl) (handle : KvIterContext) : Paging.Page :=
  Paging.scan (ftl.iterMatches handle) ftl.hashSlots iterRoom handle.currentPos

/-- A scan shows its page. -/
theorem KvFtl.iterScan_shows (ftl : KvFtl) (handle : KvIterContext) :
    (ftl.iterScan handle).pos = (ftl.iterPage handle).pos ∧
      (ftl.iterScan handle).ended = (ftl.iterPage handle).ended ∧
      intBytes (ftl.iterScan handle).nrKeys ++ (ftl.iterScan handle).buf =
        ftl.iterResponse (ftl.iterPage handle).taken ∧
      (ftl.iterScan handle).bufOffset = 4 + 20 * (ftl.iterPage handle).taken.length := by
  let start : IterScan :=
    { pos := handle.currentPos, bufOffset := 4, nrKeys := 0, buf := [], full := false
      ended := false }
  have h : start.Shows ftl (ftl.iterPage handle) (ftl.iterScan handle) :=
    KvFtl.iterLoop_shows rfl (Nat.zero_le _) rfl
  have hcount : (ftl.iterScan handle).nrKeys = (ftl.iterPage handle).taken.length :=
    h.nrKeys.trans (Nat.zero_add _)
  refine ⟨h.pos, h.ended, ?_, ?_⟩
  · rw [hcount]
    unfold KvFtl.iterResponse
    congr 1
    exact h.buf
  · rw [← hcount]
    exact h.bufOffset

/-- What a read that answers has done. -/
theorem KvFtl.kvIterRead_page {guest : GuestMemory} {iters iters' : KvIters} {iter prp1 prp2 : Nat}
    {a : KvIterAnswer} (hhandle : iters iter = some handle)
    (hok : ftl.kvIterRead guest iters iter prp1 prp2 = .ok (iters', a)) :
    iters' iter = some { handle with currentPos := (ftl.iterPage handle).pos } ∧
      a.status = some (if (ftl.iterPage handle).ended = true then kvIterEnd else 0) ∧
      a.sent = ftl.iterResponse (ftl.iterPage handle).taken ∧
      (Copy.allPairs (2 ^ 64) a.copies).map Prod.snd = List.range a.sent.length := by
  obtain ⟨hpos, hended, hsent, hoff⟩ := ftl.iterScan_shows handle
  unfold KvFtl.kvIterRead at hok
  by_cases hbound : 17 ≤ iter
  · rw [if_pos hbound] at hok
    cases hok
  rw [if_neg hbound, hhandle] at hok
  dsimp only at hok
  cases hcopy : guest.transferPages prp1 prp2 (ftl.iterScan handle).bufOffset with
  | error fault =>
    rw [hcopy] at hok
    cases hok
  | ok copies =>
    rw [hcopy] at hok
    obtain ⟨rfl, rfl⟩ := Prod.mk.inj (Except.ok.inj hok)
    refine ⟨?_, ?_, hsent, ?_⟩
    · rw [Function.update_self, hpos]
    · dsimp only
      rw [hended]
    · dsimp only
      rw [transferPages_offsets (2 ^ 64) hcopy, hsent, KvFtl.iterResponse_length, hoff]

/-- A read of a handle in use answers, with `prp2` at a page boundary. -/
theorem KvFtl.kvIterRead_answers (ftl : KvFtl) (guest : GuestMemory) {iters : KvIters} {iter : Nat}
    (prp1 : Nat) {prp2 : Nat} (haligned : u64 prp2 % pageSize = 0) (hbound : iter < 17)
    (hhandle : iters iter = some handle) : ∃ r, ftl.kvIterRead guest iters iter prp1 prp2 = .ok r := by
  obtain ⟨copies, hcopy⟩ :=
    transferPages_answers guest prp1 (ftl.iterScan handle).bufOffset haligned
  unfold KvFtl.kvIterRead
  rw [if_neg (Nat.not_le_of_lt hbound), hhandle]
  dsimp only
  rw [hcopy]
  exact ⟨_, rfl⟩

/-- A page that starts in the table. -/
theorem KvFtl.iterPage_isPage (ftl : KvFtl) (h : handle.currentPos < ftl.hashSlots) :
    Paging.IsPage (ftl.iterMatches handle) ftl.hashSlots iterRoom handle.currentPos
      (ftl.iterPage handle) := Paging.scan_isPage h

/-- Only the table and its size play a part. -/
theorem KvFtl.iterPage_congr {ftl' : KvFtl} (htable : ftl'.kvMappingTable = ftl.kvMappingTable)
    (hslots : ftl'.hashSlots = ftl.hashSlots) : ftl'.iterPage handle = ftl.iterPage handle ∧
      ∀ slots, ftl'.iterResponse slots = ftl.iterResponse slots := by
  have hmatches : ftl'.iterMatches handle = ftl.iterMatches handle := by
    funext pos
    unfold KvFtl.iterMatches
    rw [htable]
  constructor
  · unfold KvFtl.iterPage
    rw [hmatches, hslots]
  · intro slots
    unfold KvFtl.iterResponse
    rw [htable]

/-- The handle that was opened last, and those in use before. -/
theorem kvIterOpen_opened {iters iters₀ : KvIters} {bitmask keyPrefix : Nat} {a : KvIterAnswer}
    (hopen : kvIterOpen iters bitmask keyPrefix = (iters₀, a)) (hok : a.status = some 0) :
    a.result < 17 ∧ iters₀ a.result = some { keyPrefix, bitmask, currentPos := 0 } ∧
      ∀ other handle, iters other = some handle → iters₀ other = some handle := by
  unfold kvIterOpen at hopen
  cases hfind : (List.range' 1 16).find? (fun iter => (iters iter).isNone) with
  | none =>
    rw [hfind] at hopen
    obtain ⟨_, rfl⟩ := Prod.mk.inj hopen
    cases hok
  | some iter =>
    rw [hfind] at hopen
    obtain ⟨rfl, rfl⟩ := Prod.mk.inj hopen
    have hrange := List.mem_range'_1.mp (List.mem_of_find?_eq_some hfind)
    refine ⟨by dsimp only; omega, Function.update_self .., fun other handle hother => ?_⟩
    have hfree := List.find?_some hfind
    have hne : other ≠ iter := by
      intro he
      rw [← he, hother] at hfree
      cases hfree
    rw [Function.update_of_ne hne, hother]

end Responses

/-! ## Runs -/

/-- The reads of the iterator `iter` over the table of `ftl`, one after the other, with the answers so
far. In between anything may happen that leaves the table and this handle as they are. -/
inductive IterReads (ftl : KvFtl) (iter : Nat) (iters : KvIters) :
    List KvIterAnswer → KvIters → Prop where
  | start : IterReads ftl iter iters [] iters
  | read {as : List KvIterAnswer} {mid iters' : KvIters} {a : KvIterAnswer} {ftl' : KvFtl}
      {guest : GuestMemory} {prp1 prp2 : Nat} : IterReads ftl iter iters as mid →
    ftl'.kvMappingTable = ftl.kvMappingTable → ftl'.hashSlots = ftl.hashSlots →
    ftl'.kvIterRead guest mid iter prp1 prp2 = .ok (iters', a) →
    IterReads ftl iter iters (as ++ [a]) iters'
  | aside {as : List KvIterAnswer} {mid iters' : KvIters} : IterReads ftl iter iters as mid →
    iters' iter = mid iter → IterReads ftl iter iters as iters'

/-- The answers are pages of the table up to the position of the handle. -/
structure Iterated (ftl : KvFtl) (opened : KvIterContext) (as : List KvIterAnswer) (pos : Nat)
    (pages : List (List Nat)) : Prop where
  sent : as.map KvIterAnswer.sent = pages.map ftl.iterResponse
  flat : pages.flatten = Paging.accepted (ftl.iterMatches opened) 0 pos
  fits : ∀ page ∈ pages, page.length ≤ iterRoom
  count : as.length ≤ pos

section Runs

variable {ftl : KvFtl} {iter : Nat} {iters iters' : KvIters} {opened : KvIterContext}
  {as : List KvIterAnswer} {a : KvIterAnswer} {pages : List (List Nat)} {pos : Nat}

/-- One more read, from a position in the table. -/
theorem Iterated.read (h : Iterated ftl opened as pos pages) (hpos : pos < ftl.hashSlots)
    (hsent : a.sent = ftl.iterResponse (ftl.iterPage { opened with currentPos := pos }).taken) :
    Iterated ftl opened (as ++ [a]) (ftl.iterPage { opened with currentPos := pos }).pos
      (pages ++ [(ftl.iterPage { opened with currentPos := pos }).taken]) := by
  have hpage := ftl.iterPage_isPage (show ({ opened with currentPos := pos } :
    KvIterContext).currentPos < ftl.hashSlots from hpos)
  have hmatches : ftl.iterMatches { opened with currentPos := pos } = ftl.iterMatches opened := rfl
  rw [hmatches] at hpage
  have hmoves : pos < (ftl.iterPage { opened with currentPos := pos }).pos := by
    rcases hpage.moves (Nat.succ_pos 50) with hlt | hended
    · exact hlt
    · rw [hpage.ended hended]
      exact hpos
  constructor
  · simp [h.sent, hsent]
  · rw [List.flatten_append, h.flat, hpage.taken]
    simp [Paging.accepted_append (Nat.zero_le pos) hpage.le]
  · intro page hmem
    rcases List.mem_append.mp hmem with hold | hnew
    · exact h.fits page hold
    · obtain rfl := List.mem_singleton.mp hnew
      exact hpage.fits
  · have hcount := h.count
    rw [List.length_append, List.length_singleton]
    omega

/-- While no read has reported the end, the handle stands in the table. -/
theorem IterReads.going (h : IterReads ftl iter iters as iters') (hslots : 0 < ftl.hashSlots)
    (hopened : iters iter = some opened) (hstart : opened.currentPos = 0)
    (hno : ∀ a ∈ as, a.status ≠ some kvIterEnd) :
    ∃ pos pages, iters' iter = some { opened with currentPos := pos } ∧ pos < ftl.hashSlots ∧
      Iterated ftl opened as pos pages := by
  induction h with
  | start =>
    refine ⟨0, [], ?_, hslots, rfl, ?_, fun _ hmem => absurd hmem List.not_mem_nil, Nat.le_refl _⟩
    · rw [hopened, ← hstart]
    · rw [Paging.accepted_self]
      rfl
  | @read as mid iters' a ftl' _ _ _ _ htable hsize hok ih =>
    obtain ⟨pos, pages, hhandle, hpos, hiterated⟩ :=
      ih fun a ha => hno a (List.mem_append_left _ ha)
    obtain ⟨hpage, hresponse⟩ := KvFtl.iterPage_congr htable hsize
    obtain ⟨hnext, hstatus, hsent, _⟩ := KvFtl.kvIterRead_page hhandle hok
    rw [hpage] at hnext hstatus hsent
    rw [hresponse] at hsent
    have hgoing : (ftl.iterPage { opened with currentPos := pos }).ended = false := by
      cases hended : (ftl.iterPage { opened with currentPos := pos }).ended with
      | false => rfl
      | true =>
        rw [hended, if_pos rfl] at hstatus
        exact absurd hstatus (hno a (List.mem_append_right _ List.mem_cons_self))
    refine ⟨_, _, hnext, ?_, hiterated.read hpos hsent⟩
    exact ((ftl.iterPage_isPage hpos).cut hgoing).1
  | aside _ hsame ih =>
    obtain ⟨pos, pages, hhandle, hrest⟩ := ih hno
    exact ⟨pos, pages, hsame.trans hhandle, hrest⟩

/-- The last read of a run. -/
theorem IterReads.last (h : IterReads ftl iter iters as iters') (hne : as ≠ []) :
    ∃ (ftl' : KvFtl) (as' : List KvIterAnswer) (a : KvIterAnswer) (mid mid' : KvIters)
      (guest : GuestMemory) (prp1 prp2 : Nat), as = as' ++ [a] ∧ IterReads ftl iter iters as' mid ∧
      ftl'.kvMappingTable = ftl.kvMappingTable ∧ ftl'.hashSlots = ftl.hashSlots ∧
      ftl'.kvIterRead guest mid iter prp1 prp2 = .ok (mid', a) := by
  induction h with
  | start => exact absurd rfl hne
  | read hbefore htable hsize hok => exact ⟨_, _, _, _, _, _, _, _, rfl, hbefore, htable, hsize, hok⟩
  | aside _ _ ih => exact ih hne

/-- The last read of a run, from a position in the table. -/
theorem IterReads.finish (h : IterReads ftl iter iters as iters') (hslots : 0 < ftl.hashSlots)
    (hopened : iters iter = some opened) (hstart : opened.currentPos = 0)
    (hno : ∀ a ∈ as.dropLast, a.status ≠ some kvIterEnd) :
    ∃ pos pages, Iterated ftl opened as pos pages ∧ pos ≤ ftl.hashSlots ∧
      ∀ a, as.getLast? = some a → a.status = some kvIterEnd → pos = ftl.hashSlots := by
  rcases List.eq_nil_or_concat as with rfl | ⟨as', a', rfl⟩
  · obtain ⟨pos, pages, _, hpos, hiterated⟩ :=
      h.going hslots hopened hstart (fun a ha => absurd ha List.not_mem_nil)
    exact ⟨pos, pages, hiterated, Nat.le_of_lt hpos, fun a ha => absurd ha.symm (Option.some_ne_none a)⟩
  · obtain ⟨ftl', as'', a, mid, mid', guest, prp1, prp2, heq, hbefore, htable, hsize, hok⟩ :=
      h.last (by simp)
    rw [List.concat_eq_append] at heq hno ⊢
    obtain ⟨rfl, hsingle⟩ := List.append_inj' heq rfl
    obtain rfl : a' = a := by simpa using hsingle
    rw [List.dropLast_concat] at hno
    obtain ⟨pos, pages, hhandle, hpos, hiterated⟩ := hbefore.going hslots hopened hstart hno
    obtain ⟨hpage, hresponse⟩ := KvFtl.iterPage_congr htable hsize
    obtain ⟨_, hstatus, hsent, _⟩ := KvFtl.kvIterRead_page hhandle hok
    rw [hpage] at hstatus hsent
    rw [hresponse] at hsent
    have hisPage := ftl.iterPage_isPage (show ({ opened with currentPos := pos } :
      KvIterContext).currentPos < ftl.hashSlots from hpos)
    refine ⟨_, _, hiterated.read hpos hsent, ?_, ?_⟩
    · cases hended : (ftl.iterPage { opened with currentPos := pos }).ended with
      | true => exact Nat.le_of_eq (hisPage.ended hended)
      | false => exact Nat.le_of_lt (hisPage.cut hended).1
    · intro b hb hend
      obtain rfl : a' = b := by simpa using hb
      rw [hend] at hstatus
      apply hisPage.ended
      by_contra hgoing
      rw [if_neg hgoing] at hstatus
      cases hstatus

end Runs

/-! ## The law -/

/-- The reads of an iterator, up to the one that reports the end, over a table nobody changes
meanwhile: each answer is the count and the keys of a page of slots and has at most 1024 bytes; there
are at most `hash_slots` of them, fewer while none reports the end, and then the next one is given
whenever `prp2` is at a page boundary; and once the end is reported the pages are the live slots whose
first four key bytes match, in slot order. -/
theorem kv_iteration_complete {ftl : KvFtl} (hslots : 0 < ftl.hashSlots)
    {before opened : KvIters} {bitmask keyPrefix : Nat} {a₀ : KvIterAnswer}
    (hopen : kvIterOpen before bitmask keyPrefix = (opened, a₀)) (hok : a₀.status = some 0)
    {as : List KvIterAnswer} {iters : KvIters} (hrun : IterReads ftl a₀.result opened as iters)
    (hno : ∀ a ∈ as.dropLast, a.status ≠ some kvIterEnd) :
    as.length ≤ ftl.hashSlots ∧
      ((∀ a ∈ as, a.status ≠ some kvIterEnd) → as.length < ftl.hashSlots ∧
        ∀ guest prp1 prp2, u64 prp2 % pageSize = 0 →
          ∃ r, ftl.kvIterRead guest iters a₀.result prp1 prp2 = .ok r) ∧
      ∃ pages : List (List Nat), as.map KvIterAnswer.sent = pages.map ftl.iterResponse ∧
        (∀ page ∈ pages, (ftl.iterResponse page).length ≤ 1024) ∧
        ∀ a, as.getLast? = some a → a.status = some kvIterEnd →
          pages.flatten = (List.range ftl.hashSlots).filter
            (ftl.iterMatches { keyPrefix, bitmask, currentPos := 0 }) := by
  obtain ⟨hbound, hhandle, _⟩ := kvIterOpen_opened hopen hok
  obtain ⟨pos, pages, hiterated, hpos, hend⟩ := hrun.finish hslots hhandle rfl hno
  refine ⟨Nat.le_trans hiterated.count hpos, ?_, pages, hiterated.sent, ?_, ?_⟩
  · intro hgoing
    obtain ⟨_, _, hnow, hin, hsofar⟩ := hrun.going hslots hhandle rfl hgoing
    refine ⟨Nat.lt_of_le_of_lt hsofar.count hin, fun guest prp1 prp2 haligned => ?_⟩
    exact ftl.kvIterRead_answers guest prp1 haligned hbound hnow
  · intro page hpage
    have hfits : page.length ≤ 51 := hiterated.fits page hpage
    rw [KvFtl.iterResponse_length]
    omega
  · intro a hlast hstatus
    rw [hiterated.flat, hend a hlast hstatus]
    unfold Paging.accepted
    rw [Nat.sub_zero, List.range_eq_range']

/-- Sixty slots, each filled with a key that the mask takes. -/
def iteratedSixty : KvFtl :=
  { kvInitNamespace 60 4096 fun _ => 0 with
    kvMappingTable := fun slot =>
      { unusedEntry with key := [1, 2, 3, 4, UInt8.ofNat slot], memOffset := some 0, length := 8 } }

theorem iteratedSixty_matches (pos slot : Nat) :
    iteratedSixty.iterMatches ⟨0x0201, 0xffff, pos⟩ slot = true := by
  have hkey : (iteratedSixty.kvMappingTable slot).keyBytes 4 = [1, 2, 3, 4] := rfl
  unfold KvFtl.iterMatches
  rw [hkey]
  show (true && (uintOf [1, 2, 3, 4] &&& 0xffff == 0x0201 &&& 0xffff)) = true
  rfl

/-- How many slots of the table a page has passed, it holds. -/
theorem iteratedSixty_page {pos : Nat} (hpos : pos < 60) :
    (iteratedSixty.iterPage ⟨0x0201, 0xffff, pos⟩).taken.length =
        (iteratedSixty.iterPage ⟨0x0201, 0xffff, pos⟩).pos - pos ∧
      Paging.IsPage (iteratedSixty.iterMatches ⟨0x0201, 0xffff, pos⟩) 60 51 pos
        (iteratedSixty.iterPage ⟨0x0201, 0xffff, pos⟩) := by
  have hpage := @KvFtl.iterPage_isPage ⟨0x0201, 0xffff, pos⟩ iteratedSixty hpos
  refine ⟨?_, hpage⟩
  rw [hpage.taken, Paging.accepted,
    List.filter_eq_self.mpr fun slot _ => iteratedSixty_matches pos slot, List.length_range']

/-- The first read stops for want of room, the second one ends the table. -/
theorem kv_iteration_complete_sixty : ∃ (a b : KvIterAnswer) (pages : List (List Nat)),
    a.status = some 0 ∧ b.status = some kvIterEnd ∧
      [a.sent, b.sent] = pages.map iteratedSixty.iterResponse ∧ pages.flatten = List.range 60 := by
  have hopen : kvIterOpen (fun _ => none) 0xffff 0x0201 = _ := rfl
  have hhandle : (kvIterOpen (fun _ => none) 0xffff 0x0201).1 1 = some ⟨0x0201, 0xffff, 0⟩ := rfl
  have haligned : u64 0 % pageSize = 0 := rfl
  obtain ⟨⟨mid, a⟩, hfirst⟩ := iteratedSixty.kvIterRead_answers ⟨fun _ => true, fun _ => 0⟩ 0 haligned
    (show 1 < 17 by omega) hhandle
  obtain ⟨hmid, hgoes, _⟩ := KvFtl.kvIterRead_page hhandle hfirst
  obtain ⟨⟨iters, b⟩, hsecond⟩ := iteratedSixty.kvIterRead_answers ⟨fun _ => true, fun _ => 0⟩ 0 haligned
    (show 1 < 17 by omega) hmid
  obtain ⟨_, hends, _⟩ := KvFtl.kvIterRead_page hmid hsecond
  obtain ⟨hcount, hpage⟩ := @iteratedSixty_page 0 (by omega)
  have hgoing : (iteratedSixty.iterPage ⟨0x0201, 0xffff, 0⟩).ended = false := by
    apply Bool.eq_false_iff.mpr
    intro hended
    have hfits := hpage.fits
    rw [hcount, hpage.ended hended] at hfits
    omega
  obtain ⟨hleft, htaken⟩ := hpage.cut hgoing
  obtain ⟨hcount', hpage'⟩ := iteratedSixty_page hleft
  have hended : (iteratedSixty.iterPage ⟨0x0201, 0xffff,
      (iteratedSixty.iterPage ⟨0x0201, 0xffff, 0⟩).pos⟩).ended = true := by
    by_contra hmore
    obtain ⟨hleft', htaken'⟩ := hpage'.cut (Bool.eq_false_iff.mpr hmore)
    omega
  rw [hgoing, if_neg Bool.false_ne_true] at hgoes
  rw [hended, if_pos rfl] at hends
  have hrun := (IterReads.start.read rfl rfl hfirst).read rfl rfl hsecond
  obtain ⟨_, _, pages, hsent, _, hall⟩ := kv_iteration_complete (show 0 < iteratedSixty.hashSlots from
    Nat.succ_pos 59) hopen rfl hrun (by
      intro c hc hlast
      obtain rfl : c = a := by simpa using hc
      rw [hgoes] at hlast
      exact absurd hlast (by decide))
  refine ⟨a, b, pages, hgoes, hends, hsent, (hall b rfl hends).trans ?_⟩
  exact List.filter_eq_self.mpr fun slot _ => iteratedSixty_matches 0 slot

end NvmeVirt
