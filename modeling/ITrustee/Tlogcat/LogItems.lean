import Mathlib.Tactic
import ITrustee.Foundation.Bytes
import ITrustee.Foundation.Layout
import ITrustee.Tlogcat.LogFiles

/-!
# Log items

What a read of the log device leaves in the buffer: items one after another, a header of 64 bytes and
then the text. `ReadLogBuffer` follows the lengths in the headers. An item is its offset in the buffer,
and every access loads from the buffer as it is then: `OutputLog` ends the text with a zero byte before
it prints it. The state also collects the offsets at which a header was looked at and those of the items
taken.
-/

namespace ITrustee.Tlogcat

def logItemMagic : Nat := 0x5A5A

def logItemLenAlign : Nat := 64

def logItemMaxLen : Nat := 1024

/-- `LOG_BUFFER_LEN`. -/
def readBufferLen : Nat := 0x2000

/-- `sizeof(struct LogItem)`. -/
def logItemSize : Nat := 64

/-- What is read of a header. -/
structure LogItem where
  magic : Nat
  logRealLen : Nat
  logBufferLen : Nat
  uuid : TeeUuid
  deriving DecidableEq

def loadUuid (buffer : List UInt8) (offset : Nat) : TeeUuid where
  timeLow := .ofNat (Bytes.load 4 buffer offset)
  timeMid := .ofNat (Bytes.load 2 buffer (offset + 4))
  timeHiAndVersion := .ofNat (Bytes.load 2 buffer (offset + 6))
  clockSeqAndNode i := .ofNat (Bytes.load 1 buffer (offset + 8 + i))

def loadLogItem (buffer : List UInt8) (offset : Nat) : LogItem where
  magic := Bytes.load 2 buffer (offset + 32)
  logRealLen := Bytes.load 2 buffer (offset + 40)
  logBufferLen := Bytes.load 2 buffer (offset + 42)
  uuid := loadUuid buffer (offset + 44)

def LogItem.IsValid (logItemNext : LogItem) (scopeLen : Nat) : Prop :=
  logItemNext.magic = logItemMagic ∧
    logItemNext.logBufferLen > 0 ∧ logItemNext.logRealLen > 0 ∧
    logItemNext.logBufferLen % logItemLenAlign = 0 ∧
    logItemNext.logRealLen ≤ logItemNext.logBufferLen ∧
    logItemNext.logBufferLen - logItemNext.logRealLen < logItemLenAlign ∧
    logItemNext.logBufferLen + logItemSize ≤
      if scopeLen > logItemMaxLen then logItemMaxLen else scopeLen

instance (logItemNext : LogItem) (scopeLen : Nat) : Decidable (logItemNext.IsValid scopeLen) := by
  unfold LogItem.IsValid
  infer_instance

def logItemGetNext (buffer : List UInt8) (offset scopeLen : Nat) : Option Nat :=
  if (loadLogItem buffer offset).IsValid scopeLen then some offset else none

structure ReadState where
  buffer : List UInt8
  logItem : Option Nat := none
  logItemTotalLen : Nat := 0
  candidates : List Nat := []
  visited : List Nat := []
  /-- What `WriteLogFile` is given. -/
  written : List Action := []
  displayed : List UInt8 := []

section Model

variable (writeFile : Bool)

def outputLog (offset : Nat) (s : ReadState) : ReadState :=
  let logItem := loadLogItem s.buffer offset
  let text := offset + logItemSize
  if writeFile then
    { s with
      written :=
        s.written ++ [.write logItem.uuid (Bytes.slice s.buffer text logItem.logRealLen)] }
  else
    let last :=
      if logItem.logRealLen < logItem.logBufferLen then logItem.logRealLen else logItem.logRealLen - 1
    let buffer := Bytes.store s.buffer (text + last) [0]
    { s with
      buffer
      displayed := s.displayed ++ (buffer.drop text).takeWhile (· != 0) }

/-- A call of `LogItemGetNext` at an offset. -/
def lookAt (offset scopeLen : Nat) (s : ReadState) : ReadState :=
  { s with
    logItem := logItemGetNext s.buffer offset scopeLen
    candidates := s.candidates ++ [offset] }

/-- One turn of the loop of `ReadLogBuffer`. -/
def readTurn (readLen offset : Nat) (s : ReadState) : ReadState :=
  let s := outputLog writeFile offset { s with visited := s.visited ++ [offset] }
  let logBufferLen := (loadLogItem s.buffer offset).logBufferLen
  let s := { s with logItemTotalLen := s.logItemTotalLen + (logBufferLen + logItemSize) }
  if s.logItemTotalLen ≥ readLen then { s with logItem := none }
  else lookAt (offset + logItemSize + logBufferLen) (readLen - s.logItemTotalLen) s

/-- The loop of `ReadLogBuffer`, for at most `fuel` turns. -/
def readLoop (readLen : Nat) : Nat → ReadState → Option ReadState
  | 0, _ => none
  | fuel + 1, s =>
      match s.logItem with
      | none => some s
      | some offset => readLoop readLen fuel (readTurn writeFile readLen offset s)

def readLogBuffer (fuel : Nat) (buffer : List UInt8) (readLen : Nat) : Option ReadState :=
  readLoop writeFile readLen fuel (lookAt 0 readLen { buffer })

end Model

/-! ### What is loaded -/

theorem loadUuid_slice (buffer : List UInt8) {offset k m : Nat} (h : k + 16 ≤ m) :
    loadUuid (Bytes.slice buffer offset m) k = loadUuid buffer (offset + k) := by
  have hload : ∀ n j, j + n ≤ 16 → Bytes.load n (Bytes.slice buffer offset m) (k + j) =
      Bytes.load n buffer (offset + k + j) := by
    intro n j hj
    rw [Bytes.load_slice buffer offset (by omega), Nat.add_assoc]
  have hnodes : ∀ i : Fin 8, Bytes.load 1 (Bytes.slice buffer offset m) (k + 8 + i) =
      Bytes.load 1 buffer (offset + k + 8 + i) := by
    intro i
    rw [Nat.add_assoc k, hload 1 (8 + i) (by omega), ← Nat.add_assoc]
  have hfirst := hload 4 0 (by omega)
  rw [Nat.add_zero, Nat.add_zero] at hfirst
  simp only [loadUuid, hfirst, hload 2 4 (by omega), hload 2 6 (by omega), hnodes]

/-- An item is read from its header. -/
theorem loadLogItem_slice (buffer : List UInt8) (offset : Nat) :
    loadLogItem (Bytes.slice buffer offset logItemSize) 0 = loadLogItem buffer offset := by
  have hload : ∀ k, k + 2 ≤ logItemSize →
      Bytes.load 2 (Bytes.slice buffer offset logItemSize) (0 + k) =
        Bytes.load 2 buffer (offset + k) := by
    intro k hk
    rw [Nat.zero_add, Bytes.load_slice buffer offset hk]
  rw [loadLogItem, loadLogItem, hload 32 (by decide), hload 40 (by decide), hload 42 (by decide),
    Nat.zero_add, loadUuid_slice buffer (by decide)]

theorem loadLogItem_congr {buffer buffer' : List UInt8} {offset : Nat}
    (h : Bytes.slice buffer offset logItemSize = Bytes.slice buffer' offset logItemSize) :
    loadLogItem buffer offset = loadLogItem buffer' offset := by
  rw [← loadLogItem_slice, h, loadLogItem_slice]

theorem loadLogItem_of_drop {buffer buffer' : List UInt8} {offset : Nat}
    (h : buffer.drop offset = buffer'.drop offset) :
    loadLogItem buffer offset = loadLogItem buffer' offset := by
  apply loadLogItem_congr
  rw [Bytes.slice, Bytes.slice, h]

/-! ### Sequences of items -/

def itemEnd (buffer : List UInt8) (offset : Nat) : Nat :=
  offset + logItemSize + (loadLogItem buffer offset).logBufferLen

/-- Valid items from offset 0 on, each where the one before it ends. -/
def ItemSequence (buffer : List UInt8) (readLen : Nat) (items : List Nat) : Prop :=
  (∃ stop, Layout.Consecutive id (itemEnd buffer) 0 items stop) ∧
    ∀ o ∈ items, (loadLogItem buffer o).IsValid (readLen - o)

section Items

variable {buffer : List UInt8} {readLen : Nat}

/-- A valid item ends inside its scope. -/
theorem LogItem.IsValid.end_le {o : Nat} (h : (loadLogItem buffer o).IsValid (readLen - o)) :
    o < itemEnd buffer o ∧ itemEnd buffer o ≤ readLen := by
  obtain ⟨-, hpos, -, -, -, -, hmax⟩ := h
  have hsize : logItemSize = 64 := rfl
  have hlimit : logItemMaxLen = 1024 := rfl
  rw [itemEnd]
  split_ifs at hmax <;> omega

theorem LogItem.IsValid.align {o : Nat} (h : (loadLogItem buffer o).IsValid (readLen - o))
    (ho : logItemLenAlign ∣ o) : logItemLenAlign ∣ itemEnd buffer o := by
  obtain ⟨-, -, -, halign, -⟩ := h
  exact Nat.dvd_add (Nat.dvd_add ho (dvd_refl 64)) (Nat.dvd_of_mod_eq_zero halign)

theorem items_aligned {start stop : Nat} {items : List Nat}
    (hitems : Layout.Consecutive id (itemEnd buffer) start items stop)
    (hvalid : ∀ o ∈ items, (loadLogItem buffer o).IsValid (readLen - o))
    (hstart : logItemLenAlign ∣ start) :
    (∀ o ∈ items, logItemLenAlign ∣ o) ∧ logItemLenAlign ∣ stop := by
  induction items generalizing start with
  | nil =>
      obtain rfl : start = stop := hitems
      exact ⟨by simp, hstart⟩
  | cons o items ih =>
      obtain ⟨rfl, -, hrest⟩ := hitems
      obtain ⟨hfirst, hlater⟩ := List.forall_mem_cons.mp hvalid
      obtain ⟨haligned, hstop⟩ := ih hrest hlater (hfirst.align hstart)
      exact ⟨List.forall_mem_cons.mpr ⟨hstart, haligned⟩, hstop⟩

/-- Items that cannot be continued are all there are. -/
theorem items_maximal {start stop stop' : Nat} {items items' : List Nat}
    (hitems : Layout.Consecutive id (itemEnd buffer) start items stop)
    (hlast : ¬(loadLogItem buffer stop).IsValid (readLen - stop))
    (hitems' : Layout.Consecutive id (itemEnd buffer) start items' stop')
    (hvalid' : ∀ o ∈ items', (loadLogItem buffer o).IsValid (readLen - o)) : items' <+: items := by
  induction items' generalizing start items with
  | nil => exact List.nil_prefix
  | cons o items' ih =>
      obtain ⟨rfl, -, hrest'⟩ := hitems'
      obtain ⟨hfirst, hlater⟩ := List.forall_mem_cons.mp hvalid'
      cases items with
      | nil =>
          obtain rfl : id o = stop := hitems
          exact absurd hfirst hlast
      | cons o' items =>
          obtain ⟨heq, -, hrest⟩ := hitems
          obtain rfl : o' = o := heq
          exact (List.prefix_cons_inj o').mpr (ih hrest hrest' hlater)

end Items

/-! ### The loop -/

section Loop

variable {buffer : List UInt8} {readLen offset : Nat} {s : ReadState}

/-- `OutputLog` changes at most one byte of the text. -/
theorem outputLog_buffer (writeFile : Bool)
    (hvalid : (loadLogItem s.buffer offset).IsValid (readLen - offset))
    (hmax : readLen ≤ s.buffer.length) :
    (outputLog writeFile offset s).buffer = s.buffer ∨
      ∃ pos, offset + logItemSize ≤ pos ∧ pos < itemEnd s.buffer offset ∧ pos < s.buffer.length ∧
        (outputLog writeFile offset s).buffer = Bytes.store s.buffer pos [0] := by
  obtain ⟨-, hend⟩ := hvalid.end_le
  obtain ⟨-, -, hreal, -, hle, -, -⟩ := hvalid
  rw [outputLog]
  cases writeFile with
  | true => exact Or.inl rfl
  | false =>
      refine Or.inr ⟨_, Nat.le_add_right _ _, ?_, ?_, rfl⟩
      · rw [itemEnd]
        split_ifs <;> omega
      · rw [itemEnd] at hend
        split_ifs <;> omega

/-- So the header and what follows the item are as they were. -/
theorem outputLog_keeps (writeFile : Bool)
    (hvalid : (loadLogItem s.buffer offset).IsValid (readLen - offset))
    (hmax : readLen ≤ s.buffer.length) :
    (outputLog writeFile offset s).buffer.length = s.buffer.length ∧
      loadLogItem (outputLog writeFile offset s).buffer offset = loadLogItem s.buffer offset ∧
      (outputLog writeFile offset s).buffer.drop (itemEnd s.buffer offset) =
        s.buffer.drop (itemEnd s.buffer offset) := by
  obtain heq | ⟨pos, hlow, hhigh, hpos, heq⟩ := outputLog_buffer writeFile hvalid hmax
  · rw [heq]
    exact ⟨rfl, rfl, rfl⟩
  · rw [heq]
    have hone : ([0] : List UInt8).length = 1 := rfl
    refine ⟨Bytes.store_length (by omega), ?_, Bytes.drop_store (by omega) (by omega)⟩
    exact loadLogItem_congr (Bytes.slice_store [0] hpos.le hlow)

/-- What holds before each turn: the items taken follow one another, and the buffer behind them is as it
was read. -/
structure Reading (buffer : List UInt8) (readLen : Nat) (s : ReadState) : Prop where
  length_eq : s.buffer.length = buffer.length
  rest_eq : s.buffer.drop s.logItemTotalLen = buffer.drop s.logItemTotalLen
  items : Layout.Consecutive id (itemEnd buffer) 0 s.visited s.logItemTotalLen
  valid : ∀ o ∈ s.visited, (loadLogItem buffer o).IsValid (readLen - o)
  headers : ∀ o ∈ s.candidates, o + logItemSize ≤ readBufferLen
  next : match s.logItem with
    | some o => o = s.logItemTotalLen ∧ (loadLogItem buffer o).IsValid (readLen - o)
    | none => ¬(loadLogItem buffer s.logItemTotalLen).IsValid (readLen - s.logItemTotalLen)

theorem Reading.lookAt (hlength : s.buffer.length = buffer.length)
    (hrest : s.buffer.drop s.logItemTotalLen = buffer.drop s.logItemTotalLen)
    (hitems : Layout.Consecutive id (itemEnd buffer) 0 s.visited s.logItemTotalLen)
    (hvalid : ∀ o ∈ s.visited, (loadLogItem buffer o).IsValid (readLen - o))
    (hheaders : ∀ o ∈ s.candidates, o + logItemSize ≤ readBufferLen)
    (hin : s.logItemTotalLen < readLen) (hmax : readLen ≤ readBufferLen) :
    Reading buffer readLen (lookAt s.logItemTotalLen (readLen - s.logItemTotalLen) s) := by
  obtain ⟨-, haligned⟩ := items_aligned hitems hvalid (dvd_zero _)
  -- the last offset below the end of the buffer that is a multiple of 64 leaves room for a header
  have hheader : s.logItemTotalLen + logItemSize ≤ readBufferLen := by
    obtain ⟨k, hk⟩ := haligned
    have hsize : logItemSize = 64 := rfl
    have halign : logItemLenAlign = 64 := rfl
    have hlen : readBufferLen = 8192 := rfl
    rw [halign] at hk
    omega
  refine ⟨hlength, hrest, hitems, hvalid, ?_, ?_⟩
  · intro o ho
    obtain ho | ho := List.mem_append.mp ho
    · exact hheaders o ho
    · rw [List.mem_singleton.mp ho]
      exact hheader
  · rw [Tlogcat.lookAt, logItemGetNext, loadLogItem_of_drop hrest]
    dsimp only
    split_ifs with hnext
    · exact ⟨rfl, hnext⟩
    · exact hnext

theorem outputLog_fields (offset : Nat) (s : ReadState) (writeFile : Bool) :
    (outputLog writeFile offset s).visited = s.visited ∧
      (outputLog writeFile offset s).candidates = s.candidates ∧
      (outputLog writeFile offset s).logItemTotalLen = s.logItemTotalLen := by
  cases writeFile <;> exact ⟨rfl, rfl, rfl⟩

theorem Reading.turn (h : Reading buffer readLen s) (hitem : s.logItem = some offset)
    (hbuffer : buffer.length = readBufferLen) (hmax : readLen ≤ readBufferLen) (writeFile : Bool) :
    Reading buffer readLen (readTurn writeFile readLen offset s) ∧
      s.logItemTotalLen < (readTurn writeFile readLen offset s).logItemTotalLen ∧
      (readTurn writeFile readLen offset s).logItemTotalLen ≤ readLen := by
  have hnext := h.next
  rw [hitem] at hnext
  obtain ⟨rfl, hvalid⟩ := hnext
  have hload := loadLogItem_of_drop h.rest_eq
  have hend : itemEnd s.buffer s.logItemTotalLen = itemEnd buffer s.logItemTotalLen := by
    rw [itemEnd, itemEnd, hload]
  obtain ⟨hahead, hscope⟩ := hvalid.end_le
  obtain ⟨hlength, hheader, hrest⟩ := outputLog_keeps (s := { s with
    visited := s.visited ++ [s.logItemTotalLen] }) writeFile (by rw [hload]; exact hvalid)
    (by rw [h.length_eq, hbuffer]; exact hmax)
  obtain ⟨hvisited, hcandidates, htotal⟩ := outputLog_fields s.logItemTotalLen
    { s with visited := s.visited ++ [s.logItemTotalLen] } writeFile
  rw [readTurn]
  generalize outputLog writeFile s.logItemTotalLen
    { s with visited := s.visited ++ [s.logItemTotalLen] } = u at *
  change u.logItemTotalLen = s.logItemTotalLen at htotal
  have hloaded : (loadLogItem u.buffer s.logItemTotalLen).logBufferLen =
      (loadLogItem buffer s.logItemTotalLen).logBufferLen := by
    rw [hheader, hload]
  have hstop : u.logItemTotalLen + ((loadLogItem buffer s.logItemTotalLen).logBufferLen +
      logItemSize) = itemEnd buffer s.logItemTotalLen := by
    rw [htotal, itemEnd]
    omega
  have hlen : u.buffer.length = buffer.length := hlength.trans h.length_eq
  have hbehind : u.buffer.drop (itemEnd buffer s.logItemTotalLen) =
      buffer.drop (itemEnd buffer s.logItemTotalLen) := by
    have hsame := congrArg
      (List.drop (itemEnd buffer s.logItemTotalLen - s.logItemTotalLen)) h.rest_eq
    rw [List.drop_drop, List.drop_drop, Nat.add_sub_cancel' hahead.le] at hsame
    rw [← hend, hrest, hend, hsame]
  have hitems : Layout.Consecutive id (itemEnd buffer) 0 u.visited
      (itemEnd buffer s.logItemTotalLen) := by
    rw [hvisited]
    exact h.items.snoc (x := s.logItemTotalLen) hahead.le
  have hvalids : ∀ o ∈ u.visited, (loadLogItem buffer o).IsValid (readLen - o) := by
    rw [hvisited]
    intro o ho
    obtain ho | ho := List.mem_append.mp ho
    · exact h.valid o ho
    · rw [List.mem_singleton.mp ho]
      exact hvalid
  have hheaders : ∀ o ∈ u.candidates, o + logItemSize ≤ readBufferLen := by
    rw [hcandidates]
    exact h.headers
  dsimp only
  rw [hloaded, hstop]
  split_ifs with hdone
  · refine ⟨⟨hlen, hbehind, hitems, hvalids, hheaders, fun hmore => ?_⟩, hahead, hscope⟩
    exact absurd (hmore.end_le.1.trans_le hmore.end_le.2) (not_lt.mpr hdone)
  · have hin : itemEnd buffer s.logItemTotalLen < readLen := not_le.mp hdone
    refine ⟨?_, hahead, hscope⟩
    exact Reading.lookAt (s := { u with logItemTotalLen := itemEnd buffer s.logItemTotalLen })
      hlen hbehind hitems hvalids hheaders hin hmax

/-- The loop ends: every turn moves on. -/
theorem Reading.loop (h : Reading buffer readLen s) (hbuffer : buffer.length = readBufferLen)
    (hmax : readLen ≤ readBufferLen) (writeFile : Bool) :
    ∃ s', (∀ fuel, readLen - s.logItemTotalLen < fuel →
        readLoop writeFile readLen fuel s = some s') ∧
      Reading buffer readLen s' ∧ s'.logItem = none := by
  induction hleft : readLen - s.logItemTotalLen using Nat.strong_induction_on generalizing s with
  | _ left ih =>
      cases hitem : s.logItem with
      | none =>
          refine ⟨s, fun fuel hfuel => ?_, h, hitem⟩
          obtain ⟨fuel, rfl⟩ := Nat.exists_eq_succ_of_ne_zero (Nat.ne_zero_of_lt hfuel)
          rw [readLoop, hitem]
      | some offset =>
          obtain ⟨hturn, hahead, hscope⟩ := h.turn hitem hbuffer hmax writeFile
          obtain ⟨s', hloop, hend⟩ := ih _ (by omega) hturn rfl
          refine ⟨s', fun fuel hfuel => ?_, hend⟩
          obtain ⟨fuel, rfl⟩ := Nat.exists_eq_succ_of_ne_zero (Nat.ne_zero_of_lt hfuel)
          rw [readLoop, hitem]
          exact hloop fuel (by omega)

end Loop

/-- For every content of the buffer, `ReadLogBuffer` ends after at most `readLen` turns. The headers it
looks at lie in the buffer. The items it takes stand in increasing order at multiples of 64, inside what
was read and apart from each other, and they are the longest sequence of valid items from offset 0 on in
which each follows the one before it. -/
theorem readLogBuffer_items (writeFile : Bool) (buffer : List UInt8) (readLen : Nat)
    (hbuffer : buffer.length = readBufferLen) (hpos : 1 ≤ readLen) (hmax : readLen ≤ readBufferLen) :
    ∃ s, (∀ fuel, readLen < fuel → readLogBuffer writeFile fuel buffer readLen = some s) ∧
      s.visited.Pairwise (· < ·) ∧ (∀ o ∈ s.visited, 64 ∣ o) ∧
      (∀ o ∈ s.candidates, o + logItemSize ≤ readBufferLen) ∧
      (∀ o ∈ s.visited, itemEnd buffer o ≤ readLen) ∧
      s.visited.Pairwise (fun o o' => itemEnd buffer o ≤ o') ∧
      ItemSequence buffer readLen s.visited ∧
      ∀ items, ItemSequence buffer readLen items → items <+: s.visited := by
  have hstart : Reading buffer readLen (lookAt 0 readLen { buffer }) :=
    Reading.lookAt (s := { buffer }) rfl rfl rfl (by simp) (by simp) hpos hmax
  obtain ⟨s, hloop, hread, hnone⟩ := hstart.loop hbuffer hmax writeFile
  have hlast := hread.next
  rw [hnone] at hlast
  have hdisjoint := hread.items.pairwise
  refine ⟨s, fun fuel hfuel => hloop fuel hfuel, ?_,
    (items_aligned hread.items hread.valid (dvd_zero _)).1, hread.headers,
    fun o ho => (hread.valid o ho).end_le.2, hdisjoint, ⟨⟨_, hread.items⟩, hread.valid⟩, ?_⟩
  · refine hdisjoint.imp_of_mem fun {o o'} ho _ hle => ?_
    exact (hread.valid o ho).end_le.1.trans_le hle
  · rintro items ⟨⟨stop, hitems⟩, hvalid⟩
    exact items_maximal hread.items hlast hitems hvalid

/-- An item of 5 bytes of text in a buffer of zeros. -/
def oneItem : List UInt8 :=
  List.replicate 32 0 ++ [0x5A, 0x5A] ++ List.replicate 6 0 ++ [5, 0, 64, 0] ++ List.replicate 8148 0

theorem oneItem_items :
    ∃ s, (∀ fuel, 200 < fuel → readLogBuffer false fuel oneItem 200 = some s) ∧
      s.visited.Pairwise (· < ·) ∧ (∀ o ∈ s.visited, 64 ∣ o) ∧
      (∀ o ∈ s.candidates, o + logItemSize ≤ readBufferLen) ∧
      (∀ o ∈ s.visited, itemEnd oneItem o ≤ 200) ∧
      s.visited.Pairwise (fun o o' => itemEnd oneItem o ≤ o') ∧
      ItemSequence oneItem 200 s.visited ∧
      ∀ items, ItemSequence oneItem 200 items → items <+: s.visited :=
  readLogBuffer_items false oneItem 200 (by decide +kernel) (by decide) (by decide)

/-- The item is taken, and the header behind it is looked at. -/
example : (readLogBuffer false 3 oneItem 200).map (fun s => (s.visited, s.candidates)) =
    some ([0], [0, 128]) := by decide +kernel

end ITrustee.Tlogcat
