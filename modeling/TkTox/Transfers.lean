import TkTox.PartialFile
import TkTox.ResumeIndex
import Mathlib.Data.List.FinRange
import Mathlib.Logic.Function.Basic

/-!
File transfers of the tox thread: the transfer table, the partial files under stdio's buffers,
the resume index and the copy of it that was saved last. A write leaves the buffer as full as
the C library likes, and may fail; a crash, at any point of a call, loses the buffers.
-/

namespace TkTox

open PartialFile

abbrev ttMaxXfers : ℕ := 16
abbrev toxMaxFilenameLength : ℕ := 255
abbrev ttXferPathMax : ℕ := 1023
abbrev xferStep : ℕ := 256 * 1024

abbrev Disk := Bytes → Option Bytes

/-- A `FILE *` open for writing: what was written and has not reached the file waits at `pos`. -/
structure OutFile where
  path : Bytes
  pos : ℕ
  buffer : Bytes
deriving DecidableEq

inductive XferFile
  | reading (path : Bytes)
  | writing (f : OutFile)
deriving DecidableEq

structure TTXfer where
  id : ℕ
  fn : ℕ
  fileNumber : ℕ
  sending : Bool
  accepted : Bool
  fp : Option XferFile
  size : ℕ
  got : ℕ
  gotPrev : ℕ
  -- `none` while `have_file_id` is unset
  fileId : Option FileId
  name : Bytes
  path : Bytes
deriving DecidableEq

inductive XferEvent
  | txStarted (fn id : ℕ) (name : Bytes) (size : ℕ)
  | offer (fn id : ℕ) (name : Bytes) (size : ℕ)
  | resumed (fn id : ℕ) (name : Bytes) (size : ℕ)
  | progress (fn id got size : ℕ)
  | failed (fn id : ℕ)
  | done (fn id : ℕ) (path : Bytes)
deriving DecidableEq

/-- A file toxcore receives: the sender's file and the offset of the next chunk. -/
structure Incoming where
  src : Bytes
  pos : ℕ
  running : Bool
deriving DecidableEq

/-- A receive reported done: its destination, what is there, and the sender's file. -/
structure Receipt where
  path : Bytes
  content : Option Bytes
  src : Bytes
deriving DecidableEq

/-- What a crash leaves behind, and what was reported until then. -/
structure Remains where
  disk : Disk
  rsum : List TTResumeEntry
  out : List XferEvent
  receipts : List Receipt

/-- `moments` are the points of the last call at which a crash would find the disk changed. -/
structure Xfers where
  disk : Disk
  slots : Fin ttMaxXfers → Option TTXfer
  seq : ℕ
  resumeIdx : List TTResumeEntry
  -- `<profile>.rsum`
  rsum : List TTResumeEntry
  incoming : ℕ × ℕ → Option Incoming
  out : List XferEvent
  receipts : List Receipt
  moments : List Remains

def OutFile.flushed (f : OutFile) (k : ℕ) : OutFile :=
  { f with pos := f.pos + (f.buffer.take k).length, buffer := f.buffer.drop k }

def OutFile.written (disk : Disk) (f : OutFile) (k : ℕ) : Disk :=
  Function.update disk f.path
    (some (writeAt 0 ((disk f.path).getD []) f.pos (f.buffer.take k)))

-- what is not written by then is lost, whatever `fclose` says
def fclose (disk : Disk) (kept : ℕ) : Option XferFile → Disk
  | some (.writing f) => f.written disk kept
  | _ => disk

/-- The answers of the C library for one chunk: the bytes `fwrite` takes, how many of the waiting
ones reach the file then, and how many at the `fflush` and at the `fclose`. -/
structure StdioAns where
  took : ℕ
  k : ℕ
  flush : ℕ
  kept : ℕ

namespace Xfers

variable (w : Xfers)

def push (e : XferEvent) : Xfers := { w with out := w.out ++ [e] }

def setSlot (i : Fin ttMaxXfers) (x : TTXfer) : Xfers :=
  { w with slots := Function.update w.slots i (some x) }

def setResumeIdx (idx : List TTResumeEntry) : Xfers := { w with resumeIdx := idx }

def remains : Remains := ⟨w.disk, w.rsum, w.out, w.receipts⟩

def mark : Xfers := { w with moments := w.moments ++ [w.remains] }

def resumeSave : Xfers := { w with rsum := ttResumeSaved w.resumeIdx }.mark

def certify (rs : List Receipt) : Xfers := { w with receipts := w.receipts ++ rs }

def setIncoming (fn num : ℕ) (t : Option Incoming) : Xfers :=
  { w with incoming := Function.update w.incoming (fn, num) t }

def toxFileSeek (fn num pos : ℕ) : Xfers :=
  w.setIncoming fn num ((w.incoming (fn, num)).map fun t => { t with pos := pos })

def toxFileResume (fn num : ℕ) : Xfers :=
  w.setIncoming fn num ((w.incoming (fn, num)).map fun t => { t with running := true })

def toxFileCancel (fn num : ℕ) : Xfers := w.setIncoming fn num none

def xferAlloc : Option (Fin ttMaxXfers) :=
  (List.finRange ttMaxXfers).find? fun i => (w.slots i).isNone

def xferFind (fn num : ℕ) : Option (Fin ttMaxXfers) :=
  (List.finRange ttMaxXfers).find? fun i =>
    (w.slots i).any fun x => decide (x.fn = fn ∧ x.fileNumber = num)

def xferById (id : ℕ) : Option (Fin ttMaxXfers) :=
  (List.finRange ttMaxXfers).find? fun i => (w.slots i).any fun x => decide (x.id = id)

def xferOffered (id : ℕ) : Option (Fin ttMaxXfers) :=
  (List.finRange ttMaxXfers).find? fun i =>
    (w.slots i).any fun x => decide (x.id = id) && !x.sending && !x.accepted

def xferFree (i : Fin ttMaxXfers) (kept : ℕ) : Xfers :=
  match w.slots i with
  | none => w
  | some x => { w with disk := fclose w.disk kept x.fp, slots := Function.update w.slots i none }.mark

def xferProgress (i : Fin ttMaxXfers) (x : TTXfer) : Xfers :=
  if x.got < x.size ∧ x.got / xferStep = x.gotPrev / xferStep then w
  else
    let w := w.setSlot i { x with gotPrev := x.got }
    let w := if !x.sending && x.fileId.isSome then w.resumeSave else w
    w.push (.progress x.fn x.id x.got x.size)

def xferFailed (i : Fin ttMaxXfers) (x : TTXfer) (kept : ℕ) : Xfers :=
  let w := if !x.sending && x.fileId.isSome && decide (0 < x.got ∧ x.got < x.size) then w.resumeSave
    else w
  (w.push (.failed x.fn x.id)).xferFree i kept

-- what a finished receive is checked against; the source keeps no such record
def receipt (x : TTXfer) : List Receipt :=
  match x.fp, w.incoming (x.fn, x.fileNumber) with
  | some (.writing f), some t => [⟨f.path, w.disk f.path, t.src⟩]
  | _, _ => []

def xferDone (i : Fin ttMaxXfers) (x : TTXfer) (kept : ℕ) : Xfers :=
  let w := match x.fileId with
    | some id => (w.setResumeIdx (ttResumeDel w.resumeIdx id)).resumeSave
    | none => w
  ((w.push (.done x.fn x.id x.path)).certify (w.receipt x)).xferFree i kept

def xferPurgeSlot (fn : ℕ) (kept : Fin ttMaxXfers → ℕ) (w : Xfers) (i : Fin ttMaxXfers) : Xfers :=
  match w.slots i with
  | some x => if x.fn = fn then w.xferFailed i x (kept i) else w
  | none => w

def xferAllPurge (fn : ℕ) (kept : Fin ttMaxXfers → ℕ) : Xfers :=
  (List.finRange ttMaxXfers).foldl (xferPurgeSlot fn kept) w

def resumable (fileId : Option FileId) (size : ℕ) (opened : Bool) : Option TTResumeEntry :=
  match fileId with
  | none => none
  | some id =>
    match ttResumeFind w.resumeIdx id with
    | none => none
    | some r =>
      if 0 < r.bytes ∧ r.bytes < size ∧ opened = true ∧ (w.disk r.path).isSome = true then some r
      else none

def xferOnOffer (fn num size : ℕ) (name : Bytes) (fileId : Option FileId) (opened : Bool) : Xfers :=
  match w.xferAlloc with
  | none => w.toxFileCancel fn num
  | some i =>
    let x : TTXfer :=
      { id := w.seq + 1, fn := fn, fileNumber := num, sending := false, accepted := false,
        fp := none, size := size, got := 0, gotPrev := 0, fileId := fileId,
        name := name.take toxMaxFilenameLength, path := [] }
    let w := { w with seq := w.seq + 1 }
    match w.resumable fileId size opened with
    | some r =>
      let x := { x with
        fp := some (.writing ⟨r.path, r.bytes, []⟩), got := r.bytes, gotPrev := r.bytes,
        path := r.path, accepted := true }
      (((w.setSlot i x).toxFileSeek fn num r.bytes).toxFileResume fn num).push
        (.resumed fn x.id x.name size)
    | none => (w.setSlot i x).push (.offer fn x.id x.name size)

def resumeAt (path : Bytes) (size : ℕ) : ℕ :=
  match w.disk path with
  | some c => if 0 < c.length ∧ c.length < size then c.length else 0
  | none => 0

def handleCmdFileAccept (xferId : ℕ) (path : Bytes) (opened : Bool) : Xfers :=
  match w.xferOffered xferId with
  | none => w
  | some i =>
    match w.slots i with
    | none => w
    | some x =>
      -- no file is open yet
      if ¬ opened then (w.toxFileCancel x.fn x.fileNumber).xferFailed i x 0
      else
        let pos := w.resumeAt path x.size
        let x := { x with
          fp := some (.writing ⟨path, pos, []⟩), accepted := true, path := path.take ttXferPathMax }
        let x := if pos = 0 then x else { x with got := pos, gotPrev := pos }
        -- `O_TRUNC`, or the sender is told to start at `pos`
        let w := if pos = 0 then { w with disk := Function.update w.disk path (some []) }
          else w.toxFileSeek x.fn x.fileNumber pos
        let w := w.setSlot i x
        let w := match x.fileId with
          | some id => w.setResumeIdx (ttResumePut w.resumeIdx id path x.got)
          | none => w
        -- the rest is done in memory, so that the moment may be noted here
        (w.toxFileResume x.fn x.fileNumber).mark

def handleCmdFileReject (xferId : ℕ) : Xfers :=
  match w.xferOffered xferId with
  | none => w
  | some i =>
    match w.slots i with
    | none => w
    | some x => (w.toxFileCancel x.fn x.fileNumber).xferFree i 0

def handleCmdFileCancel (xferId : ℕ) (kept : ℕ) : Xfers :=
  match w.xferById xferId with
  | none => w
  | some i =>
    match w.slots i with
    | none => w
    | some x => (w.toxFileCancel x.fn x.fileNumber).xferFailed i x kept

def fwrite (disk : Disk) (f : OutFile) (data : Bytes) (a : StdioAns) : Disk × OutFile :=
  if data = [] then (disk, f)
  else
    let f := { f with buffer := f.buffer ++ data.take a.took }
    (f.written disk a.k, f.flushed a.k)

def cbFileRecvChunk (fn num : ℕ) (data : Bytes) (a : StdioAns) : Xfers :=
  match w.xferFind fn num with
  | none => w
  | some i =>
    match w.slots i with
    | none => w
    | some x =>
      match x.fp with
      | some (.writing f) =>
        if x.sending ∨ ¬ x.accepted then w
        else if x.size < x.got + data.length then (w.toxFileCancel fn num).xferFailed i x a.kept
        else
          let (disk, f) := fwrite w.disk f data a
          let w := { w with disk := disk }
          if a.took < data.length then
            -- write failed
            let w := (w.setSlot i { x with fp := some (.writing f) }).mark
            (w.toxFileCancel fn num).xferFailed i x a.kept
          else
            let x := { x with got := x.got + data.length, fp := some (.writing f) }
            let w := match x.fileId with
              | some id => w.setResumeIdx (ttResumeSetBytes w.resumeIdx id x.got)
              | none => w
            let w := (w.setSlot i x).mark
            if x.size ≤ x.got then
              -- `fflush`
              let x' := { x with fp := some (.writing (f.flushed a.flush)) }
              let w := ({ w with disk := f.written w.disk a.flush }.setSlot i x').mark
              if a.flush < f.buffer.length then w.xferFailed i x' a.kept else w.xferDone i x' a.kept
            else w.xferProgress i x
      | _ => w

def cbFileRecvControl (fn num kept : ℕ) : Xfers :=
  match w.xferFind fn num with
  | none => w
  | some i =>
    match w.slots i with
    | none => w
    | some x => w.xferFailed i x kept

def baseName (path : Bytes) : Bytes := (path.reverse.takeWhile fun b => b != 47).reverse

def handleCmdSendFile (hash : Bytes → FileId) (fn : ℕ) (path : Bytes) (num : ℕ) (ok : Bool) : Xfers :=
  match w.disk path with
  | none => w.push (.failed 0 0)
  | some c =>
    match w.xferAlloc with
    | none => w
    | some i =>
      let x : TTXfer :=
        { id := w.seq + 1, fn := fn, fileNumber := num, sending := true, accepted := true,
          fp := some (.reading path), size := c.length, got := 0, gotPrev := 0,
          fileId := some (hash c), name := (baseName path).take toxMaxFilenameLength,
          path := path.take ttXferPathMax }
      let w := { w with seq := w.seq + 1 }.setSlot i x
      if ok then w.push (.txStarted fn x.id x.name x.size) else w.xferFailed i x 0

def cbFileChunkRequest (fn num position length : ℕ) (ok : Bool) : Xfers :=
  match w.xferFind fn num with
  | none => w
  | some i =>
    match w.slots i with
    | none => w
    | some x =>
      match x.fp with
      | some (.reading path) =>
        if ¬ x.sending then w
        else if x.size ≤ position ∨ length = 0 then w.xferDone i x 0
        else
          let buf := (((w.disk path).getD []).drop position).take (min length 4096)
          if buf = [] then (w.toxFileCancel fn num).xferFailed i x 0
          else
            let x := { x with got := position + buf.length }
            let w := w.setSlot i x
            if ok then w.xferProgress i x else w.xferFailed i x 0
      | _ => w

-- a fresh start of the thread, on what the last run left behind
def restarted : Xfers :=
  { w with
    slots := fun _ => none
    seq := 0
    resumeIdx := w.rsum.take ttResumeMax
    incoming := fun _ => none
    moments := [] }

def crashedAt (r : Remains) : Xfers :=
  { w with disk := r.disk, rsum := r.rsum, out := r.out, receipts := r.receipts }.restarted

def closeAll (kept : Fin ttMaxXfers → ℕ) : Xfers :=
  (List.finRange ttMaxXfers).foldl (fun w i => w.xferFree i (kept i)) w

def start (disk : Disk) : Xfers :=
  { disk := disk, slots := fun _ => none, seq := 0, resumeIdx := [], rsum := [],
    incoming := fun _ => none, out := [], receipts := [], moments := [] }

end Xfers

inductive Offered
  | known (id : FileId)
  | anonymous (src : Bytes)
deriving DecidableEq

def Offered.src (file : FileId → Bytes) : Offered → Bytes
  | .known id => file id
  | .anonymous src => src

def Offered.fileId : Offered → Option FileId
  | .known id => some id
  | .anonymous _ => none

/-- Which file an id stands for, and the hash our own files' ids come from. -/
structure XferEnv where
  file : FileId → Bytes
  hash : Bytes → FileId

inductive XferOp
  | offer (fn num : ℕ) (offered : Offered) (name : Bytes) (opened : Bool)
  | accept (xferId : ℕ) (path : Bytes) (opened : Bool)
  | reject (xferId : ℕ)
  | cancel (xferId kept : ℕ)
  | chunk (fn num n : ℕ) (a : StdioAns)
  | cancelled (fn num kept : ℕ)
  | disconnect (fn : ℕ) (kept : Fin ttMaxXfers → ℕ)
  | send (fn : ℕ) (path : Bytes) (num : ℕ) (ok : Bool)
  | chunkRequest (fn num position length : ℕ) (ok : Bool)
  | shutdown (kept : Fin ttMaxXfers → ℕ)

/-- A call that returns, or one that a crash cuts off: before it changes the disk, or after so many
more of its changes. -/
inductive XferTurn
  | call (op : XferOp)
  | cut (op : XferOp) (n : Option ℕ)

def XferTurn.op : XferTurn → XferOp
  | .call op => op
  | .cut op _ => op

namespace Xfers

/-- toxcore hands out no number in use, and delivers chunks of a running file in order. -/
def step (env : XferEnv) (w : Xfers) : XferOp → Xfers
  | .offer fn num offered name opened =>
    if (w.xferFind fn num).isSome then w
    else
      let src := offered.src env.file
      (w.setIncoming fn num (some ⟨src, 0, false⟩)).xferOnOffer fn num src.length name offered.fileId
        opened
  | .accept xferId path opened => w.handleCmdFileAccept xferId path opened
  | .reject xferId => w.handleCmdFileReject xferId
  | .cancel xferId kept => w.handleCmdFileCancel xferId kept
  | .chunk fn num n a =>
    match w.incoming (fn, num) with
    | none => w
    | some t =>
      if ¬ t.running then w
      else
        let data := (t.src.drop t.pos).take n
        (w.setIncoming fn num (some { t with pos := t.pos + data.length })).cbFileRecvChunk fn num
          data a
  | .cancelled fn num kept => (w.toxFileCancel fn num).cbFileRecvControl fn num kept
  | .disconnect fn kept =>
    { w with incoming := fun key => if key.1 = fn then none else w.incoming key }.xferAllPurge fn kept
  | .send fn path num ok =>
    if (w.xferFind fn num).isSome then w else w.handleCmdSendFile env.hash fn path num ok
  | .chunkRequest fn num position length ok => w.cbFileChunkRequest fn num position length ok
  | .shutdown kept => w.resumeSave.closeAll kept

def turn (env : XferEnv) (w : Xfers) : XferTurn → Xfers
  | .call (.shutdown kept) => (step env { w with moments := [] } (.shutdown kept)).restarted
  | .call op => step env { w with moments := [] } op
  | .cut op n => w.crashedAt <|
    (n.bind fun n => (step env { w with moments := [] } op).moments[n]?).getD w.remains

def run (env : XferEnv) (disk : Disk) (turns : List XferTurn) : Xfers :=
  turns.foldl (turn env) (start disk)

end Xfers

end TkTox
