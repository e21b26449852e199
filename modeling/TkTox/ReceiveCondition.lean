import TkTox.Transfers

/-!
When received files can be relied on: what an accept may open, when the index may be saved and a
file closed.
-/

namespace TkTox.Xfers

open PartialFile

/-- How many leading bytes of the sender's file are in its partial file. -/
def correctBytes (src : Bytes) (content : Option Bytes) : ℕ := common (content.getD []) src

/-- A receive reported done has the sender's file, and a saved entry counts only bytes of it. -/
def Intact (env : XferEnv) (w : Xfers) : Prop :=
  (∀ r ∈ w.receipts, r.content = some r.src) ∧
    ∀ e ∈ w.rsum, e.bytes ≤ correctBytes (env.file e.fileId) (w.disk e.path)

def Open (w : Xfers) (i : Fin ttMaxXfers) (x : TTXfer) (f : OutFile) : Prop :=
  w.slots i = some x ∧ x.fp = some (.writing f)

def Unshared (w : Xfers) (fileId : Option FileId) (path : Bytes) : Prop :=
  ∀ i x f, Open w i x f → f.path ≠ path ∧ ∀ id, fileId = some id → x.fileId ≠ some id

def Known (w : Xfers) (e : TTResumeEntry) : Prop := HasEntry w.resumeIdx e ∨ e ∈ w.rsum

def Covered (w : Xfers) (x : TTXfer) (pos : ℕ) : Prop :=
  ∀ e, HasEntry w.resumeIdx e → x.fileId = some e.fileId → e.bytes ≤ pos

/-- No byte that the index counts waits in a buffer, but of receives that are closed by then. -/
def Settled (w : Xfers) (closed : Fin ttMaxXfers → Prop) : Prop :=
  ∀ i x f, Open w i x f → ¬ closed i → Covered w x f.pos

/-- Closed so, the file has every byte that the index counts. -/
def Kept (w : Xfers) (i : Fin ttMaxXfers) (kept : ℕ) : Prop :=
  ∀ x f, Open w i x f → Covered w x (f.flushed kept).pos

def FailSaves (x : TTXfer) : Prop :=
  x.sending = false ∧ x.fileId.isSome = true ∧ 0 < x.got ∧ x.got < x.size

/-- What an accept may open: a file nobody else receives into and no entry counts bytes of that
are not this file's and kept; and what is gone on with is where the sender's file begins. -/
structure MayOpen (w : Xfers) (x : TTXfer) (path : Bytes) : Prop where
  named : path.length ≤ ttXferPathMax
  unshared : Unshared w x.fileId path
  entries : ∀ e, Known w e → e.path = path → 0 < e.bytes →
    x.fileId = some e.fileId ∧ e.bytes ≤ w.resumeAt path x.size
  begins : ∀ t, w.incoming (x.fn, x.fileNumber) = some t →
    ((w.disk path).getD []).take (w.resumeAt path x.size) <+: t.src

/-- What a chunk may do to an open receive. When the write fails, the index counts what is in the
file before it is saved and when the file is closed; when the last flush fails, when the file is
closed. When the file is whole or 256 KiB are passed, nothing that the index counts waits. -/
structure ChunkOk (w : Xfers) (i : Fin ttMaxXfers) (x : TTXfer) (f : OutFile) (data : Bytes) (a : StdioAns) :
    Prop where
  short : a.took < data.length →
    (FailSaves x → Settled w (fun j => j = i) ∧ Covered w x (fwrite w.disk f data a).2.pos) ∧
      Covered w x ((fwrite w.disk f data a).2.flushed a.kept).pos
  whole : data.length ≤ a.took → x.size ≤ x.got + data.length →
    if a.flush < (fwrite w.disk f data a).2.buffer.length then
      (∃ e, HasEntry w.resumeIdx e ∧ x.fileId = some e.fileId) →
        x.got + data.length ≤ (((fwrite w.disk f data a).2.flushed a.flush).flushed a.kept).pos
    else x.fileId.isSome = true → Settled w fun j => j = i
  crossing : data.length ≤ a.took → x.got + data.length < x.size → x.fileId.isSome = true →
    (x.got + data.length) / xferStep ≠ x.gotPrev / xferStep →
      Settled w (fun j => j = i) ∧
        ((∃ e, HasEntry w.resumeIdx e ∧ x.fileId = some e.fileId) →
          x.got + data.length ≤ (fwrite w.disk f data a).2.pos)

def Careful (env : XferEnv) (w : Xfers) : XferOp → Prop
  | .offer fn num offered _ opened => w.xferFind fn num = none → w.xferAlloc.isSome = true →
    ∀ r, w.resumable offered.fileId (offered.src env.file).length opened = some r →
      Unshared w offered.fileId r.path
  | .accept xferId path opened => ∀ i x, w.xferOffered xferId = some i → w.slots i = some x →
    opened = true → MayOpen w x path
  | .cancel xferId kept => ∀ i x, w.xferById xferId = some i → w.slots i = some x →
    (FailSaves x → Settled w fun _ => False) ∧ Kept w i kept
  | .cancelled fn num kept => ∀ i x, w.xferFind fn num = some i → w.slots i = some x →
    (FailSaves x → Settled w fun _ => False) ∧ Kept w i kept
  | .disconnect fn kept => ∀ i x, w.slots i = some x → x.fn = fn →
    (FailSaves x → Settled w fun j => j < i ∧ ∃ y, w.slots j = some y ∧ y.fn = fn) ∧ Kept w i (kept i)
  | .chunk fn num n a => ∀ t i x f, w.incoming (fn, num) = some t → t.running = true →
    w.xferFind fn num = some i → Open w i x f → ChunkOk w i x f ((t.src.drop t.pos).take n) a
  | .chunkRequest fn num position length _ => ∀ i x, w.xferFind fn num = some i →
    w.slots i = some x → x.sending = true → x.size ≤ position ∨ length = 0 →
    Settled w fun _ => False
  | .shutdown _ => Settled w fun _ => False
  | .reject _ => True
  | .send _ _ _ _ => True

end TkTox.Xfers
