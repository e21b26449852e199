import TkTox.FeedCases
import TkTox.SessionRun

/-!
Two peers of the reliable transport over a network that loses, repeats and reorders frames.
Every frame is kept with what went into it, and so are the texts each side has opened.
-/

namespace TkTox

/-- A text with the handshake root of the session it was sealed on and its seq. -/
structure Tagged where
  root : Key
  seq : ℕ
  text : Bytes
deriving DecidableEq

/-- An emitted frame. A DATA frame comes with its message key, a control frame with the root
of its control key. -/
inductive RelFrame
  | handshake (frame : Bytes)
  | data (frame : Bytes) (key : Key) (tag : Tagged)
  | control (frame : Bytes) (type : TTFrameType) (root : Key) (a b : ℕ)
deriving DecidableEq

def RelFrame.frame : RelFrame → Bytes
  | .handshake f => f
  | .data f _ _ => f
  | .control f _ _ _ _ => f

def RelFrame.tag : RelFrame → Option Tagged
  | .data _ _ t => some t
  | _ => none

def tagsOf (net : List RelFrame) : List Tagged := net.filterMap RelFrame.tag

theorem mem_tagsOf {net : List RelFrame} {t : Tagged} :
    t ∈ tagsOf net ↔ ∃ f key, .data f key t ∈ net := by
  simp only [tagsOf, List.mem_filterMap]
  constructor
  · rintro ⟨m, hm, ht⟩
    cases m with
    | data f key t' =>
      cases ht
      exact ⟨f, key, hm⟩
    | handshake f => cases ht
    | control f type root a b => cases ht
  · rintro ⟨f, key, hm⟩
    exact ⟨_, hm, rfl⟩

/-- `net i` are the frames side `i` has emitted, `log i` the texts it has opened and `roots i`
the handshake roots it has established. -/
structure RelWorld where
  sess : Bool → TTSession
  net : Bool → List RelFrame
  log : Bool → List Tagged
  roots : Bool → List Key

def RelWorld.fresh : RelWorld := ⟨fun _ => .zero, fun _ => [], fun _ => [], fun _ => []⟩

inductive RelOp
  | start (i : Bool) (ρ : Draws) (now : ℤ)
  | reply (i : Bool) (ρ : Draws)
  | tick (i : Bool) (ρ : Draws) (now : ℤ)
  | send (i : Bool) (text : Bytes) (ρ : Draws)
  | flush (i : Bool) (ρ : Draws)
  | relPoll (i : Bool) (ρ : ℕ → Draws)
  | rekeyDue (i : Bool)
  | feed (i : Bool) (k : ℕ) (ρ : Draws)

section Emission

variable (C : Crypto)

def dataFrame (s : TTSession) (text f : Bytes) : RelFrame :=
  .data f (chainMaterial C s.send.chain).1 ⟨s.root, s.send.seq, text⟩

def dataOut (s : TTSession) (text : Bytes) (r : Except TTE2EEStatus Bytes) : List RelFrame :=
  if okBytes r = [] then [] else [dataFrame C s text (okBytes r)]

variable {C} in
theorem dataOut_ok (s : TTSession) (text : Bytes) {f : Bytes} (hf : f ≠ []) :
    dataOut C s text (.ok f) = [dataFrame C s text f] := if_neg hf

variable {C} in
theorem append_dataOut_empty (net : List RelFrame) (s : TTSession) (text : Bytes)
    {r : Except TTE2EEStatus Bytes} (hr : okBytes r = []) : net ++ dataOut C s text r = net := by
  rw [dataOut, if_pos hr, List.append_nil]

def handshakeOut (r : Except TTE2EEStatus Bytes) : List RelFrame :=
  if okBytes r = [] then [] else [.handshake (okBytes r)]

def resendOut (cap : ℕ) (ρ : ℕ → Draws) : ℕ → ℕ → TTSession → List RelFrame
  | 0, _, _ => []
  | n + 1, r, s =>
    let i := sentIdx (s.rel.sent.head + r)
    let msg := s.rel.sent.m i
    if msg.gen ≠ s.rel.resendRepGen ∨ msg.seq < s.rel.resendRepFrom then
      resendOut cap ρ n (r + 1) s
    else
      match emitFrame C s (TTSentBuf.readSlot i msg.data.length) cap false (ρ r) with
      | (_, .ok (b :: f)) =>
        [dataFrame C s (s.rel.sent.readSlot i msg.data.length) (b :: f)]
      | (s, _) => resendOut cap ρ n (r + 1) s

def AcksNext (s : TTSession) : Prop :=
  s.active = true ∧ s.rel.resendReqPending = false ∧ s.rel.resendRepPending = false ∧
    s.rel.ackDue = true

instance (s : TTSession) : Decidable (AcksNext s) := inferInstanceAs (Decidable (_ ∧ _))

def pollOut (s : TTSession) (cap : ℕ) (ρ : ℕ → Draws) : List RelFrame :=
  if s.active = false then []
  else if s.rel.resendReqPending then
    [.control (ttSessionRelPoll C s cap ρ).2 .resend s.root s.rel.resendReqGen s.rel.resendReqFrom]
  else if s.rel.resendRepPending then resendOut C cap ρ s.rel.sent.count 0 s
  else if s.rel.ackDue then
    [.control (ttSessionRelPoll C s cap ρ).2 .ack s.root s.rel.recvAcked (relGen C s.root)]
  else []

def deliveredTag (s : TTSession) (env : TTE2EEEnv) (ρ : Draws) (m : RelFrame) : List Tagged :=
  match m, ttFramePeek m.frame, (ttSessionFeed C s env ρ m.frame ttFrameDataMax).ret with
  | .data _ _ _, some d, .ok pt => [⟨s.root, d.seq, pt⟩]
  | _, _, _ => []

def relStep (envs : Bool → TTE2EEEnv) (w : RelWorld) : RelOp → RelWorld
  | .start i ρ now =>
    let r := ttSessionStart C (w.sess i) (envs i) ρ now ttFrameMax
    { w with
      sess := Function.update w.sess i r.1
      net := Function.update w.net i (w.net i ++ handshakeOut r.2) }
  | .reply i ρ =>
    let r := ttSessionReply C (w.sess i) (envs i) ρ ttFrameMax
    { w with
      sess := Function.update w.sess i r.1
      net := Function.update w.net i (w.net i ++ handshakeOut r.2) }
  | .tick i ρ now =>
    let r := ttSessionTick C (w.sess i) (envs i) ρ now ttFrameMax
    { w with
      sess := Function.update w.sess i r.1
      net := Function.update w.net i (w.net i ++ handshakeOut r.2) }
  | .send i text ρ =>
    let r := ttSessionSend C (w.sess i) text ttFrameMax ρ
    { w with
      sess := Function.update w.sess i r.1
      net := Function.update w.net i (w.net i ++ dataOut C (w.sess i) text r.2) }
  | .flush i ρ =>
    let r := ttSessionFlush C (w.sess i) ttFrameMax ρ
    { w with
      sess := Function.update w.sess i r.1
      net := Function.update w.net i
        (w.net i ++ dataOut C (w.sess i) ((w.sess i).pending.headD []) r.2) }
  | .relPoll i ρ =>
    { w with
      sess := Function.update w.sess i (ttSessionRelPoll C (w.sess i) ttFrameMax ρ).1
      net := Function.update w.net i (w.net i ++ pollOut C (w.sess i) ttFrameMax ρ) }
  | .rekeyDue i => { w with sess := Function.update w.sess i (ttSessionRekeyDue (w.sess i)) }
  | .feed i k ρ =>
    match (w.net !i)[k]? with
    | none => w
    | some m =>
      let r := ttSessionFeed C (w.sess i) (envs i) ρ m.frame ttFrameDataMax
      { w with
        sess := Function.update w.sess i r.session
        log := Function.update w.log i (deliveredTag C (w.sess i) (envs i) ρ m ++ w.log i)
        roots := Function.update w.roots i
          (if establishesOn C (w.sess i) (envs i) ρ m.frame ttFrameDataMax then
            r.session.root :: w.roots i else w.roots i) }

def relRun (envs : Bool → TTE2EEEnv) (ops : List RelOp) : RelWorld :=
  ops.foldl (relStep C envs) .fresh

end Emission

section Assumptions

variable (C : Crypto)

def openingKey (s : TTSession) (f : Bytes) : Option Key :=
  match ttFramePeek f with
  | none => none
  | some d =>
    match recvKey C s.recv d.seq with
    | .error _ => none
    | .ok (key, _) => (ttFrameDecode C f key ttFrameDataMax).map fun _ => key

def Authentic (s : TTSession) : RelFrame → Prop
  | .handshake _ => True
  | .data f key tag => ∀ k ∈ openingKey C s f, k = key ∧ tag.root = s.root
  | .control f _ root _ _ => (ttFrameDecode C f (controlKey C s.root) 16).isSome → root = s.root

instance (s : TTSession) (m : RelFrame) : Decidable (Authentic C s m) :=
  match m with
  | .handshake _ => inferInstanceAs (Decidable True)
  | .data f _ _ => Option.decidableForallMem (openingKey C s f)
  | .control f _ root _ _ => inferInstanceAs
      (Decidable ((ttFrameDecode C f (controlKey C s.root) 16).isSome → root = s.root))

def FreshRoot (w : RelWorld) (i : Bool) (root : Key) : Prop :=
  root ∉ w.roots i ∧ ∀ j, ∀ r ∈ w.roots j, relGen C r = relGen C root → r = root

instance (w : RelWorld) (i : Bool) (root : Key) : Decidable (FreshRoot C w i root) :=
  have (j : Bool) : Decidable (∀ r ∈ w.roots j, relGen C r = relGen C root → r = root) :=
    List.decidableBAll _ (w.roots j)
  inferInstanceAs (Decidable (_ ∧ _))

/-- The primitives behave ideally in a step: frames are authentic and roots are fresh. -/
def IdealStep (envs : Bool → TTE2EEEnv) (w : RelWorld) : RelOp → Prop
  | .feed i k ρ => ∀ m ∈ (w.net !i)[k]?, Authentic C (w.sess i) m ∧
      (establishesOn C (w.sess i) (envs i) ρ m.frame ttFrameDataMax = true →
        FreshRoot C w i (ttSessionFeed C (w.sess i) (envs i) ρ m.frame ttFrameDataMax).session.root)
  | _ => True

instance (envs : Bool → TTE2EEEnv) (w : RelWorld) (op : RelOp) : Decidable (IdealStep C envs w op) :=
  match op with
  | .feed i k ρ => inferInstanceAs (Decidable (∀ m ∈ (w.net !i)[k]?, Authentic C (w.sess i) m ∧
      (establishesOn C (w.sess i) (envs i) ρ m.frame ttFrameDataMax = true →
        FreshRoot C w i (ttSessionFeed C (w.sess i) (envs i) ρ m.frame ttFrameDataMax).session.root)))
  | .start _ _ _ | .reply _ _ | .tick _ _ _ | .send _ _ _ | .flush _ _ | .relPoll _ _
  | .rekeyDue _ => inferInstanceAs (Decidable True)

end Assumptions

end TkTox
