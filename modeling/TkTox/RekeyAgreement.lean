import TkTox.RekeyInvariant
import TkTox.Instance

/-!
Re-key agreement. Two sessions just established on one root send, ask for re-keys and take
each other's frames in order. Their ratchets stay together as long as no publication of an
already spent KEM key is taken.
-/

namespace TkTox

variable {C : Crypto} {root : Key} {envs : Bool → TTE2EEEnv}

/-- A reliable session right after the handshake. -/
structure JustEstablished (C : Crypto) (s : TTSession) (root : Key) (initiator : Bool) : Prop where
  active : s.active = true
  reliable : s.lossy = false
  send_eq : s.send = ratchetReset C root initiator
  recv_eq : s.recv = ratchetReset C root !initiator
  haveKem : s.rekey.haveKem = true
  eph : s.rekey.ephPk = C.scalarmultBase s.rekey.ephSk
  kem : ∃ seed, ttKemKeygen C seed = (s.rekey.kemPk, s.rekey.kemSk)

theorem establish_justEstablished (s : TTSession) (hl : s.lossy = false) (f1 f2 f3 ss ika ikb : Key)
    (initiator : Bool) (ρ : Draws) :
    JustEstablished C { establish C s f1 f2 f3 ss ika ikb initiator ρ with active := true }
      (handshakeRoot C f1 f2 f3 ss ika ikb) initiator :=
  ⟨rfl, hl, rfl, rfl, rfl, rfl, ⟨ρ.kemSeed, rfl⟩⟩

structure RekeyWorld where
  sess : Bool → TTSession
  wire : Bool → List Sent
  used : Bool → List KemPk

inductive RekeyOp
  | send (i : Bool) (text : Bytes) (ρ : Draws)
  | rekeyDue (i : Bool)
  | deliver (i : Bool) (ρ : Draws)

def rekeyStep (C : Crypto) (envs : Bool → TTE2EEEnv) (w : RekeyWorld) : RekeyOp → RekeyWorld
  | .send i text ρ =>
    let sent := sentBy C (w.sess i) text ρ
    { sess := Function.update w.sess i (ttSessionSend C (w.sess i) text ttFrameMax ρ).1
      wire := Function.update w.wire i (w.wire i ++ sent.toList)
      used := Function.update w.used i ((sent.bind Sent.target).toList ++ w.used i) }
  | .rekeyDue i => { w with sess := Function.update w.sess i (ttSessionRekeyDue (w.sess i)) }
  | .deliver i ρ =>
    match w.wire i with
    | [] => w
    | m :: rest =>
      { w with
        sess := Function.update w.sess (!i)
          (ttSessionFeed C (w.sess !i) (envs !i) ρ m.frame ttFrameDataMax).session
        wire := Function.update w.wire i rest }

def rekeyRun (C : Crypto) (envs : Bool → TTE2EEEnv) (sess : Bool → TTSession) (ops : List RekeyOp) :
    RekeyWorld :=
  ops.foldl (rekeyStep C envs) ⟨sess, fun _ => [], fun _ => []⟩

/-- The text of a send leaves room for a re-key header. -/
def RekeyOp.Fits (C : Crypto) : RekeyOp → Prop
  | .send _ text _ => RekeyRoom C text
  | _ => True

/-- The step takes no publication of a KEM key the receiver has already spent. -/
def NoSpentKey (w : RekeyWorld) : RekeyOp → Prop
  | .deliver i _ => ∀ m ∈ (w.wire i).head?, m.hdr.length = ttHdrDataKempub →
      pubKemPk m.hdr ∉ w.used !i
  | _ => True

instance (C : Crypto) (op : RekeyOp) : Decidable (op.Fits C) :=
  match op with
  | .send _ text _ => inferInstanceAs (Decidable (RekeyRoom C text))
  | .rekeyDue _ => inferInstanceAs (Decidable True)
  | .deliver _ _ => inferInstanceAs (Decidable True)

instance (w : RekeyWorld) (op : RekeyOp) : Decidable (NoSpentKey w op) :=
  match op with
  | .deliver i _ => inferInstanceAs (Decidable (∀ m ∈ (w.wire i).head?,
      m.hdr.length = ttHdrDataKempub → pubKemPk m.hdr ∉ w.used !i))
  | .send _ _ _ => inferInstanceAs (Decidable True)
  | .rekeyDue _ => inferInstanceAs (Decidable True)

/-- A send emits its text; a delivered frame opens to the text sent and leaves the receiving
ratchet where the sender's was right after it, and a REKEY was aimed at the current key. -/
def StepAgrees (C : Crypto) (envs : Bool → TTE2EEEnv) (w : RekeyWorld) (op : RekeyOp) : Prop :=
  (∀ i text ρ, op = .send i text ρ → ∃ m ∈ sentBy C (w.sess i) text ρ, m.text = text) ∧
  ∀ i ρ m, op = .deliver i ρ → (w.wire i).head? = some m →
    (ttSessionFeed C (w.sess !i) (envs !i) ρ m.frame ttFrameDataMax).ret = .ok m.text ∧
    (ttSessionFeed C (w.sess !i) (envs !i) ρ m.frame ttFrameDataMax).session.recv.core =
      m.after.core ∧
    ∀ pk ∈ m.target, pk = (w.sess !i).rekey.kemPk

/-- Both ends are whole and both directions hold. -/
structure RekeyInv (C : Crypto) (w : RekeyWorld) : Prop where
  keys : ∀ i, RekeyKeys C (w.sess i)
  link : ∀ i, LinkInv C (w.sess i) (w.sess !i) (w.wire i) (w.wire !i) (w.used i)

namespace RekeyInv

variable {w : RekeyWorld}

theorem initial {sess : Bool → TTSession} {b : Bool}
    (he : ∀ i, JustEstablished C (sess i) root (i == b))
    (hp : ∀ i, (sess i).rekey.peerHave = false) :
    RekeyInv C ⟨sess, fun _ => [], fun _ => []⟩ where
  keys i := by
    obtain ⟨h1, h2, h3, -, h5, h6, h7⟩ := he i
    exact ⟨h1, h2, h5, h6, h7, by rw [h3]; exact Nat.one_lt_two_pow (by decide)⟩
  link i := by
    refine LinkInv.established ?_ (hp i)
    change (sess !i).recv.core = (sess i).send.core
    rw [(he !i).recv_eq, (he i).send_eq]
    cases i <;> cases b <;> rfl

theorem forall_update {P : Bool → Prop} (i : Bool) (hi : P i) (hn : P !i) : ∀ j, P j := by
  intro j
  rcases Bool.eq_or_eq_not j i with rfl | rfl
  · exact hi
  · exact hn

theorem send (hC : C.AeadCorrect) (hD : C.DhCommutes) (hK : C.KemCorrect) (h : RekeyInv C w)
    (i : Bool) {text : Bytes} (hroom : RekeyRoom C text) (ρ : Draws) :
    RekeyInv C (rekeyStep C envs w (.send i text ρ)) := by
  obtain ⟨m, hm, -, hs⟩ := ttSessionSend_spec hC (h.keys i) hroom ρ
  have hne : (!i) ≠ i := Bool.not_ne_self i
  simp only [rekeyStep, hm, Option.toList_some, Option.bind_some]
  constructor
  case keys =>
    refine forall_update i ?_ ?_
    · simp only [Function.update_self]
      exact hs.keys
    · simp only [Function.update_of_ne hne]
      exact h.keys _
  case link =>
    refine forall_update i ?_ ?_
    · simp only [Function.update_self, Function.update_of_ne hne]
      exact (h.link i).send hD hK (h.keys i) (h.keys _) hs
    · have hback := h.link !i
      rw [Bool.not_not] at hback
      simp only [Bool.not_not, Function.update_self, Function.update_of_ne hne]
      exact hback.send_back hs

theorem rekeyDue (h : RekeyInv C w) (i : Bool) :
    RekeyInv C (rekeyStep C envs w (.rekeyDue i)) := by
  have hne : (!i) ≠ i := Bool.not_ne_self i
  have hdue : ttSessionRekeyDue (w.sess i) =
      { w.sess i with rekey := { (w.sess i).rekey with rekeyDue := true } } := by
    rw [ttSessionRekeyDue, if_pos (h.keys i).active]
  simp only [rekeyStep, hdue]
  constructor
  case keys =>
    refine forall_update i ?_ ?_
    · simp only [Function.update_self]
      exact (h.keys i).of_own rfl rfl rfl rfl (h.keys i).seq_lt
    · simp only [Function.update_of_ne hne]
      exact h.keys _
  case link =>
    refine forall_update i ?_ ?_
    · simp only [Function.update_self, Function.update_of_ne hne]
      exact (h.link i).congr rfl rfl rfl rfl
    · have hback := h.link !i
      rw [Bool.not_not] at hback
      simp only [Bool.not_not, Function.update_self, Function.update_of_ne hne]
      exact hback.congr rfl rfl rfl rfl

theorem oldest (hC : C.AeadCorrect) (h : RekeyInv C w) {i : Bool} {m : Sent} {rest : List Sent}
    (hw : w.wire i = m :: rest) (env : TTE2EEEnv) (ρ : Draws) :
    (ttSessionFeed C (w.sess !i) env ρ m.frame ttFrameDataMax).ret = .ok m.text ∧
      DeliverSpec C (w.sess !i) (ttSessionFeed C (w.sess !i) env ρ m.frame ttFrameDataMax).session
        m := by
  have hl := h.link i
  rw [hw] at hl
  exact ttSessionFeed_spec hC (h.keys _) hl.sync.1 (hl.valid m List.mem_cons_self) env ρ

theorem deliver (hC : C.AeadCorrect) (h : RekeyInv C w) (i : Bool) (ρ : Draws)
    (hn : NoSpentKey w (.deliver i ρ)) : RekeyInv C (rekeyStep C envs w (.deliver i ρ)) := by
  have hne : (!i) ≠ i := Bool.not_ne_self i
  have hne' : i ≠ !i := hne.symm
  cases hw : w.wire i with
  | nil =>
    simp only [rekeyStep, hw]
    exact h
  | cons m rest =>
    obtain ⟨-, hs⟩ := h.oldest hC hw (envs !i) ρ
    simp only [rekeyStep, hw]
    constructor
    case keys =>
      refine forall_update i ?_ ?_
      · simp only [Function.update_of_ne hne']
        exact h.keys i
      · simp only [Function.update_self]
        exact hs.keys
    case link =>
      refine forall_update i ?_ ?_
      · have hl := h.link i
        rw [hw] at hl
        simp only [Function.update_self, Function.update_of_ne hne, Function.update_of_ne hne']
        exact hl.deliver hs
      · have hl := h.link !i
        rw [Bool.not_not, hw] at hl
        have hfresh : m.hdr.length = ttHdrDataKempub → pubKemPk m.hdr ∉ w.used !i :=
          hn m (by rw [hw]; rfl)
        simp only [Bool.not_not, Function.update_self, Function.update_of_ne hne,
          Function.update_of_ne hne']
        exact hl.deliver_back hs hfresh

theorem step (hC : C.AeadCorrect) (hD : C.DhCommutes) (hK : C.KemCorrect) (h : RekeyInv C w)
    (op : RekeyOp) (hf : op.Fits C) (hn : NoSpentKey w op) : RekeyInv C (rekeyStep C envs w op) := by
  cases op with
  | send i text ρ => exact h.send hC hD hK i hf ρ
  | rekeyDue i => exact h.rekeyDue i
  | deliver i ρ => exact h.deliver hC i ρ hn

theorem agrees (hC : C.AeadCorrect) (h : RekeyInv C w) (op : RekeyOp) (hf : op.Fits C) :
    StepAgrees C envs w op := by
  constructor
  · rintro i text ρ rfl
    obtain ⟨m, hm, ht, -⟩ := ttSessionSend_spec hC (h.keys i) hf ρ
    exact ⟨m, hm, ht⟩
  · rintro i ρ m rfl hm
    obtain ⟨rest, hw⟩ := List.head?_eq_some_iff.mp hm
    obtain ⟨hret, hs⟩ := h.oldest hC hw (envs !i) ρ
    refine ⟨hret, hs.core, fun pk hpk => ?_⟩
    have hl := h.link i
    rw [hw] at hl
    have hfold : m.fold ≠ none := by
      intro hf
      rw [hl.sync.1.no_target hf] at hpk
      cases hpk
    have ht := (hl.target m List.mem_cons_self hfold).1
    rw [ht] at hpk
    exact (Option.some.inj hpk).symm

end RekeyInv

variable (C envs) in
theorem rekeyRun_take_succ {sess : Bool → TTSession} {ops : List RekeyOp} {k : ℕ} {op : RekeyOp}
    (h : ops[k]? = some op) : rekeyRun C envs sess (ops.take (k + 1)) =
      rekeyStep C envs (rekeyRun C envs sess (ops.take k)) op := by
  rw [rekeyRun, List.take_add_one, h, List.foldl_append]
  rfl

/-- In every run that takes no publication of a spent key, every step agrees. -/
theorem rekey_agreement (hC : C.AeadCorrect) (hD : C.DhCommutes) (hK : C.KemCorrect)
    {sess : Bool → TTSession} {b : Bool} (he : ∀ i, JustEstablished C (sess i) root (i == b))
    (hp : ∀ i, (sess i).rekey.peerHave = false) (ops : List RekeyOp)
    (hops : ∀ k op, ops[k]? = some op →
      op.Fits C ∧ NoSpentKey (rekeyRun C envs sess (ops.take k)) op)
    (k : ℕ) (op : RekeyOp) (hk : ops[k]? = some op) :
    StepAgrees C envs (rekeyRun C envs sess (ops.take k)) op := by
  have hinv : ∀ n ≤ k, RekeyInv C (rekeyRun C envs sess (ops.take n)) := by
    intro n hn
    induction n with
    | zero =>
      rw [List.take_zero]
      exact RekeyInv.initial he hp
    | succ n ih =>
      have hlt : n < ops.length := by
        have := (List.getElem?_eq_some_iff.mp hk).1
        omega
      have hop : ops[n]? = some ops[n] := List.getElem?_eq_getElem hlt
      rw [rekeyRun_take_succ C envs hop]
      obtain ⟨hf, hs⟩ := hops n _ hop
      exact (ih (by omega)).step hC hD hK _ hf hs
  exact (hinv k le_rfl).agrees hC op (hops k op hk).1

namespace Instance

def pair (i : Bool) : TTSession := if i then bob else alice

def pairEnvs (i : Bool) : TTE2EEEnv := if i then bobEnv else aliceEnv

theorem pair_established (i : Bool) : JustEstablished crypto (pair i) alice.root (i == false) := by
  have h : ∀ i, (pair i).active = true ∧ (pair i).lossy = false ∧
      (pair i).send = ratchetReset crypto alice.root (i == false) ∧
      (pair i).recv = ratchetReset crypto alice.root (!(i == false)) ∧
      (pair i).rekey.haveKem = true ∧ (pair i).rekey.ephPk = base (pair i).rekey.ephSk ∧
      ttKemKeygen crypto (draws (if i then 2 else 4)).kemSeed =
        ((pair i).rekey.kemPk, (pair i).rekey.kemSk) := by decide +kernel
  obtain ⟨h1, h2, h3, h4, h5, h6, h7⟩ := h i
  exact ⟨h1, h2, h3, h4, h5, h6, _, h7⟩

theorem pair_unpublished : ∀ i, (pair i).rekey.peerHave = false := by decide +kernel

def spentOps : List RekeyOp :=
  [.rekeyDue false, .send false [1] (draws 10), .deliver false (draws 11),
    .rekeyDue true, .send true [2] (draws 12), .send true [3] (draws 13),
    .rekeyDue true, .send true [4] (draws 14),
    .deliver true (draws 15), .deliver true (draws 16),
    .send false [5] (draws 17), .send false [6] (draws 18),
    .deliver true (draws 19), .rekeyDue false, .send false [7] (draws 20), .send false [8] (draws 21),
    .deliver false (draws 22), .deliver false (draws 23), .deliver false (draws 24)]

theorem spent_key_parts_ratchets :
    (∀ i, JustEstablished crypto (pair i) alice.root (i == false)) ∧
      (∀ i, (pair i).rekey.peerHave = false) ∧ (∀ op ∈ spentOps, op.Fits crypto) ∧
      (∃ m ∈ ((rekeyRun crypto pairEnvs pair spentOps).wire false).head?,
        (ttSessionFeed crypto ((rekeyRun crypto pairEnvs pair spentOps).sess true) bobEnv (draws 25)
          m.frame ttFrameDataMax).ret = .error .decodeFail) ∧
      ¬ StepAgrees crypto pairEnvs (rekeyRun crypto pairEnvs pair spentOps)
        (.deliver false (draws 25)) := by
  have hfail : ∃ m ∈ ((rekeyRun crypto pairEnvs pair spentOps).wire false).head?,
      (ttSessionFeed crypto ((rekeyRun crypto pairEnvs pair spentOps).sess true) bobEnv (draws 25)
        m.frame ttFrameDataMax).ret = .error .decodeFail := by
    have hd : (((rekeyRun crypto pairEnvs pair spentOps).wire false).head?.map fun m =>
        (ttSessionFeed crypto ((rekeyRun crypto pairEnvs pair spentOps).sess true) bobEnv
          (draws 25) m.frame ttFrameDataMax).ret) = some (.error .decodeFail) := by decide +kernel
    exact Option.map_eq_some_iff.mp hd
  refine ⟨pair_established, pair_unpublished, by decide +kernel, hfail, fun h => ?_⟩
  obtain ⟨m, hm, hret⟩ := hfail
  have hok := (h.2 false (draws 25) m rfl hm).1
  rw [show pairEnvs (!false) = bobEnv from rfl, Bool.not_false, hret] at hok
  cases hok

def foldedOps : List RekeyOp :=
  [.rekeyDue false, .send false [1] (draws 10), .deliver false (draws 11),
    .rekeyDue true, .send true [2] (draws 12), .send true [3] (draws 13),
    .deliver true (draws 15), .deliver true (draws 16),
    .send false [5] (draws 17), .send false [6] (draws 18), .send false [7] (draws 19),
    .deliver false (draws 20), .deliver false (draws 21), .deliver false (draws 22)]

end Instance

theorem rekey_agreement_folded :
    StepAgrees Instance.crypto Instance.pairEnvs
      (rekeyRun Instance.crypto Instance.pairEnvs Instance.pair (Instance.foldedOps.take 13))
      (.deliver false (Instance.draws 22)) := by
  have hops : ∀ k < 14, ∀ op ∈ Instance.foldedOps[k]?, op.Fits Instance.crypto ∧
      NoSpentKey (rekeyRun Instance.crypto Instance.pairEnvs Instance.pair
        (Instance.foldedOps.take k)) op := by decide +kernel
  refine rekey_agreement Instance.aeadCorrect Instance.dhCommutes Instance.kemCorrect
    Instance.pair_established Instance.pair_unpublished Instance.foldedOps
    (fun k op hop => hops k ?_ op hop) 13 _ rfl
  exact (List.getElem?_eq_some_iff.mp hop).1

end TkTox
