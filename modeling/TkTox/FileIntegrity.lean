import TkTox.Machine
import TkTox.ReceiveChunks

/-!
Received files. A file is received intact, and the saved resume index never claims a byte that
is not in its partial file, in every history that keeps two receives off one file, goes on only
with what the sender's file begins with, and saves the index and closes a file when nothing that
is counted waits in a buffer. Calls may be cut off by a crash at any point.
-/

namespace TkTox.Xfers

open PartialFile

variable {env : XferEnv} {w : Xfers} {i j : Fin ttMaxXfers} {x : TTXfer} {f : OutFile}

theorem Sound.crashedAt {r : Remains} (h : Sound env r) : Good env (w.crashedAt r) := by
  have hmem : ∀ {e}, HasEntry (r.rsum.take ttResumeMax) e → e ∈ r.rsum :=
    fun he => List.mem_of_mem_take he.1
  have hknown : ∀ {e}, Known (w.crashedAt r) e → e ∈ r.rsum := by
    intro e he
    obtain he | he := he
    · exact hmem he
    · exact he
  constructor
  case keys =>
    intro i j x y hx
    cases hx
  case sends =>
    intro i x hx
    cases hx
  case offered =>
    intro i x hx
    cases hx
  case opened =>
    intro i x f ho
    cases ho.1
  case alone =>
    intro i j x y f g ho
    cases ho.1
  case unique => exact uniqueIds_iff.mpr ((uniqueIds_iff.mp h.unique).sublist (List.take_sublist _ _))
  case uniqueSaved => exact h.unique
  case own =>
    intro i x f e ho
    cases ho.1
  case idle =>
    intro e he _
    exact h.backed e (hmem he)
  case saved => exact h.backed
  case share =>
    intro e e' he he'
    exact h.share e (hknown he) e' (hknown he')
  case claims =>
    intro i x f e ho
    cases ho.1
  case receipts => exact h.receipts
  case moments =>
    intro r hr
    cases hr

theorem Settled.free {closed : Fin ttMaxXfers → Prop} (h : Settled w closed) (i : Fin ttMaxXfers) (kept : ℕ) :
    Settled (w.xferFree i kept) closed := by
  intro j y g ho hc e he
  rw [free_resumeIdx] at he
  exact h j y g (open_free ho).2 hc e he

theorem closeAll_good (h : Good env w) (hs : Settled w fun _ => False) (kept : Fin ttMaxXfers → ℕ) :
    Good env (w.closeAll kept) := by
  refine (Machine.foldl_rule (P := fun w => Good env w ∧ Settled w fun _ => False) ?_ _ ⟨h, hs⟩).1
  intro w i hw
  exact ⟨hw.1.free (hw.2.kept i _), hw.2.free i _⟩

theorem step_good (h : Good env w) {op : XferOp} (hc : Careful env w op) : Good env (step env w op) := by
  cases op with
  | offer fn num o name opened => exact offer_good h hc
  | accept xferId path opened => exact accept_good h hc
  | reject xferId => exact reject_good h
  | cancel xferId kept => exact cancel_good h hc
  | chunk fn num n a => exact chunk_good h hc
  | cancelled fn num kept => exact cancelled_good h hc
  | disconnect fn kept => exact disconnect_good h hc
  | send fn path num ok => exact send_good h
  | chunkRequest fn num position length ok => exact chunkRequest_good h hc
  | shutdown kept => exact closeAll_good (h.save hc) hc kept

theorem Careful.clear {op : XferOp} (hc : Careful env w op) : Careful env { w with moments := [] } op := by
  cases op with
  | accept xferId path opened =>
    intro i x ho hx hop
    obtain ⟨hnamed, hun, hent, hbegins⟩ := hc i x ho hx hop
    exact ⟨hnamed, hun, hent, hbegins⟩
  | chunk fn num n a =>
    intro t i x f ht hrun hfind ho
    obtain ⟨hshort, hwhole, hcross⟩ := hc t i x f ht hrun hfind ho
    exact ⟨hshort, hwhole, hcross⟩
  | _ => exact hc

theorem turn_good (h : Good env w) {t : XferTurn} (hc : Careful env w t.op) : Good env (turn env w t) := by
  have hclear : Good env { w with moments := [] } := { h with moments := by simp }
  have hstep : ∀ op, Careful env w op → Good env (step env { w with moments := [] } op) := fun op hop =>
    step_good hclear hop.clear
  cases t with
  | call op =>
    cases op with
    | shutdown kept => exact (hstep _ hc).sound.crashedAt
    | _ => exact hstep _ hc
  | cut op n =>
    apply Sound.crashedAt
    cases hr : n.bind fun n => (step env { w with moments := [] } op).moments[n]? with
    | none => exact h.sound
    | some r =>
      obtain ⟨n, -, hn⟩ := Option.bind_eq_some_iff.mp hr
      exact (hstep op hc).moments r (List.mem_of_getElem? hn)

theorem start_good (env : XferEnv) (disk : Disk) : Good env (start disk) := by
  constructor <;> simp [start, Open, Known, HasEntry, UniqueIds]

namespace Instance

def songId : FileId := Blob.zero toxFileIdLength

def xferEnv : XferEnv where
  file := fun id => if id = songId then [7, 8] else []
  hash := fun _ => Blob.read toxFileIdLength [1]

def xferDisk : Disk := fun path =>
  if path = [115] then some [] else if path = [120] then some [9] else none

def songOffer : XferTurn := .call (.offer 0 65536 (.known songId) [109] true)

def lazy : StdioAns := ⟨4096, 0, 4096, 4096⟩

def nextByte : XferTurn := .call (.chunk 0 65536 1 lazy)

def lateSave : List XferTurn :=
  [songOffer, .call (.accept 1 [100] true), nextByte, .call (.send 1 [115] 0 true),
    .call (.chunkRequest 1 0 0 0 true)]

def crashed : List XferTurn := lateSave ++ [.cut (.reject 0) none, songOffer, nextByte]

def otherSong : List XferTurn := [songOffer, .call (.accept 1 [120] true), nextByte]

def cutOff : List XferTurn :=
  [songOffer, .call (.accept 1 [100] true), nextByte, .cut (.cancel 1 4096) (some 0)]

def received : List XferTurn := [songOffer, .call (.accept 1 [100] true), .call (.chunk 0 65536 2 lazy)]

theorem received_careful (n : ℕ) (t : XferTurn) (h : received[n]? = some t) :
    Careful xferEnv (run xferEnv xferDisk (received.take n)) t.op := by
  match n with
  | 0 =>
    cases h
    intro _ _ r hr
    exact absurd hr (by simp [resumable, Offered.fileId, run, start, ttResumeFind])
  | 1 =>
    cases h
    have hidx : (run xferEnv xferDisk [songOffer]).resumeIdx = [] := by decide +kernel
    have hsaved : (run xferEnv xferDisk [songOffer]).rsum = [] := by decide +kernel
    have hslots : ∀ i, ((run xferEnv xferDisk [songOffer]).slots i).all (fun x => x.fp.isNone) = true := by
      decide +kernel
    have hfresh : ∀ size, (run xferEnv xferDisk [songOffer]).resumeAt [100] size = 0 := by
      intro size
      have hd : (run xferEnv xferDisk [songOffer]).disk [100] = none := by decide +kernel
      simp [resumeAt, hd]
    intro i x _ _ _
    refine ⟨by decide, ?_, ?_, ?_⟩
    · intro j y g ho
      have := hslots j
      rw [show (run xferEnv xferDisk [songOffer]).slots j = some y from ho.1] at this
      simp [ho.2] at this
    · intro e hk
      obtain hk | hk := hk
      · have hk : e ∈ (run xferEnv xferDisk [songOffer]).resumeIdx := hk.1
        simp [hidx] at hk
      · have hk : e ∈ (run xferEnv xferDisk [songOffer]).rsum := hk
        simp [hsaved] at hk
    · intro t _
      change List.take ((run xferEnv xferDisk [songOffer]).resumeAt [100] _) _ <+: _
      rw [hfresh]
      simp
  | 2 =>
    cases h
    have hfound : (run xferEnv xferDisk (received.take 2)).xferFind 0 65536 = some 0 := by
      decide +kernel
    have hothers : ∀ j, j ≠ 0 → ((run xferEnv xferDisk (received.take 2)).slots j).isNone = true := by
      decide +kernel
    have hslot : ((run xferEnv xferDisk (received.take 2)).slots 0).map (fun x => (x.size, x.got)) = some (2, 0) := by
      decide +kernel
    have hbuffer : ((run xferEnv xferDisk (received.take 2)).slots 0).bind (fun x => x.fp) =
        some (.writing ⟨[100], 0, []⟩) := by
      decide +kernel
    have hsong : (run xferEnv xferDisk (received.take 2)).incoming (0, 65536) =
        some ⟨[7, 8], 0, true⟩ := by
      decide +kernel
    intro t i x f ht _ hfind ho
    obtain rfl := Option.some.inj (hfound.symm.trans hfind)
    obtain rfl := Option.some.inj (hsong.symm.trans ht)
    rw [ho.1] at hslot hbuffer
    simp only [Option.map_some, Option.some.injEq, Prod.mk.injEq] at hslot
    have hf : f = ⟨[100], 0, []⟩ := by
      have h := hbuffer
      rw [Option.bind_some, ho.2] at h
      cases h
      rfl
    refine ⟨?_, ?_, ?_⟩
    · intro hshort
      exact absurd hshort (by decide)
    · intro _ _
      rw [hf]
      simp only [fwrite, lazy]
      split
      · next hlost => exact absurd hlost (by decide)
      · intro _ j y g hj hne
        have := hothers j hne
        rw [hj.1] at this
        cases this
    · intro _ hlt
      rw [hslot.1, hslot.2] at hlt
      exact absurd hlt (by decide)
  | n + 3 => simp [received] at h

end Instance

end TkTox.Xfers
