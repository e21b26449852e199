import TkTox.ChessSeats

/-!
The two ends of a chess game play the turn game, so their boards are the same whenever nothing is
in flight.
-/

namespace TkTox.Chess

open TurnGame

def Carries (f : Flight) (q : Msg MoveText × ℕ) : Prop := f.tag = q.2 ∧ ∃ id, f.packet = wire q.1 id

structure Sim (w : ChessPeers) (v : View TTChess MoveText) (p : Bool) : Prop where
  me : v.me = seat (w.game p)
  myTag : v.myTag = w.tag p
  toMe : List.Forall₂ Carries (w.chan p) v.toMe
  peer : v.peer = seat (w.game !p)
  peerTag : v.peerTag = w.tag (!p)
  toPeer : List.Forall₂ Carries (w.chan !p) v.toPeer
  tidy : ∀ p, Tidy (w.game p)

def InStep (w : ChessPeers) : Prop := ∀ p, ∃ v, Sim w v p ∧ Inv chessRules v

variable {w : ChessPeers} {v : View TTChess MoveText} {p : Bool}

theorem Sim.swap (h : Sim w v p) : Sim w v.swap (!p) := by
  refine ⟨h.peer, h.peerTag, h.toPeer, ?_, ?_, ?_, h.tidy⟩ <;> rw [Bool.not_not]
  · exact h.me
  · exact h.myTag
  · exact h.toMe

theorem inStep_of (h : Sim w v p) (hi : Inv chessRules v) : InStep w := by
  intro q
  by_cases hq : q = p
  · subst hq
    exact ⟨v, h, hi⟩
  · obtain rfl := Bool.eq_not.mpr hq
    exact ⟨v.swap, h.swap, hi.swap⟩

theorem update_tidy {game : Bool → Option TTChessGame} (h : ∀ p, Tidy (game p))
    {g : Option TTChessGame} (hg : Tidy g) (p q : Bool) : Tidy (Function.update game p g q) := by
  by_cases hq : q = p
  · subst hq
    rwa [Function.update_self]
  · rw [Function.update_of_ne hq]
    exact h q

theorem not_ne (p : Bool) : (!p) ≠ p := by cases p <;> decide

theorem command_inStep (h : InStep w) (cmd : ChessCmd) (ok : Bool) :
    InStep (w.step (.command p cmd ok)) := by
  obtain ⟨v, hv, hi⟩ := h p
  obtain ⟨m, hdoes⟩ := handleCmdChess_does (hv.tidy p) cmd ok
  let out := handleCmdChess (w.game p) cmd ok
  let tag := tagAfter (w.game p) out.game w.count (w.tag p)
  have hact : Act chessRules v.me (seat out.game) m := by
    rw [hv.me]
    exact hdoes.act
  have htag : (∀ c, m ≠ some (.invite c)) → tag = v.myTag := by
    intro hm
    rw [hv.myTag]
    by_cases hb : w.game p = none ∧ out.game ≠ none
    · obtain ⟨c, hc⟩ := hdoes.begins hb.1 hb.2
      exact absurd hc (hm c)
    · simp only [tag, tagAfter, Option.isNone_iff_eq_none, Bool.and_eq_true,
        Option.isSome_iff_ne_none]
      rw [if_neg hb]
  refine inStep_of (v := v.act (seat out.game) tag m) (p := p) ?_ (act_inv hi hact htag)
  obtain ⟨id, hpacket⟩ := hdoes.packet
  refine ⟨?_, ?_, ?_, ?_, ?_, ?_, update_tidy hv.tidy hdoes.tidy p⟩ <;>
    simp only [ChessPeers.step, ChessPeers.command, View.act, Function.update_self,
      Function.update_of_ne (not_ne p), Function.update_of_ne (not_ne p).symm]
  · rfl
  · rfl
  · exact hv.toMe
  · exact hv.peer
  · exact hv.peerTag
  · apply List.rel_append hv.toPeer
    rw [hpacket]
    cases m with
    | none => exact .nil
    | some m => exact .cons ⟨rfl, id, rfl⟩ .nil

theorem deliver_sim (h : Sim w v p) {f : Flight} {rest : List Flight} (hc : w.chan p = f :: rest) :
    ∃ m tail, v.toMe = (m, f.tag) :: tail ∧ List.Forall₂ Carries rest tail ∧
      Reads (w.game p) m (cbFriendLosslessPacket (w.game p) f.packet) ∧
      ∃ id, f.packet = wire m id := by
  have hto := h.toMe
  rw [hc] at hto
  cases hv : v.toMe with
  | nil => simp [hv] at hto
  | cons q tail =>
    rw [hv, List.forall₂_cons] at hto
    obtain ⟨⟨htag, id, hf⟩, htail⟩ := hto
    refine ⟨q.1, tail, by rw [htag], htail, ?_, id, hf⟩
    rw [hf]
    exact cb_wire (h.tidy p) q.1 id

theorem deliver_inStep (h : InStep w) : InStep (w.step (.deliver p)) := by
  obtain ⟨v, hv, hi⟩ := h p
  cases hc : w.chan p with
  | nil => simpa [ChessPeers.step, hc] using h
  | cons f rest =>
    obtain ⟨m, tail, hm, htail, hreads, -⟩ := deliver_sim hv hc
    have hstep : w.step (.deliver p) = w.deliver p f rest := by simp [ChessPeers.step, hc]
    rw [hstep]
    refine inStep_of (p := p) ?_ (recv_inv hi hm)
    refine ⟨?_, ?_, ?_, ?_, ?_, ?_, update_tidy hv.tidy hreads.tidy p⟩ <;>
      simp only [ChessPeers.deliver, View.recv, Function.update_self,
        Function.update_of_ne (not_ne p)]
    · rw [hreads.seat, hv.me]
    · rw [hreads.joined, hv.me, hv.myTag]
    · exact htail
    · exact hv.peer
    · exact hv.peerTag
    · exact hv.toPeer

theorem new_inStep : InStep ChessPeers.new := by
  apply inStep_of (v := ⟨.empty, 0, [], .empty, 0, []⟩) (p := true)
  · exact ⟨rfl, rfl, .nil, rfl, rfl, .nil, by simp [ChessPeers.new, Tidy]⟩
  · exact inv_empty _ rfl rfl rfl rfl

theorem run_inStep (ops : List ChessOp) : InStep (ChessPeers.run ops) := by
  induction ops using List.reverseRecOn with
  | nil => exact new_inStep
  | append_singleton ops op ih =>
    rw [ChessPeers.run, List.foldl_append]
    cases op with
    | command p cmd ok => exact command_inStep ih cmd ok
    | deliver p => exact deliver_inStep ih

theorem InStep.agree (h : InStep w) {g g' : TTChessGame} (hg : w.game p = some g)
    (hg' : w.game (!p) = some g') (hs : g.started = true) (hs' : g'.started = true)
    (hc : ∀ p, w.chan p = []) :
    g'.board = g.board ∧ g'.selfColor = g.selfColor.other ∧ w.tag (!p) = w.tag p := by
  obtain ⟨v, hv, hi⟩ := h p
  have hlive : ∀ {q : Bool} {g : TTChessGame}, w.game q = some g → g.started = true →
      seat (w.game q) = .live g.selfColor.isWhite g.board := by
    intro q g hg hs
    obtain ⟨-, h, -⟩ | ⟨-, -, h⟩ | ⟨-, h, -⟩ := seat_some_cases (by rw [← hg]; exact hv.tidy q)
    · simp [hs] at h
    · rwa [hg]
    · simp [hs] at h
  have hme := hv.toMe
  have hto := hv.toPeer
  rw [hc, List.forall₂_nil_left_iff] at hme hto
  obtain ⟨htag, hcol, hb⟩ := hi.agree (hv.me.trans (hlive hg hs)) (hv.peer.trans (hlive hg' hs')) hme hto
  refine ⟨hb, ?_, ?_⟩
  · rw [← TTColor.isWhite_other, TTColor.isWhite_inj] at hcol
    exact hcol
  · rw [← hv.myTag, ← hv.peerTag, htag]

theorem wire_head (m : Msg MoveText) (id : ℕ) :
    (wire m id).head? = some ttGamePacketInvite ↔ m.isInvite = true := by
  have hdata : ttGamePacketData ≠ ttGamePacketInvite := by decide
  cases m with
  | invite c => simp [wire, chessSend, Msg.isInvite]
  | accept => simpa [wire, chessSend, Msg.isInvite] using hdata
  | move m => simpa [wire, chessSend, Msg.isInvite] using hdata
  | resign => simpa [wire, chessSend, Msg.isInvite] using hdata

theorem InStep.same_game (h : InStep w) {f : Flight} {rest : List Flight} (hc : w.chan p = f :: rest)
    (hf : f.packet.head? ≠ some ttGamePacketInvite)
    (hheed : cbFriendLosslessPacket (w.game p) f.packet ≠ ignored (w.game p)) :
    f.tag = w.tag p := by
  obtain ⟨v, hv, hi⟩ := h p
  obtain ⟨m, tail, hm, -, hreads, id, hwire⟩ := deliver_sim hv hc
  have hne : TurnGame.receive chessRules v.me m ≠ v.me := by
    rw [hv.me]
    exact hreads.heed.resolve_left hheed
  have hinv : m.isInvite = false := by
    rw [hwire, Ne, wire_head] at hf
    simpa using hf
  rw [← hv.myTag]
  exact recv_tag hi hm hinv hne

/-- Two peers over in-order channels, whatever either is told to do and whatever toxcore
refuses: with a started game on both sides and nothing on its way the boards are equal and the
colours opposite, and an ACCEPT, MOVE or RESIGN that is heeded is of the receiver's own game. -/
theorem chess_peers_agree (ops : List ChessOp) (p : Bool) :
    let w := ChessPeers.run ops
    (∀ g g', w.game p = some g → w.game (!p) = some g' → g.started = true → g'.started = true →
      (∀ p, w.chan p = []) →
      g'.board = g.board ∧ g'.selfColor = g.selfColor.other ∧ w.tag (!p) = w.tag p) ∧
    ∀ f rest, w.chan p = f :: rest → f.packet.head? ≠ some ttGamePacketInvite →
      cbFriendLosslessPacket (w.game p) f.packet ≠ ignored (w.game p) → f.tag = w.tag p := by
  have h := run_inStep ops
  refine ⟨?_, ?_⟩
  · intro g g' hg hg' hs hs' hc
    exact h.agree hg hg' hs hs' hc
  · intro f rest hc hf hheed
    exact h.same_game hc hf hheed

namespace Instance

def opening : List ChessOp :=
  [.command true (.invite 4) true, .deliver false, .command false .accept true, .deliver true,
    .command true (.move (some [101, 50, 101, 52])) true, .deliver false]

theorem chess_peers_agree_opening :
    ∃ g g', (ChessPeers.run opening).game true = some g ∧
      (ChessPeers.run opening).game false = some g' ∧ g'.board = g.board ∧
      g'.selfColor = g.selfColor.other := by
  have hstarted : ∀ p, ∃ g, (ChessPeers.run opening).game p = some g ∧ g.started = true := by
    intro p
    have h : ∀ p, (((ChessPeers.run opening).game p).any fun g => g.started) = true := by
      decide +kernel
    simpa [Option.any_eq_true] using h p
  have hquiet : ∀ p, (ChessPeers.run opening).chan p = [] := by
    have h : ∀ p, ((ChessPeers.run opening).chan p).isEmpty = true := by decide +kernel
    simpa using h
  obtain ⟨g, hg, hs⟩ := hstarted true
  obtain ⟨g', hg', hs'⟩ := hstarted false
  obtain ⟨hb, hc, -⟩ := (chess_peers_agree opening true).1 g g' hg hg' hs hs' hquiet
  exact ⟨g, g', hg, hg', hb, hc⟩

end Instance

end TkTox.Chess
