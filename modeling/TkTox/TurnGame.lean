import Mathlib.Data.List.Basic
import Mathlib.Tactic.Common

/-!
Two players of a turn-based game over two in-order channels. A game is invited to, accepted,
played in turns and left at any time, with or without a word to the other player; whatever does
not fit the receiver's seat is ignored. Every invitation starts a game of its own, numbered by
a tag, and a message carries the tag of the game its sender was in.
-/

namespace TurnGame

structure Rules (β μ : Type*) where
  start : β
  turn : β → Bool
  play : β → μ → Option β
  ended : β → Bool
  turn_play : ∀ {b m b'}, play b m = some b' → turn b' = !turn b

inductive Msg (μ : Type*)
  | invite (c : Bool)
  | accept
  | move (m : μ)
  | resign

inductive Seat (β : Type*)
  | empty
  | out (c : Bool)
  | asked (c : Bool)
  | live (c : Bool) (b : β)

variable {β μ : Type*} (R : Rules β μ)

def settle (c : Bool) (b : β) : Seat β := if R.ended b then .empty else .live c b

def receive : Seat β → Msg μ → Seat β
  | .empty, .invite c => .asked c
  | .out c, .accept => .live c R.start
  | .live c b, .move m =>
    if R.turn b = c then .live c b
    else match R.play b m with
      | none => .live c b
      | some b' => settle R c b'
  | .live _ _, .resign => .empty
  | s, _ => s

inductive Act : Seat β → Seat β → Option (Msg μ) → Prop
  | stay (s : Seat β) : Act s s none
  | invite (c : Bool) : Act .empty (.out c) (some (.invite !c))
  | accept (c : Bool) : Act (.asked c) (.live c R.start) (some .accept)
  | drop (c : Bool) : Act (.asked c) .empty none
  | move {c : Bool} {b b' : β} {m : μ} (ht : R.turn b = c) (hp : R.play b m = some b') :
    Act (.live c b) (settle R c b') (some (.move m))
  | leave (c : Bool) (b : β) : Act (.live c b) .empty none
  | resign (c : Bool) (b : β) : Act (.live c b) .empty (some .resign)

structure View (β μ : Type*) where
  me : Seat β
  myTag : ℕ
  toMe : List (Msg μ × ℕ)
  peer : Seat β
  peerTag : ℕ
  toPeer : List (Msg μ × ℕ)

namespace View

def swap (v : View β μ) : View β μ := ⟨v.peer, v.peerTag, v.toPeer, v.me, v.myTag, v.toMe⟩

@[simp] theorem swap_swap (v : View β μ) : v.swap.swap = v := rfl

def act (v : View β μ) (s : Seat β) (tag : ℕ) (out : Option (Msg μ)) : View β μ :=
  { v with me := s, myTag := tag, toPeer := v.toPeer ++ out.toList.map fun m => (m, tag) }

def recv (v : View β μ) (m : Msg μ) (tag : ℕ) (rest : List (Msg μ × ℕ)) : View β μ :=
  { v with me := receive R v.me m, myTag := tag, toMe := rest }

end View

def Msg.isInvite : Msg μ → Bool
  | .invite _ => true
  | _ => false

def Msg.isAccept : Msg μ → Bool
  | .accept => true
  | _ => false

def Msg.inGame : Msg μ → Bool
  | .move _ => true
  | .resign => true
  | _ => false

def NoInvite (l : List (Msg μ × ℕ)) : Prop := ∀ p ∈ l, p.1.isInvite = false

def NoAccept (l : List (Msg μ × ℕ)) : Prop := ∀ p ∈ l, p.1.isAccept = false

def InGame (tag : ℕ) (l : List (Msg μ × ℕ)) : Prop := ∀ p ∈ l, p.1.inGame = true → p.2 = tag

@[simp] def Asked : Seat β → Prop
  | .asked _ => True
  | _ => False

variable {R} {v : View β μ} {l : List (Msg μ × ℕ)} {p : Msg μ × ℕ} {c c' : Bool} {b b' : β} {m : μ}
  {tag : ℕ}

@[simp] theorem noInvite_nil : NoInvite ([] : List (Msg μ × ℕ)) := by simp [NoInvite]
@[simp] theorem noAccept_nil : NoAccept ([] : List (Msg μ × ℕ)) := by simp [NoAccept]
@[simp] theorem inGame_nil : InGame tag ([] : List (Msg μ × ℕ)) := by simp [InGame]

@[simp] theorem noInvite_cons : NoInvite (p :: l) ↔ p.1.isInvite = false ∧ NoInvite l := by
  simp [NoInvite]

@[simp] theorem noAccept_cons : NoAccept (p :: l) ↔ p.1.isAccept = false ∧ NoAccept l := by
  simp [NoAccept]

@[simp] theorem inGame_cons : InGame tag (p :: l) ↔ (p.1.inGame = true → p.2 = tag) ∧ InGame tag l := by
  simp [InGame]

@[simp] theorem noInvite_append {l' : List (Msg μ × ℕ)} :
    NoInvite (l ++ l') ↔ NoInvite l ∧ NoInvite l' := by
  simp only [NoInvite, List.mem_append, or_imp, forall_and]

@[simp] theorem noAccept_append {l' : List (Msg μ × ℕ)} :
    NoAccept (l ++ l') ↔ NoAccept l ∧ NoAccept l' := by
  simp only [NoAccept, List.mem_append, or_imp, forall_and]

@[simp] theorem inGame_append {l' : List (Msg μ × ℕ)} :
    InGame tag (l ++ l') ↔ InGame tag l ∧ InGame tag l' := by
  simp only [InGame, List.mem_append, or_imp, forall_and]

variable (R) in
def Ahead (b₀ : β) (l : List (Msg μ × ℕ)) (c : Bool) (b : β) : Prop :=
  (l = [] ∧ b = b₀) ∨ ∃ m tag, l = [(.move m, tag)] ∧ R.turn b₀ = c ∧ R.play b₀ m = some b

variable (R) in
inductive Offer (v : View β μ) (c : Bool) : Prop
  | sent (l : List (Msg μ × ℕ)) (hl : v.toPeer = l ++ [(.invite !c, v.myTag)]) (hn : NoInvite l)
      (ha : NoAccept v.toMe) (hp : ¬ Asked v.peer)
  | shown (hl : v.toPeer = []) (hp : v.peer = .asked !c) (ht : v.peerTag = v.myTag)
      (ha : NoAccept v.toMe)
  | taken (old new : List (Msg μ × ℕ)) (hl : v.toPeer = [])
      (hm : v.toMe = old ++ (.accept, v.myTag) :: new) (ho : NoAccept old) (ha : NoAccept new)
      (hp : ¬ Asked v.peer) (hg : InGame v.myTag new)
      (hb : ∀ c' b, v.peer = .live c' b → v.peerTag = v.myTag ∧ c' = !c ∧ Ahead R R.start new c' b)
  | lost (hl : v.toPeer = []) (ha : NoAccept v.toMe) (hp : ¬ Asked v.peer)

structure Quiet (v : View β μ) : Prop where
  invite : NoInvite v.toPeer
  peer : ¬ Asked v.peer
  accept : NoAccept v.toMe

variable (R) in
/-- What one player's seat says of the other's and of the channels. -/
structure Half (v : View β μ) : Prop where
  offer : ∀ c, v.me = .out c → Offer R v c
  quiet : (∀ c, v.me ≠ .out c) → Quiet v
  tags : ∀ c b, v.me = .live c b → InGame v.myTag v.toMe

variable (R) in
def Same (v : View β μ) : Prop :=
  ∀ c b c' b', v.me = .live c b → v.peer = .live c' b' → v.myTag = v.peerTag ∧ c' = (!c) ∧
    ((v.toPeer = [] ∧ Ahead R b v.toMe c' b') ∨ (v.toMe = [] ∧ Ahead R b' v.toPeer c b))

variable (R) in
structure Inv (v : View β μ) : Prop where
  mine : Half R v
  theirs : Half R v.swap
  same : Same R v

theorem Same.swap (h : Same R v) : Same R v.swap := by
  intro c b c' b' hm hp
  obtain ⟨ht, hc, ha⟩ := h c' b' c b hp hm
  refine ⟨ht.symm, ?_, ha.symm⟩
  rw [hc, Bool.not_not]

theorem Inv.swap (h : Inv R v) : Inv R v.swap := ⟨h.theirs, h.mine, h.same.swap⟩

@[simp] theorem ahead_nil : Ahead R b [] c b' ↔ b' = b := by simp [Ahead]

theorem Ahead.of_turn (h : Ahead R b l c b') (ht : R.turn b' = c) : l = [] ∧ b' = b := by
  obtain h | ⟨m, tag, -, hc, hp⟩ := h
  · exact h
  · have := R.turn_play hp
    simp [ht, hc] at this

theorem Ahead.of_turn_not (h : Ahead R b l (!c) b') (ht : R.turn b = c) : l = [] ∧ b' = b := by
  obtain h | ⟨m, tag, -, hc, -⟩ := h
  · exact h
  · simp [ht] at hc

theorem ahead_move (ht : R.turn b = c) (hp : R.play b m = some b') :
    Ahead R b [(.move m, tag)] c b' :=
  .inr ⟨m, tag, rfl, ht, hp⟩

variable {s : Seat β} {out : Option (Msg μ)}

variable (R) in
structure Says (v : View β μ) (s : Seat β) (tag : ℕ) (out : Option (Msg μ)) : Prop where
  before : ¬ Asked v.me
  after : ¬ Asked s
  accept : ∀ m, out = some m → m.isAccept = false
  inGame : ∀ m, out = some m → m.inGame = true → ∃ c b, v.me = .live c b ∧ tag = v.myTag
  live : ∀ c b, s = .live c b → ∃ b₀ m, v.me = .live c b₀ ∧ out = some (.move m) ∧
    tag = v.myTag ∧ R.turn b₀ = c ∧ R.play b₀ m = some b

theorem Says.noAccept (h : Says R v s tag out) : NoAccept (out.toList.map fun m => (m, tag)) := by
  cases out with
  | none => simp
  | some m => simp [h.accept m rfl]

theorem Says.tagged (h : Says R v s tag out) {n : ℕ} (hn : ∀ c b, v.me = .live c b → v.myTag = n) :
    InGame n (out.toList.map fun m => (m, tag)) := by
  cases out with
  | none => simp
  | some m =>
    simp only [Option.toList_some, List.map_cons, List.map_nil, inGame_cons, inGame_nil, and_true]
    intro hm
    obtain ⟨c, b, hlive, ht⟩ := h.inGame m rfl hm
    exact ht.trans (hn c b hlive)

theorem Offer.said (h : Offer R v.swap c) (hs : Says R v s tag out) :
    Offer R (v.act s tag out).swap c := by
  cases h with
  | sent l hl hn ha hp => exact .sent l hl hn (noAccept_append.mpr ⟨ha, hs.noAccept⟩) hs.after
  | shown _ hp =>
    have hp : v.me = _ := hp
    exact absurd (by rw [hp]; trivial) hs.before
  | lost hl ha hp => exact .lost hl (noAccept_append.mpr ⟨ha, hs.noAccept⟩) hs.after
  | taken old new hl hm ho ha hp hg hb =>
    have htag : ∀ c b, v.me = .live c b → v.myTag = v.peerTag := fun c b h => (hb c b h).1
    refine .taken old (new ++ out.toList.map fun m => (m, tag)) hl ?_ ho ?_ hs.after ?_ ?_
    · have hm : v.toPeer = old ++ (.accept, v.peerTag) :: new := hm
      simp [View.swap, View.act, hm]
    · exact noAccept_append.mpr ⟨ha, hs.noAccept⟩
    · exact inGame_append.mpr ⟨hg, hs.tagged htag⟩
    · intro c' b hlive
      obtain ⟨b₀, m, hme, rfl, ht, hturn, hplay⟩ := hs.live c' b hlive
      obtain ⟨htag, hc, ha⟩ := hb c' b₀ hme
      obtain ⟨rfl, rfl⟩ := ha.of_turn hturn
      exact ⟨ht.trans htag, hc, ahead_move hturn hplay⟩

theorem Half.said (h : Inv R v) (hs : Says R v s tag out) : Half R (v.act s tag out).swap := by
  constructor
  · intro c hc
    exact (h.theirs.offer c hc).said hs
  · intro hc
    obtain ⟨hi, -, ha⟩ := h.theirs.quiet hc
    exact ⟨hi, hs.after, noAccept_append.mpr ⟨ha, hs.noAccept⟩⟩
  · intro c b hp
    refine inGame_append.mpr ⟨h.theirs.tags c b hp, hs.tagged ?_⟩
    intro c' b' hme
    exact (h.same c' b' c b hme hp).1

theorem Half.quiet_act (h : Half R v) (hme : ∀ c, v.me ≠ .out c)
    (ho : ∀ m, out = some m → m.isInvite = false) : Quiet (v.act s tag out) := by
  obtain ⟨hi, hp, ha⟩ := h.quiet hme
  refine ⟨noInvite_append.mpr ⟨hi, ?_⟩, hp, ha⟩
  cases out with
  | none => simp
  | some m => simp [ho m rfl]

theorem settle_cases (c : Bool) (b : β) : settle R c b = .empty ∨ settle R c b = .live c b := by
  unfold settle
  split
  · exact .inl rfl
  · exact .inr rfl

theorem Inv.invite (h : Inv R v) (hme : v.me = .empty) (c : Bool) (tag : ℕ) :
    Inv R (v.act (.out c) tag (some (.invite !c))) := by
  have hs : Says R v (.out c) tag (some (.invite !c)) :=
    ⟨by simp [hme], by simp, by simp [Msg.isAccept], by simp [Msg.inGame], by simp⟩
  obtain ⟨hi, hp, ha⟩ := h.mine.quiet (by simp [hme])
  refine ⟨⟨?_, ?_, ?_⟩, .said h hs, ?_⟩
  · intro c' hc
    cases hc
    exact .sent v.toPeer rfl hi ha hp
  · intro hc
    exact absurd rfl (hc c)
  · intro c' b hc
    cases hc
  · intro c' b c'' b' hc
    cases hc

theorem Inv.leave (h : Inv R v) (hme : ∀ c, v.me ≠ .out c) (hs : Says R v .empty v.myTag out)
    (ho : ∀ m, out = some m → m.isInvite = false) : Inv R (v.act .empty v.myTag out) := by
  refine ⟨⟨?_, ?_, ?_⟩, .said h hs, ?_⟩
  · intro c hc
    cases hc
  · intro _
    exact h.mine.quiet_act hme ho
  · intro c b hc
    cases hc
  · intro c b c' b' hc
    cases hc

theorem Inv.play (h : Inv R v) (hme : v.me = .live c b) (ht : R.turn b = c)
    (hp : R.play b m = some b') : Inv R (v.act (settle R c b') v.myTag (some (.move m))) := by
  have hout : ∀ c, v.me ≠ .out c := by simp [hme]
  obtain hend | hend := settle_cases (R := R) c b'
  · rw [hend]
    refine h.leave hout ⟨by simp [hme], by simp, by simp [Msg.isAccept], ?_, by simp⟩
      (by simp [Msg.isInvite])
    exact fun _ _ _ => ⟨c, b, hme, rfl⟩
  rw [hend]
  have hs : Says R v (.live c b') v.myTag (some (.move m)) := by
    refine ⟨by simp [hme], by simp, by simp [Msg.isAccept], fun _ _ _ => ⟨c, b, hme, rfl⟩, ?_⟩
    intro c' b'' hc
    cases hc
    exact ⟨b, m, hme, rfl, rfl, ht, hp⟩
  refine ⟨⟨?_, ?_, ?_⟩, .said h hs, ?_⟩
  · intro c' hc
    cases hc
  · intro _
    exact h.mine.quiet_act hout (by simp [Msg.isInvite])
  · intro c' b'' hc
    cases hc
    exact h.mine.tags c b hme
  · intro c' b₁ c'' b₂ hc hpeer
    cases hc
    obtain ⟨htag, rfl, ha⟩ := h.same c b c'' b₂ hme hpeer
    refine ⟨htag, rfl, .inr ?_⟩
    obtain ⟨hto, ha⟩ | ⟨hmt, ha⟩ := ha
    · obtain ⟨hmt, rfl⟩ := ha.of_turn_not ht
      refine ⟨hmt, ?_⟩
      simpa [View.act, hto] using ahead_move ht hp
    · obtain ⟨hto, rfl⟩ := ha.of_turn ht
      refine ⟨hmt, ?_⟩
      simpa [View.act, hto] using ahead_move ht hp

theorem Inv.asker (h : Inv R v) (hme : v.me = .asked c) :
    v.peer = .out (!c) ∧ v.toMe = [] ∧ v.myTag = v.peerTag ∧ NoAccept v.toPeer := by
  have hask : Asked v.swap.peer := by simp [View.swap, hme]
  cases hp : v.peer with
  | out c' =>
    cases h.theirs.offer c' hp with
    | sent _ _ _ _ hn => exact absurd hask hn
    | shown hl hc ht ha =>
      have hc : v.me = _ := hc
      rw [hme] at hc
      cases hc
      exact ⟨by simp, hl, ht, ha⟩
    | taken _ _ _ _ _ _ hn => exact absurd hask hn
    | lost _ _ hn => exact absurd hask hn
  | empty => exact absurd hask (h.theirs.quiet (by simp [View.swap, hp])).peer
  | asked c' => exact absurd hask (h.theirs.quiet (by simp [View.swap, hp])).peer
  | live c' b => exact absurd hask (h.theirs.quiet (by simp [View.swap, hp])).peer

theorem Inv.accept (h : Inv R v) (hme : v.me = .asked c) :
    Inv R (v.act (.live c R.start) v.myTag (some .accept)) := by
  obtain ⟨hpeer, hto, htag, ha⟩ := h.asker hme
  refine ⟨⟨?_, ?_, ?_⟩, ⟨?_, ?_, ?_⟩, ?_⟩
  · intro c' hc
    cases hc
  · intro _
    exact h.mine.quiet_act (by simp [hme]) (by simp [Msg.isInvite])
  · intro c' b hc
    simp [View.act, hto]
  · intro c' hc
    have hc : v.peer = .out c' := hc
    rw [hpeer] at hc
    cases hc
    refine .taken v.toPeer [] hto (by simp [View.act, View.swap, htag]) ha (by simp)
      (by simp [View.act, View.swap]) (by simp) ?_
    intro c' b hc
    cases hc
    exact ⟨htag, by simp, by simp⟩
  · intro hc
    exact absurd hpeer (hc _)
  · intro c' b hc
    have hc : v.peer = _ := hc
    rw [hpeer] at hc
    cases hc
  · intro c' b c'' b' _ hc
    have hc : v.peer = _ := hc
    rw [hpeer] at hc
    cases hc

theorem Inv.drop (h : Inv R v) (hme : v.me = .asked c) : Inv R (v.act .empty v.myTag none) := by
  obtain ⟨hpeer, hto, htag, ha⟩ := h.asker hme
  refine ⟨⟨?_, ?_, ?_⟩, ⟨?_, ?_, ?_⟩, ?_⟩
  · intro c' hc
    cases hc
  · intro _
    exact h.mine.quiet_act (by simp [hme]) (by simp)
  · intro c' b hc
    cases hc
  · intro c' _
    exact .lost hto (by simpa [View.act, View.swap] using ha) (by simp [View.act, View.swap])
  · intro hc
    exact absurd hpeer (hc _)
  · intro c' b hc
    have hc : v.peer = _ := hc
    rw [hpeer] at hc
    cases hc
  · intro c' b c'' b' hc
    cases hc

theorem act_inv (h : Inv R v) (ha : Act R v.me s out)
    (ht : (∀ c, out ≠ some (.invite c)) → tag = v.myTag) : Inv R (v.act s tag out) := by
  generalize hme : v.me = me at ha
  cases ha with
  | stay =>
    obtain rfl := ht (by simp)
    subst hme
    simpa [View.act] using h
  | invite c => exact h.invite hme c tag
  | accept c =>
    obtain rfl := ht (by simp)
    exact h.accept hme
  | drop c =>
    obtain rfl := ht (by simp)
    exact h.drop hme
  | move hturn hplay =>
    obtain rfl := ht (by simp)
    exact h.play hme hturn hplay
  | leave c b =>
    obtain rfl := ht (by simp)
    exact h.leave (by simp [hme]) ⟨by simp [hme], by simp, by simp, by simp, by simp⟩ (by simp)
  | resign c b =>
    obtain rfl := ht (by simp)
    refine h.leave (by simp [hme]) ⟨by simp [hme], by simp, by simp [Msg.isAccept], ?_, by simp⟩
      (by simp [Msg.isInvite])
    exact fun _ _ _ => ⟨c, b, hme, rfl⟩

/-! ### A player hears -/

theorem Inv.invited (h : Inv R v) (hl : v.toMe = (.invite c, tag₀) :: rest) :
    v.peer = .out (!c) ∧ tag₀ = v.peerTag ∧ rest = [] ∧ ¬ Asked v.me ∧ NoAccept v.toPeer := by
  have hinv : ¬ NoInvite v.toMe := by simp [hl, Msg.isInvite]
  have hne : v.toMe ≠ [] := by simp [hl]
  cases hp : v.peer with
  | out c' =>
    cases h.theirs.offer c' hp with
    | sent l hsent hn ha hasked =>
      have hsent : v.toMe = _ := hsent
      rw [hl] at hsent
      cases l with
      | nil =>
        simp only [List.nil_append, List.cons.injEq, Prod.mk.injEq, Msg.invite.injEq] at hsent
        obtain ⟨⟨rfl, rfl⟩, rfl⟩ := hsent
        exact ⟨by simp, rfl, rfl, hasked, ha⟩
      | cons p l =>
        simp only [List.cons_append, List.cons.injEq] at hsent
        simp [← hsent.1, Msg.isInvite] at hn
    | shown hnil => exact absurd hnil hne
    | taken _ _ hnil => exact absurd hnil hne
    | lost hnil => exact absurd hnil hne
  | empty => exact absurd (h.theirs.quiet (by simp [View.swap, hp])).invite hinv
  | asked c' => exact absurd (h.theirs.quiet (by simp [View.swap, hp])).invite hinv
  | live c' b => exact absurd (h.theirs.quiet (by simp [View.swap, hp])).invite hinv

theorem Inv.answered (h : Inv R v) (hl : v.toMe = (.accept, tag₀) :: rest) :
    ∃ c, v.me = .out c ∧ tag₀ = v.myTag ∧ v.toPeer = [] ∧ NoAccept rest ∧ ¬ Asked v.peer ∧
      InGame v.myTag rest ∧ ∀ c' b, v.peer = .live c' b →
        v.peerTag = v.myTag ∧ c' = (!c) ∧ Ahead R R.start rest c' b := by
  have hacc : ¬ NoAccept v.toMe := by simp [hl, Msg.isAccept]
  cases hme : v.me with
  | out c =>
    cases h.mine.offer c hme with
    | sent _ _ _ ha => exact absurd ha hacc
    | shown _ _ _ ha => exact absurd ha hacc
    | lost _ ha => exact absurd ha hacc
    | taken old new hnil hm ho ha hp hg hb =>
      rw [hl] at hm
      cases old with
      | nil =>
        simp only [List.nil_append, List.cons.injEq, Prod.mk.injEq, true_and] at hm
        obtain ⟨rfl, rfl⟩ := hm
        exact ⟨c, rfl, rfl, hnil, ha, hp, hg, hb⟩
      | cons p old =>
        simp only [List.cons_append, List.cons.injEq] at hm
        simp [← hm.1, Msg.isAccept] at ho
  | empty => exact absurd (h.mine.quiet (by simp [hme])).accept hacc
  | asked c => exact absurd (h.mine.quiet (by simp [hme])).accept hacc
  | live c b => exact absurd (h.mine.quiet (by simp [hme])).accept hacc

theorem Half.heard (h : Half R v.swap) (hl : v.toMe = p :: rest) (hp : p.1.isInvite = false)
    (hs : ¬ Asked s) : Half R { v with me := s, toMe := rest }.swap := by
  have hne : v.toMe ≠ [] := by simp [hl]
  refine ⟨?_, ?_, h.tags⟩
  · intro c hc
    cases h.offer c hc with
    | sent l hsent hn ha _ =>
      have hsent : v.toMe = _ := hsent
      rw [hl] at hsent
      cases l with
      | nil =>
        simp only [List.nil_append, List.cons.injEq] at hsent
        simp [hsent.1, Msg.isInvite] at hp
      | cons q l =>
        simp only [List.cons_append, List.cons.injEq] at hsent
        exact .sent l hsent.2 (noInvite_cons.mp hn).2 ha hs
    | shown hnil => exact absurd hnil hne
    | taken _ _ hnil => exact absurd hnil hne
    | lost hnil => exact absurd hnil hne
  · intro hc
    obtain ⟨hi, -, ha⟩ := h.quiet hc
    have hi : NoInvite v.toMe := hi
    rw [hl] at hi
    exact ⟨(noInvite_cons.mp hi).2, hs, ha⟩

def joined : Seat β → Msg μ → ℕ → ℕ → ℕ
  | .empty, .invite _, tag₀, _ => tag₀
  | _, _, _, tag => tag

theorem receive_invite (hs : s ≠ .empty) : receive R s (.invite c) = s := by
  cases s with
  | empty => exact absurd rfl hs
  | out c' => rfl
  | asked c' => rfl
  | live c' b => rfl

theorem joined_of_ne (hs : s ≠ .empty) (m : Msg μ) : joined s m tag₀ tag = tag := by
  cases s with
  | empty => exact absurd rfl hs
  | out c' => rfl
  | asked c' => rfl
  | live c' b => rfl

theorem joined_of_not_invite (s : Seat β) {m : Msg μ} (hm : m.isInvite = false) :
    joined s m tag₀ tag = tag := by
  cases m with
  | invite c => cases hm
  | accept => cases s <;> rfl
  | move m => cases s <;> rfl
  | resign => cases s <;> rfl

theorem Inv.recv_invite (h : Inv R v) (hl : v.toMe = (.invite c, tag₀) :: rest) :
    Inv R (v.recv R (.invite c) (joined v.me (.invite c : Msg μ) tag₀ v.myTag) rest) := by
  obtain ⟨hpeer, rfl, rfl, hasked, ha⟩ := h.invited hl
  have hnl : ∀ c' b, v.peer ≠ .live c' b := by simp [hpeer]
  unfold View.recv
  by_cases hme : v.me = .empty
  · obtain ⟨hi, hp, -⟩ := h.mine.quiet (by simp [hme])
    rw [hme]
    refine ⟨⟨?_, fun _ => ⟨hi, hp, by simp⟩, ?_⟩, ⟨?_, ?_, ?_⟩, ?_⟩
    · intro c' hc
      cases hc
    · intro c' b hc
      cases hc
    · intro c' hc
      obtain rfl : (!c) = c' := by simpa [View.swap, hpeer] using hc
      exact .shown rfl (by simp [View.swap, receive]) rfl ha
    · intro hc
      exact absurd hpeer (hc _)
    · intro c' b hc
      exact absurd hc (hnl c' b)
    · intro c' b c'' b' hc
      cases hc
  · -- who has a seat already pays no heed, and the invitation is lost
    rw [receive_invite hme, joined_of_ne hme]
    refine ⟨⟨?_, ?_, ?_⟩, ⟨?_, ?_, ?_⟩, ?_⟩
    · intro c' hc
      cases h.mine.offer c' hc with
      | sent l hl' hn _ hp => exact .sent l hl' hn (by simp) hp
      | shown _ hp => simp [hpeer] at hp
      | taken old new _ hm =>
        rw [hl] at hm
        cases old with
        | nil => simp at hm
        | cons p old => simp at hm
      | lost hl' _ hp => exact .lost hl' (by simp) hp
    · intro hc
      obtain ⟨hi, hp, -⟩ := h.mine.quiet hc
      exact ⟨hi, hp, by simp⟩
    · intro c' b _
      simp
    · intro c' _
      exact .lost rfl ha hasked
    · intro hc
      exact absurd hpeer (hc _)
    · intro c' b hc
      exact absurd hc (hnl c' b)
    · intro c' b c'' b' _ hc
      exact absurd hc (hnl c'' b')

theorem Half.hears (h : Half R v) (hl : v.toMe = p :: rest) (hp : p.1.isAccept = false)
    (hs : ∀ c, s = .out c → v.me = .out c) (hlive : ∀ c b, s = .live c b → ∃ b₀, v.me = .live c b₀)
    (hout : ∀ c, v.me = .out c → s = .out c) : Half R { v with me := s, toMe := rest } := by
  refine ⟨?_, ?_, ?_⟩
  · intro c hc
    cases h.offer c (hs c hc) with
    | sent l hl' hn ha hp =>
      rw [hl] at ha
      exact .sent l hl' hn (noAccept_cons.mp ha).2 hp
    | shown hl' hp ht ha =>
      rw [hl] at ha
      exact .shown hl' hp ht (noAccept_cons.mp ha).2
    | lost hl' ha hp =>
      rw [hl] at ha
      exact .lost hl' (noAccept_cons.mp ha).2 hp
    | taken old new hl' hm ho ha hp' hg hb =>
      rw [hl] at hm
      cases old with
      | nil =>
        simp only [List.nil_append, List.cons.injEq] at hm
        simp [hm.1, Msg.isAccept] at hp
      | cons q old =>
        simp only [List.cons_append, List.cons.injEq] at hm
        exact .taken old new hl' hm.2 (noAccept_cons.mp ho).2 ha hp' hg hb
  · intro hc
    obtain ⟨hi, hp, ha⟩ := h.quiet (fun c hme => hc c (hout c hme))
    rw [hl] at ha
    exact ⟨hi, hp, (noAccept_cons.mp ha).2⟩
  · intro c b hc
    obtain ⟨b₀, hme⟩ := hlive c b hc
    have ht := h.tags c b₀ hme
    rw [hl] at ht
    exact (inGame_cons.mp ht).2

theorem receive_inGame {m : Msg μ} (hm : m.inGame = true) (s : Seat β) :
    (∀ c, receive R s m = .out c ↔ s = .out c) ∧ (∀ c, receive R s m = .asked c ↔ s = .asked c) ∧
      ∀ c b, receive R s m = .live c b → ∃ b₀, s = .live c b₀ := by
  cases m with
  | invite c => cases hm
  | accept => cases hm
  | resign => cases s <;> simp [receive]
  | move m =>
    cases s with
    | live c b =>
      by_cases ht : R.turn b = c
      · simp [receive, ht]
      cases hp : R.play b m with
      | none => simp [receive, hp]
      | some b' => obtain he | he := settle_cases (R := R) c b' <;> simp [receive, ht, hp, he]
    | empty => simp [receive]
    | out c => simp [receive]
    | asked c => simp [receive]

theorem receive_move (ht : R.turn b = !c) (hp : R.play b m = some b') :
    receive R (.live c b) (.move m) = settle R c b' := by
  simp [receive, ht, hp]

theorem not_inGame {m : Msg μ} (hm : m.inGame = true) :
    m.isInvite = false ∧ m.isAccept = false := by
  cases m with
  | invite c => cases hm
  | accept => cases hm
  | move m => exact ⟨rfl, rfl⟩
  | resign => exact ⟨rfl, rfl⟩

theorem Inv.recv_inGame (h : Inv R v) {m : Msg μ} (hl : v.toMe = (m, tag₀) :: rest)
    (hm : m.inGame = true) : Inv R (v.recv R m v.myTag rest) := by
  obtain ⟨hinv, hacc⟩ := not_inGame hm
  obtain ⟨hout, hasked, hlive⟩ := receive_inGame (R := R) hm v.me
  have hna : ¬ Asked (receive R v.me m) := by
    intro hask
    cases hs : receive R v.me m with
    | asked c => simpa [hl] using (h.asker ((hasked c).mp hs)).2.1
    | empty => simp [hs] at hask
    | out c => simp [hs] at hask
    | live c b => simp [hs] at hask
  refine ⟨h.mine.hears hl hacc (fun c => (hout c).mp) hlive (fun c => (hout c).mpr),
    h.theirs.heard hl hinv hna, ?_⟩
  intro c b' c'' b'' hrecv hpeer
  obtain ⟨b, hme⟩ := hlive c b' hrecv
  obtain ⟨htag, rfl, ⟨hto, ha⟩ | ⟨hnil, -⟩⟩ := h.same c b c'' b'' hme hpeer
  · obtain ⟨hnil, -⟩ | ⟨m', tag', hmove, hturn, hplay⟩ := ha
    · simp [hl] at hnil
    · rw [hl] at hmove
      simp only [List.cons.injEq, Prod.mk.injEq] at hmove
      obtain ⟨⟨rfl, -⟩, rfl⟩ := hmove
      have hrecv : receive R v.me (.move m') = .live c b' := hrecv
      rw [hme, receive_move hturn hplay] at hrecv
      obtain he | he := settle_cases (R := R) c b'' <;> rw [he] at hrecv
      · cases hrecv
      · cases hrecv
        exact ⟨htag, rfl, .inl ⟨hto, by simp [View.recv]⟩⟩
  · simp [hl] at hnil

theorem Inv.recv_accept (h : Inv R v) (hl : v.toMe = (.accept, tag₀) :: rest) :
    Inv R (v.recv R .accept v.myTag rest) := by
  obtain ⟨c, hme, rfl, hto, hacc, hp, hg, hb⟩ := h.answered hl
  have hrecv : receive R v.me .accept = .live c R.start := by rw [hme]; rfl
  unfold View.recv
  rw [hrecv]
  refine ⟨⟨?_, ?_, ?_⟩, h.theirs.heard hl rfl (by simp), ?_⟩
  · intro c' hc
    cases hc
  · intro _
    exact ⟨by simp [hto], hp, hacc⟩
  · intro _ _ _
    exact hg
  · intro c' b c'' b' hc hpeer
    cases hc
    obtain ⟨htag, hc, ha⟩ := hb c'' b' hpeer
    exact ⟨htag.symm, hc, .inl ⟨hto, ha⟩⟩

theorem recv_inv (h : Inv R v) {m : Msg μ} (hl : v.toMe = (m, tag₀) :: rest) :
    Inv R (v.recv R m (joined v.me m tag₀ v.myTag) rest) := by
  cases m with
  | invite c => exact h.recv_invite hl
  | accept =>
    rw [joined_of_not_invite v.me rfl]
    exact h.recv_accept hl
  | move m =>
    rw [joined_of_not_invite v.me rfl]
    exact h.recv_inGame hl rfl
  | resign =>
    rw [joined_of_not_invite v.me rfl]
    exact h.recv_inGame hl rfl

theorem recv_tag (h : Inv R v) {m : Msg μ} (hl : v.toMe = (m, tag₀) :: rest)
    (hm : m.isInvite = false) (hc : receive R v.me m ≠ v.me) : tag₀ = v.myTag := by
  cases hg : m.inGame with
  | false =>
    cases m with
    | invite c => cases hm
    | accept =>
      obtain ⟨c, -, ht, -⟩ := h.answered hl
      exact ht
    | move m => cases hg
    | resign => cases hg
  | true =>
    cases hme : v.me with
    | live c b =>
      have ht := h.mine.tags c b hme
      rw [hl] at ht
      exact (inGame_cons.mp ht).1 hg
    | empty => cases m <;> simp [hme, receive, Msg.inGame] at hc hg
    | out c => cases m <;> simp [hme, receive, Msg.inGame] at hc hg
    | asked c => cases m <;> simp [hme, receive] at hc hg

theorem Inv.agree (h : Inv R v) (hme : v.me = .live c b) (hpeer : v.peer = .live c' b')
    (hto : v.toMe = []) (hfrom : v.toPeer = []) : v.myTag = v.peerTag ∧ c' = (!c) ∧ b' = b := by
  obtain ⟨ht, hc, ha⟩ := h.same c b c' b' hme hpeer
  rw [hto, hfrom] at ha
  simp only [ahead_nil, true_and] at ha
  exact ⟨ht, hc, ha.elim id Eq.symm⟩

theorem inv_empty (v : View β μ) (hm : v.me = .empty) (hp : v.peer = .empty) (ht : v.toMe = [])
    (hf : v.toPeer = []) : Inv R v := by
  refine ⟨⟨?_, ?_, ?_⟩, ⟨?_, ?_, ?_⟩, ?_⟩ <;> simp [View.swap, Same, hm, hp]
  · exact ⟨by simp [hf], by simp [hp], by simp [ht]⟩
  · exact ⟨by simp [ht], by simp, by simp [hf]⟩

end TurnGame
