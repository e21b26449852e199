import TkTox.RekeyLink

/-!
The invariant of one direction of the re-key protocol, and what a send and a delivery at
either end make of it. A KEM key is spent once a REKEY has been encapsulated to it.
-/

namespace TkTox

variable {C : Crypto} {s r s' r' : TTSession} {q q' : List Sent} {used : List KemPk} {m : Sent}

/-- The direction from `s` to `r`: `q` is in flight from `s`, `q'` from `r`, and `used` are the
KEM keys `s` has encapsulated a re-key to. -/
structure LinkInv (C : Crypto) (s r : TTSession) (q q' : List Sent) (used : List KemPk) : Prop where
  sync : InFlight C r.recv q s.send
  valid : ∀ m ∈ q, m.Valid C r.rekey
  target : ∀ m ∈ q, m.fold ≠ none → m.target = some r.rekey.kemPk ∧ r.rekey.kemPk ∈ used
  single : q.Pairwise fun a b => a.fold = none ∨ b.fold = none
  cached : s.rekey.peerHave = true → (∀ m ∈ q, m.fold = none) ∧
    s.rekey.peerKemPk = r.rekey.kemPk ∧ s.rekey.peerEphPk = r.rekey.ephPk
  published : ∀ m ∈ q', m.hdr.length = ttHdrDataKempub → pubKemPk m.hdr ∈ used ∨
    pubKemPk m.hdr = r.rekey.kemPk ∧ pubEphPk m.hdr = r.rekey.ephPk
  later : q'.Pairwise fun a b => a.hdr.length = ttHdrDataKempub → b.hdr.length = ttHdrDataRekey →
    pubKemPk a.hdr ∈ used ∨ dataEphPk b.hdr = pubEphPk a.hdr
  current : s.rekey.peerHave = true → ∀ m ∈ q', m.hdr.length = ttHdrDataRekey →
    dataEphPk m.hdr = r.rekey.ephPk

@[simp] theorem pubKemPk_kempubHdr (k : TTRekey) : pubKemPk (kempubHdr k) = k.kemPk := by
  rw [pubKemPk, kempubHdr, Blob.read_append]

@[simp] theorem pubEphPk_kempubHdr (k : TTRekey) : pubEphPk (kempubHdr k) = k.ephPk := by
  rw [pubEphPk, kempubHdr, List.drop_left' k.kemPk.bytes_length, Blob.read_bytes]

theorem dataKemCt_append (ct : KemCt) (pk : Key) : dataKemCt (ct.bytes ++ pk.bytes) = ct := by
  rw [dataKemCt, Blob.read_append]

theorem dataEphPk_append (ct : KemCt) (pk : Key) : dataEphPk (ct.bytes ++ pk.bytes) = pk := by
  rw [dataEphPk, List.drop_left' ct.bytes_length, Blob.read_bytes]

namespace LinkInv

theorem congr (h : LinkInv C s r q q' used) (hsend : s'.send = s.send)
    (hpeer : s'.rekey.peer = s.rekey.peer) (hrecv : r'.recv = r.recv)
    (hown : r'.rekey.own = r.rekey.own) : LinkInv C s' r' q q' used := by
  simp only [TTRekey.peer, TTRekey.own, Prod.mk.injEq] at hpeer hown
  obtain ⟨hp1, hp2, hp3⟩ := hpeer
  obtain ⟨ho1, ho2, ho3, ho4⟩ := hown
  constructor
  case sync => rw [hrecv, hsend]; exact h.sync
  case valid => intro m hm; rw [Sent.Valid, ho2, ho4]; exact h.valid m hm
  case target => rw [ho1]; exact h.target
  case single => exact h.single
  case cached => rw [hp1, hp2, hp3, ho1, ho3]; exact h.cached
  case published => rw [ho1, ho3]; exact h.published
  case later => exact h.later
  case current => rw [hp1, ho3]; exact h.current

theorem established (hsend : r.recv.core = s.send.core) (hpeer : s.rekey.peerHave = false) :
    LinkInv C s r [] [] [] where
  sync := hsend
  valid := by simp
  target := by simp
  single := .nil
  cached hp := by rw [hpeer] at hp; cases hp
  published := by simp
  later := .nil
  current := by simp

theorem snoc_plain (h : LinkInv C s r q q' used) (hm : m.On C s.send) (ha : m.after = s'.send)
    (hf : m.fold = none) (hpeer : s'.rekey.peer = s.rekey.peer) :
    LinkInv C s' r (q ++ [m]) q' used := by
  have hmem {P : Sent → Prop} (hq : ∀ n ∈ q, P n) (hP : P m) : ∀ n ∈ q ++ [m], P n := by
    intro n hn
    rcases List.mem_append.mp hn with hn | hn
    · exact hq n hn
    · rw [List.mem_singleton.mp hn]
      exact hP
  simp only [TTRekey.peer, Prod.mk.injEq] at hpeer
  obtain ⟨hp1, hp2, hp3⟩ := hpeer
  constructor
  case sync => rw [← ha]; exact h.sync.snoc hm
  case valid => exact hmem h.valid (fun dh kem hk => by rw [hf] at hk; cases hk)
  case target => exact hmem h.target (fun hn => absurd hf hn)
  case single =>
    refine List.pairwise_append.mpr ⟨h.single, List.pairwise_singleton _ _, fun a _ b hb => ?_⟩
    rw [List.mem_singleton.mp hb]
    exact Or.inr hf
  case cached =>
    intro hp
    rw [hp1] at hp
    obtain ⟨hn, hk, he⟩ := h.cached hp
    exact ⟨hmem hn hf, by rw [hp2, hk], by rw [hp3, he]⟩
  case published => exact h.published
  case later => exact h.later
  case current => rw [hp1]; exact h.current

theorem snoc_rekey (h : LinkInv C s r q q' used) (hD : C.DhCommutes) (hK : C.KemCorrect)
    (hks : RekeyKeys C s) (hkr : RekeyKeys C r) (hm : m.On C s.send) (ha : m.after = s'.send)
    {seed : Bytes} {dh : Key} (hcached : s.rekey.peerHave = true)
    (hshared : ttDhShared C s.rekey.ephSk s.rekey.peerEphPk = some dh)
    (hhdr : m.hdr = (ttKemEnc C seed s.rekey.peerKemPk).1.bytes ++ s.rekey.ephPk.bytes)
    (hfold : m.fold = some (dh, (ttKemEnc C seed s.rekey.peerKemPk).2))
    (htarget : m.target = some s.rekey.peerKemPk) (hspent : s'.rekey.peerHave = false) :
    LinkInv C s' r (q ++ [m]) q' (s.rekey.peerKemPk :: used) := by
  obtain ⟨hnone, hkem, heph⟩ := h.cached hcached
  rw [hkem] at hhdr hfold htarget ⊢
  have hvalid : m.Valid C r.rekey := by
    intro dh' kem' hf
    rw [hfold] at hf
    cases hf
    rw [hhdr, dataEphPk_append, dataKemCt_append]
    constructor
    · obtain ⟨z, hz1, hz2⟩ := hD s.rekey.ephSk r.rekey.ephSk
      rw [heph, hkr.eph, ttDhShared, hz1] at hshared
      cases hshared
      rw [hks.eph]
      exact hz2
    · obtain ⟨seed', hseed⟩ := hkr.kem
      have hk := hK seed' seed
      rw [ttKemKeygen] at hseed
      rw [hseed] at hk
      exact hk
  constructor
  case sync => rw [← ha]; exact h.sync.snoc hm
  case valid =>
    intro n hn
    rcases List.mem_append.mp hn with hn | hn
    · exact h.valid n hn
    · rw [List.mem_singleton.mp hn]
      exact hvalid
  case target =>
    intro n hn hf
    rcases List.mem_append.mp hn with hn | hn
    · exact absurd (hnone n hn) hf
    · rw [List.mem_singleton.mp hn]
      exact ⟨htarget, List.mem_cons_self⟩
  case single =>
    refine List.pairwise_append.mpr ⟨h.single, List.pairwise_singleton _ _, fun a ha b _ => ?_⟩
    exact Or.inl (hnone a ha)
  case cached => intro hp; rw [hspent] at hp; cases hp
  case published =>
    intro n hn hl
    rcases h.published n hn hl with hu | hu
    · exact Or.inl (List.mem_cons_of_mem _ hu)
    · exact Or.inr hu
  case later =>
    refine h.later.imp fun hab ha hb => ?_
    rcases hab ha hb with hu | hu
    · exact Or.inl (List.mem_cons_of_mem _ hu)
    · exact Or.inr hu
  case current => intro hp; rw [hspent] at hp; cases hp

theorem send (h : LinkInv C s r q q' used) (hD : C.DhCommutes) (hK : C.KemCorrect)
    (hks : RekeyKeys C s) (hkr : RekeyKeys C r) (hm : SendSpec C s s' m) :
    LinkInv C s' r (q ++ [m]) q' (m.target.toList ++ used) := by
  rcases hm.kind with ⟨-, hf, ht, hp⟩ | ⟨-, hf, ht, hp⟩ | ⟨seed, dh, hc, hs, hh, hf, ht, hsp⟩
  · rw [ht]
    exact h.snoc_plain hm.on hm.after hf hp
  · rw [ht]
    exact h.snoc_plain hm.on hm.after hf hp
  · rw [ht]
    exact h.snoc_rekey hD hK hks hkr hm.on hm.after hc hs hh hf ht hsp

theorem send_back (h : LinkInv C s r q q' used) (hm : SendSpec C r r' m) :
    LinkInv C s r' q (q' ++ [m]) used := by
  refine LinkInv.congr (s := s) (r := r) ?_ rfl rfl hm.recv hm.own
  have hpub : m.hdr.length = ttHdrDataKempub →
      pubKemPk m.hdr = r.rekey.kemPk ∧ pubEphPk m.hdr = r.rekey.ephPk := by
    intro hl
    rcases hm.kind with ⟨hh, -⟩ | ⟨hh, -⟩ | ⟨seed, dh, -, -, hh, -⟩
    · rw [hh] at hl
      cases hl
    · rw [hh]
      exact ⟨pubKemPk_kempubHdr _, pubEphPk_kempubHdr _⟩
    · rw [hh, List.length_append, Blob.bytes_length, Blob.bytes_length] at hl
      cases hl
  have heph : m.hdr.length = ttHdrDataRekey → dataEphPk m.hdr = r.rekey.ephPk := by
    intro hl
    rcases hm.kind with ⟨hh, -⟩ | ⟨hh, -⟩ | ⟨seed, dh, -, -, hh, -⟩
    · rw [hh] at hl
      cases hl
    · rw [hh, kempubHdr_length] at hl
      cases hl
    · rw [hh, dataEphPk_append]
  constructor
  case sync => exact h.sync
  case valid => exact h.valid
  case target => exact h.target
  case single => exact h.single
  case cached => exact h.cached
  case published =>
    intro n hn hl
    rcases List.mem_append.mp hn with hn | hn
    · exact h.published n hn hl
    · rw [List.mem_singleton.mp hn] at hl ⊢
      exact Or.inr (hpub hl)
  case later =>
    refine List.pairwise_append.mpr ⟨h.later, List.pairwise_singleton _ _, ?_⟩
    intro a ha b hb hla hlb
    rw [List.mem_singleton.mp hb] at hlb ⊢
    rcases h.published a ha hla with hu | ⟨-, hu⟩
    · exact Or.inl hu
    · exact Or.inr (by rw [heph hlb, hu])
  case current =>
    intro hp n hn hl
    rcases List.mem_append.mp hn with hn | hn
    · exact h.current hp n hn hl
    · rw [List.mem_singleton.mp hn] at hl ⊢
      exact heph hl

theorem deliver (h : LinkInv C s r (m :: q) q' used) (hm : DeliverSpec C r r' m) :
    LinkInv C s r' q q' used := by
  have hsync : InFlight C r'.recv q s.send := h.sync.2.congr hm.core.symm
  have hplain (hown : r'.rekey.own = r.rekey.own) : LinkInv C s r' q q' used := by
    have hr : LinkInv C s { r' with recv := r'.recv, rekey := r.rekey } q q' used := by
      constructor
      case sync => exact hsync
      case valid => exact fun n hn => h.valid n (List.mem_cons_of_mem _ hn)
      case target => exact fun n hn => h.target n (List.mem_cons_of_mem _ hn)
      case single => exact h.single.of_cons
      case cached =>
        intro hp
        obtain ⟨hn, hk⟩ := h.cached hp
        exact ⟨fun n hq => hn n (List.mem_cons_of_mem _ hq), hk⟩
      case published => exact h.published
      case later => exact h.later
      case current => exact h.current
    exact hr.congr rfl rfl rfl hown
  rcases hm.kind with ⟨-, ho, -⟩ | ⟨-, ho, -⟩ | ⟨hl, -⟩
  · exact hplain ho
  · exact hplain ho
  obtain ⟨dh, kem, hfold⟩ := h.sync.1.fold_some hl
  have hsome : m.fold ≠ none := by rw [hfold]; exact Option.some_ne_none _
  have hspent := (h.target m List.mem_cons_self hsome).2
  have hq : ∀ n ∈ q, n.fold = none := by
    intro n hn
    rcases List.rel_of_pairwise_cons h.single hn with hc | hc
    · exact absurd hc hsome
    · exact hc
  have hnot : ¬ s.rekey.peerHave = true := fun hp =>
    hsome ((h.cached hp).1 m List.mem_cons_self)
  constructor
  case sync => exact hsync
  case valid => intro n hn dh kem hf; rw [hq n hn] at hf; cases hf
  case target => exact fun n hn hf => absurd (hq n hn) hf
  case single => exact h.single.of_cons
  case cached => exact fun hp => absurd hp hnot
  case published =>
    intro n hn hln
    rcases h.published n hn hln with hu | ⟨hu, -⟩
    · exact Or.inl hu
    · exact Or.inl (hu ▸ hspent)
  case later => exact h.later
  case current => exact fun hp => absurd hp hnot

theorem deliver_back (h : LinkInv C s r q (m :: q') used) (hm : DeliverSpec C s s' m)
    (hfresh : m.hdr.length = ttHdrDataKempub → pubKemPk m.hdr ∉ used) :
    LinkInv C s' r q q' used := by
  have hrest (hpeer : s'.rekey.peer = s.rekey.peer) : LinkInv C s' r q q' used := by
    have hs : LinkInv C s r q q' used := by
      constructor
      case sync => exact h.sync
      case valid => exact h.valid
      case target => exact h.target
      case single => exact h.single
      case cached => exact h.cached
      case published => exact fun n hn => h.published n (List.mem_cons_of_mem _ hn)
      case later => exact h.later.of_cons
      case current => exact fun hp n hn => h.current hp n (List.mem_cons_of_mem _ hn)
    exact hs.congr hm.send hpeer rfl rfl
  have hset (hc : s'.rekey.peerHave = true → (∀ n ∈ q, n.fold = none) ∧
        s'.rekey.peerKemPk = r.rekey.kemPk ∧ s'.rekey.peerEphPk = r.rekey.ephPk)
      (hcur : s'.rekey.peerHave = true → ∀ n ∈ q', n.hdr.length = ttHdrDataRekey →
        dataEphPk n.hdr = r.rekey.ephPk) : LinkInv C s' r q q' used := by
    constructor
    case sync => rw [hm.send]; exact h.sync
    case valid => exact h.valid
    case target => exact h.target
    case single => exact h.single
    case cached => exact hc
    case published => exact fun n hn => h.published n (List.mem_cons_of_mem _ hn)
    case later => exact h.later.of_cons
    case current => exact hcur
  rcases hm.kind with ⟨-, -, hp⟩ | ⟨hl, -, hp | hp⟩ | ⟨hl, hp⟩
  · exact hrest hp
  · exact hrest hp
  · simp only [TTRekey.peer, Prod.mk.injEq] at hp
    obtain ⟨-, hp2, hp3⟩ := hp
    have hnew := hfresh hl
    obtain ⟨hk, he⟩ := (h.published m List.mem_cons_self hl).resolve_left hnew
    refine hset (fun _ => ⟨fun n hn => ?_, by rw [hp2, hk], by rw [hp3, he]⟩)
      (fun _ n hn hln => ?_)
    · by_contra hf
      exact hnew (hk ▸ (h.target n hn hf).2)
    · have hl' := List.rel_of_pairwise_cons h.later hn hl hln
      rw [hl'.resolve_left hnew, he]
  · simp only [TTRekey.peer, Prod.mk.injEq] at hp
    obtain ⟨hp1, hp2, hp3⟩ := hp
    refine hset (fun hh => ?_) (fun hh n hn => ?_)
    · rw [hp1] at hh
      obtain ⟨hn, hk, -⟩ := h.cached hh
      exact ⟨hn, by rw [hp2, hk], by rw [hp3, h.current hh m List.mem_cons_self hl]⟩
    · rw [hp1] at hh
      exact h.current hh n (List.mem_cons_of_mem _ hn)

end LinkInv

end TkTox
