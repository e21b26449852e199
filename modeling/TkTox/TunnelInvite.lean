import TkTox.PortList
import TkTox.Scan

/-!
The signalling packets of `tunnel.c`: the invite a host builds, and what a client does with one.
-/

namespace TkTox

@[simp] abbrev ttTunnelSigVersion : UInt8 := 1
@[simp] abbrev ttTunSigInvite : UInt8 := 1
@[simp] abbrev ttTunSigAccept : UInt8 := 2
@[simp] abbrev ttTunSigDecline : UInt8 := 3

@[simp] abbrev sigPayloadMax : ℕ := 270

def rangeBytes (r : TTPortRange) : Bytes := u16be r.start ++ u16be r.count

def rangesBytes (l : TTPortRangeList) : Bytes := u16be l.length ++ l.flatMap rangeBytes

def invitePayload (tn : TTTunnel) : Bytes :=
  (cString tn.serverHost).take 200 ++ 0 :: (rangesBytes tn.udp ++ rangesBytes tn.tcp)

def sigSend (opcode : UInt8) (payload : Bytes) : Option Bytes :=
  if payload.length > sigPayloadMax then none
  else some (ttTunnelSigPacketId :: ttTunnelSigVersion :: opcode :: payload)

def sigInvite (tn : TTTunnel) : Option Bytes := sigSend ttTunSigInvite (invitePayload tn)

section

open Scan

variable {F : Type}

def strnlen (p : Bytes) (n : ℕ) : ℕ := ((p.take n).takeWhile (· ≠ 0)).length

-- the terminator has to come before the last two bytes
def hostScan : Scan F Bytes := fun p =>
  let hl := strnlen p (p.length - 2)
  ([], if hl = p.length - 2 then .fail else .ok (p.take hl) (p.drop (hl + 1)))

def rangeScan : ℕ → Scan F TTPortRangeList
  | 0 => pure []
  | n + 1 => do
    need 4
    let b ← take 4
    let l ← rangeScan n
    pure (⟨readU16 b, readU16 (b.drop 2)⟩ :: l)

def listScan : Scan F TTPortRangeList := do
  let b ← take 2
  rangeScan (min (readU16 b) ttTunnelMaxRanges)

def inviteScan : Scan F (Bytes × TTPortRangeList × TTPortRangeList) := do
  need 3
  let host ← hostScan
  let udp ← listScan
  need 2
  let tcp ← listScan
  pure (host.take 255, udp, tcp)

end

inductive TunnelEvent
  | invite (fn : ℕ) (str : Bytes)
  | state (fn id ival : ℕ)

structure TunnelThread where
  tunnels : Fin ttTunnelMaxTunnels → Option TTTunnel
  tunnelSeq : ℕ
  out : List TunnelEvent

namespace TunnelThread

variable (t : TunnelThread)

def byPeer (fn : ℕ) (host : Bool) : Option (Fin ttTunnelMaxTunnels) :=
  (List.finRange ttTunnelMaxTunnels).find? fun i => (t.tunnels i).any fun tn => tn.host = host ∧ tn.peerFn = fn

def freeSlot : Option (Fin ttTunnelMaxTunnels) :=
  (List.finRange ttTunnelMaxTunnels).find? fun i => (t.tunnels i).isNone

def nextId : ℕ := (t.tunnelSeq + 1) % 2 ^ 32

end TunnelThread

def invitedTunnel (id fn : ℕ) (host : Bytes) (udp tcp : TTPortRangeList) : TTTunnel :=
  tunnelAlloc id
    { host := false, pending := true, pendingSince := 0, peerFn := fn, peerPk := Blob.zero 32
      serverHost := host, udp := udp, tcp := tcp, invited := none, listenSock := fun _ => none
      tcpListenSock := fun _ => none, udpLocal := [], tcpLocal := [] }

def inviteText (host : Bytes) (udp tcp : TTPortRangeList) : Bytes :=
  host ++ 10 :: ((ttPortListToStr udp 256).1 ++ 10 :: (ttPortListToStr tcp 256).1)

def invited (t : TunnelThread) (fn : ℕ) (host : Bytes) (udp tcp : TTPortRangeList) : TunnelThread :=
  match t.byPeer fn false, t.freeSlot with
  | none, some k =>
    { tunnels := Function.update t.tunnels k (some (invitedTunnel t.nextId fn host udp tcp))
      tunnelSeq := if t.nextId = 0 then 1 else t.nextId
      out := t.out ++ [.invite fn (inviteText host udp tcp)] }
  | _, _ => t

def sigAcceptRx (t : TunnelThread) (fn : ℕ) (payload : Bytes) : TunnelThread :=
  if payload.length < 8 then t
  else
    match t.byPeer fn true with
    | none => t
    | some k =>
      match t.tunnels k with
      | none => t
      | some tn =>
        if tn.pending = false then t
        else
          { t with
            tunnels := Function.update t.tunnels k (some { tn with pending := false })
            out := t.out ++ [.state fn tn.id 1] }

def sigDeclineRx (t : TunnelThread) (fn : ℕ) : TunnelThread :=
  match t.byPeer fn true with
  | none => t
  | some k =>
    match t.tunnels k with
    | none => t
    | some tn =>
      if tn.pending = false then t
      else { t with tunnels := Function.update t.tunnels k none, out := t.out ++ [.state fn tn.id 2] }

def sigInviteRx (t : TunnelThread) (fn : ℕ) (payload : Bytes) : Option TunnelThread :=
  match (inviteScan (F := Empty) payload).2 with
  | .fault => none
  | .fail => some t
  | .ok (host, udp, tcp) _ => some (invited t fn host udp tcp)

/-- There is no result if bytes past the packet are read. -/
def tunnelSigRx (t : TunnelThread) (fn : ℕ) (data : Bytes) : Option TunnelThread :=
  match data with
  | id :: version :: opcode :: payload =>
    if id ≠ ttTunnelSigPacketId ∨ version ≠ ttTunnelSigVersion then some t
    else if opcode = ttTunSigInvite then sigInviteRx t fn payload
    else if opcode = ttTunSigAccept then some (sigAcceptRx t fn payload)
    else if opcode = ttTunSigDecline then some (sigDeclineRx t fn)
    else some t
  | _ => some t

section

open Scan

variable {F : Type} {p : Bytes} {n : ℕ}

theorem rangeScan_safe (n : ℕ) : Safe 0 (rangeScan n : Scan F TTPortRangeList) := by
  induction n with
  | zero => exact safe_pure _
  | succ n ih =>
    apply safe_need
    apply (takes_take 4).safe_bind le_rfl
    intro b
    exact ih.bind fun l => safe_pure _

theorem listScan_safe : Safe 2 (listScan : Scan F TTPortRangeList) :=
  (takes_take 2).safe_bind le_rfl fun _ => rangeScan_safe _

theorem strnlen_le (p : Bytes) (n : ℕ) : strnlen p n ≤ n :=
  (List.takeWhile_sublist _).length_le.trans (List.length_take_le _ _)

theorem hostScan_safe_bind {β : Type} {g : Bytes → Scan F β} (hg : ∀ host, Safe 2 (g host)) :
    Safe n (hostScan >>= g) := by
  intro p _
  have hle := strnlen_le p (p.length - 2)
  rw [bind_eq, hostScan]
  by_cases he : strnlen p (p.length - 2) = p.length - 2
  · rw [if_pos he]
    simp
  · rw [if_neg he]
    apply hg
    rw [List.length_drop]
    omega

theorem inviteScan_safe (p : Bytes) :
    (inviteScan p : List (F × Bytes) × Ended (Bytes × TTPortRangeList × TTPortRangeList)).2 ≠ .fault := by
  have hsafe : Safe 0 (inviteScan : Scan F (Bytes × TTPortRangeList × TTPortRangeList)) := by
    apply safe_need
    apply hostScan_safe_bind
    intro host
    apply listScan_safe.bind
    intro udp
    apply safe_need
    apply listScan_safe.bind
    intro tcp
    exact safe_pure _
  exact hsafe p (Nat.zero_le _)

theorem need_ok {n : ℕ} (h : n ≤ p.length) : (need n : Scan F Unit) p = ([], .ok () p) := by
  rw [need, if_neg (not_lt.mpr h)]

theorem take_ok {n : ℕ} (h : n ≤ p.length) : (take n : Scan F Bytes) p = ([], .ok (p.take n) (p.drop n)) := by
  rw [take, if_neg (not_lt.mpr h)]

def TTPortRange.Fits (r : TTPortRange) : Prop := r.start < 2 ^ 16 ∧ r.count < 2 ^ 16

theorem rangeScan_rangeBytes {l : TTPortRangeList} (h : ∀ r ∈ l, r.Fits) (rest : Bytes) :
    (rangeScan l.length : Scan F TTPortRangeList) (l.flatMap rangeBytes ++ rest) = ([], .ok l rest) := by
  induction l with
  | nil => rfl
  | cons r l ih =>
    obtain ⟨hs, hc⟩ := h r (List.mem_cons_self ..)
    have hbytes : (r :: l).flatMap rangeBytes ++ rest =
        u16be r.start ++ (u16be r.count ++ (l.flatMap rangeBytes ++ rest)) := by
      simp [rangeBytes]
    have hdrop : (u16be r.start ++ (u16be r.count ++ (l.flatMap rangeBytes ++ rest))).drop 4 =
        l.flatMap rangeBytes ++ rest := rfl
    have hstart : readU16 ((u16be r.start ++ (u16be r.count ++ (l.flatMap rangeBytes ++ rest))).take 4) =
        r.start := readU16_u16be hs (u16be r.count)
    have hcount : readU16 (((u16be r.start ++ (u16be r.count ++ (l.flatMap rangeBytes ++ rest))).take 4).drop 2)
        = r.count := readU16_u16be hc []
    have h4 : 4 ≤ (u16be r.start ++ (u16be r.count ++ (l.flatMap rangeBytes ++ rest))).length := by
      simp only [List.length_append, u16be_length]
      omega
    rw [hbytes, List.length_cons, rangeScan, bind_eq, need_ok h4]
    dsimp only
    rw [bind_eq, take_ok h4]
    dsimp only
    rw [hdrop, bind_eq, ih fun q hq => h q (List.mem_cons_of_mem _ hq)]
    dsimp only
    rw [hstart, hcount]
    rfl

theorem listScan_rangesBytes {l : TTPortRangeList} (hl : l.length ≤ ttTunnelMaxRanges)
    (h : ∀ r ∈ l, r.Fits) (rest : Bytes) :
    (listScan : Scan F TTPortRangeList) (rangesBytes l ++ rest) = ([], .ok l rest) := by
  have h2 : 2 ≤ (rangesBytes l ++ rest).length := by
    simp only [rangesBytes, List.length_append, u16be_length]
    omega
  have hcount : readU16 ((rangesBytes l ++ rest).take 2) = l.length :=
    readU16_u16be (by simp only [ttTunnelMaxRanges] at hl; omega) []
  have hdrop : (rangesBytes l ++ rest).drop 2 = l.flatMap rangeBytes ++ rest := rfl
  rw [listScan, bind_eq, take_ok h2]
  dsimp only
  rw [hcount, hdrop, Nat.min_eq_left hl, rangeScan_rangeBytes h]
  rfl

theorem strnlen_terminated {host : Bytes} (h0 : 0 ∉ host) {n : ℕ} (hn : host.length < n) (rest : Bytes) :
    strnlen (host ++ 0 :: rest) n = host.length := by
  have htake : (host ++ 0 :: rest).take n = host ++ 0 :: rest.take (n - host.length - 1) := by
    obtain ⟨k, hk⟩ := Nat.exists_eq_add_of_lt hn
    rw [hk, List.take_append, List.take_of_length_le (by omega)]
    congr 1
    rw [Nat.add_assoc, Nat.add_sub_cancel_left, List.take_succ_cons, Nat.add_sub_cancel]
  have hall : ∀ b ∈ host, decide (b ≠ 0) = true := by
    intro b hb
    rw [decide_eq_true_eq]
    rintro rfl
    exact h0 hb
  rw [strnlen, htake, List.takeWhile_append_of_pos hall, List.takeWhile_cons_of_neg (by simp), List.append_nil]

theorem inviteScan_payload {host : Bytes} {udp tcp : TTPortRangeList} (h0 : 0 ∉ host)
    (hhost : host.length ≤ 200) (hudp : udp.length ≤ ttTunnelMaxRanges) (htcp : tcp.length ≤ ttTunnelMaxRanges)
    (hfits : ∀ r ∈ udp ++ tcp, r.Fits) :
    (inviteScan : Scan F _) (host ++ 0 :: (rangesBytes udp ++ rangesBytes tcp)) =
      ([], .ok (host, udp, tcp) []) := by
  have hlen : (host ++ 0 :: (rangesBytes udp ++ rangesBytes tcp)).length ≥ host.length + 5 := by
    simp only [rangesBytes, List.length_append, List.length_cons, u16be_length]
    omega
  have hscan : (hostScan : Scan F Bytes) (host ++ 0 :: (rangesBytes udp ++ rangesBytes tcp)) =
      ([], .ok host (rangesBytes udp ++ rangesBytes tcp)) := by
    rw [hostScan, strnlen_terminated h0 (by omega), if_neg (by omega), List.take_left]
    congr 2
    rw [← List.drop_drop, List.drop_left]
    rfl
  have hfirst := listScan_rangesBytes (F := F) hudp (fun r hr => hfits r (List.mem_append_left _ hr))
    (rangesBytes tcp)
  have hsecond := listScan_rangesBytes (F := F) htcp (fun r hr => hfits r (List.mem_append_right _ hr)) []
  rw [List.append_nil] at hsecond
  have h2 : 2 ≤ (rangesBytes tcp).length := by
    simp only [rangesBytes, List.length_append, u16be_length]
    omega
  rw [inviteScan, bind_eq, need_ok (by omega)]
  dsimp only
  rw [bind_eq, hscan]
  dsimp only
  rw [bind_eq, hfirst]
  dsimp only
  rw [bind_eq, need_ok h2]
  dsimp only
  rw [bind_eq, hsecond]
  dsimp only
  rw [List.take_of_length_le (by omega)]
  rfl

end

theorem flatMap_rangeBytes_length (l : TTPortRangeList) : (l.flatMap rangeBytes).length = 4 * l.length := by
  induction l with
  | nil => rfl
  | cons r l ih =>
    rw [List.flatMap_cons, List.length_append, ih, List.length_cons]
    simp only [rangeBytes, List.length_append, u16be_length]
    omega

/-- What the fields of a tunnel hold: a C string and two lists of at most eight ranges. -/
structure Invitable (tn : TTTunnel) : Prop where
  text : 0 ∉ tn.serverHost
  host : tn.serverHost.length ≤ 200
  udp : tn.udp.length ≤ ttTunnelMaxRanges
  tcp : tn.tcp.length ≤ ttTunnelMaxRanges
  fits : ∀ r ∈ tn.udp ++ tn.tcp, r.Fits

theorem Invitable.payload {tn : TTTunnel} (h : Invitable tn) :
    invitePayload tn = tn.serverHost ++ 0 :: (rangesBytes tn.udp ++ rangesBytes tn.tcp) := by
  rw [invitePayload, cString_eq_self_iff.mpr h.text, List.take_of_length_le h.host]

theorem Invitable.payload_length {tn : TTTunnel} (h : Invitable tn) :
    (invitePayload tn).length ≤ sigPayloadMax := by
  rw [h.payload]
  obtain ⟨-, hhost, hudp, htcp, -⟩ := h
  simp only [rangesBytes, List.length_append, List.length_cons, u16be_length, flatMap_rangeBytes_length]
  simp only [ttTunnelMaxRanges, sigPayloadMax] at hudp htcp ⊢
  omega

theorem sigInviteRx_isSome (t : TunnelThread) (fn : ℕ) (payload : Bytes) :
    ∃ t', sigInviteRx t fn payload = some t' ∧ ((inviteScan (F := Empty) payload).2 = .fail → t' = t) := by
  have hsafe := inviteScan_safe (F := Empty) payload
  rw [sigInviteRx]
  cases hs : (inviteScan (F := Empty) payload).2 with
  | fault => exact absurd hs hsafe
  | fail => exact ⟨t, rfl, fun _ => rfl⟩
  | ok r rest =>
    refine ⟨_, rfl, ?_⟩
    rintro ⟨⟩

theorem tunnelSigRx_isSome (t : TunnelThread) (fn : ℕ) (data : Bytes) :
    ∃ t', tunnelSigRx t fn data = some t' := by
  rcases data with _ | ⟨id, _ | ⟨version, _ | ⟨opcode, payload⟩⟩⟩
  · exact ⟨t, rfl⟩
  · exact ⟨t, rfl⟩
  · exact ⟨t, rfl⟩
  · rw [tunnelSigRx]
    split_ifs
    · exact ⟨t, rfl⟩
    · obtain ⟨t', ht, -⟩ := sigInviteRx_isSome t fn payload
      exact ⟨t', ht⟩
    · exact ⟨_, rfl⟩
    · exact ⟨_, rfl⟩
    · exact ⟨t, rfl⟩

/-- An invite fits its buffers and is received as it was sent; no packet is read past its end, and a
payload that does not parse changes nothing. -/
theorem sigInvite_received :
    (∀ tn : TTTunnel, Invitable tn → (invitePayload tn).length ≤ sigPayloadMax ∧
      ∃ pkt, sigInvite tn = some pkt ∧ ∀ (t : TunnelThread) (fn : ℕ) (k : Fin ttTunnelMaxTunnels),
        t.byPeer fn false = none → t.freeSlot = some k → ∃ t', tunnelSigRx t fn pkt = some t' ∧
          t'.tunnels = Function.update t.tunnels k
            (some (invitedTunnel t.nextId fn tn.serverHost tn.udp tn.tcp)) ∧
          t'.out = t.out ++ [.invite fn (inviteText tn.serverHost tn.udp tn.tcp)]) ∧
    ∀ (t : TunnelThread) (fn : ℕ) (data : Bytes), ∃ t', tunnelSigRx t fn data = some t' ∧
      ∀ payload, data = ttTunnelSigPacketId :: ttTunnelSigVersion :: ttTunSigInvite :: payload →
        (inviteScan (F := Empty) payload).2 = .fail → t' = t := by
  constructor
  · intro tn h
    have hlen := h.payload_length
    refine ⟨hlen, _, if_neg (not_lt.mpr hlen), ?_⟩
    intro t fn k hpeer hslot
    have hscan := inviteScan_payload (F := Empty) h.text h.host h.udp h.tcp h.fits
    rw [← h.payload] at hscan
    refine ⟨invited t fn tn.serverHost tn.udp tn.tcp, ?_, ?_, ?_⟩
    · simp [tunnelSigRx, sigInviteRx, hscan]
    · rw [invited, hpeer, hslot]
    · rw [invited, hpeer, hslot]
  · intro t fn data
    obtain ⟨t', ht⟩ := tunnelSigRx_isSome t fn data
    refine ⟨t', ht, ?_⟩
    rintro payload rfl hfail
    obtain ⟨t'', ht', heq⟩ := sigInviteRx_isSome t fn payload
    have hrx : tunnelSigRx t fn (ttTunnelSigPacketId :: ttTunnelSigVersion :: ttTunSigInvite :: payload) =
        sigInviteRx t fn payload := by simp [tunnelSigRx]
    rw [hrx, ht'] at ht
    cases ht
    exact heq hfail

namespace Instance

def offeredTunnel : TTTunnel :=
  tunnelAlloc 1
    { host := true, pending := true, pendingSince := 0, peerFn := 3, peerPk := Blob.zero 32
      serverHost := [104, 111, 115, 116], udp := [⟨2300, 2⟩], tcp := [⟨80, 1⟩], invited := none
      listenSock := fun _ => none, tcpListenSock := fun _ => none, udpLocal := [], tcpLocal := [] }

def idleThread : TunnelThread := ⟨fun _ => none, 0, []⟩

theorem sigInvite_received_offered : ∃ pkt t', sigInvite offeredTunnel = some pkt ∧
    tunnelSigRx idleThread 7 pkt = some t' ∧
    t'.tunnels 0 = some (invitedTunnel 1 7 [104, 111, 115, 116] [⟨2300, 2⟩] [⟨80, 1⟩]) := by
  have hinv : Invitable offeredTunnel := by
    constructor
    · decide
    · decide
    · decide
    · decide
    · intro r hr
      simp only [offeredTunnel, tunnelAlloc, List.cons_append, List.nil_append, List.mem_cons,
        List.not_mem_nil, or_false] at hr
      obtain rfl | rfl := hr <;> exact ⟨by decide, by decide⟩
  obtain ⟨-, pkt, hpkt, hrx⟩ := sigInvite_received.1 offeredTunnel hinv
  obtain ⟨t', ht, htun, -⟩ := hrx idleThread 7 0 (by decide) (by decide)
  refine ⟨pkt, t', hpkt, ht, ?_⟩
  rw [htun]
  rfl

end Instance

end TkTox
