import Mathlib.Data.List.Basic
import Mathlib.Data.List.Nodup
import Mathlib.Logic.Function.Iterate
import Mathlib.Tactic.Common

/-!
One-time keys drawn from hash chains: where every holder of a chain stands, which key sealed what,
and why no place of a chain seals twice. `next` steps a chain, `mat` is the key of a chain value.
-/

namespace ChainLedger

structure Pos where
  chain : ℕ
  step : ℕ
deriving DecidableEq, Repr

def Pos.succ (p : Pos) : Pos := ⟨p.chain, p.step + 1⟩

structure Seal (M X : Type*) where
  pos : Pos
  key : M
  text : X
deriving DecidableEq

/-- The seeds of the chains started so far, and what was sealed. -/
structure Ledger (K M X : Type*) where
  seeds : List K
  seals : List (Seal M X)

inductive Event (K M X : Type*)
  | draw (key : M) (text : Option X)
  | seed (k : K)
deriving DecidableEq

variable {ι K M X : Type*}

namespace Ledger

def start (L : Ledger K M X) (k : K) : Ledger K M X := { L with seeds := L.seeds ++ [k] }

def record (L : Ledger K M X) (p : Pos) (key : M) : Option X → Ledger K M X
  | none => L
  | some text => { L with seals := L.seals ++ [⟨p, key, text⟩] }

def chainAt (next : K → K) (L : Ledger K M X) (p : Pos) : Option K :=
  L.seeds[p.chain]?.map next^[p.step]

def Past (L : Ledger K M X) (p : Pos) : Prop :=
  ∀ a ∈ L.seals, a.pos.chain = p.chain → a.pos.step < p.step

instance (L : Ledger K M X) (p : Pos) : Decidable (L.Past p) :=
  inferInstanceAs (Decidable (∀ a ∈ L.seals, a.pos.chain = p.chain → a.pos.step < p.step))

/-- The places that sealed have different keys. -/
def CollisionFree (next : K → K) (mat : K → M) (L : Ledger K M X) : Prop :=
  ∀ a ∈ L.seals, ∀ b ∈ L.seals, a.pos ≠ b.pos →
    (L.chainAt next a.pos).map mat ≠ (L.chainAt next b.pos).map mat

/-- No key sealed two different texts. -/
def KeysOnce (L : Ledger K M X) : Prop :=
  ∀ a ∈ L.seals, ∀ b ∈ L.seals, a.key = b.key → a.text = b.text

instance [DecidableEq M] (next : K → K) (mat : K → M) (L : Ledger K M X) :
    Decidable (L.CollisionFree next mat) :=
  inferInstanceAs (Decidable (∀ a ∈ L.seals, ∀ b ∈ L.seals, a.pos ≠ b.pos →
    (L.chainAt next a.pos).map mat ≠ (L.chainAt next b.pos).map mat))

instance [DecidableEq M] [DecidableEq X] (L : Ledger K M X) : Decidable L.KeysOnce :=
  inferInstanceAs (Decidable (∀ a ∈ L.seals, ∀ b ∈ L.seals, a.key = b.key → a.text = b.text))

end Ledger

def after (s : Pos × Ledger K M X) : Event K M X → Pos × Ledger K M X
  | .draw key text => (s.1.succ, s.2.record s.1 key text)
  | .seed k => (⟨s.2.seeds.length, 0⟩, s.2.start k)

def chainAfter (next : K → K) (k : K) : Event K M X → K
  | .draw _ _ => next k
  | .seed k' => k'

def Follows (next : K → K) (mat : K → M) : K → List (Event K M X) → Prop
  | _, [] => True
  | k, .draw key _ :: es => key = mat k ∧ Follows next mat (next k) es
  | _, .seed k' :: es => Follows next mat k' es

/-- `live` says where every holder of a chain stands. -/
structure LiveSound (next : K → K) (mat : K → M) (live : ι → Option Pos) (L : Ledger K M X) : Prop where
  started : ∀ c p, live c = some p → p.chain < L.seeds.length
  past : ∀ c p, live c = some p → L.Past p
  apart : ∀ c d p q, live c = some p → live d = some q → p.chain = q.chain → c = d
  keyed : ∀ a ∈ L.seals, (L.chainAt next a.pos).map mat = some a.key
  once : (L.seals.map Seal.pos).Nodup

variable {next : K → K} {mat : K → M} {live : ι → Option Pos} {L : Ledger K M X} {p : Pos} {k : K}

theorem Follows.append {es es' : List (Event K M X)} (h : Follows next mat k es)
    (h' : Follows next mat (es.foldl (chainAfter next) k) es') : Follows next mat k (es ++ es') := by
  induction es generalizing k with
  | nil => exact h'
  | cons e es ih =>
    cases e with
    | draw key text => exact ⟨h.1, ih h.2 h'⟩
    | seed k' =>
      have hk : Follows next mat k' (es ++ es') := ih h h'
      exact hk

theorem chainAt_succ (h : L.chainAt next p = some k) : L.chainAt next p.succ = some (next k) := by
  unfold Ledger.chainAt at h ⊢
  obtain ⟨s, hs, rfl⟩ := Option.map_eq_some_iff.mp h
  rw [Pos.succ, hs, Option.map_some, Function.iterate_succ_apply']

@[simp] theorem chainAt_record (p q : Pos) (key : M) (text : Option X) :
    (L.record p key text).chainAt next q = L.chainAt next q := by
  cases text <;> rfl

@[simp] theorem record_seeds (p : Pos) (key : M) (text : Option X) :
    (L.record p key text).seeds = L.seeds := by
  cases text <;> rfl

theorem chainAt_lt (h : L.chainAt next p = some k) : p.chain < L.seeds.length := by
  obtain ⟨s, hs, -⟩ := Option.map_eq_some_iff.mp h
  exact (List.getElem?_eq_some_iff.mp hs).1

theorem chainAt_start (h : p.chain < L.seeds.length) (k' : K) :
    (L.start k').chainAt next p = L.chainAt next p := by
  unfold Ledger.chainAt Ledger.start
  rw [List.getElem?_append_left h]

theorem chainAt_new (k' : K) : (L.start k').chainAt next ⟨L.seeds.length, 0⟩ = some k' := by
  simp [Ledger.chainAt, Ledger.start]

theorem chainAt_after (e : Event K M X) {q : Pos} (h : L.chainAt next q = some k) :
    (after (p, L) e).2.chainAt next q = some k := by
  cases e with
  | draw key text => exact (chainAt_record p q key text).trans h
  | seed k' => exact (chainAt_start (chainAt_lt h) k').trans h

theorem chainAt_foldl (es : List (Event K M X)) {q : Pos} (h : L.chainAt next q = some k) :
    (es.foldl after (p, L)).2.chainAt next q = some k := by
  induction es generalizing p L with
  | nil => exact h
  | cons e es ih =>
    rw [List.foldl_cons]
    exact ih (chainAt_after e h)

namespace LiveSound

theorem seal_started (h : LiveSound next mat live L) {a : Seal M X} (ha : a ∈ L.seals) :
    a.pos.chain < L.seeds.length := by
  obtain ⟨k, hk, -⟩ := Option.map_eq_some_iff.mp (h.keyed a ha)
  exact chainAt_lt hk

theorem moved {κ : Type*} (h : LiveSound next mat live L) {live' : κ → Option Pos}
    (hstarted : ∀ c p, live' c = some p → p.chain < L.seeds.length)
    (hpast : ∀ c p, live' c = some p → L.Past p)
    (hapart : ∀ c d p q, live' c = some p → live' d = some q → p.chain = q.chain → c = d) :
    LiveSound next mat live' L :=
  ⟨hstarted, hpast, hapart, h.keyed, h.once⟩

theorem restrict (h : LiveSound next mat live L) {live' : ι → Option Pos}
    (hs : ∀ c p, live' c = some p → live c = some p) : LiveSound next mat live' L :=
  h.moved (fun c p hc => h.started c p (hs c p hc)) (fun c p hc => h.past c p (hs c p hc))
    fun c d p q hc hd => h.apart c d p q (hs c p hc) (hs d q hd)

theorem keysOnce (h : LiveSound next mat live L) (hc : L.CollisionFree next mat) : L.KeysOnce := by
  intro a ha b hb hab
  have hpos : a.pos = b.pos := by
    by_contra hne
    apply hc a ha b hb hne
    rw [h.keyed a ha, h.keyed b hb, hab]
  rw [List.inj_on_of_nodup_map h.once ha hb hpos]

theorem mem_record {p : Pos} {key : M} {text : Option X} {a : Seal M X}
    (ha : a ∈ (L.record p key text).seals) : a ∈ L.seals ∨ a.pos = p ∧ a.key = key := by
  cases text with
  | none => exact Or.inl ha
  | some x =>
    obtain ha | ha := List.mem_append.mp ha
    · exact Or.inl ha
    · obtain rfl := List.mem_singleton.mp ha
      exact Or.inr ⟨rfl, rfl⟩

variable [DecidableEq ι] {c : ι}

theorem start (h : LiveSound next mat live L) (c : ι) (k' : K) :
    LiveSound next mat (Function.update live c (some ⟨L.seeds.length, 0⟩)) (L.start k') where
  started d q hd := by
    rw [Ledger.start, List.length_append]
    obtain rfl | hne := eq_or_ne d c
    · rw [Function.update_self] at hd
      cases hd
      simp
    · rw [Function.update_of_ne hne] at hd
      have := h.started d q hd
      omega
  past d q hd a ha hac := by
    obtain rfl | hne := eq_or_ne d c
    · rw [Function.update_self] at hd
      cases hd
      have := h.seal_started ha
      simp only at hac
      omega
    · rw [Function.update_of_ne hne] at hd
      exact h.past d q hd a ha hac
  apart d e q r hd he hqr := by
    obtain rfl | hdc := eq_or_ne d c
    · rw [Function.update_self] at hd
      cases hd
      obtain rfl | hec := eq_or_ne e d
      · rfl
      · rw [Function.update_of_ne hec] at he
        have := h.started e r he
        simp only at hqr
        omega
    · rw [Function.update_of_ne hdc] at hd
      obtain rfl | hec := eq_or_ne e c
      · rw [Function.update_self] at he
        cases he
        have := h.started d q hd
        simp only at hqr
        omega
      · rw [Function.update_of_ne hec] at he
        exact h.apart d e q r hd he hqr
  keyed a ha := by
    rw [chainAt_start (h.seal_started ha)]
    exact h.keyed a ha
  once := h.once

theorem draw (h : LiveSound next mat live L) (hc : live c = some p) (hk : L.chainAt next p = some k)
    (text : Option X) :
    LiveSound next mat (Function.update live c (some p.succ)) (L.record p (mat k) text) where
  started d q hd := by
    rw [record_seeds]
    obtain rfl | hne := eq_or_ne d c
    · rw [Function.update_self] at hd
      cases hd
      exact h.started d p hc
    · rw [Function.update_of_ne hne] at hd
      exact h.started d q hd
  past d q hd a ha hac := by
    obtain rfl | hne := eq_or_ne d c
    · rw [Function.update_self] at hd
      cases hd
      obtain ha | ⟨hp, -⟩ := mem_record ha
      · exact Nat.lt_succ_of_lt (h.past d p hc a ha hac)
      · rw [hp]
        exact Nat.lt_succ_self _
    · rw [Function.update_of_ne hne] at hd
      obtain ha | ⟨hp, -⟩ := mem_record ha
      · exact h.past d q hd a ha hac
      · rw [hp] at hac
        exact absurd (h.apart c d p q hc hd hac) hne.symm
  apart d e q r hd he hqr := by
    obtain ⟨q', hd', hq⟩ : ∃ q', live d = some q' ∧ q'.chain = q.chain := by
      obtain rfl | hne := eq_or_ne d c
      · rw [Function.update_self] at hd
        cases hd
        exact ⟨p, hc, rfl⟩
      · rw [Function.update_of_ne hne] at hd
        exact ⟨q, hd, rfl⟩
    obtain ⟨r', he', hr⟩ : ∃ r', live e = some r' ∧ r'.chain = r.chain := by
      obtain rfl | hne := eq_or_ne e c
      · rw [Function.update_self] at he
        cases he
        exact ⟨p, hc, rfl⟩
      · rw [Function.update_of_ne hne] at he
        exact ⟨r, he, rfl⟩
    exact h.apart d e q' r' hd' he' (by rw [hq, hr, hqr])
  keyed a ha := by
    rw [chainAt_record]
    obtain ha | ⟨hp, hkey⟩ := mem_record ha
    · exact h.keyed a ha
    · rw [hp, hk, hkey, Option.map_some]
  once := by
    cases text with
    | none => exact h.once
    | some x =>
      have hp : p ∉ L.seals.map Seal.pos := by
        intro hm
        obtain ⟨a, ha, rfl⟩ := List.mem_map.mp hm
        exact absurd (h.past c a.pos hc a ha rfl) (Nat.lt_irrefl _)
      simp only [Ledger.record, List.map_append, List.map_cons, List.map_nil]
      rw [List.nodup_append_comm, List.singleton_append, List.nodup_cons]
      exact ⟨hp, h.once⟩

theorem events (h : LiveSound next mat live L) (hc : live c = some p) (hk : L.chainAt next p = some k)
    {es : List (Event K M X)} (hes : Follows next mat k es) :
    LiveSound next mat (Function.update live c (some (es.foldl after (p, L)).1))
        (es.foldl after (p, L)).2 ∧
      (es.foldl after (p, L)).2.chainAt next (es.foldl after (p, L)).1 =
        some (es.foldl (chainAfter next) k) := by
  induction es generalizing live p L k with
  | nil =>
    refine ⟨?_, hk⟩
    rw [List.foldl_nil, ← hc, Function.update_eq_self]
    exact h
  | cons e es ih =>
    rw [List.foldl_cons, List.foldl_cons]
    cases e with
    | draw key text =>
      obtain ⟨rfl, hes⟩ := hes
      have hn : (L.record p (mat k) text).chainAt next p.succ = some (next k) := by
        rw [chainAt_record]
        exact chainAt_succ hk
      have := ih (h.draw hc hk text) (Function.update_self ..) hn hes
      rwa [Function.update_idem] at this
    | seed k' =>
      have := ih (h.start c k') (Function.update_self ..) (chainAt_new k') hes
      rwa [Function.update_idem] at this

end LiveSound

end ChainLedger
