import Mathlib.Data.List.FinRange
import Mathlib.Logic.Function.Basic
import Mathlib.Tactic.Common

/-!
Runs of a deterministic machine under a condition on its steps. The condition may look at the
state before the step, so it can speak of what a step is about to do.
-/

namespace Machine

variable {σ ο : Type*} {step : σ → ο → σ} {ok : σ → ο → Prop} {s₀ s : σ}

/-- The states reached from `s₀` by steps that meet the condition where they are taken. -/
inductive Reach (step : σ → ο → σ) (ok : σ → ο → Prop) (s₀ : σ) : σ → Prop
  | refl : Reach step ok s₀ s₀
  | step {s : σ} (op : ο) : Reach step ok s₀ s → ok s op → Reach step ok s₀ (step s op)

theorem Reach.invariant {P : σ → Prop} (h : Reach step ok s₀ s) (h₀ : P s₀)
    (hs : ∀ s op, P s → ok s op → P (step s op)) : P s := by
  induction h with
  | refl => exact h₀
  | step op _ ho ih => exact hs _ op ih ho

theorem Reach.mono {ok' : σ → ο → Prop} (h : Reach step ok s₀ s)
    (hok : ∀ s op, ok s op → ok' s op) : Reach step ok' s₀ s := by
  induction h with
  | refl => exact .refl
  | step op _ ho ih => exact ih.step op (hok _ op ho)

def Meets (step : σ → ο → σ) (ok : σ → ο → Prop) : σ → List ο → Prop
  | _, [] => True
  | s, op :: ops => ok s op ∧ Meets step ok (step s op) ops

instance Meets.decidable [∀ s op, Decidable (ok s op)] :
    (s : σ) → (ops : List ο) → Decidable (Meets step ok s ops)
  | _, [] => isTrue trivial
  | s, op :: ops =>
    haveI := Meets.decidable (step s op) ops
    inferInstanceAs (Decidable (ok s op ∧ Meets step ok (step s op) ops))

theorem Reach.run {ops : List ο} (h : Reach step ok s₀ s) (hm : Meets step ok s ops) :
    Reach step ok s₀ (ops.foldl step s) := by
  induction ops generalizing s with
  | nil => exact h
  | cons op ops ih => exact ih (h.step op hm.1) hm.2

theorem meets_prefix {ops ops' : List ο} (hm : Meets step ok s (ops ++ ops')) : Meets step ok s ops := by
  induction ops generalizing s with
  | nil => trivial
  | cons op ops ih => exact ⟨hm.1, ih hm.2⟩

theorem meets_append {P : σ → Prop} (hstep : ∀ s op, P s → ok s op → P (step s op)) {ops ops' : List ο}
    (hp : P s) (hm : Meets step ok s (ops ++ ops')) :
    P (ops.foldl step s) ∧ Meets step ok (ops.foldl step s) ops' := by
  induction ops generalizing s with
  | nil => exact ⟨hp, hm⟩
  | cons op ops ih => exact ih (hstep s op hp hm.1) hm.2

theorem forall_isPrefix_cons {P : List ο → Prop} {op : ο} {ops : List ο} :
    (∀ pre, pre <+: op :: ops → P pre) ↔ P [] ∧ ∀ pre, pre <+: ops → P (op :: pre) := by
  constructor
  · intro h
    exact ⟨h [] List.nil_prefix, fun pre hp => h _ ((List.prefix_cons_inj op).mpr hp)⟩
  · rintro ⟨hnil, hcons⟩ pre hp
    cases pre with
    | nil => exact hnil
    | cons a pre =>
      obtain ⟨rfl, hpre⟩ := List.cons_prefix_cons.mp hp
      exact hcons pre hpre

theorem forall_isPrefix_iff_meets {P J : σ → Prop} (hJ : ∀ s op, J s → J (step s op))
    (hs : ∀ s op, J s → P s → (P (step s op) ↔ ok s op)) (ops : List ο) (hj : J s) (hp : P s) :
    (∀ pre, pre <+: ops → P (pre.foldl step s)) ↔ Meets step ok s ops := by
  induction ops generalizing s with
  | nil =>
    refine iff_of_true ?_ trivial
    intro pre hpre
    rw [List.prefix_nil.mp hpre]
    exact hp
  | cons op ops ih =>
    rw [forall_isPrefix_cons, Meets, ← hs s op hj hp]
    constructor
    · rintro ⟨-, h⟩
      have hop : P (step s op) := h [] List.nil_prefix
      exact ⟨hop, (ih (hJ s op hj) hop).mp h⟩
    · rintro ⟨hop, h⟩
      exact ⟨hp, (ih (hJ s op hj) hop).mpr h⟩

section

variable {α : Type*} {n : ℕ}

def visit (body : Fin n → σ → α → σ × α) (p : σ × (Fin n → α)) (i : Fin n) : σ × (Fin n → α) :=
  ((body i p.1 (p.2 i)).1, Function.update p.2 i (body i p.1 (p.2 i)).2)

def forSlots (body : Fin n → σ → α → σ × α) (s : σ) (t : Fin n → α) : σ × (Fin n → α) :=
  (List.finRange n).foldl (visit body) (s, t)

variable {f : Fin n → σ → α → σ × α} {P : σ → Prop} {Q R : Fin n → α → Prop}

theorem foldl_slots (hbody : ∀ i s a, P s → Q i a → P (f i s a).1 ∧ R i (f i s a).2)
    (l : List (Fin n)) (hl : l.Nodup) (p : σ × (Fin n → α)) (hp : P p.1) (hq : ∀ i ∈ l, Q i (p.2 i)) :
    P (l.foldl (visit f) p).1 ∧ (∀ i ∈ l, R i ((l.foldl (visit f) p).2 i)) ∧
      ∀ i ∉ l, (l.foldl (visit f) p).2 i = p.2 i := by
  induction l generalizing p with
  | nil => exact ⟨hp, by simp, fun _ _ => rfl⟩
  | cons i l ih =>
    rw [List.nodup_cons] at hl
    obtain ⟨h1, h2⟩ := hbody i p.1 (p.2 i) hp (hq i (List.mem_cons_self ..))
    obtain ⟨r1, r2, r3⟩ := ih hl.2 (visit f p i) h1 fun j hj => by
      have hji : j ≠ i := fun h => hl.1 (h ▸ hj)
      simpa [visit, hji] using hq j (List.mem_cons_of_mem _ hj)
    refine ⟨r1, ?_, ?_⟩
    · intro j hj
      obtain rfl | hj := List.mem_cons.mp hj
      · rw [List.foldl_cons, r3 j hl.1]
        simpa [visit] using h2
      · exact r2 j hj
    · intro j hj
      rw [List.mem_cons, not_or] at hj
      rw [List.foldl_cons, r3 j hj.2]
      simp [visit, hj.1]

theorem forSlots_rule {s : σ} {t : Fin n → α}
    (hbody : ∀ i s a, P s → Q i a → P (f i s a).1 ∧ R i (f i s a).2) (hs : P s)
    (ht : ∀ i, Q i (t i)) : P (forSlots f s t).1 ∧ ∀ i, R i ((forSlots f s t).2 i) := by
  obtain ⟨h1, h2, -⟩ := foldl_slots hbody (List.finRange n) (List.nodup_finRange n) (s, t) hs
    fun i _ => ht i
  exact ⟨h1, fun i => h2 i (List.mem_finRange i)⟩

theorem foldl_visit_only {i : Fin n} (l : List (Fin n)) (hl : l.Nodup) (p : σ × (Fin n → α))
    (h : ∀ j ≠ i, ∀ s, f j s (p.2 j) = (s, p.2 j)) :
    l.foldl (visit f) p = if i ∈ l then visit f p i else p := by
  induction l generalizing p with
  | nil => rfl
  | cons j l ih =>
    rw [List.nodup_cons] at hl
    rw [List.foldl_cons]
    by_cases hj : j = i
    · subst hj
      have hrest : ∀ j' ≠ j, ∀ s, f j' s ((visit f p j).2 j') = (s, (visit f p j).2 j') := by
        intro j' hne
        simpa [visit, hne] using h j' hne
      rw [ih hl.2 _ hrest, if_neg hl.1, if_pos (List.mem_cons_self ..)]
    · have hsame : visit f p j = p := by
        rw [visit, h j hj, Function.update_eq_self]
      have hmem : i ∈ j :: l ↔ i ∈ l := by simp [Ne.symm hj]
      rw [hsame, ih hl.2 p h]
      simp only [hmem]

theorem forSlots_only {i : Fin n} {s : σ} {t : Fin n → α} (h : ∀ j ≠ i, ∀ s, f j s (t j) = (s, t j)) :
    forSlots f s t = visit f (s, t) i := by
  rw [forSlots, foldl_visit_only _ (List.nodup_finRange n) _ h, if_pos (List.mem_finRange i)]

theorem forSlots_self {s : σ} {t : Fin n → α} (h : ∀ j s, f j s (t j) = (s, t j)) : forSlots f s t = (s, t) := by
  refine List.foldl_fixed' ?_ (List.finRange n)
  intro j
  rw [visit, h, Function.update_eq_self]

theorem foldl_rule {β : Type*} {f : σ → β → σ} (hf : ∀ s b, P s → P (f s b)) (l : List β) {s : σ}
    (hs : P s) : P (l.foldl f s) := by
  induction l generalizing s with
  | nil => exact hs
  | cons b l ih => exact ih (hf s b hs)

end

end Machine
