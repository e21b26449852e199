import TkTox.HostTurns

/-!
The two commands on the allowlist of a host tunnel.
-/

namespace TkTox

def TTTunnel.Lists (tn : TTTunnel) (pk : Key) (fn : ℕ) : Prop :=
  ∃ k, (tn.allow k).used = true ∧ (tn.allow k).pk = pk ∧ (tn.allow k).fn = fn

section

variable {env : TunnelEnv} {tn : TTTunnel}

theorem Guarded.allow (hg : Guarded env tn) (pk : Key) : Guarded env (tunnelAllow env tn pk) := by
  rw [tunnelAllow]
  by_cases hh : tn.host = false
  · rw [if_pos hh]
    exact hg
  rw [if_neg hh]
  by_cases hpk : ∃ k : Fin ttTunnelAllowMax, (tn.allow k).used = true ∧ (tn.allow k).pk = pk
  · rw [if_pos hpk]
    exact hg
  rw [if_neg hpk]
  cases hf : (List.finRange ttTunnelAllowMax).find? fun k => (tn.allow k).used = false with
  | none => exact hg
  | some k =>
    have hfree : (tn.allow k).used = false := by
      have h := List.find?_some hf
      exact of_decide_eq_true h
    have hother {k' : Fin ttTunnelAllowMax} (hu : (tn.allow k').used = true) : k' ≠ k := by
      rintro rfl
      rw [hfree] at hu
      cases hu
    have hnew : (tn.setAllow k ⟨true, pk, (env.friendByPk pk).getD noFriend⟩).allow k =
        ⟨true, pk, (env.friendByPk pk).getD noFriend⟩ := by
      simp [TTTunnel.setAllow]
    have hold {k' : Fin ttTunnelAllowMax} (hk : k' ≠ k) :
        (tn.setAllow k ⟨true, pk, (env.friendByPk pk).getD noFriend⟩).allow k' = tn.allow k' := by
      simp [TTTunnel.setAllow, hk]
    have hallowed {fn : ℕ} (hA : tn.Allowed fn) :
        (tn.setAllow k ⟨true, pk, (env.friendByPk pk).getD noFriend⟩).Allowed fn := by
      obtain ⟨k', hu, hfn⟩ := hA
      refine ⟨k', ?_⟩
      rw [hold (hother hu)]
      exact ⟨hu, hfn⟩
    refine ⟨hg.host, fun j hj => ⟨hallowed (hg.socks j hj).1, (hg.socks j hj).2⟩,
      fun k' hk' => hallowed (hg.conns k' hk'), ?_, ?_⟩
    · intro k' hu hfn
      by_cases hk : k' = k
      · subst hk
        rw [hnew] at hfn ⊢
        cases hpk : env.friendByPk pk with
        | none =>
          rw [hpk] at hfn
          exact absurd rfl hfn
        | some fn => rfl
      · rw [hold hk] at hu hfn ⊢
        exact hg.known k' hu hfn
    · intro a b ha hb hab
      by_cases hak : a = k <;> by_cases hbk : b = k
      · rw [hak, hbk]
      · subst hak
        rw [hold hbk] at hb hab
        rw [hnew] at hab
        exact absurd ⟨b, hb, hab.symm⟩ hpk
      · subst hbk
        rw [hold hak] at ha hab
        rw [hnew] at hab
        exact absurd ⟨a, ha, hab⟩ hpk
      · rw [hold hak] at ha hab
        rw [hold hbk] at hb hab
        exact hg.distinct a b ha hb hab

theorem tunnelAllow_allowed {pk : Key} {fn : ℕ} (hA : (tunnelAllow env tn pk).Allowed fn) :
    tn.Allowed fn ∨ (env.friendByPk pk).getD noFriend = fn := by
  rw [tunnelAllow] at hA
  by_cases hh : tn.host = false
  · rw [if_pos hh] at hA
    exact .inl hA
  rw [if_neg hh] at hA
  by_cases hpk : ∃ k : Fin ttTunnelAllowMax, (tn.allow k).used = true ∧ (tn.allow k).pk = pk
  · rw [if_pos hpk] at hA
    exact .inl hA
  rw [if_neg hpk] at hA
  cases hf : (List.finRange ttTunnelAllowMax).find? fun k => (tn.allow k).used = false with
  | none =>
    rw [hf] at hA
    exact .inl hA
  | some k =>
    rw [hf] at hA
    obtain ⟨k', hu, hfn⟩ := hA
    by_cases hk : k' = k
    · subst hk
      simp only [TTTunnel.setAllow, Function.update_self] at hfn
      exact .inr hfn
    · simp only [TTTunnel.setAllow, Function.update_of_ne hk] at hu hfn
      exact .inl ⟨k', hu, hfn⟩

theorem tunnelDeny_cases (hh : tn.host = true) (pk : Key) :
    ((∀ k, (tn.allow k).used = true → (tn.allow k).pk ≠ pk) ∧ tunnelDeny tn pk = tn) ∨
    ∃ k, (tn.allow k).used = true ∧ (tn.allow k).pk = pk ∧
      (tunnelDeny tn pk).host = tn.host ∧ (tunnelDeny tn pk).conns = tn.conns ∧
      (tunnelDeny tn pk).allow = Function.update tn.allow k { tn.allow k with used := false } ∧
      (∀ j, j ≠ (tn.allow k).fn → (tunnelDeny tn pk).socks j = tn.socks j) ∧
      ((tn.allow k).fn < ttMaxFriends → ((tunnelDeny tn pk).socks (tn.allow k).fn).used = false) ∧
      (¬ (tn.allow k).fn < ttMaxFriends → (tunnelDeny tn pk).socks = tn.socks) := by
  have hh' : ¬ tn.host = false := by
    rw [hh]
    exact Bool.noConfusion
  rw [tunnelDeny, if_neg hh']
  cases hf : (List.finRange ttTunnelAllowMax).find? fun k => (tn.allow k).used = true ∧ (tn.allow k).pk = pk with
  | none =>
    refine .inl ⟨?_, rfl⟩
    intro k hu hpk
    have h := List.find?_eq_none.mp hf k (List.mem_finRange k)
    exact h (decide_eq_true ⟨hu, hpk⟩)
  | some k =>
    have hmatch : (tn.allow k).used = true ∧ (tn.allow k).pk = pk := by
      have h := List.find?_some hf
      exact of_decide_eq_true h
    refine .inr ⟨k, hmatch.1, hmatch.2, ?_⟩
    dsimp only
    by_cases hfn : (tn.allow k).fn < ttMaxFriends
    · have hne : (tn.allow k).fn ≠ noFriend := by
        intro he
        rw [he] at hfn
        exact absurd hfn (by decide)
      rw [if_pos ⟨hne, hfn⟩]
      refine ⟨rfl, rfl, rfl, ?_, ?_, fun h => absurd hfn h⟩
      · intro j hj
        simp [TTTunnel.setAllow, TTTunnel.setSock, hj]
      · intro _
        simp [TTTunnel.setAllow, TTTunnel.setSock]
    · rw [if_neg fun h => hfn h.2]
      exact ⟨rfl, rfl, rfl, fun _ _ => rfl, fun h => absurd h hfn, fun _ => rfl⟩

theorem Guarded.deny (hg : Guarded env tn) (pk : Key)
    (hok : ∀ fn, tn.Lists pk fn → (∀ j, (tn.socks j).used = true → (tn.socks j).fn = fn → j = fn) ∧
      ∀ k, (tn.conns k).used = true → (tn.conns k).fn ≠ fn) : Guarded env (tunnelDeny tn pk) := by
  obtain ⟨-, he⟩ | ⟨k, hu, hpk, hhost, hconns, hallow, hsocks, hclosed, hsame⟩ := tunnelDeny_cases hg.host pk
  · rw [he]
    exact hg
  obtain ⟨honly, hnoconn⟩ := hok (tn.allow k).fn ⟨k, hu, hpk, rfl⟩
  have hold {k' : Fin ttTunnelAllowMax} (hu' : ((tunnelDeny tn pk).allow k').used = true) :
      (tunnelDeny tn pk).allow k' = tn.allow k' := by
    rw [hallow] at hu' ⊢
    by_cases hk : k' = k
    · subst hk
      rw [Function.update_self] at hu'
      cases hu'
    · rw [Function.update_of_ne hk]
  have hallowed {fn : ℕ} (hA : tn.Allowed fn) (hne : fn ≠ (tn.allow k).fn) :
      (tunnelDeny tn pk).Allowed fn := by
    obtain ⟨k', hu', hfn⟩ := hA
    have hk : k' ≠ k := by
      rintro rfl
      exact hne hfn.symm
    refine ⟨k', ?_⟩
    rw [hallow, Function.update_of_ne hk]
    exact ⟨hu', hfn⟩
  constructor
  · rw [hhost]
    exact hg.host
  · intro j hj
    by_cases hfn : (tn.allow k).fn < ttMaxFriends
    · have hjk : j ≠ (tn.allow k).fn := by
        rintro rfl
        rw [hclosed hfn] at hj
        cases hj
      rw [hsocks j hjk] at hj ⊢
      exact ⟨hallowed (hg.socks j hj).1 fun he => hjk (honly j hj he), (hg.socks j hj).2⟩
    · rw [hsame hfn] at hj ⊢
      refine ⟨hallowed (hg.socks j hj).1 ?_, (hg.socks j hj).2⟩
      intro he
      rw [← he] at hfn
      exact hfn (hg.socks j hj).2
  · intro k' hk'
    rw [hconns] at hk' ⊢
    exact hallowed (hg.conns k' hk') (hnoconn k' hk')
  · intro k' hu' hfn
    rw [hold hu'] at hfn ⊢
    rw [hold hu'] at hu'
    exact hg.known k' hu' hfn
  · intro a b ha hb hab
    rw [hold ha, hold hb] at hab
    rw [hold ha] at ha
    rw [hold hb] at hb
    exact hg.distinct a b ha hb hab

end

end TkTox
