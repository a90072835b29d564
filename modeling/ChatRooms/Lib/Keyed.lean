import Mathlib.Data.List.Nodup
import Mathlib.Data.List.Perm.Basic
import Mathlib.Logic.Function.Basic

/-!
# Independent updates of a keyed store

A store is a function from keys to values.  A request names a key, and what it makes of the value there
and what it answers depends on this value alone: `Effect r v v' o`.  `Applied` says what a list of requests
has done to a store, and does not speak of an order.

* `Applied.nil` and `Applied.cons`: one request after another has been applied;
* `Applied.store_unique` and `Applied.answers_perm`: the store and the answers are determined by the
  requests, up to the order of these.
-/

namespace ChatRooms

variable {κ ρ ν ω : Type} {key : ρ → κ} {Effect : ρ → ν → ν → ω → Prop}

/-- Every request has met the value that its key had at first and has left its effect, and nothing else
has changed. -/
structure Applied (key : ρ → κ) (Effect : ρ → ν → ν → ω → Prop) (store : κ → Option ν) (requests : List ρ)
    (answers : List (κ × ω)) (store' : κ → Option ν) : Prop where
  keys : answers.map Prod.fst = requests.map key
  touched : ∀ r ∈ requests, ∃ v v' o, store (key r) = some v ∧ Effect r v v' o ∧
    store' (key r) = some v' ∧ (key r, o) ∈ answers
  kept : ∀ k ∉ requests.map key, store' k = store k

/-- On equal values, the requests of two lists for one key have the same effect. -/
def SameEffects (key : ρ → κ) (Effect : ρ → ν → ν → ω → Prop) (requests requests' : List ρ) : Prop :=
  ∀ r ∈ requests, ∀ r' ∈ requests', key r = key r' → ∀ {v v₁ v₂ : ν} {o₁ o₂ : ω},
    Effect r v v₁ o₁ → Effect r' v v₂ o₂ → v₁ = v₂ ∧ o₁ = o₂

theorem SameEffects.symm {requests requests' : List ρ} (h : SameEffects key Effect requests requests') :
    SameEffects key Effect requests' requests := by
  intro r' hr' r hr hkey v v₁ v₂ o₁ o₂ h₁ h₂
  obtain ⟨hv, ho⟩ := h r hr r' hr' hkey.symm h₂ h₁
  exact ⟨hv.symm, ho.symm⟩

namespace Applied

variable {store store' store'' : κ → Option ν} {requests requests' : List ρ} {answers answers' : List (κ × ω)}

theorem nil : Applied key Effect store [] [] store where
  keys := rfl
  touched := fun _ hr => absurd hr List.not_mem_nil
  kept := fun _ _ => rfl

/-- The other requests do not see what the first one has done. -/
theorem cons [DecidableEq κ] {r : ρ} {v v' : ν} {o : ω} (hv : store (key r) = some v) (heffect : Effect r v v' o)
    (hfresh : key r ∉ requests.map key)
    (h : Applied key Effect (Function.update store (key r) (some v')) requests answers store') :
    Applied key Effect store (r :: requests) ((key r, o) :: answers) store' where
  keys := by rw [List.map_cons, List.map_cons, h.keys]
  touched := by
    intro r' hr'
    rcases List.mem_cons.1 hr' with rfl | hmem
    · exact ⟨v, v', o, hv, heffect, by rw [h.kept _ hfresh, Function.update_self], List.mem_cons_self⟩
    · obtain ⟨w, w', o', hw, hw', hstore, hanswer⟩ := h.touched r' hmem
      have hne : key r' ≠ key r := fun he => hfresh (he ▸ List.mem_map_of_mem hmem)
      rw [Function.update_of_ne hne] at hw
      exact ⟨w, w', o', hw, hw', hstore, List.mem_cons_of_mem _ hanswer⟩
  kept := by
    intro k hk
    rw [List.map_cons, List.mem_cons, not_or] at hk
    rw [h.kept k hk.2, Function.update_of_ne hk.1]

/-- Two requests for one key leave the same value and get the same answer. -/
theorem agrees (h : Applied key Effect store requests answers store')
    (h' : Applied key Effect store requests' answers' store'')
    (hsame : SameEffects key Effect requests requests') {r r' : ρ} (hr : r ∈ requests) (hr' : r' ∈ requests')
    (hkey : key r = key r') :
    store' (key r) = store'' (key r) ∧ ∃ o, (key r, o) ∈ answers ∧ (key r, o) ∈ answers' := by
  obtain ⟨v, v₁, o₁, hv, heffect, hstore, hanswer⟩ := h.touched r hr
  obtain ⟨w, v₂, o₂, hw, heffect', hstore', hanswer'⟩ := h'.touched r' hr'
  rw [← hkey] at hw hstore' hanswer'
  rw [hv, Option.some.injEq] at hw
  subst hw
  obtain ⟨rfl, rfl⟩ := hsame r hr r' hr' hkey heffect heffect'
  exact ⟨hstore.trans hstore'.symm, o₁, hanswer, hanswer'⟩

/-- The store does not depend on the order of the requests. -/
theorem store_unique (h : Applied key Effect store requests answers store')
    (h' : Applied key Effect store requests' answers' store'')
    (hkeys : (requests.map key).Perm (requests'.map key)) (hsame : SameEffects key Effect requests requests') :
    store' = store'' := by
  funext k
  by_cases hk : k ∈ requests.map key
  · obtain ⟨r, hr, rfl⟩ := List.mem_map.1 hk
    obtain ⟨r', hr', hkey⟩ := List.mem_map.1 (hkeys.mem_iff.1 hk)
    exact (h.agrees h' hsame hr hr' hkey.symm).1
  · rw [h.kept k hk, h'.kept k fun hmem => hk (hkeys.mem_iff.2 hmem)]

/-- When no key is named twice, every answer is given in both orders. -/
theorem answers_subset (h : Applied key Effect store requests answers store')
    (h' : Applied key Effect store requests' answers' store'')
    (hkeys : (requests.map key).Perm (requests'.map key)) (hnodup : (requests.map key).Nodup)
    (hsame : SameEffects key Effect requests requests') : answers ⊆ answers' := by
  intro answer hanswer
  have hk : answer.1 ∈ requests.map key := by
    rw [← h.keys]
    exact List.mem_map_of_mem hanswer
  obtain ⟨r, hr, hkey⟩ := List.mem_map.1 hk
  obtain ⟨r', hr', hkey'⟩ := List.mem_map.1 (hkeys.mem_iff.1 hk)
  obtain ⟨-, o, hmem, hmem'⟩ := h.agrees h' hsame hr hr' (hkey.trans hkey'.symm)
  rw [← h.keys] at hnodup
  rwa [List.inj_on_of_nodup_map hnodup hanswer hmem hkey.symm]

/-- The answers depend on the order of the requests only in their own order. -/
theorem answers_perm (h : Applied key Effect store requests answers store')
    (h' : Applied key Effect store requests' answers' store'')
    (hkeys : (requests.map key).Perm (requests'.map key)) (hnodup : (requests.map key).Nodup)
    (hsame : SameEffects key Effect requests requests') : answers.Perm answers' := by
  have hnodup' := hkeys.nodup_iff.1 hnodup
  have hanswers : answers.Nodup := (h.keys ▸ hnodup).of_map
  have hanswers' : answers'.Nodup := (h'.keys ▸ hnodup').of_map
  refine (List.perm_ext_iff_of_nodup hanswers hanswers').2 fun answer => ⟨fun hmem => ?_, fun hmem => ?_⟩
  · exact h.answers_subset h' hkeys hnodup hsame hmem
  · exact h'.answers_subset h hkeys.symm hnodup' hsame.symm hmem

end Applied

end ChatRooms
