import Mathlib.Data.List.Nodup
import Mathlib.Data.List.Perm.Basic
/-!
# Lists whose elements have distinct keys

What changes when one element of such a list is removed, rewritten or seen differently:
the counts of a predicate change by what that element contributes, and a map that leaves
all other elements alone is one update. A projection that an update leaves alone does not
notice it, whatever the keys, nor a whole fold of such updates.
-/

namespace Relb.Lib

variable {α β κ : Type*} {key : α → κ} {l : List α} {i : Nat} {a b : α}

/-- An update that a projection does not see. -/
theorem map_modify {f : α → β} {g : α → α} (h : ∀ a, f (g a) = f a) (l : List α) (i : Nat) :
    (l.modify i g).map f = l.map f := by
  apply List.ext_getElem?
  intro n
  simp only [List.getElem?_map, List.getElem?_modify]
  cases l[n]? with
  | none => rfl
  | some a =>
      simp only [Option.map_eq_map, Option.map_some]
      split
      · rw [h]
      · rfl

/-- An element in place of one that a projection cannot tell from it. -/
theorem map_set_of_eq {f : α → β} (h : l[i]? = some a) (hb : f b = f a) :
    (l.set i b).map f = l.map f := by
  apply List.ext_getElem?
  intro n
  have hi := (List.getElem?_eq_some_iff.mp h).1
  rw [List.getElem?_map, List.getElem?_set, List.getElem?_map]
  by_cases hn : i = n
  · subst hn
    rw [if_pos rfl, if_pos hi, h, Option.map_some, Option.map_some, hb]
  · rw [if_neg hn]

/-- A fold of updates that a projection does not see. -/
theorem foldl_keeps {σ : Type*} {f : σ → β} {g : σ → α → σ} (h : ∀ s a, f (g s a) = f s)
    (l : List α) (s : σ) : f (l.foldl g s) = f s := by
  induction l generalizing s with
  | nil => rfl
  | cons a l ih => exact (ih (g s a)).trans (h s a)

/-- Two lists that look alike still do after updates that look alike. -/
theorem map_modify_congr {l' : List κ} {f : α → β} {f' : κ → β} {g : α → α} {g' : κ → κ}
    (h : l.map f = l'.map f') (i : Nat)
    (hg : ∀ a b, l[i]? = some a → l'[i]? = some b → f a = f' b → f (g a) = f' (g' b)) :
    (l.modify i g).map f = (l'.modify i g').map f' := by
  apply List.ext_getElem?
  intro n
  have hn : l[n]?.map f = l'[n]?.map f' := by
    rw [← List.getElem?_map, ← List.getElem?_map, h]
  simp only [List.getElem?_map, List.getElem?_modify]
  by_cases hi : i = n
  · subst hi
    cases ha : l[i]? with
    | none =>
        rw [ha] at hn
        rw [Option.map_eq_none_iff.mp hn.symm]
        rfl
    | some a =>
        rw [ha] at hn
        obtain ⟨b, hb, heq⟩ := Option.map_eq_some_iff.mp hn.symm
        rw [hb]
        simpa using hg a b ha hb heq.symm
  · simpa [hi] using hn

/-- The element behind `l`. -/
theorem modify_append_cons (l : List α) (a : α) (l' : List α) (f : α → α) :
    (l ++ a :: l').modify l.length f = l ++ f a :: l' := by
  induction l with
  | nil => rfl
  | cons b l ih => exact congrArg (b :: ·) ih

theorem map_modify_eq_set (h : l[i]? = some a) (f : α → β) (g : α → α) :
    (l.modify i g).map f = (l.map f).set i (f (g a)) := by
  rw [List.modify_eq_set_getElem?, h]
  exact List.map_set

theorem modify_perm_cons_eraseIdx (h : l[i]? = some a) (f : α → α) :
    (l.modify i f).Perm (f a :: l.eraseIdx i) := by
  rw [List.modify_eq_set_getElem?, h]
  exact List.set_perm_cons_eraseIdx (List.getElem?_eq_some_iff.mp h).1 _

theorem mem_modify {f : α → α} (h : a ∈ l.modify i f) :
    a ∈ l.eraseIdx i ∨ ∃ b, l[i]? = some b ∧ a = f b := by
  obtain ⟨n, hn⟩ := List.mem_iff_getElem?.mp h
  rw [List.getElem?_modify] at hn
  cases hb : l[n]? with
  | none => simp [hb] at hn
  | some b =>
      by_cases hi : i = n
      · subst hi
        exact .inr ⟨b, hb, by simpa [hb] using hn.symm⟩
      · refine .inl (List.mem_eraseIdx_iff_getElem?.mpr ⟨n, Ne.symm hi, ?_⟩)
        simpa [hb, hi] using hn

/-- What stands in a place after an update is new, or was there before. -/
theorem getElem?_modify_cases {f : α → α} {j : Nat} (hb : (l.modify i f)[j]? = some b) :
    (i = j ∧ ∃ a, l[j]? = some a ∧ b = f a) ∨ i ≠ j ∧ l[j]? = some b := by
  by_cases hij : i = j
  · subst hij
    rw [List.getElem?_modify_eq] at hb
    obtain ⟨a, ha, rfl⟩ := Option.map_eq_some_iff.mp hb
    exact .inl ⟨rfl, a, ha, rfl⟩
  · rw [List.getElem?_modify_ne _ _ hij] at hb
    exact .inr ⟨hij, hb⟩

/-- An update of the place that was found, if there is one. -/
theorem getElem?_elim_modify_of_ne {place : Option Nat} {j : Nat} (h : place ≠ some j)
    (l : List α) (f : α → α) : (place.elim l fun i => l.modify i f)[j]? = l[j]? := by
  cases place with
  | none => rfl
  | some i => exact List.getElem?_modify_ne _ _ fun heq => h (heq ▸ rfl)

theorem getElem?_elim_modify_cases {place : Option Nat} {f : α → α} {j : Nat}
    (hb : (place.elim l fun i => l.modify i f)[j]? = some b) :
    (place = some j ∧ ∃ a, l[j]? = some a ∧ b = f a) ∨ place ≠ some j ∧ l[j]? = some b := by
  cases place with
  | none => exact .inr ⟨(Option.some_ne_none j).symm, hb⟩
  | some i =>
      rcases getElem?_modify_cases hb with ⟨rfl, ha⟩ | ⟨hij, hb⟩
      · exact .inl ⟨rfl, ha⟩
      · exact .inr ⟨fun heq => hij (Option.some.inj heq), hb⟩

/-- What an update leaves in a place. -/
theorem eq_of_getElem?_modify {f : α → α} {j : Nat} (h : l[j]? = some a)
    (hb : (l.modify i f)[j]? = some b) : b = if i = j then f a else a := by
  rw [List.getElem?_modify, h] at hb
  exact (Option.some.inj hb).symm

theorem modify_length_append (l₁ l₂ : List α) (a : α) (f : α → α) :
    (l₁ ++ a :: l₂).modify l₁.length f = l₁ ++ f a :: l₂ := by
  induction l₁ with
  | nil => rfl
  | cons b l₁ ih => rw [List.cons_append, List.length_cons, List.modify_succ_cons, ih]; rfl

/-- An update that a filter does not see. -/
theorem filter_modify {f : α → α} {P : α → Bool}
    (h : ∀ a, l[i]? = some a → P a = false ∧ P (f a) = false) :
    (l.modify i f).filter P = l.filter P := by
  induction l generalizing i with
  | nil => rw [List.modify_nil]
  | cons b l ih =>
      cases i with
      | zero =>
          obtain ⟨hb, hfb⟩ := h b rfl
          rw [List.modify_zero_cons, List.filter_cons_of_neg (by simpa using hfb),
            List.filter_cons_of_neg (by simpa using hb)]
      | succ i =>
          rw [List.modify_succ_cons, List.filter_cons, List.filter_cons, ih fun a ha => h a ha]

/-- What holds of all elements, and of the update of each, holds after an update. -/
theorem forall_mem_modify {f : α → α} {P : α → Prop} (h : ∀ a ∈ l, P a)
    (hf : ∀ a ∈ l, P (f a)) : ∀ a ∈ l.modify i f, P a := by
  intro a ha
  rcases mem_modify ha with ha | ⟨b, hb, rfl⟩
  · exact h a (List.mem_of_mem_eraseIdx ha)
  · exact hf b (List.mem_of_getElem? hb)

theorem forall_mem_set {P : α → Prop} (h : ∀ a ∈ l, P a) (hb : P b) : ∀ a ∈ l.set i b, P a := by
  intro a ha
  rcases List.mem_or_eq_of_mem_set ha with ha | rfl
  · exact h a ha
  · exact hb

theorem perm_cons_eraseIdx (h : l[i]? = some a) : l.Perm (a :: l.eraseIdx i) := by
  obtain ⟨hi, rfl⟩ := List.getElem?_eq_some_iff.mp h
  exact (List.getElem_cons_eraseIdx_perm hi).symm

theorem countP_eraseIdx_add (h : l[i]? = some a) (p : α → Bool) :
    (l.eraseIdx i).countP p + (if p a then 1 else 0) = l.countP p := by
  rw [(perm_cons_eraseIdx h).countP_eq, List.countP_cons]

theorem key_ne_of_mem_eraseIdx (hnodup : (l.map key).Nodup) (h : l[i]? = some a)
    (hb : b ∈ l.eraseIdx i) : key b ≠ key a := by
  have hcons : ((a :: l.eraseIdx i).map key).Nodup :=
    ((perm_cons_eraseIdx h).map key).nodup_iff.mp hnodup
  rw [List.map_cons, List.nodup_cons] at hcons
  exact fun heq => hcons.1 (heq ▸ List.mem_map_of_mem hb)

theorem eq_of_key (hnodup : (l.map key).Nodup) (ha : a ∈ l) (hb : b ∈ l) (h : key a = key b) :
    a = b := List.inj_on_of_nodup_map hnodup ha hb h

/-- A key picks one element. -/
theorem filter_eq_singleton_of_key (hnodup : (l.map key).Nodup) (ha : a ∈ l) {p : α → Bool}
    (hp : ∀ b, p b = true ↔ key b = key a) : l.filter p = [a] := by
  induction l with
  | nil => cases ha
  | cons b l ih =>
      rw [List.map_cons, List.nodup_cons] at hnodup
      by_cases hb : key b = key a
      · obtain rfl : a = b := by
          rcases List.mem_cons.mp ha with hab | hmem
          · exact hab
          · exact absurd (hb ▸ List.mem_map_of_mem hmem) hnodup.1
        have hrest : l.filter p = [] := by
          rw [List.filter_eq_nil_iff]
          intro c hc hpc
          exact hnodup.1 ((hp c).mp hpc ▸ List.mem_map_of_mem hc)
        rw [List.filter_cons_of_pos ((hp _).mpr rfl), hrest]
      · have hmem : a ∈ l := by
          rcases List.mem_cons.mp ha with rfl | hmem
          · exact absurd rfl hb
          · exact hmem
        rw [List.filter_cons_of_neg fun hpb => hb ((hp b).mp hpb), ih hnodup.2 hmem]

theorem index_eq_of_key {j : Nat} (hnodup : (l.map key).Nodup) (hi : l[i]? = some a)
    (hj : l[j]? = some b) (h : key a = key b) : i = j := by
  have hlt : i < (l.map key).length := by
    rw [List.length_map]
    exact (List.getElem?_eq_some_iff.mp hi).1
  refine (List.getElem?_inj hlt hnodup).mp ?_
  rw [List.getElem?_map, List.getElem?_map, hi, hj, Option.map_some, Option.map_some, h]

/-- The first element with a property that only one key has. -/
theorem findIdx?_eq_of_key (hnodup : (l.map key).Nodup) (h : l[i]? = some a) {p : α → Bool}
    (hp : p a = true) (hkey : ∀ b ∈ l, p b = true → key b = key a) : l.findIdx? p = some i := by
  obtain ⟨hi, hget⟩ := List.getElem?_eq_some_iff.mp h
  refine List.findIdx?_eq_some_iff_getElem.mpr ⟨hi, hget ▸ hp, fun j hj hpj => ?_⟩
  have hjl : j < l.length := Nat.lt_trans hj hi
  have hkeys := hkey _ (List.getElem_mem hjl) hpj
  exact Nat.ne_of_lt hj (index_eq_of_key hnodup (List.getElem?_eq_getElem hjl) h hkeys)

/-- One element is seen differently. -/
theorem countP_change (hnodup : (l.map key).Nodup) (h : l[i]? = some a) (p p' : α → Bool)
    (hsame : ∀ b ∈ l, key b ≠ key a → p' b = p b) :
    l.countP p' + (if p a then 1 else 0) = l.countP p + (if p' a then 1 else 0) := by
  have hrest : (l.eraseIdx i).countP p' = (l.eraseIdx i).countP p := by
    apply List.countP_congr
    intro b hb
    rw [hsame b (List.mem_of_mem_eraseIdx hb) (key_ne_of_mem_eraseIdx hnodup h hb)]
  rw [← countP_eraseIdx_add h p, ← countP_eraseIdx_add h p', hrest]
  omega

/-- Two maps that differ on one element only. -/
theorem map_eq_set {f g : α → β} (hnodup : (l.map key).Nodup) (h : l[i]? = some a)
    (hf : ∀ b ∈ l, key b ≠ key a → f b = g b) : l.map f = (l.map g).set i (f a) := by
  apply List.ext_getElem?
  intro n
  have hi := (List.getElem?_eq_some_iff.mp h).1
  rw [List.getElem?_map, List.getElem?_set, List.length_map]
  by_cases hn : i = n
  · subst hn
    rw [h, if_pos rfl, if_pos hi]
    rfl
  · rw [if_neg hn, List.getElem?_map]
    cases hb : l[n]? with
    | none => rfl
    | some b =>
        have hne : key b ≠ key a := fun heq => hn (index_eq_of_key hnodup h hb heq.symm)
        rw [Option.map_some, Option.map_some, hf b (List.mem_of_getElem? hb) hne]

theorem flatMap_eq (hnodup : (l.map key).Nodup) (h : l[i]? = some a) {g : α → List β}
    (hg : ∀ b ∈ l, key b ≠ key a → g b = []) : l.flatMap g = g a := by
  induction l generalizing i with
  | nil => cases h
  | cons c l ih =>
      rw [List.map_cons, List.nodup_cons] at hnodup
      cases i with
      | zero =>
          obtain rfl : c = a := by simpa using h
          have hrest : l.flatMap g = [] := by
            rw [List.flatMap_eq_nil_iff]
            intro b hb
            refine hg b (List.mem_cons_of_mem _ hb) fun heq => hnodup.1 ?_
            exact heq ▸ List.mem_map_of_mem hb
          rw [List.flatMap_cons, hrest, List.append_nil]
      | succ i =>
          have ha : l[i]? = some a := by simpa using h
          have hc : g c = [] := by
            refine hg c List.mem_cons_self fun heq => hnodup.1 ?_
            exact heq ▸ List.mem_map_of_mem (List.mem_of_getElem? ha)
          rw [List.flatMap_cons, hc, List.nil_append]
          exact ih hnodup.2 ha fun b hb => hg b (List.mem_cons_of_mem _ hb)

end Relb.Lib
