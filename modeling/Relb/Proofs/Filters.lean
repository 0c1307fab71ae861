import Relb.Model.ServerList
import Relb.Proofs.Masks
/-!
# Filters

The loop over the filters leaves the list at the first match, so this filter decides whatever stands
behind it. With the masks of prefix lengths a match compares leading bits.
-/

namespace Relb

open Lib IpAddress

/-- Under the masks of the filter the client and the server are its source and its destination. -/
def FilterInfo.Matches (f : FilterInfo) (client server : IpAddress) : Prop :=
  maskedIp client f.srcMask = maskedIp f.srcIp f.srcMask ∧
    maskedIp server f.dstMask = maskedIp f.dstIp f.dstMask

def FilterInfo.test (client server : IpAddress) (f : FilterInfo) : Bool :=
  maskedIp client f.srcMask == maskedIp f.srcIp f.srcMask &&
    maskedIp server f.dstMask == maskedIp f.dstIp f.dstMask

theorem FilterInfo.test_eq_true_iff {f : FilterInfo} {client server : IpAddress} :
    f.test client server = true ↔ f.Matches client server := by
  rw [test, Bool.and_eq_true, beq_iff_eq, beq_iff_eq, Matches]

theorem FilterInfo.matches_iff_agreeOn {f : FilterInfo} {n m : Nat} (hn : n ≤ 32) (hm : m ≤ 32)
    (hsrc : f.srcMask = prefixMask n) (hdst : f.dstMask = prefixMask m)
    (client server : IpAddress) :
    f.Matches client server ↔ AgreeOn n client f.srcIp ∧ AgreeOn m server f.dstIp := by
  unfold Matches
  rw [hsrc, hdst, maskedIp_eq_iff (hasLeadingOnes_prefixMask hn) hn,
    maskedIp_eq_iff (hasLeadingOnes_prefixMask hm) hm]

namespace ServerList

variable {s : ServerList} {server client : IpAddress}

theorem isServerAllowed_eq (s : ServerList) (server client : IpAddress) :
    s.isServerAllowed server client =
      ((s.filterList.find? (FilterInfo.test client server)).map FilterInfo.allow).getD true := by
  unfold isServerAllowed FilterInfo.test
  cases s.filterList.find? _ <;> rfl

theorem checkFilter_eq {i : Nat} {f : FilterInfo} (hf : s.filterList[i]? = some f) (val : Bool) :
    s.checkFilter server client i val =
      if f.test client server then some (s.filterList.length + 1 + 1, f.allow)
      else some (i + 1, val) := by
  rw [checkFilter, hf]
  rfl

theorem isServerAllowedLoop_eq (s : ServerList) (server client : IpAddress) :
    s.isServerAllowedLoop server client = some (s.isServerAllowed server client) := by
  have hhit : ∀ (i : Nat) (f : FilterInfo), s.filterList[i]? = some f →
      f.test client server = true →
      ∃ j, s.filterList.length ≤ j ∧ s.checkFilter server client i true = some (j, f.allow) := by
    intro i f hf hmatch
    exact ⟨s.filterList.length + 1 + 1, by omega, by rw [checkFilter_eq hf, if_pos hmatch]⟩
  have hmiss : ∀ (i : Nat) (f : FilterInfo), s.filterList[i]? = some f →
      f.test client server = false → s.checkFilter server client i true = some (i + 1, true) := by
    intro i f hf hother
    rw [checkFilter_eq hf, if_neg (by simp [hother])]
  obtain ⟨j, hloop⟩ := whileBelow_find (i := 0) _ hhit hmiss (Nat.le_refl s.filterList.length)
  rw [isServerAllowedLoop, hloop, isServerAllowed_eq, List.drop_zero]
  rfl

/-- The first filter that matches decides, and without one the server is allowed. With the masks of
prefix lengths a filter matches what agrees with it on the leading bits. -/
theorem first_filter_decides (s : ServerList) (server client : IpAddress) :
    s.isServerAllowedLoop server client = some (s.isServerAllowed server client) ∧
      (∀ before f behind, s.filterList = before ++ f :: behind →
        (∀ g ∈ before, ¬g.Matches client server) → f.Matches client server →
          s.isServerAllowed server client = f.allow) ∧
      ((∀ f ∈ s.filterList, ¬f.Matches client server) →
        s.isServerAllowed server client = true) ∧
      ∀ (f : FilterInfo) (n m : Nat), n ≤ 32 → m ≤ 32 →
        f.srcMask = prefixMask n → f.dstMask = prefixMask m →
          (f.Matches client server ↔ AgreeOn n client f.srcIp ∧ AgreeOn m server f.dstIp) := by
  refine ⟨s.isServerAllowedLoop_eq server client, ?_, ?_, ?_⟩
  · intro before f behind hlist hbefore hf
    have hother : ∀ g ∈ before, ¬g.test client server = true :=
      fun g hg => mt FilterInfo.test_eq_true_iff.mp (hbefore g hg)
    rw [isServerAllowed_eq, hlist, List.find?_append, List.find?_eq_none.mpr hother, Option.none_or,
      List.find?_cons_of_pos (FilterInfo.test_eq_true_iff.mpr hf)]
    rfl
  · intro hnone
    rw [isServerAllowed_eq, List.find?_eq_none.mpr fun f hf =>
      mt FilterInfo.test_eq_true_iff.mp (hnone f hf)]
    rfl
  · intro f n m hn hm hsrc hdst
    exact FilterInfo.matches_iff_agreeOn hn hm hsrc hdst client server

end ServerList

end Relb
