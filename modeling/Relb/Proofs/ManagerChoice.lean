import Relb.Model.ThreadedConnectionManagerList
/-!
# Which manager takes the next client

The search keeps the most free places that it has seen so far, with the manager that has them. It
starts at the second manager, so a free place of the first one is not seen: that does no harm as
long as the first manager is full, or another one has as many free places.
-/

namespace Relb

namespace PooledManager

theorem getFreeConnections_nonneg (m : PooledManager) : 0 ≤ m.getFreeConnections := by
  unfold getFreeConnections
  omega

theorem getFreeConnections_create (connections : Int) :
    (create connections).getFreeConnections = max (min connections maxPeersPerFdset) 0 := by
  simp [getFreeConnections, create]

end PooledManager

namespace ThreadedConnectionManagerList

variable {l : ThreadedConnectionManagerList} {first m : PooledManager} {rest : List PooledManager}
  {k : Nat}

/-- The search ends with the most free places, and keeps what it has if no manager has more. -/
theorem scanFree_spec (rest : List PooledManager) (i : Nat) (freeconections : Int)
    (pcm : Option Nat) :
    freeconections ≤ (scanFree rest i freeconections pcm).1 ∧
      (∀ m ∈ rest, 0 < m.getFreeConnections →
        m.getFreeConnections ≤ (scanFree rest i freeconections pcm).1) ∧
      (scanFree rest i freeconections pcm = (freeconections, pcm) ∨
        ∃ (j : Nat) (m : PooledManager), rest[j]? = some m ∧ 0 < m.getFreeConnections ∧
          scanFree rest i freeconections pcm = (m.getFreeConnections, some (i + j))) := by
  induction rest generalizing i freeconections pcm with
  | nil => exact ⟨Int.le_refl _, by simp, .inl rfl⟩
  | cons m rest ih =>
      rw [scanFree]
      split
      · rename_i hbetter
        obtain ⟨hkept, hmost, hend⟩ := ih (i + 1) m.getFreeConnections (some i)
        refine ⟨Int.le_trans (Int.le_of_lt hbetter.1) hkept, ?_, .inr ?_⟩
        · intro t ht hfree
          rcases List.mem_cons.mp ht with rfl | ht
          · exact hkept
          · exact hmost t ht hfree
        · rcases hend with hsame | ⟨j, t, ht, hfree, hscan⟩
          · exact ⟨0, m, rfl, hbetter.2, hsame⟩
          · exact ⟨j + 1, t, ht, hfree, by rw [hscan]; congr 2; omega⟩
      · rename_i hworse
        obtain ⟨hkept, hmost, hend⟩ := ih (i + 1) freeconections pcm
        refine ⟨hkept, ?_, ?_⟩
        · intro t ht hfree
          rcases List.mem_cons.mp ht with rfl | ht
          · omega
          · exact hmost t ht hfree
        · rcases hend with hsame | ⟨j, t, ht, hfree, hscan⟩
          · exact .inl hsame
          · exact .inr ⟨j + 1, t, ht, hfree, by rw [hscan]; congr 2; omega⟩

theorem getFree_spec (hl : l.mList = first :: rest) :
    ((∀ m ∈ rest, m.getFreeConnections = 0) ∧ l.getFreeThreadedConnectionManager = l.addNew) ∨
      ∃ (j : Nat) (m : PooledManager), rest[j]? = some m ∧ 0 < m.getFreeConnections ∧
        (∀ t ∈ rest, t.getFreeConnections ≤ m.getFreeConnections) ∧
        l.getFreeThreadedConnectionManager = (l, 1 + j) := by
  have hsearch := scanFree_spec rest 1 (-1) none
  unfold getFreeThreadedConnectionManager
  rw [hl, List.length_cons, if_neg (Nat.succ_ne_zero _), List.drop_one, List.tail_cons]
  obtain ⟨-, hmost, hend⟩ := hsearch
  rcases hend with hnone | ⟨j, m, hm, hfree, hfound⟩
  · rw [hnone] at hmost ⊢
    refine .inl ⟨fun m hm => ?_, rfl⟩
    have hnonneg := m.getFreeConnections_nonneg
    by_contra hzero
    have hle := hmost m hm (by omega)
    dsimp only at hle
    omega
  · rw [hfound] at hmost ⊢
    refine .inr ⟨j, m, hm, hfree, fun t ht => ?_, ?_⟩
    · by_cases hpositive : 0 < t.getFreeConnections
      · exact hmost t ht hpositive
      · omega
    · dsimp only
      rw [if_neg (by omega)]

theorem ne_addNew (l : ThreadedConnectionManagerList) (k : Nat) : (l, k) ≠ l.addNew := by
  intro h
  have hlength := congrArg (fun r : ThreadedConnectionManagerList × Nat => r.1.mList.length) h
  simp [addNew] at hlength

/-- A manager is made only if all are full, and otherwise one with the most free places is
returned. -/
def CreatesOnlyWhenFull (l : ThreadedConnectionManagerList) : Prop :=
  (l.getFreeThreadedConnectionManager = l.addNew → ∀ m ∈ l.mList, m.getFreeConnections = 0) ∧
    (l.getFreeThreadedConnectionManager ≠ l.addNew →
      ∃ k m, l.getFreeThreadedConnectionManager = (l, k) ∧ l.mList[k]? = some m ∧
        ∀ t ∈ l.mList, t.getFreeConnections ≤ m.getFreeConnections)

/-- The first manager is never found, which only matters if it has more free places than all
others. -/
theorem createsOnlyWhenFull_iff (l : ThreadedConnectionManagerList) :
    l.CreatesOnlyWhenFull ↔ ∀ first ∈ l.mList.head?, first.getFreeConnections = 0 ∨
      ∃ m ∈ l.mList.tail, first.getFreeConnections ≤ m.getFreeConnections := by
  unfold CreatesOnlyWhenFull
  cases hl : l.mList with
  | nil =>
      have hnew : l.getFreeThreadedConnectionManager = l.addNew := by
        simp [getFreeThreadedConnectionManager, hl]
      simp [hnew]
  | cons first rest =>
      rw [List.head?_cons, List.tail_cons]
      simp only [Option.mem_def, Option.some.injEq, forall_eq']
      have hnonneg := first.getFreeConnections_nonneg
      rcases getFree_spec hl with ⟨hfull, hnew⟩ | ⟨j, m, hm, hfree, hmost, hfound⟩
      · constructor
        · rintro ⟨hcreates, -⟩
          exact .inl (hcreates hnew first List.mem_cons_self)
        · intro hcond
          refine ⟨fun _ t ht => ?_, fun h => absurd hnew h⟩
          rcases List.mem_cons.mp ht with rfl | ht
          · rcases hcond with hzero | ⟨m, hm, hle⟩
            · exact hzero
            · have hzero := hfull m hm
              omega
          · exact hfull t ht
      · have hother : l.getFreeThreadedConnectionManager ≠ l.addNew := by
          rw [hfound]
          exact ne_addNew l _
        have hplace : (first :: rest)[1 + j]? = some m := by
          rw [Nat.add_comm, List.getElem?_cons_succ, hm]
        constructor
        · rintro ⟨-, hgreatest⟩
          obtain ⟨k, t, hk, ht, hle⟩ := hgreatest hother
          obtain rfl : 1 + j = k := congrArg Prod.snd (hfound.symm.trans hk)
          obtain rfl : m = t := Option.some.inj (hplace.symm.trans ht)
          exact .inr ⟨m, List.mem_of_getElem? hm, hle first List.mem_cons_self⟩
        · intro hcond
          refine ⟨fun h => absurd h hother, fun _ => ⟨1 + j, m, hfound, hplace, fun t ht => ?_⟩⟩
          rcases List.mem_cons.mp ht with rfl | ht
          · rcases hcond with hzero | ⟨t', ht', hle⟩
            · omega
            · exact Int.le_trans hle (hmost t' ht')
          · exact hmost t ht

/-- One manager with both of its places free, and a second one is made. -/
theorem creates_beside_free_manager :
    ¬(⟨2, [.create 2]⟩ : ThreadedConnectionManagerList).CreatesOnlyWhenFull := by
  rintro ⟨hcreates, -⟩
  have hfull := hcreates rfl (.create 2) List.mem_cons_self
  rw [PooledManager.getFreeConnections_create] at hfull
  exact absurd hfull (by decide)

end ThreadedConnectionManagerList

end Relb
