import Relb.Lib.Keyed
import Relb.Lib.Wakeup
import Relb.Model.ServerListThread
/-!
# The messages of `ServerList`

Managers, the web admin and the destructor leave what they bring first and post to `status` behind
it; the thread looks at both and takes one from `status` when it waits. So these threads are a
mailbox again, of two kinds of items, and no message waits for a wake-up that does not come.
-/

namespace Relb

open Lib

/-- What other threads leave for the thread of `ServerList`. -/
inductive ListItem
  | finish
  | message
  deriving DecidableEq

instance : Fintype ListItem where
  elems := {.finish, .message}
  complete item := by cases item <;> decide

/-- What the thread has looked at since it waited. The end counts from the test of the outer loop
on: the one of the inner loop does not keep the thread from waiting. -/
def ListPoint.looked : ListPoint → ListItem → Bool
  | .drain, item | .getmessage, item | .processMessage _, item => item = .finish
  | .tasks, _ | .waitTime, _ | .wait, _ => true
  | .start, _ | .loop, _ | .ended, _ => false

/-- The message that the thread has taken and not processed. -/
def ListPoint.inHand : ListPoint → List Message
  | .processMessage msg => [msg]
  | _ => []

/-- In front of `status.post()`. -/
def ListCaller.triggers : ListCaller → Bool
  | .trigger => true
  | _ => false

namespace ServerListThread

variable {m t : ServerListThread} {limit : Nat} {op : Op} {now test value : Datetime}

/-- What has come in. When it is the end, the messages do not matter any more. -/
def missed (m : ServerListThread) : ListItem → Nat
  | .finish => if m.finish then 1 else 0
  | .message => if m.finish then 0 else m.queue.length

def mailbox (m : ServerListThread) : Mailbox ListItem :=
  .of m.point.looked m.missed m.status (m.callers.countP ListCaller.triggers)

/-! ## Steps -/

theorem mailbox_skip (hlooked : ∀ item, t.point.looked item = true →
      m.point.looked item = true ∧ t.missed item ≤ m.missed item)
    (hstatus : t.status = m.status)
    (hcallers : t.callers.countP ListCaller.triggers = m.callers.countP ListCaller.triggers) :
    m.mailbox.Follows t.mailbox := by
  rw [mailbox, mailbox, hstatus, hcallers]
  exact Mailbox.follows_skip hlooked

theorem mailbox_again (hlooked : ∀ item, t.point.looked item = false)
    (hstatus : t.status = m.status) (hcallers : t.callers = m.callers) :
    m.mailbox.Follows t.mailbox := by
  rw [mailbox, mailbox, hstatus, hcallers]
  exact Mailbox.follows_again hlooked

theorem mailbox_look (item : ListItem) (hmissed : t.missed item = 0)
    (hlooked : ∀ x, t.point.looked x = true →
      x = item ∨ m.point.looked x = true ∧ t.missed x ≤ m.missed x)
    (hstatus : t.status = m.status) (hcallers : t.callers = m.callers) :
    m.mailbox.Follows t.mailbox := by
  rw [mailbox, mailbox, hstatus, hcallers]
  exact Mailbox.follows_look item hmissed hlooked

theorem mailbox_put (item : ListItem) (hpoint : t.point = m.point)
    (hmissed : ∀ x, t.missed x ≤ m.missed x + if x = item then 1 else 0)
    (hstatus : t.status = m.status)
    (hcallers : t.callers.countP ListCaller.triggers =
      m.callers.countP ListCaller.triggers + 1) : m.mailbox.Follows t.mailbox := by
  rw [mailbox, mailbox, hpoint, hstatus, hcallers]
  exact Mailbox.follows_put item (fun _ => id) fun x _ => hmissed x

theorem mailbox_moves (hlooked : t.point.looked = m.point.looked) (hmissed : t.missed = m.missed)
    (hstatus : t.status = m.status) (hcallers : t.callers = m.callers) :
    m.mailbox.Follows t.mailbox :=
  mailbox_skip (fun item hitem => ⟨by rwa [← hlooked], by rw [hmissed]⟩) hstatus (by rw [hcallers])

theorem mailbox_drained (hpoint : m.point.looked = fun item => decide (item = .finish))
    (hfinish : t.missed .finish = m.missed .finish) (hempty : t.missed .message = 0)
    (hstatus : t.status = m.status) (hcallers : t.callers = m.callers) :
    m.mailbox.Follows t.mailbox := by
  refine mailbox_look .message hempty (fun item _ => ?_) hstatus hcallers
  cases item with
  | finish => exact .inr ⟨by rw [hpoint]; rfl, by rw [hfinish]⟩
  | message => exact .inl rfl

theorem mailbox_advance (h : m.advance now test value = some t) : m.mailbox.Follows t.mailbox := by
  unfold advance at h
  split at h <;> rename_i hpoint
  case h_1 =>
    obtain rfl := Option.some.inj h
    exact mailbox_again (fun _ => rfl) rfl rfl
  case h_2 =>
    obtain rfl := Option.some.inj h
    cases hfinish : m.finish with
    | true => exact mailbox_again (fun _ => rfl) rfl rfl
    | false =>
        refine mailbox_look .finish ?_ (fun item hitem => .inl (of_decide_eq_true hitem)) rfl rfl
        simp [missed, goto, hfinish]
  case h_3 =>
    obtain rfl := Option.some.inj h
    have hlooked : m.point.looked = fun item => decide (item = .finish) := by rw [hpoint]; rfl
    cases hfinish : m.finish with
    | true => exact mailbox_drained hlooked rfl (by simp [missed, goto, hfinish]) rfl rfl
    | false => exact mailbox_moves (by rw [hpoint]; rfl) rfl rfl rfl
  case h_4 =>
    have hlooked : m.point.looked = fun item => decide (item = .finish) := by rw [hpoint]; rfl
    split at h <;> rename_i hqueue <;> obtain rfl := Option.some.inj h
    · refine mailbox_skip (fun item hitem => ?_) rfl rfl
      obtain rfl := of_decide_eq_true hitem
      exact ⟨by rw [hpoint]; rfl, Nat.le_refl _⟩
    · exact mailbox_drained hlooked rfl (by simp [missed, goto, hqueue]) rfl rfl
  case h_5 msg =>
    obtain rfl := Option.some.inj h
    exact mailbox_moves (by rw [hpoint]; rfl) rfl rfl rfl
  case h_6 =>
    split at h
    · obtain ⟨pass, -, rfl⟩ := Option.map_eq_some_iff.mp h
      exact mailbox_moves (by rw [hpoint]; rfl) rfl rfl rfl
    · obtain rfl := Option.some.inj h
      exact mailbox_moves (by rw [hpoint]; rfl) rfl rfl rfl
  case h_7 =>
    obtain rfl := Option.some.inj h
    exact mailbox_moves (by rw [hpoint]; rfl) rfl rfl rfl
  case h_8 => cases h
  case h_9 => cases h

theorem mailbox_caller {k : Nat} {caller : ListCaller} {rest : Option ListCaller}
    (hcaller : m.callers[k]? = some caller) (h : m.advanceCaller limit caller = some (t, rest)) :
    m.mailbox.Follows
      (mailbox { t with callers := t.callers.eraseIdx k ++ rest.toList }) := by
  have hcount : (m.callers.eraseIdx k ++ rest.toList).countP ListCaller.triggers +
      [caller].countP ListCaller.triggers =
        m.callers.countP ListCaller.triggers + rest.toList.countP ListCaller.triggers := by
    have hperm := countP_eraseIdx_add hcaller ListCaller.triggers
    rw [List.countP_append, List.countP_singleton]
    omega
  cases caller with
  | post msg =>
      rw [advanceCaller] at h
      split at h
      · obtain ⟨rfl, rfl⟩ := Prod.mk.inj (Option.some.inj h)
        refine mailbox_put .message rfl (fun item => ?_) rfl hcount
        cases item with
        | finish => exact Nat.le_refl _
        | message =>
            change (if m.finish then 0 else (m.queue ++ [msg]).length) ≤
              (if m.finish then 0 else m.queue.length) + 1
            rw [List.length_append, List.length_singleton]
            split <;> omega
      · cases h
  | startUpdating =>
      obtain ⟨rfl, rfl⟩ := Prod.mk.inj (Option.some.inj h)
      exact mailbox_put .message rfl (fun item => Nat.le_add_right _ _) rfl hcount
  | stopUpdating | destroy =>
      obtain ⟨rfl, rfl⟩ := Prod.mk.inj (Option.some.inj h)
      exact mailbox_skip (fun item hitem => ⟨hitem, Nat.le_refl _⟩) rfl hcount
  | finish =>
      obtain ⟨rfl, rfl⟩ := Prod.mk.inj (Option.some.inj h)
      refine mailbox_put .finish rfl (fun item => ?_) rfl hcount
      cases item with
      | finish => exact Nat.le_add_left _ _
      | message => exact Nat.zero_le _
  | trigger =>
      obtain ⟨rfl, rfl⟩ := Prod.mk.inj (Option.some.inj h)
      have hannouncing : m.callers.countP ListCaller.triggers =
          (m.callers.eraseIdx k ++ []).countP ListCaller.triggers + 1 := hcount.symm
      rw [mailbox, hannouncing]
      exact Mailbox.follows_signal fun item hitem => ⟨hitem, Nat.le_refl _⟩

theorem mailbox_perform (h : m.perform limit op = some t) : m.mailbox.Follows t.mailbox := by
  cases op with
  | advance now test value => exact mailbox_advance h
  | wake =>
      rw [perform] at h
      split at h
      · rename_i hwake
        obtain rfl := Option.some.inj h
        have htokens : m.status = m.status - 1 + 1 := (Nat.sub_add_cancel hwake.2).symm
        rw [mailbox, htokens]
        exact Mailbox.follows_take fun _ => rfl
      · cases h
  | timeout =>
      rw [perform] at h
      split at h
      · obtain rfl := Option.some.inj h
        exact mailbox_again (fun _ => rfl) rfl rfl
      · cases h
  | call caller =>
      have hcalled : caller.triggers = false →
          m.mailbox.Follows (mailbox { m with callers := m.callers ++ [caller] }) := by
        intro hcaller
        refine mailbox_skip (fun item hitem => ⟨hitem, Nat.le_refl _⟩) rfl ?_
        change (m.callers ++ [caller]).countP _ = _
        rw [List.countP_append, List.countP_singleton, hcaller]
        rfl
      cases caller with
      | finish | trigger => cases h
      | post | startUpdating | stopUpdating | destroy =>
          obtain rfl := Option.some.inj h
          exact hcalled rfl
  | caller k =>
      rw [perform] at h
      split at h
      · rename_i caller hcaller
        obtain ⟨⟨t, rest⟩, hstep, rfl⟩ := Option.map_eq_some_iff.mp h
        exact mailbox_caller hcaller hstep
      · cases h
  | getServer clientIp clientPort pcm now addr parallelAddr =>
      obtain rfl := Option.some.inj h
      exact mailbox_skip (fun item hitem => ⟨hitem, Nat.le_refl _⟩) rfl rfl

/-! ## The order of the messages -/

/-- Every message that has been posted has been processed, is in hand or waits in the queue, in the
order of posting. -/
def InOrder (m : ServerListThread) : Prop :=
  m.posted = m.processed ++ m.point.inHand ++ m.queue

theorem InOrder.of_eq (h : m.InOrder) (hposted : t.posted = m.posted)
    (hprocessed : t.processed = m.processed) (hhand : t.point.inHand = m.point.inHand)
    (hqueue : t.queue = m.queue) : t.InOrder := by
  rw [InOrder, hposted, hprocessed, hhand, hqueue]
  exact h

theorem InOrder.advance (h : m.InOrder) (hstep : m.advance now test value = some t) :
    t.InOrder := by
  unfold ServerListThread.advance at hstep
  split at hstep <;> rename_i hpoint
  case h_2 | h_3 =>
    obtain rfl := Option.some.inj hstep
    refine h.of_eq rfl rfl ?_ rfl
    rw [hpoint]
    cases hfinish : m.finish <;> simp [goto, ListPoint.inHand]
  case h_4 =>
    split at hstep <;> rename_i hqueue <;> obtain rfl := Option.some.inj hstep
    · rw [InOrder, hqueue, hpoint] at h
      rw [InOrder, h]
      simp [ListPoint.inHand]
    · exact h.of_eq rfl rfl (by rw [hpoint]; rfl) rfl
  case h_5 msg =>
    obtain rfl := Option.some.inj hstep
    rw [InOrder, hpoint] at h
    rw [InOrder, h]
    simp [ListPoint.inHand]
  case h_6 =>
    split at hstep
    · obtain ⟨pass, -, rfl⟩ := Option.map_eq_some_iff.mp hstep
      exact h.of_eq rfl rfl (by rw [hpoint]; rfl) rfl
    · obtain rfl := Option.some.inj hstep
      exact h.of_eq rfl rfl (by rw [hpoint]; rfl) rfl
  case h_1 | h_7 =>
    obtain rfl := Option.some.inj hstep
    exact h.of_eq rfl rfl (by rw [hpoint]; rfl) rfl
  case h_8 | h_9 => cases hstep

theorem InOrder.caller (h : m.InOrder) {caller : ListCaller} {rest : Option ListCaller}
    (hstep : m.advanceCaller limit caller = some (t, rest)) : t.InOrder := by
  cases caller with
  | post msg =>
      rw [advanceCaller] at hstep
      split at hstep
      · obtain ⟨rfl, -⟩ := Prod.mk.inj (Option.some.inj hstep)
        rw [InOrder] at h
        rw [InOrder, h, List.append_assoc]
      · cases hstep
  | startUpdating | stopUpdating | destroy | finish | trigger =>
      obtain ⟨rfl, -⟩ := Prod.mk.inj (Option.some.inj hstep)
      exact h

theorem InOrder.perform (h : m.InOrder) (hstep : m.perform limit op = some t) : t.InOrder := by
  cases op with
  | advance now test value => exact h.advance hstep
  | wake | timeout =>
      rw [ServerListThread.perform] at hstep
      split at hstep
      · rename_i hwait
        obtain rfl := Option.some.inj hstep
        refine h.of_eq rfl rfl ?_ rfl
        rw [hwait.1]
        rfl
      · cases hstep
  | call caller =>
      cases caller with
      | finish | trigger => cases hstep
      | post | startUpdating | stopUpdating | destroy =>
          obtain rfl := Option.some.inj hstep
          exact h
  | caller k =>
      rw [ServerListThread.perform] at hstep
      split at hstep
      · obtain ⟨⟨t, rest⟩, hcalled, rfl⟩ := Option.map_eq_some_iff.mp hstep
        exact (h.caller hcalled).of_eq rfl rfl rfl rfl
      · cases hstep
  | getServer clientIp clientPort pcm now addr parallelAddr =>
      obtain rfl := Option.some.inj hstep
      exact h

/-! ## Runs -/

theorem Reachable.invariant (h : Reachable limit m) : m.mailbox.Covered ∧ m.InOrder := by
  refine Reach.invariant (I := fun m : ServerListThread => m.mailbox.Covered ∧ m.InOrder) ?_
    (fun m op t hm _ hstep => ⟨hm.1.follows (mailbox_perform hstep), hm.2.perform hstep⟩) h
  rintro m ⟨pass, update, rfl⟩
  exact ⟨Mailbox.covered_again (create pass update).mailbox, rfl⟩

/-- While the thread waits and has nothing to take from `status`, all messages have been processed
in the order of posting, but for those whose senders are still to post to `status`; and when there
is no such thread, nothing is left and nobody has ended it. -/
theorem asleep_after_messages (h : Reachable limit m) (hpoint : m.point = .wait)
    (hstatus : m.status = 0) :
    m.posted = m.processed ++ m.queue ∧
      (if m.finish then 1 else m.queue.length) ≤ m.callers.countP ListCaller.triggers ∧
      (m.callers.countP ListCaller.triggers = 0 → m.finish = false ∧ m.processed = m.posted) := by
  obtain ⟨hcovered, horder⟩ := h.invariant
  have hposted : m.posted = m.processed ++ m.queue := by
    rw [InOrder, hpoint] at horder
    rw [horder]
    simp [ListPoint.inHand]
  have hasleep := hcovered.asleep hstatus
  have hsum : ∑ item, m.mailbox.unseen item = if m.finish then 1 else m.queue.length := by
    rw [show (Finset.univ : Finset ListItem) = {.finish, .message} by decide,
      Finset.sum_insert (by decide), Finset.sum_singleton]
    have hunseen : ∀ item, m.mailbox.unseen item = m.missed item := by
      intro item
      exact if_pos (by rw [hpoint]; rfl)
    rw [hunseen, hunseen, missed, missed]
    cases m.finish <;> simp
  rw [hsum] at hasleep
  refine ⟨hposted, hasleep, fun hnone => ?_⟩
  have hnothing : (if m.finish then 1 else m.queue.length) = 0 := by
    have hzero : m.mailbox.announcing = 0 := hnone
    omega
  cases hfinish : m.finish with
  | true =>
      rw [hfinish] at hnothing
      cases hnothing
  | false =>
      rw [hfinish] at hnothing
      rw [hposted, List.eq_nil_of_length_eq_zero hnothing, List.append_nil]
      exact ⟨rfl, rfl⟩

namespace Sample

def idle : ServerListThread := create ⟨[], 0, .create 0, []⟩ false

/-- The thread waits, two messages come in, it is woken up by the first one, and a third one has
been put into the queue while its sender is still to post to `status`. -/
def threeMessages : List Op :=
  List.replicate 5 (.advance 0 0 0) ++ [.call (.post ⟨8, 1⟩), .caller 0, .caller 0] ++
  [.call (.post ⟨16, 2⟩), .caller 0, .caller 0, .wake] ++
  List.replicate 10 (.advance 0 0 0) ++ [.wake] ++ List.replicate 4 (.advance 0 0 0) ++
  [.call (.post ⟨8, 3⟩), .caller 0]

end Sample

theorem asleep_after_messages_three : ∃ m,
    Sample.threeMessages.foldlM (perform 5000) Sample.idle = some m ∧ m.queue.length = 1 ∧
      m.posted = m.processed ++ m.queue ∧
      (if m.finish then 1 else m.queue.length) ≤ m.callers.countP ListCaller.triggers ∧
      (m.callers.countP ListCaller.triggers = 0 → m.finish = false ∧ m.processed = m.posted) := by
  have hidle : Reachable 5000 Sample.idle := .start ⟨_, _, rfl⟩
  exact ⟨_, rfl, rfl, asleep_after_messages
    (Reach.foldlM hidle (guarded_anyStep _ _ Sample.threeMessages) rfl) rfl rfl⟩

end ServerListThread

end Relb
