import Relb.Model.Bind
import Relb.Proofs.BalancerBasics
/-!
# The steps of a bind

What the admin does when it takes a message, and what an operation of the balancer leaves of
the rest.
-/

namespace Relb

namespace Bind

variable {w w₁ : Bind} {now : Datetime}

theorem balancer_of_perform {op : Balancer.Op} (h : w.perform (.balancer op) = some w₁) :
    ∃ b, w.balancer.perform op = some b ∧ w₁ = { w with balancer := b } := by
  by_cases hrequest : ∃ msg, op = .adminRequest msg
  · obtain ⟨msg, rfl⟩ := hrequest
    cases h
  · rw [perform, Option.map_eq_some_iff] at h
    · obtain ⟨b, hb, hw⟩ := h
      exact ⟨b, hb, hw.symm⟩
    · exact fun msg heq => hrequest ⟨msg, heq⟩

theorem list_processMessage {msg : Message} (hhead : w.balancer.queue.head? = some msg)
    (h : w.perform (.balancer (.processMessage now)) = some w₁) :
    w₁.list = { w.list.processMessage msg now with closeRequests := [] } := by
  obtain ⟨b, hb, rfl⟩ := balancer_of_perform h
  change w.balancer.processMessage now = some b at hb
  obtain ⟨queue, hqueue⟩ := List.head?_eq_some_iff.mp hhead
  rw [Balancer.processMessage, hqueue] at hb
  exact Option.some.inj hb ▸ rfl

theorem receive_spec {queue : List Message} {msg : Message}
    (hqueue : w.list.parallelList = some (msg :: queue)) (h : w.receive now = some w₁) :
    w₁.list.parallelList = some queue ∧ w₁.list.peerList = w.list.peerList ∧
      w₁.list.parallels = (w.admin.processMessage w.list.parallels msg now).2 ∧
      w₁.admin = (w.admin.processMessage w.list.parallels msg now).1 := by
  rw [receive, hqueue] at h
  obtain rfl := Option.some.inj h
  exact ⟨rfl, rfl, rfl, rfl⟩

theorem peerList_receive {now : Datetime} (h : w.receive now = some w₁) :
    w₁.list.peerList = w.list.peerList ∧ w₁.list.closeRequests = w.list.closeRequests := by
  unfold receive at h
  split at h
  · obtain rfl := Option.some.inj h
    exact ⟨rfl, rfl⟩
  · cases h

namespace Sample

open Balancer.Sample (accept)

open ServerList.Sample (server1)

def start : Bind :=
  ⟨.create ((ServerList.create 0).addServer server1 80 1 0 0).attachAdmin,
    AdminHTTPServer.create.addServer server1 80 1 0 0⟩

theorem started_start : Started start :=
  ⟨⟨_, .attachAdmin (.addServer _ _ _ _ _ (.create 0)), rfl⟩, rfl, rfl⟩

/-- The connection of a client is established, and the admin shows it. -/
def established : List Op :=
  [.balancer accept,
    .balancer (.manager 1 (.manageConnectingPeer 0 (fun _ => false) (fun _ => true) .idle)),
    .balancer (.processMessage 11), .receive 12, .receive 13]

end Sample

end Bind

end Relb
