import Mathlib.Algebra.Ring.Nat
import UpAndDownESP.Comm.Wifi

namespace UpAndDownESP.Proofs.WifiAttempts

/-- How often the station was disconnected before the first GOT_IP, between that and the
next, and so on. -/
def outages (events : List WifiEvent) : List Nat :=
  (events.splitOn .gotIp).map (·.count .staDisconnected)

/-- The attempts that are still made over these outages, `n` disconnections into the
first. -/
def retries (n : Nat) : List Nat → Nat
  | [] => 0
  | drops :: later => min (n + drops) maxRetry + (later.map (min · maxRetry)).sum

theorem outages_gotIp (events : List WifiEvent) : outages (.gotIp :: events) = 0 :: outages events := by
  rw [outages, List.splitOn_cons_eq_if_modifyHead]
  rfl

/-- Any other event belongs to the outage it happens in. -/
theorem retries_cons {e : WifiEvent} (he : e ≠ .gotIp) (n : Nat) (events : List WifiEvent) :
    retries n (outages (e :: events)) =
      retries (n + if e = .staDisconnected then 1 else 0) (outages events) := by
  have hsplit : (e :: events).splitOn .gotIp = (events.splitOn .gotIp).modifyHead (e :: ·) := by
    rw [List.splitOn_cons_eq_if_modifyHead, if_neg (by simpa using he)]
  rw [outages, hsplit, outages]
  cases hrest : events.splitOn .gotIp with
  | nil => exact absurd hrest (List.splitOn_ne_nil _ _)
  | cons seg segs =>
    simp only [List.modifyHead_cons, List.map_cons, retries, List.count_cons, beq_iff_eq]
    rw [Nat.add_assoc, Nat.add_comm (if e = .staDisconnected then 1 else 0)]

theorem retries_zero (drops : List Nat) : retries 0 drops = (drops.map (min · maxRetry)).sum := by
  cases drops with
  | nil => rfl
  | cons d ds => simp [retries]

theorem run_attempts (events : List WifiEvent) {w : Wifi} {n : Nat}
    (hn : w.sRetryNum = min n maxRetry) :
    (Runs.run wifiEventHandler w events).connectCalls + min n maxRetry =
      w.connectCalls + events.count .staStart + retries n (outages events) := by
  induction events generalizing w n with
  | nil => simp [outages, retries]
  | cons e events ih =>
    rw [Runs.run_cons]
    cases e with
    | gotIp =>
      have hrest := ih (w := wifiEventHandler w .gotIp) (n := 0) rfl
      have hcalls : (wifiEventHandler w .gotIp).connectCalls = w.connectCalls := rfl
      have hlater := retries_zero (outages events)
      rw [outages_gotIp]
      simp only [retries, Nat.add_zero, List.count_cons, beq_iff_eq, reduceCtorEq, if_false]
      omega
    | staStart =>
      have hrest := ih (w := wifiEventHandler w .staStart) hn
      have hcalls : (wifiEventHandler w .staStart).connectCalls = w.connectCalls + 1 := rfl
      rw [retries_cons (by decide), List.count_cons_self]
      simp only [reduceCtorEq, if_false, Nat.add_zero]
      omega
    | staDisconnected =>
      have hstep : (wifiEventHandler w .staDisconnected).sRetryNum = min (n + 1) maxRetry ∧
          (wifiEventHandler w .staDisconnected).connectCalls + min n maxRetry =
            w.connectCalls + min (n + 1) maxRetry := by
        simp only [wifiEventHandler]
        split
        · simp only [espWifiConnect]
          omega
        · simp only [xEventGroupSetBits]
          omega
      have hrest := ih hstep.1
      rw [retries_cons (by decide)]
      simp only [List.count_cons, beq_iff_eq, reduceCtorEq, if_false, if_true]
      omega
    | other =>
      have hrest := ih (w := wifiEventHandler w .other) hn
      have hcalls : (wifiEventHandler w .other).connectCalls = w.connectCalls := rfl
      rw [retries_cons (by decide)]
      simp only [List.count_cons, beq_iff_eq, reduceCtorEq, if_false, Nat.add_zero]
      omega

/-- Over any events, one attempt to connect for each start of the station and one for each
disconnection, but at most ten in one outage. -/
theorem attempts_exact (events : List WifiEvent) :
    (wifiAfter events).connectCalls =
      events.count .staStart + ((outages events).map (min · maxRetry)).sum := by
  have hrun := run_attempts events (n := 0)
    (w := wifiInit { sWifiEventGroup := 0, sRetryNum := 0, connectCalls := 0 }) rfl
  rw [retries_zero] at hrun
  simpa [wifiAfter, wifiInit] using hrun

end UpAndDownESP.Proofs.WifiAttempts
