import UpAndDownESP.App.Endpoint

namespace UpAndDownESP

/-- What `xTaskGetTickCount` returns after so many ticks. -/
def xTaskGetTickCount (time : Nat) : UInt32 := UInt32.ofNat time

/-- A wake-up of `protocol_task` at its true time, or what the other tasks do in
between. -/
inductive PacedAct where
  | wake (time : Nat)
  | other (act : Act)

/-- The endpoint with the local variable of `protocol_task`, and the times of the
wake-ups that executed `send_heartbeat`. -/
structure Paced where
  endpoint : Endpoint
  lastHeartbeatTime : UInt32
  heartbeats : List Nat

def pacedStep (p : Paced) : PacedAct → Paced
  | .wake time =>
    let now := xTaskGetTickCount time
    let (lastHeartbeatTime, endpoint) := protocolTaskTurn now p.lastHeartbeatTime p.endpoint
    { endpoint := endpoint
      lastHeartbeatTime := lastHeartbeatTime
      heartbeats :=
        if heartbeatDue p.endpoint.protoConfig.heartbeatIntervalMs now p.lastHeartbeatTime then
          p.heartbeats ++ [time]
        else p.heartbeats }
  | .other act => { p with endpoint := step p.endpoint act }

/-- A wake-up that finds the interval over. -/
theorem pacedStep_due {p : Paced} {time : Nat}
    (h : heartbeatDue p.endpoint.protoConfig.heartbeatIntervalMs (xTaskGetTickCount time)
      p.lastHeartbeatTime = true) :
    pacedStep p (.wake time) =
      { endpoint := sendHeartbeat p.endpoint
        lastHeartbeatTime := xTaskGetTickCount time
        heartbeats := p.heartbeats ++ [time] } := by
  simp only [pacedStep, protocolTaskTurn, if_pos h]

/-- Any other wake-up leaves everything as it is. -/
theorem pacedStep_early {p : Paced} {time : Nat}
    (h : ¬ heartbeatDue p.endpoint.protoConfig.heartbeatIntervalMs (xTaskGetTickCount time)
      p.lastHeartbeatTime = true) :
    pacedStep p (.wake time) = p := by
  simp only [pacedStep, protocolTaskTurn, if_neg h]

/-- `protocol_task` starts at time `start`. -/
def pacedRun (s : Endpoint) (start : Nat) (acts : List PacedAct) : Paced :=
  Runs.run pacedStep
    { endpoint := s, lastHeartbeatTime := xTaskGetTickCount start, heartbeats := [] } acts

def wakeTimes (acts : List PacedAct) : List Nat :=
  acts.filterMap fun
    | .wake time => some time
    | .other _ => none

end UpAndDownESP
