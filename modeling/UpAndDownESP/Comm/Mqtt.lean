import UpAndDownESP.Comm.CString

namespace UpAndDownESP

/-- The statics of `mqtt_util.c`. What the client library answers to its publish
calls is unknown, so the answers are part of the state; `attempts` lists the calls
of `mqtt_publish_event` with their results. -/
structure Mqtt where
  sMqttClient : Bool
  sTopicEvents : Option (List UInt8)
  sTopicCmd : Option (List UInt8)
  sCmdHandler : Bool
  sConnected : Bool
  msgIds : Nat → Int
  publishCalls : Nat
  subscriptions : List (List UInt8)
  attempts : List (String × Bool)

/-- The events the client library passes to the handler. A data event's topic and
payload are pointers into its receive buffer. -/
inductive MqttEvent where
  | connected
  | disconnected
  | subscribed
  | data (topic : List UInt8) (topicLen : Nat) (data : List UInt8) (dataLen : Nat)
      (currentDataOffset totalDataLen : Nat)
  | error
  | other
  deriving DecidableEq

def isCommandTopic (m : Mqtt) (topic : List UInt8) (topicLen : Nat) : Bool :=
  match m.sTopicCmd with
  | none => false
  | some cmd => m.sCmdHandler && topicLen == cmd.length && strncmp topic cmd topicLen == 0

/-- The new statics and the arguments of the command handler, if it is called; that
call is the last thing done. -/
def mqttEventHandler (event : MqttEvent) (m : Mqtt) : Mqtt × Option (List UInt8 × Nat) :=
  match event with
  | .connected =>
    ({ m with sConnected := true, subscriptions := m.subscriptions ++ m.sTopicCmd.toList }, none)
  | .disconnected => ({ m with sConnected := false }, none)
  | .data topic topicLen data dataLen _ _ =>
    (m, if isCommandTopic m topic topicLen then some (data, dataLen) else none)
  | .subscribed | .error | .other => (m, none)

/-- `client` tells whether the library could make a client; without one no event
handler is registered. -/
def mqttInit (topicEvents topicCmd : List UInt8) (client : Bool) (m : Mqtt) : Mqtt :=
  { m with
    sTopicEvents := some topicEvents, sTopicCmd := some topicCmd, sCmdHandler := true
    sMqttClient := client }

def mqttPublishEvent (payload : String) (m : Mqtt) : Bool × Mqtt :=
  if !m.sConnected || !m.sMqttClient || m.sTopicEvents.isNone then
    (false, { m with attempts := m.attempts ++ [(payload, false)] })
  else
    let ok := decide (0 ≤ m.msgIds m.publishCalls)
    (ok, { m with
      publishCalls := m.publishCalls + 1, attempts := m.attempts ++ [(payload, ok)] })

def mqttIsConnected (m : Mqtt) : Bool := m.sConnected

end UpAndDownESP
