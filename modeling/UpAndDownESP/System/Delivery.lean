import UpAndDownESP.App.Endpoint

namespace UpAndDownESP

/-! How the client library hands PUBLISH messages to its event handler: a message is
one data event or several, one for each piece of its payload. -/

/-- A piece of a payload in the receive buffer, and what stands behind it there. -/
structure Fragment where
  bytes : List UInt8
  behind : List UInt8

structure Publish where
  topic : List UInt8
  behindTopic : List UInt8
  first : Fragment
  others : List Fragment

def Publish.payload (p : Publish) : List UInt8 :=
  p.first.bytes ++ (p.others.map Fragment.bytes).flatten

/-- The events after the first: no topic, the payload going on at `offset`. -/
def laterEvents (total : Nat) : Nat → List Fragment → List MqttEvent
  | _, [] => []
  | offset, f :: fs =>
    .data [] 0 (f.bytes ++ f.behind) f.bytes.length offset total ::
      laterEvents total (offset + f.bytes.length) fs

def Publish.events (p : Publish) : List MqttEvent :=
  .data (p.topic ++ p.behindTopic) p.topic.length (p.first.bytes ++ p.first.behind)
      p.first.bytes.length 0 p.payload.length ::
    laterEvents p.payload.length p.first.bytes.length p.others

/-- The handler, event by event. -/
def handleEvents (s : Endpoint) (events : List MqttEvent) : Endpoint :=
  events.foldl (fun s e => onMqttEvent e s) s

def deliver (s : Endpoint) (messages : List Publish) : Endpoint :=
  handleEvents s (messages.flatMap Publish.events)

/-- The calls of the command handler: its argument and length. -/
def handlerCalls (m : Mqtt) (events : List MqttEvent) : List (List UInt8 × Nat) :=
  events.filterMap fun e => (mqttEventHandler e m).2

/-- What the messages are meant to do: the command handler is called once with each
complete payload that comes on the command topic. -/
def executeWhole (s : Endpoint) (p : Publish) : Endpoint :=
  if p.topic = mqttTopicCmd then
    maxCommOnMqttCommand (p.payload ++ p.first.behind) p.payload.length s
  else s

def executeAll (s : Endpoint) (messages : List Publish) : Endpoint :=
  messages.foldl executeWhole s

end UpAndDownESP
