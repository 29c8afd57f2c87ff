import UpAndDownESP.Spec.Decoder
import UpAndDownESP.Spec.Session

namespace UpAndDownESP.Spec

/-! The endpoint as a party to a conversation in messages: bytes, frames and the
receive parser are gone. -/

inductive Heard where
  | message (m : Message)
  | act (a : Act)

/-- A message as the listeners get to see it. -/
def messageOf (m : Message) : TfMsg :=
  { tfClearMsg with
    frameId := m.1, type := m.2.1, data := some m.2.2, len := UInt16.ofNat m.2.2.length }

/-- The session with its parser put back to rest. -/
def talk (s : Session) : Session := { s with parser := (tfInitStatic Listener TimeoutListener .slave).parser }

def converse (s : Session) : Heard → Session
  | .message m => s.deliver (messageOf m)
  | .act a => talk (s.step a)

/-- What a history of bytes and ticks says. -/
def messages (is : List (Option UInt8)) : List Message := (segments 0 is).flatMap decode

/-- A run as the conversation sees it, after a history: a read is the messages it
completes. -/
def script (past : List (Option UInt8)) : List Act → List Heard
  | [] => []
  | .uartRead rx :: acts =>
    ((messages (past ++ rx.map some)).drop (messages past).length).map Heard.message ++
      script (past ++ rx.map some) acts
  | .tick :: acts => .act .tick :: script (past ++ [none]) acts
  | act :: acts => .act act :: script past acts

end UpAndDownESP.Spec
