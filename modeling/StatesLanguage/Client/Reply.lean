import StatesLanguage.Value.Compare
import StatesLanguage.Value.Display

/-!
# Replies of services

What is kept of a service's reply, and the errors that a service replies with.
-/

namespace StatesLanguage.Client

mutual

/-- The reply without the data about the reply itself, and with points in time as texts. -/
def plain : Value → Value
  | .obj members => .obj (plainMembers members)
  | .arr items => .arr (plainItems items)
  | .datum (.moment iso) => .str iso
  | v => v

def plainItems : List Value → List Value
  | [] => []
  | item :: rest => plain item :: plainItems rest

def plainMembers : List (String × Value) → List (String × Value)
  | [] => []
  | (key, value) :: rest =>
    if key = "ResponseMetadata" then plainMembers rest else (key, plain value) :: plainMembers rest

end

variable [Room]

/-- A reply without what the transport adds to it. -/
def plainReply (reply : Value) : Outcome Value :=
  Nesting.copied plain reply

/-- A payload that comes as a stream is read once. -/
def readPayload : Value → Value
  | .datum (.stream content) => .datum (.bytes content)
  | v => v

/-- The reply to a call of a function, its payload read. -/
def plainInvocation (reply : Value) : Outcome Value := do
  match ← plainReply reply with
  | .obj members => .ok (.obj (members.map fun (key, value) =>
      (key, if key = "Payload" then readPayload value else value)))
  | v => .error (.noField ("'" ++ v.kindName ++ "' object has no attribute 'get'"))

/-- How often a request was repeated, if that was as often as allowed. -/
def retryNote (response : Value) : Outcome String :=
  match response.get? "ResponseMetadata" with
  | some metadata =>
    match metadata.get? "MaxAttemptsReached", metadata.get? "RetryAttempts" with
    | some reached, some attempts =>
      if reached.truthy then do return " (reached max retries: " ++ (← attempts.display) ++ ")"
      else .ok ""
    | _, _ => .ok ""
  | none => .ok ""

/-- The error that a service answers with. -/
def serviceError (response : Value) (operation : String) : Failure :=
  let error := (response.get? "Error").getD (.obj [])
  let code := (error.get? "Code").getD (.str "Unknown")
  let message := (error.get? "Message").getD (.str "Unknown")
  let text : Outcome String := do
    let note ← retryNote response
    return "An error occurred (" ++ (← code.display) ++ ") when calling the " ++ operation ++
      " operation" ++ note ++ ": " ++ (← message.display)
  .telling text (.service ((error.get? "Code").getD (.str "ClientError")))

end StatesLanguage.Client
