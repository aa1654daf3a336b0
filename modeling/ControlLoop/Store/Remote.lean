/-
The store behind the API server.

Each operation sends one request and reads its reply; a request that
cannot be built is not sent. The error of an operation names the object
it was about, for a listing the namespace and the kind.
-/
import ControlLoop.Api.Request
import ControlLoop.Api.Response

namespace ControlLoop

/-- A way to send requests: the reply, or why there is none. -/
abbrev Api.Transport (σ : Type) := Api.Request → σ → Except String Api.Response × σ

namespace Api

variable {σ : Type}

/-- What a reply comes to, or the failure to get one. A reply whose status has not three digits is
none. -/
def readReply (read : String → Except Json.Failure α) :
    Except String Response → Except ClientError α
  | .error text => .error (.service text)
  | .ok reply =>
    if 100 ≤ reply.status ∧ reply.status < 1000 then do
      (read (← acceptedBody reply)).mapError .unreadable
    else .error (.service "invalid status code")

/-- Send a request and read the body of the reply. -/
def exchange (send : Transport σ) (request : Except RequestFault Request)
    (read : String → Except Json.Failure α) (s : σ) : Except ClientError α × σ :=
  match request with
  | .error fault => (.error (.badRequest fault), s)
  | .ok request =>
    let (reply, s) := send request s
    (readReply read reply, s)

/-- The reason of a refusal that means there is no such object. -/
def notFoundReason : String := "NotFound"

/-- No object, where the server says that there is none. -/
def orNone : Except ClientError α → Except ClientError (Option α)
  | .ok a => .ok (some a)
  | .error (.rejected r) => if r.reason = notFoundReason then .ok none else .error (.rejected r)
  | .error e => .error e

end Api

namespace Store

open Api (Transport exchange orNone)

variable {σ β : Type} [Resource β]

/-- The error of an operation about an object. -/
def about (object : String) (answer : Except ClientError α × σ) : Except Error α × σ :=
  (answer.1.mapError (Error.ofClient · object), answer.2)

/-- The store behind a transport. Writes are recorded under the name of the field manager. -/
def remote (send : Transport σ) (manager : String) : Store σ β :=
  let plural := Resource.plural β
  let object := Object.reader (β := β)
  let read := Json.readWhole object
  { list := fun space selector s =>
      about s!"{space}/{Resource.kind β}"
        (exchange send (Api.listRequest plural space selector)
          (Json.readWhole (Api.listOf object)) s)
    get := fun k s =>
      let answer := exchange send (Api.getRequest plural k) read s
      about k.text (orNone answer.1, answer.2)
    create := fun o s =>
      about o.key.text (exchange send (Api.createRequest plural manager o.key o.toJson) read s)
    replace := fun o s =>
      about o.key.text (exchange send (Api.replaceRequest plural manager o.key o.toJson) read s)
    delete := fun k p s =>
      about k.text (exchange send (Api.deleteRequest plural k p) (Api.readDeleted object) s) }

end Store

end ControlLoop
