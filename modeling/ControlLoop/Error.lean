/-
What can go wrong, by cause.

Callers treat four classes apart: an object that is not there, a write
that lost a race, a store that cannot be reached for now, and
everything that will not mend itself. A failure of the API client is
either kept as it came or brought into these classes.
-/
import ControlLoop.Json.Failure
import ControlLoop.Duration

namespace ControlLoop

/-- A refusal by the API server. -/
structure Rejection where
  status : String
  message : String
  reason : String
  code : Nat
  deriving DecidableEq, Repr

/-- Why a request could not be built. -/
inductive RequestFault where
  | emptyName
  | fieldManagerTooLong
  | uriTooLong
  | invalidUri
  deriving DecidableEq, Repr

/-- Why a call through the API client failed. -/
inductive ClientError where
  | rejected (by_ : Rejection)
  /-- The connection failed. -/
  | service (text : String)
  /-- The HTTP client failed. -/
  | hyper (text : String)
  | readEvents (text : String)
  | linesCodec
  | tlsRequired
  | missingKind (text : String)
  /-- The answer could not be read. -/
  | unreadable (cause : Json.Failure)
  | badRequest (fault : RequestFault)
  /-- A failure of any other kind, told by its message. -/
  | other (message : String)

/-- Why an operation failed. -/
inductive Error where
  /-- A failure of the API client, as it came. -/
  | client (cause : ClientError)
  | notFound (object : String)
  | conflict (object : String)
  | unavailable (what : String)
  | timeout (after : Duration)
  /-- Drain annotations in a combination that the protocol never produces. -/
  | invalidDrainState (object reason : String)
  | annotationInvalid (key value : String)
  | config (message : String)
  | serialization (cause : Json.Failure)

-- ==================================================== messages

/-- The fields of a refusal. -/
def Rejection.details (r : Rejection) : String :=
  "ErrorResponse \x7b status: " ++ Text.quoted r.status ++ ", message: " ++ Text.quoted r.message
    ++ ", reason: " ++ Text.quoted r.reason ++ s!", code: {r.code} \x7d"

def RequestFault.message : RequestFault → String
  | .emptyName => "failed to validate request: A non-empty name is required"
  | .fieldManagerTooLong =>
    "failed to validate request: Failed to validate PostParams::field_manager!"
  | .uriTooLong => "failed to build request: uri too long"
  | .invalidUri => "failed to build request: invalid uri character"

def ClientError.message : ClientError → String
  | .rejected r => s!"ApiError: {r.message}: {r.reason} ({r.details})"
  | .service text => s!"ServiceError: {text}"
  | .hyper text => s!"HyperError: {text}"
  | .readEvents text => s!"Error reading events stream: {text}"
  | .linesCodec => "Error finding newline character"
  | .tlsRequired => "TLS required but no TLS stack selected"
  | .missingKind text => s!"Error from discovery: Missing Kind: {text}"
  | .unreadable cause => s!"Error deserializing response: {cause.message}"
  | .badRequest fault => s!"Failed to build request: {fault.message}"
  | .other message => message

namespace Error

def message : Error → String
  | .client cause => s!"Kubernetes API error: {cause.message}"
  | .notFound object => s!"Object not found: {object}"
  | .conflict object => s!"Write conflict on {object}"
  | .unavailable what => s!"Store unavailable: {what}"
  | .timeout after => s!"Reconcile timed out after {after.text}"
  | .invalidDrainState object reason => s!"Invalid drain state on {object}: {reason}"
  | .annotationInvalid key value =>
    "Invalid value " ++ Text.quoted value ++ " for annotation " ++ key
  | .config message => s!"Configuration error: {message}"
  | .serialization cause => s!"Serialization error: {cause.message}"

/-- The name of an error's cause. -/
def kind : Error → String
  | .client _ => "KubeError"
  | .notFound _ => "NotFound"
  | .conflict _ => "Conflict"
  | .unavailable _ => "StoreUnavailable"
  | .timeout _ => "Timeout"
  | .invalidDrainState _ _ => "InvalidDrainState"
  | .annotationInvalid _ _ => "InvalidAnnotation"
  | .config _ => "ConfigError"
  | .serialization _ => "SerializationError"

/-- The short word under which an error is counted. -/
def label : Error → String
  | .client _ => "kube"
  | .notFound _ => "not_found"
  | .conflict _ => "conflict"
  | .unavailable _ => "unavailable"
  | .timeout _ => "timeout"
  | .invalidDrainState _ _ => "protocol"
  | .annotationInvalid _ _ => "protocol"
  | .config _ => "config"
  | .serialization _ => "serialization"

-- ====================================================== classes

/-- A failed client call in the classes of the library. `object` names what the call was about. -/
def ofClient (cause : ClientError) (object : String) : Error :=
  match cause with
  | .rejected r =>
    if r.code = 404 then .notFound object
    else if r.code = 409 then .conflict object
    else if r.code = 429 ∨ 500 ≤ r.code then .unavailable s!"{object}: {r.message}"
    else .client cause
  | .service _ | .hyper _ => .unavailable s!"{object}: {cause.message}"
  | _ => .client cause

/-- The object was not there. -/
def isNotFound : Error → Bool
  | .notFound _ => true
  | .client (.rejected r) => r.code = 404
  | _ => false

/-- Another writer got there first. -/
def isConflict : Error → Bool
  | .conflict _ => true
  | .client (.rejected r) => r.code = 409
  | _ => false

/-- A later attempt may succeed without anyone changing the object. -/
def isRetriable : Error → Bool
  | .notFound _ | .conflict _ | .unavailable _ | .timeout _ => true
  | .client (.rejected r) => r.code = 409 || r.code = 429 || 500 ≤ r.code
  | .client _ => true
  | .invalidDrainState _ _ | .annotationInvalid _ _ | .config _ | .serialization _ => false

end Error

end ControlLoop
