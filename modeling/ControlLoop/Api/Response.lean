/-
Replies of the API server.

A status from 400 on is a refusal. If the body says so itself, only the
code and the reason in the body count; otherwise the refusal is made up
from the status and the body's text. Any other reply is read as what
was asked for.
-/
import ControlLoop.Error
import ControlLoop.Json.Reader
import ControlLoop.Object

namespace ControlLoop.Api

open Json (Reader FieldReader Failure Mismatch)
open Json.Reader (text nothing integer int64 nullable list checked record strictRecord
  strictObject)

/-- A reply as it is received. -/
structure Response where
  status : Nat
  body : String

/-- What a status of 400 or more is called. -/
def reasonPhrase : Nat → String
  | 400 => "Bad Request"
  | 401 => "Unauthorized"
  | 402 => "Payment Required"
  | 403 => "Forbidden"
  | 404 => "Not Found"
  | 405 => "Method Not Allowed"
  | 406 => "Not Acceptable"
  | 407 => "Proxy Authentication Required"
  | 408 => "Request Timeout"
  | 409 => "Conflict"
  | 410 => "Gone"
  | 411 => "Length Required"
  | 412 => "Precondition Failed"
  | 413 => "Payload Too Large"
  | 414 => "URI Too Long"
  | 415 => "Unsupported Media Type"
  | 416 => "Range Not Satisfiable"
  | 417 => "Expectation Failed"
  | 418 => "I'm a teapot"
  | 421 => "Misdirected Request"
  | 422 => "Unprocessable Entity"
  | 423 => "Locked"
  | 424 => "Failed Dependency"
  | 425 => "Too Early"
  | 426 => "Upgrade Required"
  | 428 => "Precondition Required"
  | 429 => "Too Many Requests"
  | 431 => "Request Header Fields Too Large"
  | 451 => "Unavailable For Legal Reasons"
  | 500 => "Internal Server Error"
  | 501 => "Not Implemented"
  | 502 => "Bad Gateway"
  | 503 => "Service Unavailable"
  | 504 => "Gateway Timeout"
  | 505 => "HTTP Version Not Supported"
  | 506 => "Variant Also Negotiates"
  | 507 => "Insufficient Storage"
  | 508 => "Loop Detected"
  | 510 => "Not Extended"
  | 511 => "Network Authentication Required"
  | _ => "<unknown status code>"

-- ====================================================== refusals

/-- Sixteen bits, as codes have. -/
def codeBound : Nat := 0x10000

def code : Reader Int := integer 0 codeBound "u16"

/-- Read a refusal. -/
def rejection : Reader Rejection :=
  strictRecord "struct ErrorResponse" [
    .ofSet "status" text fun s r => { r with status := s },
    .ofSet "message" text fun s r => { r with message := s },
    .ofSet "reason" text fun s r => { r with reason := s },
    .ofSet "code" code fun n r => { r with code := n.toNat }]
    ["status", "code"] ⟨"", "", "", 0⟩

/-- The refusal that a body tells of. -/
def rejectionOfBody? (body : String) : Option Rejection :=
  (Json.readWhole rejection body).toOption

/-- The refusal made up for a body that tells of none. -/
def madeUpRejection (r : Response) : Rejection :=
  { status := s!"{r.status} {reasonPhrase r.status}"
    message := Text.quoted r.body
    reason := "Failed to parse error data"
    code := r.status }

/-- The body of a reply, unless it is a refusal. -/
def acceptedBody (r : Response) : Except ClientError String :=
  if 400 ≤ r.status ∧ r.status < 600 then
    .error (.rejected ((rejectionOfBody? r.body).getD (madeUpRejection r)))
  else .ok r.body

-- ======================================================== bodies

/-- What a list says about itself. -/
def listMeta : Reader Unit :=
  record "ListMeta" [
    .ofCheck "continue" (nullable text), .ofCheck "remainingItemCount" (nullable int64),
    .ofCheck "resourceVersion" (nullable text), .ofCheck "selfLink" (nullable text)] ()

/-- Read a list of objects. Its items may be null, but not missing. What is neither its items nor
its metadata is kept aside, so it must be a value. -/
def listOf (read : Reader α) : Reader (List α) :=
  strictObject "struct ObjectList" [
    .ofCheck "metadata" listMeta,
    .ofSet "items" (nullable (list read)) fun items _ => items.getD []]
    (checked (Json.Reader.value (Json.maxDepth - 1))) ["items"] []

-- ============================================= replies to deletes

/-- How a call went. -/
def summaryWord : Reader Unit :=
  Json.Reader.textOf "variant identifier" fun s =>
    if s = "Success" ∨ s = "Failure" then .ok ()
    else .error (.wrongValue (Json.string s).described "`Success` or `Failure`")

/-- How a call went, as a word or as a record of that word alone. -/
def summary : Reader Unit := fun cs =>
  match Json.skipSpace cs with
  | '\x7b' :: cs => do
    let (_, cs) ← summaryWord cs
    let (_, cs) ← nothing (← Json.readColon cs)
    match Json.skipSpace cs with
    | '\x7d' :: cs => .ok ((), cs)
    | cs => Json.stopBefore .noValue cs
  | cs => summaryWord cs

def cause : Reader Unit :=
  strictRecord "struct StatusCause"
    [.ofCheck "reason" text, .ofCheck "message" text, .ofCheck "field" text] [] ()

def details : Reader Unit :=
  strictRecord "struct StatusDetails" [
    .ofCheck "name" text, .ofCheck "group" text, .ofCheck "kind" text, .ofCheck "uid" text,
    .ofCheck "causes" (list cause),
    .ofCheck "retryAfterSeconds" (integer 0 0x100000000 "u32")] [] ()

/-- The status of a call. -/
def status : Reader Unit :=
  strictRecord "struct Status" [
    .ofCheck "status" (nullable summary), .ofCheck "code" code, .ofCheck "message" text,
    .ofCheck "reason" text, .ofCheck "details" (nullable details)] [] ()

/-- Whether a value says that it is the status of a call. -/
def saysStatus : Json → Bool
  | .object fields =>
    match Json.field "kind" fields with
    | .string kind => kind = "Status"
    | _ => false
  | _ => false

/-- Read the reply to a delete, which must be a value as a whole: the status of the call, or the
object. -/
def readDeleted (read : Reader α) (body : String) : Except Failure Unit := do
  if saysStatus (← Json.parse body) then Json.readWhole status body
  else Json.readWhole (checked read) body

end ControlLoop.Api
