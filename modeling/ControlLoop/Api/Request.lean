/-
Requests to the API server: their paths and queries, and what stops a
request from being built.
-/
import ControlLoop.Object.ConfigMap
import ControlLoop.Error
import ControlLoop.Store
import ControlLoop.Text.FormEncoded

namespace ControlLoop.Api

/-- A request as it is sent. -/
structure Request where
  method : String
  uri : String
  body : Option Json

-- ========================================================= paths

/-- The path of the objects of a kind in a namespace. -/
def collectionPath (plural space : String) : String :=
  s!"/api/v1/namespaces/{space}/{plural}"

/-- The path of one object. -/
def objectPath (plural : String) (k : Key) : String :=
  s!"{collectionPath plural k.space}/{k.name}"

/-- A query with one parameter. -/
def query (name value : String) : String := s!"?&{name}={Text.formEncoded value}"

/-- A byte that may stand in a path. -/
def isPathByte (b : UInt8) : Bool :=
  let n := b.toNat
  n = 0x21 || n = 0x22 || (0x24 ≤ n && n ≤ 0x3b) || n = 0x3d || (0x40 ≤ n && n ≤ 0x5f)
    || (0x61 ≤ n && n ≤ 0x7e) || 0x80 ≤ n

/-- A byte that may stand in a query. -/
def isQueryByte (b : UInt8) : Bool :=
  let n := b.toNat
  n = 0x21 || (0x24 ≤ n && n ≤ 0x3b) || n = 0x3d || (0x3f ≤ n && n ≤ 0x7e) || 0x80 ≤ n

/-- The part of an address that is sent: without what stands behind a number sign. -/
def sentPart (uri : String) : String := String.ofList (uri.toList.takeWhile (· ≠ '#'))

/-- The most bytes in an address, with what stands behind a number sign. -/
def maxUriBytes : Nat := 65534

/-- An address to send a request to, if neither its length nor a character forbids it. -/
def checkedUri (uri : String) : Except RequestFault String :=
  let sent := sentPart uri
  let cs := sent.toList
  let path := String.ofList (cs.takeWhile (· ≠ '?'))
  let rest := String.ofList (cs.dropWhile (· ≠ '?')).tail
  if maxUriBytes < uri.utf8ByteSize then .error .uriTooLong
  else if (Text.utf8 path).all isPathByte && (Text.utf8 rest).all isQueryByte then .ok sent
  else .error .invalidUri

def checkName (name : String) : Except RequestFault Unit :=
  if name.isEmpty then .error .emptyName else .ok ()

/-- The most bytes in the name of a field manager. -/
def maxManagerBytes : Nat := 128

def checkManager (manager : String) : Except RequestFault Unit :=
  if maxManagerBytes < manager.utf8ByteSize then .error .fieldManagerTooLong else .ok ()

-- ====================================================== requests

def listRequest (plural space : String) (selector : TextMap) : Except RequestFault Request := do
  .ok ⟨"GET",
    ← checkedUri (collectionPath plural space ++ query "labelSelector" (selectorText selector)),
    none⟩

def getRequest (plural : String) (k : Key) : Except RequestFault Request := do
  checkName k.name
  .ok ⟨"GET", ← checkedUri (objectPath plural k), none⟩

def createRequest (plural manager : String) (k : Key) (body : Json) :
    Except RequestFault Request := do
  checkManager manager
  .ok ⟨"POST", ← checkedUri (collectionPath plural k.space ++ query "fieldManager" manager),
    some body⟩

def replaceRequest (plural manager : String) (k : Key) (body : Json) :
    Except RequestFault Request := do
  checkName k.name
  .ok ⟨"PUT", ← checkedUri (objectPath plural k ++ query "fieldManager" manager), some body⟩

def deleteRequest (plural : String) (k : Key) (p : Propagation) :
    Except RequestFault Request := do
  checkName k.name
  .ok ⟨"DELETE", ← checkedUri (objectPath plural k ++ "?"),
    some (Json.ofFields [("propagationPolicy", .string p.text)])⟩

end ControlLoop.Api
